import CollisionRules.Ability

namespace CollisionRules.Ability

/-- Each alternate name with the canonical name it stands for. Some abilities share
    a display name with another, so that a table knows them by a canonical name that
    differs from the name written. -/
def aliases : List (String × String) :=
  [("FireBlast", "FireBlast"),
    ("FireBlastCharged", "FireBlastCharged"),
    ("ChargedFireBlast", "FireBlastCharged"),
    ("CFB", "FireBlastCharged"),
    ("IceSpikeBlast", "IceSpikeBlast"),
    ("IceSpike", "IceSpikePillar"),
    ("WaterSpout", "WaterSpout"),
    ("WaterWave", "WaterSpoutWave"),
    ("WaterSpoutWave", "WaterSpoutWave"),
    ("Torrent", "Torrent"),
    ("TorrentWave", "TorrentWave"),
    ("TorrentRing", "TorrentWave"),
    ("Surge", "SurgeWave"),
    ("SurgeWave", "SurgeWave"),
    ("SurgeWall", "SurgeWall"),
    ("SurgeShield", "SurgeWall")]

/-- The canonical name of what `name` stands for. A name outside the table stands
    for itself. A name is made canonical once: the result is never looked up among
    the alternate names again. -/
def canonicalName (name : String) : String :=
  (aliases.lookup name).getD name

/-- What a lookup by canonical name gives for a name as written. -/
def resolve {H : Type} (lookup : String → Option H) (name : String) : Option H :=
  lookup (canonicalName name)

end CollisionRules.Ability
