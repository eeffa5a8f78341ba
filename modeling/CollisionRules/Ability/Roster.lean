import CollisionRules.Ability
import CollisionRules.Text.Blank
import CollisionRules.Text.Lines

namespace CollisionRules.Roster

def coreNames : List String :=
  ["AirBlast", "AirBurst", "AirScooter", "AirShield", "AirSpout", "AirSuction", "AirSwipe",
    "Flight", "Suffocate", "Tornado",
    "Catapult", "Collapse", "EarthArmor", "EarthBlast", "EarthGrab", "EarthSmash", "EarthTunnel",
    "Extraction", "LavaFlow", "MetalClips", "RaiseEarth", "Shockwave", "Tremorsense",
    "Blaze", "Combustion", "FireBlast", "FireBlastCharged", "FireBurst", "FireJet",
    "FireManipulation", "FireShield", "HeatControl", "Illumination", "Lightning", "WallOfFire",
    "Bloodbending", "HealingWaters", "IceBlast", "IceSpikeBlast", "IceSpikePillar", "OctopusForm",
    "PhaseChange", "SurgeWall", "SurgeWave", "Torrent", "TorrentWave", "WaterArms",
    "WaterManipulation", "WaterSpout", "WaterSpoutWave"]

def coreTable : AbilityTable :=
  .ofList coreNames

/-- The name on a line: what stands before the comment, without the white space
    around it. -/
def nameOfLine (line : List Char) : List Char :=
  Text.trim (line.takeWhile (· != '#'))

/-- The names in the text of a roster, in order. There is one to a line; what
    follows a `#` is a comment, and blank lines do not count. -/
def names (text : List Char) : List String :=
  (((Text.lines text).map nameOfLine).filter fun name => !name.isEmpty).map String.ofList

def table (text : List Char) : AbilityTable :=
  .ofList (names text)

end CollisionRules.Roster
