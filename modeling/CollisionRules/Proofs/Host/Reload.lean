import CollisionRules.Proofs.Host.Lifecycle

namespace CollisionRules

namespace Host

/-- The host with the builders called that force the given options. -/
def force (host : Host) (overrides : Overrides) : Host :=
  let forced := (host.withVerbose overrides.verbose).withClearExisting overrides.clearExisting
  match overrides.source? with
  | none => forced
  | some source => forced.withSource source

theorem force_of_overrides_eq_none {host : Host} (hnone : host.overrides = .none)
    (overrides : Overrides) : host.force overrides = { host with overrides } := by
  obtain ⟨verbose, clearExisting, source?⟩ := overrides
  cases source? with
  | none =>
    rw [force, withVerbose, withClearExisting, hnone]
    rfl
  | some source => rfl

theorem loadOpened_recounted {host : Host} (hnone : host.loads = 0) (loads : Nat)
    (opened : Except Failure (List ReadEvent)) :
    let load := host.loadOpened opened
    let recounted := { host with loads }.loadOpened opened
    recounted.result = load.result ∧
      recounted.host = { load.host with loads := loads + load.host.loads } := by
  cases opened with
  | ok events =>
    refine ⟨rfl, ?_⟩
    simp only [loadOpened, Loaded.ofOpened, withRules, countLoad, hnone]
    rfl
  | error failure =>
    refine ⟨rfl, ?_⟩
    simp only [loadOpened, Loaded.ofOpened, withRules, hnone]
    rfl

variable {Files : Type} [FileAccess (StateM Files)]

/-- The loads before a load make no difference to it but that they are counted. -/
theorem load_recounted {host : Host} (hnone : host.loads = 0) (loads : Nat) (files : Files) :
    let load := host.load (m := StateM Files) files
    let recounted := { host with loads }.load (m := StateM Files) files
    recounted.1.result = load.1.result ∧ recounted.2 = load.2 ∧
      recounted.1.host = { load.1.host with loads := loads + load.1.host.loads } := by
  obtain ⟨hresult, hhost⟩ := loadOpened_recounted hnone loads
    (FileAccess.openFile (m := StateM Files) host.config.source files).1
  exact ⟨hresult, rfl, hhost⟩

/-- A load leaves the options as they are. -/
theorem load_config (host : Host) (files : Files) :
    (host.load (m := StateM Files) files).1.host.config = host.config := by
  obtain ⟨rules, loads, hhost⟩ := loadOpened_host host
    (FileAccess.openFile (m := StateM Files) host.config.source files).1
  rw [load_run, hhost]
  rfl

/-- A reload whose settings can be read is a load with the options in them. -/
theorem reload_of_load_eq_ok [Yaml.Library] {host : Host} {files : Files} {path : Path}
    {settings : Settings}
    (hpath : host.settingsPath? = some path)
    (hload : (Settings.load (m := StateM Files) path files).1 = .ok settings) :
    let baseConfig := settings.toLoadConfig path.directory
    let later := (Settings.load (m := StateM Files) path files).2
    let load := { host with baseConfig }.load (m := StateM Files) later
    host.reload (m := StateM Files) files = (announceReload load.1, load.2) := by
  have hread : host.readSettings? files = some (.ok (settings.toLoadConfig path.directory)) := by
    rw [readSettings?_of_settingsPath? hpath, hload]
    rfl
  have hlater : (host.reread (m := StateM Files) files).2 =
      (Settings.load (m := StateM Files) path files).2 := by
    rw [reread_eq, hpath]
    rfl
  obtain ⟨error, herror, -⟩ | ⟨baseConfig, hconfig, hreload⟩ := reload_cases host files
  · rw [hread] at herror
    cases herror
  · rw [hread] at hconfig
    obtain rfl : settings.toLoadConfig path.directory = baseConfig := by simpa using hconfig
    rw [hlater] at hreload
    exact hreload

/-- What a fresh host becomes when it is given the rules and the options of another one. -/
theorem madeOf_given {host : Host} {path : Path} (hpath : host.settingsPath? = some path)
    (settings : Settings) :
    ((madeOf host.abilities path settings).withRules host.rules).force host.overrides =
      { host with baseConfig := settings.toLoadConfig path.directory, loads := 0 } := by
  rw [force_of_overrides_eq_none rfl, hpath]
  rfl

theorem reload_eq_load_given [Yaml.Library] {host : Host} {files : Files} {path : Path}
    {settings : Settings}
    (hpath : host.settingsPath? = some path)
    (hload : (Settings.load (m := StateM Files) path files).1 = .ok settings) :
    let given :=
      ((madeOf host.abilities path settings).withRules host.rules).force host.overrides
    let load := given.load (m := StateM Files) (Settings.load (m := StateM Files) path files).2
    let reload := host.reload (m := StateM Files) files
    reload.1.result = load.1.result ∧ reload.2 = load.2 ∧
      load.1.host.config = host.overrides.apply (settings.toLoadConfig path.directory) ∧
      reload.1.host = { load.1.host with loads := host.loads + load.1.host.loads } := by
  intro given load reload
  have hgiven : given = _ := madeOf_given hpath settings
  have hreload : reload = _ := reload_of_load_eq_ok hpath hload
  have hnone : given.loads = 0 := by rw [hgiven]
  -- The host that reloads goes on as the fresh one, but that it has counted loads.
  have hrecounted : { host with baseConfig := settings.toLoadConfig path.directory } =
      { given with loads := host.loads } := by
    rw [hgiven]
  obtain ⟨hresult, hfiles, hhost⟩ := load_recounted hnone host.loads
    (Settings.load (m := StateM Files) path files).2
  rw [← hrecounted] at hresult hfiles hhost
  refine ⟨?_, ?_, ?_, ?_⟩
  · rw [hreload, announceReload_result]
    exact hresult
  · rw [hreload]
    exact hfiles
  · rw [load_config, hgiven]
    rfl
  · rw [hreload, announceReload_host]
    exact hhost

/-- A reload is a load of a fresh host. Take a host that was made of settings, whatever it has
    been asked for and given since then and whatever has become of the files. If its settings can
    be read now, then a host can be made of them now; and if that host is given the rules of the
    old one and the same options are forced on it, its load gives what the reload of the old one
    gives, the report or the error. Both leave the same rules, options and files, and indeed the
    same host, but that the old one has counted its loads before. -/
theorem reload_eq_load_fresh [Yaml.Library] {abilities : AbilityTable} {path : Path} {made : Files}
    {host : Host}
    (hmade : (fromSettings (m := StateM Files) abilities path made).1 = .ok host)
    (history : List (Action Files)) (start : Files) {settings : Settings}
    (hsettings : (Settings.load (m := StateM Files) path
      (through history (host, start)).2).1 = .ok settings) :
    let reached := (through history (host, start)).1
    let now := (through history (host, start)).2
    let reload := reached.reload (m := StateM Files) now
    ∃ fresh later, fromSettings (m := StateM Files) abilities path now = (.ok fresh, later) ∧
      let given := (fresh.withRules reached.rules).force (forcedBy history)
      let load := given.load (m := StateM Files) later
      reload.1.result = load.1.result ∧
        reload.1.host.rules = load.1.host.rules ∧
        reload.1.host.config = load.1.host.config ∧
        reload.1.host.config = (forcedBy history).apply (settings.toLoadConfig path.directory) ∧
        reload.2 = load.2 ∧
        reload.1.host = { load.1.host with loads := reached.loads + load.1.host.loads } := by
  intro reached now reload
  obtain ⟨initial, -, rfl⟩ := settings_of_fromSettings_eq_ok hmade
  obtain ⟨habilities, hpath⟩ := abilities_through history (madeOf abilities path initial, start)
  have hforced : reached.overrides = forcedBy history := overrides_through_of_eq_none rfl history
  have hfresh : fromSettings (m := StateM Files) abilities path now =
      (.ok (madeOf abilities path settings), (Settings.load (m := StateM Files) path now).2) := by
    rw [fromSettings_run, hsettings]
    rfl
  obtain ⟨hresult, hfiles, hconfig, hhost⟩ := reload_eq_load_given hpath hsettings
  rw [habilities] at hresult hfiles hconfig hhost
  refine ⟨_, _, hfresh, ?_⟩
  rw [← hforced]
  refine ⟨hresult, ?_, ?_, ?_, hfiles, hhost⟩
  · rw [hhost]
    rfl
  · rw [hhost]
    rfl
  · rw [hhost]
    exact hconfig

/-- The settings come to name another rule file, which is there. -/
theorem reload_eq_load_fresh_moved_rules :
    let abilities : AbilityTable := .ofList ["A", "B"]
    let path : Path := ⟨"config.yml"⟩
    let files (text : String) : FileTree :=
      ((FileTree.empty []).put ["config.yml"] (.file (Text.Utf8.encode text.toList))).put ["rules"]
        (.file (Text.Utf8.encode ['A', '>', 'B']))
    let host := madeOf abilities path .default
    let history : List (Action FileTree) :=
      [.asked .load, .withVerbose true, .asked (.loadText ['A', '~', 'B']),
        .edited fun _ => files "Properties:\n  CollisionFile: rules\n"]
    (fromSettings (m := StateM FileTree) abilities path (files "")).1 = .ok host ∧
      ∃ reached now reload, through history (host, files "") = (reached, now) ∧
        (reached.reload (m := StateM FileTree) now).1 = reload ∧ reload.result.isOk ∧
        reload.host.config = ⟨true, false, ⟨"./rules"⟩⟩ ∧
        ∃ fresh later,
          fromSettings (m := StateM FileTree) abilities path now = (.ok fresh, later) ∧
            let given := (fresh.withRules reached.rules).force ⟨true, false, none⟩
            let load := (given.load (m := StateM FileTree) later).1
            reload.result = load.result ∧ reload.host.rules = load.host.rules := by
  intro abilities path files host history
  have hdefault : (Settings.load (m := StateM FileTree) path (files "")).1 = .ok .default := by
    decide +kernel
  have hmade : (fromSettings (m := StateM FileTree) abilities path (files "")).1 = .ok host := by
    rw [fromSettings_run, hdefault]
    rfl
  have hsettings : (Settings.load (m := StateM FileTree) path
      (through history (host, files "")).2).1 = .ok ⟨false, false, "rules"⟩ := by
    decide +kernel
  have hsource : Settings.toLoadConfig ⟨false, false, "rules"⟩ path.directory =
      ⟨false, false, ⟨"./rules"⟩⟩ := by
    decide +kernel
  have hok : ((through history (host, files "")).1.reload (m := StateM FileTree)
      (through history (host, files "")).2).1.result.isOk := by
    decide +kernel
  have hforced : forcedBy history = ⟨true, false, none⟩ := rfl
  obtain ⟨fresh, later, hfresh, hresult, hrules, -, hconfig, -⟩ :=
    reload_eq_load_fresh hmade history (files "") hsettings
  rw [hforced] at hresult hrules hconfig
  rw [hsource] at hconfig
  generalize through history (host, files "") = state at *
  exact ⟨hmade, state.1, state.2, _, rfl, rfl, hok, hconfig, fresh, later, hfresh, hresult, hrules⟩

end Host

end CollisionRules
