import CollisionRules.Proofs.Host.History

namespace CollisionRules

/-- The last value that `give` gives of a list. -/
def lastGiven? {α β : Type} (give : α → Option β) (list : List α) : Option β :=
  (list.filterMap give).getLast?

section lastGiven?

variable {α β : Type} (give : α → Option β)

/-- The last element that gives something is found at the front only if no later one gives anything.
    -/
theorem lastGiven?_cons (a : α) (list : List α) :
    lastGiven? give (a :: list) = (lastGiven? give list).or (give a) := by
  rw [lastGiven?, lastGiven?, List.filterMap_cons]
  cases give a with
  | none => exact (Option.or_none).symm
  | some b => rw [List.getLast?_cons, Option.or_some]

theorem lastGiven?_toList_append (a? : Option α) (list : List α) :
    lastGiven? give (a?.toList ++ list) = (lastGiven? give list).or (a?.bind give) := by
  cases a? with
  | none => exact (Option.or_none).symm
  | some a => exact lastGiven?_cons give a list

end lastGiven?

theorem getD_toOption_of_getD_eq_ok {ε α : Type} {read? : Option (Except ε α)} {absent a : α}
    (hread : read?.getD (.ok absent) = .ok a) : (read?.bind Except.toOption).getD absent = a := by
  cases read? with
  | none => exact Except.ok.inj hread
  | some read =>
    obtain rfl : read = .ok a := hread
    rfl

namespace Host

/-- The options in the settings at `path`, given what reading them gave. -/
theorem configOf_eq_map [Yaml.Library] (path : Path) (read : Except Failure (List Char)) :
    configOf path read =
      (Settings.ofRead path read).map fun settings => settings.toLoadConfig path.directory := by
  unfold configOf
  cases Settings.ofRead path read <;> rfl

/-- One thing that happens to a host or to the files. -/
inductive Action (Files : Type) where
  | asked (request : Request)
  | withRules (rules : RuleStore Ability)
  | withVerbose (verbose : Bool)
  | withClearExisting (clearExisting : Bool)
  | withSource (source : Path)
  | edited (change : Files → Files)

namespace Action

variable {Files : Type}

def verbose? : Action Files → Option Bool
  | withVerbose verbose => some verbose
  | _ => none

def clearExisting? : Action Files → Option Bool
  | withClearExisting clearExisting => some clearExisting
  | _ => none

def source? : Action Files → Option Path
  | withSource source => some source
  | _ => none

end Action

variable {Files : Type} [FileAccess (StateM Files)]

/-- What comes of the settings if they are read: the options in them, or the error. -/
def readSettings? [Yaml.Library] (host : Host) (files : Files) : Option (Except Error LoadConfig) :=
  host.settingsPath?.map fun path =>
    (Settings.load (m := StateM Files) path files).1.map (·.toLoadConfig path.directory)

/-- A host with settings reads them where they are. -/
theorem readSettings?_of_settingsPath? [Yaml.Library] {host : Host} {path : Path}
    (hpath : host.settingsPath? = some path) (files : Files) :
    host.readSettings? files = some
      ((Settings.load (m := StateM Files) path files).1.map (·.toLoadConfig path.directory)) := by
  rw [readSettings?, hpath, Option.map_some]

namespace Action

/-- The host and the files after an action. -/
def apply [Yaml.Library] (state : Host × Files) : Action Files → Host × Files
  | asked request => ((state.1.perform request state.2).1.host, (state.1.perform request state.2).2)
  | withRules rules => (state.1.withRules rules, state.2)
  | withVerbose verbose => (state.1.withVerbose verbose, state.2)
  | withClearExisting clearExisting => (state.1.withClearExisting clearExisting, state.2)
  | withSource source => (state.1.withSource source, state.2)
  | edited change => (state.1, change state.2)

/-- What a load or a reload gives. -/
def result? [Yaml.Library] (state : Host × Files) : Action Files → Option (Except Error LoadReport)
  | asked request => some (state.1.perform request state.2).1.result
  | _ => none

/-- What comes of the settings at a reload. -/
def reading? [Yaml.Library] (state : Host × Files) : Action Files → Option (Except Error LoadConfig)
  | asked .reload => state.1.readSettings? state.2
  | _ => none

end Action

/-- A host and the files after a list of actions. -/
def through [Yaml.Library] (history : List (Action Files)) (state : Host × Files) : Host × Files :=
  history.foldl Action.apply state

/-- What is seen of actions, of each in the state that it finds. -/
def seen [Yaml.Library] {α : Type} (see : Host × Files → Action Files → Option α) :
    List (Action Files) → Host × Files → List α
  | [], _ => []
  | action :: later, state => (see state action).toList ++ seen see later (action.apply state)

/-- The results of all loads and reloads. -/
def results [Yaml.Library] : List (Action Files) → Host × Files → List (Except Error LoadReport) :=
  seen Action.result?

/-- What came of the settings at all reloads. -/
def readings [Yaml.Library] : List (Action Files) → Host × Files → List (Except Error LoadConfig) :=
  seen Action.reading?

/-- What the builders force on the options: of each kind, the last one. -/
def forcedBy (history : List (Action Files)) : Overrides where
  verbose := (lastGiven? Action.verbose? history).getD false
  clearExisting := (lastGiven? Action.clearExisting? history).getD false
  source? := lastGiven? Action.source? history

/-- A host as it is made, and the options that it is made with. -/
inductive IsBuilt [Yaml.Library] (Files : Type) [FileAccess (StateM Files)] : Host → LoadConfig → Prop
  | ofConfig (abilities : AbilityTable) (config : LoadConfig) :
      IsBuilt Files (.new abilities config) config
  | ofSettings {abilities : AbilityTable} {path : Path} {files : Files} {host : Host}
      {settings : Settings}
      (hhost : (fromSettings (m := StateM Files) abilities path files).1 = .ok host)
      (hsettings : (Settings.load (m := StateM Files) path files).1 = .ok settings) :
      IsBuilt Files host (settings.toLoadConfig path.directory)

/-- The host that is made of settings. -/
def madeOf (abilities : AbilityTable) (path : Path) (settings : Settings) : Host :=
  { new abilities (settings.toLoadConfig path.directory) with settingsPath? := some path }

/-- A host is made of settings exactly when they can be read. -/
theorem ofRead_eq_map [Yaml.Library] (abilities : AbilityTable) (path : Path)
    (read : Except Failure (List Char)) :
    ofRead abilities path read = (Settings.ofRead path read).map (madeOf abilities path) := by
  unfold ofRead configOf
  cases Settings.ofRead path read <;> rfl

/-- A host is made of settings that can be read. -/
theorem fromSettings_run [Yaml.Library] (abilities : AbilityTable) (path : Path) (files : Files) :
    fromSettings (m := StateM Files) abilities path files =
      ((Settings.load (m := StateM Files) path files).1.map (madeOf abilities path),
        (Settings.load (m := StateM Files) path files).2) :=
  Prod.ext (ofRead_eq_map abilities path _) rfl

/-- A host that was made of settings has the options that stand in them. -/
theorem settings_of_fromSettings_eq_ok [Yaml.Library] {abilities : AbilityTable} {path : Path}
    {files : Files}
    {host : Host} (hhost : (fromSettings (m := StateM Files) abilities path files).1 = .ok host) :
    ∃ settings, (Settings.load (m := StateM Files) path files).1 = .ok settings ∧
      host = madeOf abilities path settings := by
  rw [fromSettings_run] at hhost
  cases hload : (Settings.load (m := StateM Files) path files).1 with
  | error error =>
    rw [hload] at hhost
    cases hhost
  | ok settings =>
    rw [hload] at hhost
    cases hhost
    exact ⟨settings, rfl, rfl⟩

/-- A host that was just made has been asked nothing and has nothing forced on it. -/
theorem IsBuilt.unused [Yaml.Library] {host : Host} {config : LoadConfig}
    (hbuilt : IsBuilt Files host config) :
    host.loads = 0 ∧ host.baseConfig = config ∧ host.overrides = .none := by
  cases hbuilt with
  | ofConfig abilities => exact ⟨rfl, rfl, rfl⟩
  | ofSettings hhost hsettings =>
    obtain ⟨settings, hload, rfl⟩ := settings_of_fromSettings_eq_ok hhost
    rw [hsettings] at hload
    cases hload
    exact ⟨rfl, rfl, rfl⟩

/-- Settings are read again with the result that reading them gives. -/
theorem reread_result [Yaml.Library] (host : Host) (files : Files) :
    (host.reread (m := StateM Files) files).1 =
      ((host.readSettings? files).getD (.ok host.baseConfig)).map fun baseConfig =>
        { host with baseConfig } := by
  obtain hpath | ⟨path, hpath⟩ := Option.eq_none_or_eq_some host.settingsPath?
  · have hreread : host.reread (m := StateM Files) files = (.ok host, files) := by
      rw [reread_eq, hpath]
    have hread : host.readSettings? files = none := by
      rw [readSettings?, hpath, Option.map_none]
    rw [hreread, hread]
    rfl
  · have hreread : (host.reread (m := StateM Files) files).1 =
        host.reconfigured path (FileAccess.readText (m := StateM Files) path files).1 := by
      rw [reread_eq, hpath]
    have hread : host.readSettings? files =
        some (configOf path (FileAccess.readText (m := StateM Files) path files).1) := by
      rw [readSettings?_of_settingsPath? hpath, configOf_eq_map]
      rfl
    rw [hreread, hread]
    rfl

/-- A reload whose settings cannot be read comes to nothing. Any other is a load of the host
    with the options in its settings, or with those that it has if it has no settings. -/
theorem reload_cases [Yaml.Library] (host : Host) (files : Files) :
    (∃ error, host.readSettings? files = some (.error error) ∧
        (host.reload (m := StateM Files) files).1 = ⟨.error error, host, []⟩) ∨
      ∃ baseConfig, (host.readSettings? files).getD (.ok host.baseConfig) = .ok baseConfig ∧
        let later := (host.reread (m := StateM Files) files).2
        let load := { host with baseConfig }.load (m := StateM Files) later
        host.reload (m := StateM Files) files = (announceReload load.1, load.2) := by
  have hresult := reread_result host files
  rw [reload_run]
  cases hreread : host.reread (m := StateM Files) files with
  | mk result later =>
    rw [hreread] at hresult
    cases hread : (host.readSettings? files).getD (.ok host.baseConfig) with
    | error error =>
      rw [hread] at hresult
      obtain rfl : result = .error error := hresult
      cases hsettings : host.readSettings? files with
      | none =>
        rw [hsettings] at hread
        cases hread
      | some read =>
        rw [hsettings] at hread
        exact .inl ⟨error, congrArg some hread, rfl⟩
    | ok baseConfig =>
      rw [hread] at hresult
      obtain rfl : result = .ok { host with baseConfig } := hresult
      exact .inr ⟨baseConfig, rfl, rfl⟩

/-- A load is counted when it gives a report. -/
theorem loadOpened_loads (host : Host) (opened : Except Failure (List ReadEvent)) :
    (host.loadOpened opened).host.loads =
      host.loads + [(host.loadOpened opened).result].countP Except.isOk := by
  cases opened <;> rfl

/-- A load does not change the options of a host. -/
theorem loadOpened_baseConfig (host : Host) (opened : Except Failure (List ReadEvent)) :
    (host.loadOpened opened).host.baseConfig = host.baseConfig := by
  cases opened <;> rfl

/-- A load is counted if it gives a report. -/
theorem perform_loads [Yaml.Library] (host : Host) (request : Request) (files : Files) :
    (host.perform request files).1.host.loads =
      host.loads + [(host.perform request files).1.result].countP Except.isOk := by
  cases request with
  | loadText text => rfl
  | load => exact loadOpened_loads host _
  | reload =>
    obtain ⟨error, -, hreload⟩ | ⟨baseConfig, -, hreload⟩ := reload_cases host files
    · rw [perform, hreload]
      rfl
    · rw [perform, hreload, announceReload_host, announceReload_result]
      exact loadOpened_loads { host with baseConfig } _

/-- The options change at a reload whose settings can be read, and only then. -/
theorem perform_baseConfig [Yaml.Library] (host : Host) (request : Request) (files : Files) :
    (host.perform request files).1.host.baseConfig =
      ((Action.reading? (host, files) (.asked request)).bind Except.toOption).getD
        host.baseConfig := by
  cases request with
  | loadText text => rfl
  | load => exact loadOpened_baseConfig host _
  | reload =>
    change _ = ((host.readSettings? files).bind Except.toOption).getD host.baseConfig
    obtain ⟨error, hread, hreload⟩ | ⟨baseConfig, hread, hreload⟩ := reload_cases host files
    · rw [perform, hreload, hread]
      rfl
    · rw [perform, hreload, announceReload_host, load_run, loadOpened_baseConfig]
      exact (getD_toOption_of_getD_eq_ok hread).symm

namespace Action

/-- What an action adds to the count is the report that it gives, if it gives one. -/
theorem loads_apply [Yaml.Library] (state : Host × Files) (action : Action Files) :
    (action.apply state).1.loads =
      state.1.loads + (action.result? state).toList.countP Except.isOk := by
  cases action with
  | asked request => exact perform_loads state.1 request state.2
  | _ => rfl

/-- The options of a host change with a reload whose settings can be read, and with nothing else. -/
theorem baseConfig_apply [Yaml.Library] (state : Host × Files) (action : Action Files) :
    (action.apply state).1.baseConfig =
      ((action.reading? state).bind Except.toOption).getD state.1.baseConfig := by
  cases action with
  | asked request => exact perform_baseConfig state.1 request state.2
  | _ => rfl

/-- What is forced on a host is what was forced last. -/
theorem overrides_apply [Yaml.Library] (state : Host × Files) (action : Action Files) :
    (action.apply state).1.overrides =
      ⟨action.verbose?.getD state.1.overrides.verbose,
        action.clearExisting?.getD state.1.overrides.clearExisting,
        action.source?.or state.1.overrides.source?⟩ := by
  cases action with
  | asked request =>
    obtain ⟨rules, loads, baseConfig, hhost, -⟩ := perform_host state.1 request state.2
    rw [apply, hhost]
    rfl
  | _ => rfl

/-- A builder that is called forces options on the host in the state that it finds. -/
theorem exists_earlier_eq_apply [Yaml.Library] (state : Host × Files) (action : Action Files) :
    ∃ earlier : Earlier Files, action.apply state = earlier.apply state := by
  cases action with
  | asked request => exact ⟨.asked request, rfl⟩
  | withRules rules => exact ⟨.given rules, rfl⟩
  | withVerbose verbose => exact ⟨.forced { state.1.overrides with verbose }, rfl⟩
  | withClearExisting clearExisting =>
    exact ⟨.forced { state.1.overrides with clearExisting }, rfl⟩
  | withSource source => exact ⟨.forced { state.1.overrides with source? := some source }, rfl⟩
  | edited change => exact ⟨.edited change, rfl⟩

end Action

/-- The count of a host is that of the reports that it has given. -/
theorem loads_through [Yaml.Library] (history : List (Action Files)) (state : Host × Files) :
    (through history state).1.loads =
      state.1.loads + (results history state).countP Except.isOk := by
  induction history generalizing state with
  | nil => rfl
  | cons action later ih =>
    change (through later (action.apply state)).1.loads =
      state.1.loads + ((action.result? state).toList ++ results later (action.apply state)).countP _
    rw [ih, Action.loads_apply, List.countP_append, Nat.add_assoc]

/-- The options of a host are those of the last settings that could be read. -/
theorem baseConfig_through [Yaml.Library] (history : List (Action Files)) (state : Host × Files) :
    (through history state).1.baseConfig =
      (lastGiven? Except.toOption (readings history state)).getD state.1.baseConfig := by
  induction history generalizing state with
  | nil => rfl
  | cons action later ih =>
    change (through later (action.apply state)).1.baseConfig =
      (lastGiven? _ ((action.reading? state).toList ++ readings later (action.apply state))).getD _
    rw [ih, Action.baseConfig_apply, lastGiven?_toList_append, Option.getD_or]

/-- Each option that is forced on a host is the one given last. -/
theorem overrides_through [Yaml.Library] (history : List (Action Files)) (state : Host × Files) :
    (through history state).1.overrides =
      ⟨(lastGiven? Action.verbose? history).getD state.1.overrides.verbose,
        (lastGiven? Action.clearExisting? history).getD state.1.overrides.clearExisting,
        (lastGiven? Action.source? history).or state.1.overrides.source?⟩ := by
  induction history generalizing state with
  | nil => rfl
  | cons action later ih =>
    change (through later (action.apply state)).1.overrides = _
    rw [ih, Action.overrides_apply]
    simp only [lastGiven?_cons, Option.getD_or, Option.or_assoc]

/-- A host on which nothing was forced has what its history forces. -/
theorem overrides_through_of_eq_none [Yaml.Library] {state : Host × Files}
    (hnone : state.1.overrides = .none)
    (history : List (Action Files)) :
    (through history state).1.overrides = forcedBy history := by
  rw [overrides_through, hnone]
  simp only [Overrides.none, Option.or_none]
  rfl

/-- A history of actions is one of the things that can come before a load. -/
theorem exists_after_eq_through [Yaml.Library] (history : List (Action Files))
    (state : Host × Files) :
    ∃ past : List (Earlier Files), through history state = after past state := by
  induction history generalizing state with
  | nil => exact ⟨[], rfl⟩
  | cons action later ih =>
    obtain ⟨earlier, hearlier⟩ := action.exists_earlier_eq_apply state
    obtain ⟨past, hpast⟩ := ih (action.apply state)
    refine ⟨earlier :: past, ?_⟩
    change through later (action.apply state) = after past (earlier.apply state)
    rw [hpast, hearlier]

/-- No history changes which abilities a host has, or where its settings are. -/
theorem abilities_through [Yaml.Library] (history : List (Action Files)) (state : Host × Files) :
    (through history state).1.abilities = state.1.abilities ∧
      (through history state).1.settingsPath? = state.1.settingsPath? := by
  obtain ⟨past, hpast⟩ := exists_after_eq_through history state
  rw [hpast]
  exact abilities_after past state

/-- A host that has no settings reads none. -/
theorem readings_of_settingsPath?_eq_none [Yaml.Library] {state : Host × Files}
    (hnone : state.1.settingsPath? = none) (history : List (Action Files)) :
    readings history state = [] := by
  induction history generalizing state with
  | nil => rfl
  | cons action later ih =>
    have hread : action.reading? state = none := by
      cases action with
      | asked request =>
        cases request with
        | reload =>
          change state.1.readSettings? state.2 = none
          rw [readSettings?, hnone, Option.map_none]
        | _ => rfl
      | _ => rfl
    have hlater : (action.apply state).1.settingsPath? = none :=
      (abilities_through [action] state).2.trans hnone
    change (action.reading? state).toList ++ readings later (action.apply state) = []
    rw [hread, ih hlater]
    rfl

/-- A reload whose settings cannot be read gives the error and leaves the host as it is. -/
theorem reload_of_load_eq_error [Yaml.Library] {host : Host} {files : Files} {path : Path}
    {error : Error}
    (hpath : host.settingsPath? = some path)
    (hload : (Settings.load (m := StateM Files) path files).1 = .error error) :
    (host.reload (m := StateM Files) files).1 = ⟨.error error, host, []⟩ := by
  have hread : host.readSettings? files = some (.error error) := by
    rw [readSettings?_of_settingsPath? hpath, hload]
    rfl
  obtain ⟨other, hother, hreload⟩ | ⟨baseConfig, hconfig, -⟩ := reload_cases host files
  · obtain rfl : error = other := by simpa [hread] using hother
    exact hreload
  · rw [hread] at hconfig
    cases hconfig

/-- The life of a host, however it was made. Whatever it is asked for and given and whatever
    becomes of the files, the number of its loads is that of the loads and reloads that gave a
    report. The options in force are those that its settings had when they could last be read,
    or those that it was made with, and above them what the builders have forced on it. A reload
    whose settings cannot be read changes nothing at all. -/
theorem lifecycle [Yaml.Library] {host : Host} {initial : LoadConfig}
    (hbuilt : IsBuilt Files host initial)
    (history : List (Action Files)) (start : Files) :
    let reached := (through history (host, start)).1
    let now := (through history (host, start)).2
    let base := (lastGiven? Except.toOption (readings history (host, start))).getD initial
    let forced := forcedBy history
    reached.loads = (results history (host, start)).countP Except.isOk ∧
      reached.config =
        ⟨base.verbose || forced.verbose, base.clearExisting || forced.clearExisting,
          forced.source?.getD base.source⟩ ∧
      (host.settingsPath? = none → base = initial) ∧
      ∀ path error, reached.settingsPath? = some path →
        (Settings.load (m := StateM Files) path now).1 = .error error →
          (reached.reload (m := StateM Files) now).1 = ⟨.error error, reached, []⟩ := by
  intro reached now base forced
  obtain ⟨hloads, hinitial, hnothing⟩ := hbuilt.unused
  have hbase : reached.baseConfig = base := by
    rw [baseConfig_through, hinitial]
  have hforced : reached.overrides = forced := overrides_through_of_eq_none hnothing history
  refine ⟨?_, ?_, fun hnone => ?_, fun path error hpath hload => ?_⟩
  · rw [loads_through, hloads, Nat.zero_add]
  · rw [config, hbase, hforced]
    rfl
  · exact congrArg (fun read => (lastGiven? Except.toOption read).getD initial)
      (readings_of_settingsPath?_eq_none hnone history)
  · exact reload_of_load_eq_error hpath hload

/-- The rule file of the new settings is missing, and then the settings are spoiled. -/
theorem lifecycle_spoiled_settings :
    let files (text : String) : FileTree :=
      (FileTree.empty []).put ["config.yml"] (.file (Text.Utf8.encode text.toList))
    let path : Path := ⟨"config.yml"⟩
    let initial : LoadConfig := ⟨false, false, ⟨"./collisions.txt"⟩⟩
    let host : Host := { Host.new (.ofList ["A", "B"]) initial with settingsPath? := some path }
    let history : List (Action FileTree) :=
      [.asked (.loadText ['A', '>', 'B']), .withVerbose true, .withClearExisting true,
        .withVerbose false, .edited fun _ => files "Properties:\n  CollisionFile: rules\n",
        .asked .reload, .asked .load, .edited fun _ => files "Properties: rules\n",
        .asked .reload]
    let reached := (through history (host, files "")).1
    let now := (through history (host, files "")).2
    let error :=
      { Settings.malformed "Properties: rules\n".toList with context? := some ⟨some path.text, none⟩ }
    reached.loads = 1 ∧ reached.config = ⟨false, true, ⟨"./rules"⟩⟩ ∧
      (reached.reload (m := StateM FileTree) now).1 = ⟨.error error, reached, []⟩ := by
  intro files path initial host history reached now error
  have hsettings : (Settings.load (m := StateM FileTree) path (files "")).1 = .ok .default := by
    decide +kernel
  have hinitial : Settings.default.toLoadConfig path.directory = initial := by decide +kernel
  have hhost : (fromSettings (m := StateM FileTree) (.ofList ["A", "B"]) path (files "")).1 =
      .ok host := by
    rw [fromSettings_run, hsettings]
    exact congrArg (fun config => Except.ok { Host.new _ config with settingsPath? := some path })
      hinitial
  have hbuilt : IsBuilt FileTree host initial := hinitial ▸ .ofSettings hhost hsettings
  have hresults : (results history (host, files "")).countP Except.isOk = 1 := by decide +kernel
  have hforced : forcedBy history = ⟨false, true, none⟩ := rfl
  have hread : lastGiven? Except.toOption (readings history (host, files "")) =
      some ⟨false, false, ⟨"./rules"⟩⟩ := by
    decide +kernel
  have hnow : (Settings.load (m := StateM FileTree) path now).1 = .error error := by
    decide +kernel
  obtain ⟨hloads, hconfig, -, hspoiled⟩ := lifecycle hbuilt history (files "")
  have hpath := (abilities_through history (host, files "")).2
  refine ⟨hloads.trans hresults, ?_, hspoiled path _ hpath hnow⟩
  rw [hforced, hread] at hconfig
  exact hconfig

end Host

end CollisionRules
