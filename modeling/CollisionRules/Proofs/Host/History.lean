import CollisionRules.Proofs.Host.FailedLoad
import CollisionRules.Proofs.Load.Account

namespace CollisionRules

variable {H : Type}

namespace Resolution

/-- What is warned of a statement is among what is said of it. -/
theorem warningsAt_subset_eventsAt [ToString H] (lookup : String → Option H) (verbose : Bool)
    {statements : List Statement} {k : Nat} {statement : Statement}
    (hget : statements[k]? = some statement) :
    warningsAt lookup statements k statement.operands ⊆ eventsAt lookup verbose statements k := by
  cases statement with
  | empty => simp [Statement.operands, warningsAt]
  | group declaration =>
    by_cases hname : declaration.name = ""
    · simp [Statement.operands, warningsAt, hname]
    · simp [Statement.operands, eventsAt, hget, hname]
  | collision declaration => simp [Statement.operands, eventsAt, hget]

/-- A group that no earlier statement of the program declares is warned of. -/
theorem unresolved_mem_events [ToString H] (lookup : String → Option H) (verbose : Bool)
    {statements : List Statement} {k : Nat} {statement : Statement} {operand : Operand}
    (hget : statements[k]? = some statement) (hoperand : operand ∈ statement.operands)
    (hkind : operand.kind = .group)
    (hundeclared : latestGroup? statements operand.name k = none) :
    .unresolved operand ∈ (ofStatements lookup verbose statements).events := by
  have hunknown : isUnknownAt lookup statements k operand := by
    simp [isUnknownAt, hkind, hundeclared]
  have hwarned : .unresolved operand ∈ warningsAt lookup statements k statement.operands :=
    List.mem_map_of_mem (List.mem_filter.mpr ⟨hoperand, hunknown⟩)
  obtain ⟨hlt, _⟩ := List.getElem?_eq_some_iff.mp hget
  rw [ofStatements_events, eventsOf]
  exact List.mem_flatMap.mpr
    ⟨k, List.mem_range.mpr hlt, warningsAt_subset_eventsAt lookup verbose hget hwarned⟩

end Resolution

namespace Load

/-- Rules that are cleared first make no difference to those that a load leaves. -/
theorem applyAll_of_clearExisting [BEq H] {config : LoadConfig}
    (hclear : config.clearExisting = true) (store other : RuleStore H)
    (operations : List (RuleOperation H)) :
    store.applyAll (openingOperations config ++ operations) =
      other.applyAll (openingOperations config ++ operations) := by
  have hopening : (openingOperations config : List (RuleOperation H)) = [.clear] := if_pos hclear
  rw [hopening]
  rfl

/-- A load asks for its opening first, whatever the rule file comes to. -/
theorem ofOpened_operations [ToString H] (lookup : String → Option H) (config : LoadConfig)
    (opened : Except Failure (List ReadEvent)) :
    ∃ operations, (ofOpened lookup config opened).operations =
      openingOperations config ++ operations := by
  cases opened with
  | ok events => exact ⟨_, rfl⟩
  | error failure => exact ⟨[], (List.append_nil _).symm⟩

/-- A reload that gives a report says so. -/
def announced (load : Load H (Except Error LoadReport)) : Load H (Except Error LoadReport) :=
  match load.result with
  | .ok _ => { load with events := load.events ++ [.reloaded] }
  | .error _ => load

@[simp] theorem announced_result (load : Load H (Except Error LoadReport)) :
    load.announced.result = load.result := by
  unfold announced
  split <;> rfl

@[simp] theorem announced_operations (load : Load H (Except Error LoadReport)) :
    load.announced.operations = load.operations := by
  unfold announced
  split <;> rfl

/-- A step of a host that does what the load comes to, starting from some rules. -/
structure IsDoneBy {Result : Type} (load : Load Ability Result) (rules : RuleStore Ability)
    (step : Host.Step Result) : Prop where
  result : step.result = load.result
  events : step.events = load.events
  rules : step.host.rules = rules.applyAll load.operations

end Load

namespace Host

/-- A load that a host can be asked for. -/
inductive Request where
  | loadText (text : List Char)
  | load
  | reload

/-- What can come before a load: another one, other rules, other options forced on the host,
    or a change of the files. -/
inductive Earlier (Files : Type) where
  | asked (request : Request)
  | given (rules : RuleStore Ability)
  | forced (overrides : Overrides)
  | edited (change : Files → Files)

variable {Files : Type} [FileAccess (StateM Files)]

def perform [Yaml.Library] (host : Host) (request : Request) (files : Files) :
    Step (Except Error LoadReport) × Files :=
  match request with
  | .loadText text =>
    let step := host.loadText text
    (⟨.ok step.result, step.host, step.events⟩, files)
  | .load => host.load (m := StateM Files) files
  | .reload => host.reload (m := StateM Files) files

/-- The options that a request is answered with. A reload reads the settings again. -/
def optionsFor [Yaml.Library] (host : Host) (request : Request) (files : Files) :
    Except Error LoadConfig :=
  match request with
  | .loadText _ | .load => .ok host.config
  | .reload => (host.reread (m := StateM Files) files).1.map Host.config

/-- The load that a request is answered with. -/
def loadFor [Yaml.Library] (host : Host) (request : Request) (files : Files) :
    Load Ability (Except Error LoadReport) :=
  match host.optionsFor request files with
  | .error error => ⟨.error error, [], []⟩
  | .ok config =>
    let load := fun files : Files => Load.ofOpened host.abilities.get? config
      (FileAccess.openFile (m := StateM Files) config.source files).1
    match request with
    | .loadText text =>
      let load := Load.ofText host.abilities.get? config text
      { load with result := .ok load.result }
    | .load => load files
    | .reload => (load (host.reread (m := StateM Files) files).2).announced

/-- Loading a text is answered with the load of that text. -/
theorem loadText_isDoneBy (host : Host) (text : List Char) :
    (Load.ofText host.abilities.get? host.config text).IsDoneBy host.rules
      (host.loadText text) := by
  rw [loadText_eq]
  exact ⟨rfl, rfl, rfl⟩

/-- Loading a rule file is answered with the load of what it gave. -/
theorem loadOpened_isDoneBy (host : Host) (opened : Except Failure (List ReadEvent)) :
    (Load.ofOpened host.abilities.get? host.config opened).IsDoneBy host.rules
      (host.loadOpened opened) := by
  rw [loadOpened_eq]
  cases opened with
  | ok events => exact ⟨rfl, rfl, rfl⟩
  | error failure => exact ⟨rfl, rfl, rfl⟩

/-- A reload that is announced is done as its load is. -/
theorem announceReload_isDoneBy {load : Load Ability (Except Error LoadReport)}
    {rules : RuleStore Ability} {step : Step (Except Error LoadReport)}
    (hstep : load.IsDoneBy rules step) :
    load.announced.IsDoneBy rules (announceReload step) where
  result := by rw [announceReload_result, Load.announced_result, hstep.result]
  events := by
    rw [announceReload, Load.announced, hstep.result]
    cases load.result with
    | ok report => exact congrArg (· ++ [.reloaded]) hstep.events
    | error error => exact hstep.events
  rules := by rw [announceReload_host, Load.announced_operations, hstep.rules]

/-- Every request is answered with its load. -/
theorem perform_isDoneBy [Yaml.Library] (host : Host) (request : Request) (files : Files) :
    (host.loadFor request files).IsDoneBy host.rules (host.perform request files).1 := by
  cases request with
  | loadText text =>
    obtain ⟨hresult, hevents, hrules⟩ := loadText_isDoneBy host text
    exact ⟨congrArg Except.ok hresult, hevents, hrules⟩
  | load => exact loadOpened_isDoneBy host _
  | reload =>
    rw [perform, reload_run, loadFor, optionsFor]
    cases hreread : host.reread (m := StateM Files) files with
    | mk result later =>
      cases result with
      | error error => exact ⟨rfl, rfl, rfl⟩
      | ok reread =>
        obtain ⟨baseConfig, rfl, -⟩ := exists_baseConfig_of_reread (congrArg Prod.fst hreread)
        exact announceReload_isDoneBy (loadOpened_isDoneBy { host with baseConfig } _)

/-- What a host is asked for is answered by its abilities and by the options in force,
    wherever its settings are. -/
theorem loadFor_congr [Yaml.Library] {host other : Host}
    (habilities : host.abilities = other.abilities)
    (hsettings : host.settingsPath? = other.settingsPath?) {request : Request} {files : Files}
    (hoptions : host.optionsFor request files = other.optionsFor request files) :
    host.loadFor request files = other.loadFor request files := by
  have hlater : (host.reread (m := StateM Files) files).2 =
      (other.reread (m := StateM Files) files).2 := by
    rw [reread_eq, reread_eq, hsettings]
    cases other.settingsPath? <;> rfl
  rw [loadFor, loadFor, hoptions, habilities, hlater]

/-- Whatever is asked for, the rules are cleared first if the options say so. -/
theorem operations_loadFor [Yaml.Library] {host : Host} {request : Request} {files : Files}
    {config : LoadConfig}
    (hoptions : host.optionsFor request files = .ok config) :
    ∃ operations, (host.loadFor request files).operations =
      Load.openingOperations config ++ operations := by
  rw [loadFor, hoptions]
  cases request with
  | loadText text => exact ⟨_, rfl⟩
  | load => exact Load.ofOpened_operations _ config _
  | reload =>
    dsimp only
    rw [Load.announced_operations]
    exact Load.ofOpened_operations _ config _

/-- A load changes the rules and the number of loads, and nothing else of a host. -/
theorem loadOpened_host (host : Host) (opened : Except Failure (List ReadEvent)) :
    ∃ rules loads, (host.loadOpened opened).host = { host with rules, loads } := by
  cases opened <;> exact ⟨_, _, rfl⟩

/-- A request changes the rules and the number of loads, and a reload also the options that
    stand in the settings. -/
theorem perform_host [Yaml.Library] (host : Host) (request : Request) (files : Files) :
    ∃ rules loads baseConfig,
      (host.perform request files).1.host = { host with rules, loads, baseConfig } ∧
        (request ≠ .reload ∨ host.settingsPath? = none → baseConfig = host.baseConfig) := by
  cases request with
  | loadText text => exact ⟨_, _, _, rfl, fun _ => rfl⟩
  | load =>
    obtain ⟨rules, loads, hhost⟩ := loadOpened_host host
      (FileAccess.openFile (m := StateM Files) host.config.source files).1
    exact ⟨rules, loads, host.baseConfig, hhost, fun _ => rfl⟩
  | reload =>
    rw [perform, reload_run]
    cases hreread : host.reread (m := StateM Files) files with
    | mk result later =>
      cases result with
      | error error => exact ⟨host.rules, host.loads, host.baseConfig, rfl, fun _ => rfl⟩
      | ok reread =>
        obtain ⟨baseConfig, rfl, hnone⟩ := exists_baseConfig_of_reread (congrArg Prod.fst hreread)
        obtain ⟨rules, loads, hhost⟩ := loadOpened_host { host with baseConfig }
          (FileAccess.openFile (m := StateM Files) (config { host with baseConfig }).source later).1
        refine ⟨rules, loads, baseConfig, ?_, fun hkept => hnone (hkept.resolve_left nofun)⟩
        rw [announceReload_host]
        exact hhost

/-- What is left of a host and of the files by one thing that happens to them. -/
def Earlier.apply [Yaml.Library] (state : Host × Files) : Earlier Files → Host × Files
  | .asked request =>
    ((state.1.perform request state.2).1.host, (state.1.perform request state.2).2)
  | .given rules => (state.1.withRules rules, state.2)
  | .forced overrides => ({ state.1 with overrides }, state.2)
  | .edited change => (state.1, change state.2)

/-- A host and the files after all that has happened to them. -/
def after [Yaml.Library] (history : List (Earlier Files)) (state : Host × Files) : Host × Files :=
  history.foldl Earlier.apply state

/-- Nothing that comes before a load changes which abilities a host has, or where its settings are.
    -/
theorem abilities_apply [Yaml.Library] (state : Host × Files) (earlier : Earlier Files) :
    (earlier.apply state).1.abilities = state.1.abilities ∧
      (earlier.apply state).1.settingsPath? = state.1.settingsPath? := by
  cases earlier with
  | asked request =>
    obtain ⟨rules, loads, baseConfig, hhost, -⟩ := perform_host state.1 request state.2
    rw [Earlier.apply, hhost]
    exact ⟨rfl, rfl⟩
  | given rules => exact ⟨rfl, rfl⟩
  | forced overrides => exact ⟨rfl, rfl⟩
  | edited change => exact ⟨rfl, rfl⟩

/-- Nothing that happens to a host gives it other abilities or other settings to read. -/
theorem abilities_after [Yaml.Library] (history : List (Earlier Files)) (state : Host × Files) :
    (after history state).1.abilities = state.1.abilities ∧
      (after history state).1.settingsPath? = state.1.settingsPath? := by
  induction history generalizing state with
  | nil => exact ⟨rfl, rfl⟩
  | cons earlier later ih =>
    obtain ⟨habilities, hsettings⟩ := abilities_apply state earlier
    obtain ⟨hlater, hlaterSettings⟩ := ih (earlier.apply state)
    exact ⟨hlater.trans habilities, hlaterSettings.trans hsettings⟩

/-- Files that are not changed by being read. -/
def Unread (files : Files) : Prop :=
  ∀ path, (FileAccess.openFile (m := StateM Files) path files).2 = files

/-- Reading the settings again leaves files that no reading changes as they are. -/
theorem reread_files [Yaml.Library] {files : Files} (hfiles : Unread files) (host : Host) :
    (host.reread (m := StateM Files) files).2 = files := by
  rw [reread_eq]
  cases host.settingsPath? with
  | none => rfl
  | some path => exact hfiles path

/-- So does whatever a host is asked for. -/
theorem perform_files [Yaml.Library] {files : Files} (hfiles : Unread files) (host : Host)
    (request : Request) :
    (host.perform request files).2 = files := by
  cases request with
  | loadText text => rfl
  | load => exact hfiles host.config.source
  | reload =>
    have hlater := reread_files hfiles host
    rw [perform, reload_run]
    cases hreread : host.reread (m := StateM Files) files with
    | mk result later =>
      rw [hreread] at hlater
      subst hlater
      cases result with
      | error error => rfl
      | ok reread => exact hfiles reread.config.source

/-- A request that has been asked for is answered with the same options the next time. -/
theorem optionsFor_perform [Yaml.Library] (host : Host) (request : Request) (files : Files) :
    ((host.perform request files).1.host).optionsFor request files =
      host.optionsFor request files := by
  obtain ⟨rules, loads, baseConfig, hhost, hkept⟩ := perform_host host request files
  rw [hhost]
  cases request with
  | loadText text =>
    obtain rfl := hkept (.inl nofun)
    rfl
  | load =>
    obtain rfl := hkept (.inl nofun)
    rfl
  | reload =>
    cases hpath : host.settingsPath? with
    | none =>
      obtain rfl := hkept (.inr hpath)
      simp only [optionsFor, reread_eq, hpath]
      rfl
    | some path =>
      simp only [optionsFor, reread_eq, hpath, reconfigured]
      cases configOf path (FileAccess.readText (m := StateM Files) path files).1 <;> rfl

/-- A request that is asked for again and again leaves the files and the options that answer it. -/
theorem after_replicate [Yaml.Library] {files : Files} (hfiles : Unread files) (host : Host)
    (request : Request)
    (times : Nat) :
    (after (List.replicate times (.asked request)) (host, files)).2 = files ∧
      ((after (List.replicate times (.asked request)) (host, files)).1).optionsFor request files =
        host.optionsFor request files := by
  induction times generalizing host with
  | zero => exact ⟨rfl, rfl⟩
  | succ times ih =>
    have hstate : Earlier.apply (host, files) (.asked request) =
        ((host.perform request files).1.host, files) :=
      Prod.ext rfl (perform_files hfiles host request)
    obtain ⟨hlater, hoptions⟩ := ih (host.perform request files).1.host
    rw [List.replicate_succ, after, List.foldl_cons, hstate]
    exact ⟨hlater, hoptions.trans (optionsFor_perform host request files)⟩

/-- Two hosts of the same abilities and settings answer a request with the same load, if the
    options in force are the same, and leave the same rules if these are cleared first. -/
theorem perform_alike [Yaml.Library] {host other : Host}
    (habilities : host.abilities = other.abilities)
    (hsettings : host.settingsPath? = other.settingsPath?) {request : Request} {files : Files}
    (hoptions : host.optionsFor request files = other.optionsFor request files)
    {config : LoadConfig} (hconfig : host.optionsFor request files = .ok config)
    (hclear : config.clearExisting = true) :
    (host.perform request files).1.host.rules = (other.perform request files).1.host.rules := by
  obtain ⟨operations, hoperations⟩ := operations_loadFor hconfig
  rw [(perform_isDoneBy host request files).rules, (perform_isDoneBy other request files).rules,
    ← loadFor_congr habilities hsettings hoptions, hoperations]
  exact Load.applyAll_of_clearExisting hclear host.rules other.rules operations

/-- A request that clears the rules leaves the same ones however often it is repeated. -/
theorem rules_after_replicate [Yaml.Library] {files : Files} (hfiles : Unread files) (host : Host)
    {request : Request} {config : LoadConfig}
    (hconfig : host.optionsFor request files = .ok config) (hclear : config.clearExisting = true)
    (times : Nat) :
    (after (List.replicate (times + 1) (.asked request)) (host, files)).1.rules =
      (host.perform request files).1.host.rules := by
  obtain ⟨hlater, hoptions⟩ := after_replicate hfiles host request times
  obtain ⟨habilities, hsettings⟩ :=
    abilities_after (List.replicate times (.asked request)) (host, files)
  rw [List.replicate_succ', after, List.foldl_append, List.foldl_cons, List.foldl_nil]
  change (perform (after _ _).1 request (after _ _).2).1.host.rules = _
  rw [hlater]
  exact perform_alike habilities hsettings hoptions (hoptions.trans hconfig) hclear

/-- A load depends on nothing that was before. Take a host at two moments, whatever has been
    loaded until then, whatever rules it holds, has been forced on it or has become of the
    files. If the same options are in force, it answers a request with the same load: the
    same report, the same changes, the same events; and if these options clear the rules
    first, it is left with the same rules. So a request that clears them can be repeated
    any number of times, the files being as they are. No load of any source knows a group
    that the source has not declared itself: an operand that names one is warned of and
    stands for nothing. -/
theorem loads_forget_history [Yaml.Library] [BEq H] [ToString H] (lookup : String → Option H)
    (config : LoadConfig) (store other : RuleStore H) (host : Host)
    (rules others : RuleStore Ability) (history past : List (Earlier Files))
    (before earlier now : Files) (request : Request) :
    let a := (after history (host.withRules rules, before)).1
    let b := (after past (host.withRules others, earlier)).1
    (a.optionsFor request now = b.optionsFor request now →
      let load := a.loadFor request now
      b.loadFor request now = load ∧ load.IsDoneBy a.rules (a.perform request now).1 ∧
        load.IsDoneBy b.rules (b.perform request now).1 ∧
        ∀ options, a.optionsFor request now = .ok options → options.clearExisting →
          (a.perform request now).1.host.rules = (b.perform request now).1.host.rules) ∧
      (∀ options, a.optionsFor request now = .ok options → options.clearExisting → Unread now →
        ∀ times, (after (List.replicate (times + 1) (.asked request)) (a, now)).1.rules =
          (a.perform request now).1.host.rules) ∧
      ∀ reading,
        let statements := (Parsed.ofTokens reading.tokens).statements
        let load := Load.ofReading lookup config reading
        (config.clearExisting →
          store.applyAll load.operations = other.applyAll load.operations) ∧
        ∀ k statement operand, statements[k]? = some statement → operand ∈ statement.operands →
          operand.kind = .group → Resolution.latestGroup? statements operand.name k = none →
            Resolution.valueAt lookup statements k operand = [] ∧
              .unresolved operand ∈ load.events := by
  intro a b
  obtain ⟨ha, haSettings⟩ := abilities_after history (host.withRules rules, before)
  obtain ⟨hb, hbSettings⟩ := abilities_after past (host.withRules others, earlier)
  have habilities : a.abilities = b.abilities := ha.trans hb.symm
  have hsettings : a.settingsPath? = b.settingsPath? := haSettings.trans hbSettings.symm
  refine ⟨fun hoptions => ?_, fun options hconfig hclear hfiles => ?_, fun reading => ⟨?_, ?_⟩⟩
  · have hload := loadFor_congr habilities hsettings hoptions
    refine ⟨hload.symm, perform_isDoneBy a request now, ?_, fun options hconfig hclear => ?_⟩
    · rw [hload]
      exact perform_isDoneBy b request now
    · exact perform_alike habilities hsettings hoptions hconfig hclear
  · exact rules_after_replicate hfiles a hconfig hclear
  · exact fun hclear => Load.applyAll_of_clearExisting hclear store other _
  · intro k statement operand hget hoperand hkind hundeclared
    refine ⟨?_, ?_⟩
    · rw [Resolution.valueAt_of_group lookup _ k hkind, hundeclared]
      rfl
    · have hsaid := Resolution.unresolved_mem_events lookup config.verbose hget hoperand hkind
        hundeclared
      exact List.mem_append_left _ (List.mem_append_right _ hsaid)

/-- An earlier load has bound the group that the text names. -/
theorem loads_forget_history_earlier_group :
    let config : LoadConfig := ⟨false, true, ⟨"rules"⟩⟩
    let host := Host.new (.ofList ["A", "B"]) config
    let declared := ['g', 'r', 'o', 'u', 'p', '"', 'G', '"', '\x7b', 'A', '\x7d', '\n', 'A', '>', 'B']
    let text := ['$', 'G', '~', 'B', '\n', 'B', '<', 'A']
    let rules : RuleStore Ability := ⟨[⟨⟨1, "B"⟩, ⟨1, "B"⟩, true, true⟩]⟩
    let files : FileTree := .empty []
    let history : List (Earlier FileTree) :=
      [.asked (.loadText declared), .edited fun _ => .empty ["home"], .asked (.loadText text)]
    let request := Request.loadText text
    let a := (after history (host.withRules rules, files)).1
    a.optionsFor request files = .ok config ∧ host.optionsFor request files = .ok config ∧
      config.clearExisting ∧
      host.loadFor request files = a.loadFor request files ∧
      (a.perform request files).1.host.rules = (host.perform request files).1.host.rules ∧
      (after (List.replicate 3 (.asked request)) (a, files)).1.rules =
        (a.perform request files).1.host.rules ∧
      .unresolved ⟨.group, "G", ⟨1, 2⟩⟩ ∈
        (Load.ofText (AbilityTable.ofList ["A", "B"]).get? config text).events := by
  intro config host declared text rules files history request a
  have ha : a.optionsFor request files = .ok config := rfl
  have hhost : host.optionsFor request files = .ok config := rfl
  have hread : (Parsed.ofText text).statements[0]? =
      some (.collision ⟨⟨.group, "G", ⟨1, 2⟩⟩, .tilde, ⟨.ability, "B", ⟨1, 4⟩⟩⟩) := by
    decide +kernel
  obtain ⟨halike, hrepeated, hload⟩ := loads_forget_history (AbilityTable.ofList ["A", "B"]).get?
    config .empty .empty host rules .empty history [] files files files request
  obtain ⟨hsame, -, -, hrules⟩ := halike (ha.trans hhost.symm)
  obtain ⟨-, hgroups⟩ := hload (.ofText text)
  obtain ⟨-, hwarned⟩ := hgroups 0 _ ⟨.group, "G", ⟨1, 2⟩⟩ hread List.mem_cons_self rfl rfl
  exact ⟨ha, hhost, rfl, hsame, hrules config ha rfl, hrepeated config ha rfl (fun _ => rfl) 2,
    hwarned⟩

end Host

end CollisionRules
