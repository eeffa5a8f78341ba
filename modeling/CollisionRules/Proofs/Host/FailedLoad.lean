import CollisionRules.Proofs.Load.Registry
import CollisionRules.Yaml.Block

namespace CollisionRules

variable {H : Type}

/-- The rules that a load leaves when its rule file does not open. -/
def LoadConfig.rulesLeft (config : LoadConfig) (rules : RuleStore H) : RuleStore H :=
  if config.clearExisting then .empty else rules

namespace Load

/-- The opening of a load leaves a store empty or as it was. -/
theorem applyAll_openingOperations [BEq H] (config : LoadConfig) (store : RuleStore H) :
    store.applyAll (openingOperations config) = config.rulesLeft store := by
  unfold openingOperations LoadConfig.rulesLeft
  split <;> rfl

/-- Only a rule file that does not open makes a load fail. -/
theorem ofOpened_result_eq_error_iff [ToString H] (lookup : String → Option H)
    (config : LoadConfig) (opened : Except Failure (List ReadEvent)) (error : Error) :
    (ofOpened lookup config opened).result = .error error ↔
      ∃ failure, opened = .error failure ∧ error = .unreadable config.source failure := by
  cases opened with
  | ok events => simp [ofOpened]
  | error failure => simp [ofOpened, eq_comm]

/-- A load that fails comes to its opening and nothing else. -/
theorem operations_of_result_eq_error [ToString H] {lookup : String → Option H}
    {config : LoadConfig} {opened : Except Failure (List ReadEvent)} {error : Error}
    (hresult : (ofOpened lookup config opened).result = .error error) :
    (ofOpened lookup config opened).operations = openingOperations config := by
  obtain ⟨failure, rfl, -⟩ := (ofOpened_result_eq_error_iff lookup config opened error).mp hresult
  rfl

end Load

namespace Host

/-- A load of a host comes to what the load of its options comes to. -/
theorem loadOpened_result (host : Host) (opened : Except Failure (List ReadEvent)) :
    (host.loadOpened opened).result =
      (Load.ofOpened host.abilities.get? host.config opened).result := by
  rw [loadOpened_eq]
  cases hresult : (Load.ofOpened host.abilities.get? host.config opened).result <;>
    simp only [hresult]

/-- A host whose load fails differs at most in its rules. -/
theorem loadOpened_host_of_error {host : Host} {opened : Except Failure (List ReadEvent)}
    {error : Error} (hresult : (host.loadOpened opened).result = .error error) :
    (host.loadOpened opened).host = { host with rules := host.config.rulesLeft host.rules } := by
  rw [loadOpened_result] at hresult
  have hoperations := Load.operations_of_result_eq_error hresult
  simp only [loadOpened_eq, hresult, hoperations, Load.applyAll_openingOperations]
  rfl

@[simp]
theorem announceReload_result (step : Step (Except Error LoadReport)) :
    (announceReload step).result = step.result := by
  unfold announceReload
  split <;> rfl

@[simp]
theorem announceReload_host (step : Step (Except Error LoadReport)) :
    (announceReload step).host = step.host := by
  unfold announceReload
  split <;> rfl

/-- The host with the options in its settings at `path`, given what reading them
    gave. -/
def reconfigured [Yaml.Library] (host : Host) (path : Path) (read : Except Failure (List Char)) :
    Except Error Host :=
  (configOf path read).map fun config => { host with baseConfig := config }

/-- The host with its settings read again, if it has any. -/
def reread [Yaml.Library] {m : Type → Type} [Monad m] [FileAccess m] (host : Host) :
    m (Except Error Host) :=
  match host.settingsPath? with
  | none => return .ok host
  | some path => return host.reconfigured path (← FileAccess.readText path)

/-- A reload reads the settings again and goes on with a load, if they can be read. -/
theorem reload_eq_reread_bind [Yaml.Library] {m : Type → Type} [Monad m] [LawfulMonad m]
    [FileAccess m]
    (host : Host) :
    host.reload (m := m) = do
      match ← host.reread (m := m) with
      | .error error => return ⟨.error error, host, []⟩
      | .ok reread => return announceReload (← reread.load) := by
  unfold reload reread
  cases hpath : host.settingsPath? with
  | none => simp
  | some path =>
    simp only [bind_assoc, pure_bind]
    refine bind_congr fun read => ?_
    unfold reconfigured
    rw [hpath]
    cases configOf path read <;> rfl

section Files

variable {Files : Type} [FileAccess (StateM Files)]

/-- A host with settings reads them where they are, and one without goes on as it is. -/
theorem reread_eq [Yaml.Library] (host : Host) (files : Files) :
    host.reread (m := StateM Files) files =
      match host.settingsPath? with
      | none => (.ok host, files)
      | some path =>
        (host.reconfigured path (FileAccess.readText (m := StateM Files) path files).1,
          (FileAccess.readText (m := StateM Files) path files).2) := by
  unfold reread
  cases host.settingsPath? <;> rfl

/-- Reading the settings again changes the options and nothing else. -/
theorem exists_baseConfig_of_reread [Yaml.Library] {host reread : Host} {files : Files}
    (hreread : (host.reread (m := StateM Files) files).1 = .ok reread) :
    ∃ baseConfig, reread = { host with baseConfig } ∧
      (host.settingsPath? = none → baseConfig = host.baseConfig) := by
  rw [reread_eq] at hreread
  split at hreread
  · cases hreread
    exact ⟨host.baseConfig, rfl, fun _ => rfl⟩
  · next path hpath =>
    unfold reconfigured at hreread
    cases hconfig : configOf path (FileAccess.readText (m := StateM Files) path files).1 with
    | error error =>
      rw [hconfig] at hreread
      cases hreread
    | ok config =>
      rw [hconfig] at hreread
      cases hreread
      refine ⟨config, rfl, fun hnone => ?_⟩
      rw [hpath] at hnone
      cases hnone

/-- Settings that are read again do not touch the rules. -/
theorem rules_of_reread_eq_ok [Yaml.Library] {host reread : Host} {files : Files}
    (hreread : (host.reread (m := StateM Files) files).1 = .ok reread) :
    reread.rules = host.rules ∧ reread.loads = host.loads := by
  obtain ⟨baseConfig, rfl, -⟩ := exists_baseConfig_of_reread hreread
  exact ⟨rfl, rfl⟩

/-- A reload in terms of the host with its settings read again. -/
theorem reload_run [Yaml.Library] (host : Host) (files : Files) :
    host.reload (m := StateM Files) files =
      match host.reread (m := StateM Files) files with
      | (.error error, later) => (⟨.error error, host, []⟩, later)
      | (.ok reread, later) =>
        (announceReload (reread.load (m := StateM Files) later).1,
          (reread.load (m := StateM Files) later).2) := by
  rw [reload_eq_reread_bind]
  cases hreread : host.reread (m := StateM Files) files with
  | mk result later =>
    cases result <;> simp [bind, StateT.bind, hreread] <;> rfl

theorem load_run (host : Host) (files : Files) :
    (host.load (m := StateM Files) files).1 =
      host.loadOpened (FileAccess.openFile (m := StateM Files) host.config.source files).1 :=
  rfl

/-- A load that fails leaves all of the host but the rules. -/
theorem load_host_of_error {host : Host} {files : Files} {error : Error}
    (hresult : (host.load (m := StateM Files) files).1.result = .error error) :
    (host.load (m := StateM Files) files).1.host =
      { host with rules := host.config.rulesLeft host.rules } :=
  loadOpened_host_of_error hresult

/-- A reload fails where the settings cannot be read again, and where the load after
    that fails. -/
theorem reload_cases_of_error [Yaml.Library] {host : Host} {files : Files} {error : Error}
    (hresult : (host.reload (m := StateM Files) files).1.result = .error error) :
    ((host.reread (m := StateM Files) files).1 = .error error ∧
        (host.reload (m := StateM Files) files).1.host = host) ∨
      ∃ reread, (host.reread (m := StateM Files) files).1 = .ok reread ∧
        (host.reload (m := StateM Files) files).1.host =
          { reread with rules := reread.config.rulesLeft host.rules } := by
  rw [reload_run] at hresult ⊢
  cases hreread : host.reread (m := StateM Files) files with
  | mk result later =>
    cases result with
    | error unread =>
      rw [hreread] at hresult
      cases hresult
      exact .inl ⟨rfl, rfl⟩
    | ok reread =>
      simp only [hreread, announceReload_result] at hresult
      refine .inr ⟨reread, rfl, ?_⟩
      have hrules := (rules_of_reread_eq_ok (congrArg Prod.fst hreread)).1
      rw [announceReload_host, load_host_of_error hresult, hrules]

/-- A load that fails leaves the rules as they are, unless they are to be cleared
    first: then it leaves none. A host takes that from the options in force, on a
    reload those of the settings that were read again; settings that cannot be read
    leave the rules as they are. No load that fails is counted. -/
theorem failed_load_only_clears [Yaml.Library] [BEq H] [ToString H] (lookup : String → Option H)
    (config : LoadConfig) (store : RuleStore H) (opened : Except Failure (List ReadEvent))
    (host : Host) (files : Files) (error : Error) :
    let load := Load.ofOpened lookup config opened
    let loaded := (host.load (m := StateM Files) files).1
    let reloaded := (host.reload (m := StateM Files) files).1
    (load.result = .error error →
      (∃ failure, opened = .error failure ∧ error = .unreadable config.source failure) ∧
        store.applyAll load.operations = if config.clearExisting then .empty else store) ∧
      (loaded.result = .error error →
        loaded.host.loads = host.loads ∧
          loaded.host.rules = if host.config.clearExisting then .empty else host.rules) ∧
      (reloaded.result = .error error →
        reloaded.host.loads = host.loads ∧
          (((host.reread (m := StateM Files) files).1 = .error error ∧
              reloaded.host.rules = host.rules) ∨
            ∃ reread, (host.reread (m := StateM Files) files).1 = .ok reread ∧
              reloaded.host.rules =
                if reread.config.clearExisting then .empty else host.rules)) := by
  intro load loaded reloaded
  refine ⟨fun hload => ⟨?_, ?_⟩, fun hloaded => ?_, fun hreloaded => ?_⟩
  · exact (Load.ofOpened_result_eq_error_iff lookup config opened error).mp hload
  · rw [Load.operations_of_result_eq_error hload, Load.applyAll_openingOperations]
    rfl
  · have hhost : loaded.host = _ := load_host_of_error hloaded
    rw [hhost]
    exact ⟨rfl, rfl⟩
  · obtain ⟨hreread, hhost⟩ | ⟨reread, hreread, hhost⟩ := reload_cases_of_error hreloaded
    · exact ⟨congrArg Host.loads hhost, .inl ⟨hreread, congrArg Host.rules hhost⟩⟩
    · have hloads := congrArg Host.loads hhost
      have hkept := (rules_of_reread_eq_ok hreread).2
      exact ⟨hloads.trans hkept, .inr ⟨reread, hreread, congrArg Host.rules hhost⟩⟩

end Files

private theorem openFile_missing :
    (FileTree.empty []).openFile ⟨"missing.txt"⟩ = .error .notFound := by
  have hfind : (FileTree.empty []).find ⟨"missing.txt"⟩ = .error .notFound := rfl
  rw [FileTree.openFile, hfind]

private theorem load_missing {host : Host} (hsource : host.config.source = ⟨"missing.txt"⟩) :
    (host.load (m := StateM FileTree) (.empty [])).1 = host.loadOpened (.error .notFound) := by
  rw [load_run, hsource]
  exact congrArg host.loadOpened openFile_missing

private theorem reread_missing [Yaml.Library] {host : Host}
    (hpath : host.settingsPath? = some ⟨"missing.txt"⟩) :
    host.reread (m := StateM FileTree) (.empty []) =
      (.error (.unreadable ⟨"missing.txt"⟩ .notFound), .empty []) := by
  have hread (tree : FileTree) (path : Path) : FileAccess.readText (m := StateM FileTree) path tree =
      (FileAccess.textOf (tree.openFile path), tree) := rfl
  unfold Host.reread
  rw [hpath]
  simp only [bind, StateT.bind, hread, openFile_missing]
  rfl

/-- Neither the rule file nor the settings are there: a load clears the rules and then
    fails, a reload fails before. -/
theorem failed_reload_keeps_rules :
    let rules : RuleStore Ability := ⟨[⟨⟨0, "A"⟩, ⟨1, "B"⟩, false, true⟩]⟩
    let config : LoadConfig := ⟨false, true, ⟨"missing.txt"⟩⟩
    let host : Host :=
      { (Host.new (.ofList ["A", "B"]) config).withRules rules with
        settingsPath? := some ⟨"missing.txt"⟩ }
    let error : Error := .unreadable ⟨"missing.txt"⟩ .notFound
    let load := Load.ofOpened host.abilities.get? config (.error .notFound)
    let loaded := (host.load (m := StateM FileTree) (.empty [])).1
    let reloaded := (host.reload (m := StateM FileTree) (.empty [])).1
    (load.result = .error error ∧ rules.applyAll load.operations = .empty) ∧
      (loaded.result = .error error ∧ loaded.host.rules = .empty) ∧
      reloaded.result = .error error ∧ reloaded.host.rules = rules := by
  intro rules config host error load loaded reloaded
  have hresult : load.result = .error error := rfl
  have hloaded : loaded.result = .error error := by
    have hrun : loaded = host.loadOpened (.error .notFound) := load_missing rfl
    rw [hrun]
    rfl
  have hreread : host.reread (m := StateM FileTree) (.empty []) = (.error error, .empty []) :=
    reread_missing rfl
  have hreloaded : reloaded.result = .error error := by
    have hrun := reload_run host (FileTree.empty [])
    rw [hreread] at hrun
    exact congrArg (·.1.result) hrun
  obtain ⟨hload, hhost, hreload⟩ := failed_load_only_clears host.abilities.get? config rules
    (.error .notFound) host (FileTree.empty []) error
  obtain ⟨-, ⟨-, hkept⟩ | ⟨reread, hread, -⟩⟩ := hreload hreloaded
  · exact ⟨⟨hresult, (hload hresult).2⟩, ⟨hloaded, (hhost hloaded).2⟩, hreloaded, hkept⟩
  · rw [hreread] at hread
    contradiction

/-- A load that clears and fails takes the rules away. -/
theorem failed_load_clears :
    let rules : RuleStore Ability := ⟨[⟨⟨0, "A"⟩, ⟨1, "B"⟩, false, true⟩]⟩
    let config : LoadConfig := ⟨false, true, ⟨"missing.txt"⟩⟩
    let host := (Host.new (.ofList ["A", "B"]) config).withRules rules
    let loaded := (host.load (m := StateM FileTree) (.empty [])).1
    loaded.result = .error (.unreadable ⟨"missing.txt"⟩ .notFound) ∧
      loaded.host.rules = .empty ∧ loaded.host.rules ≠ host.rules := by
  intro rules config host loaded
  have hloaded : loaded = host.loadOpened (.error .notFound) := load_missing rfl
  rw [hloaded]
  exact ⟨rfl, rfl, nofun⟩

end Host

end CollisionRules
