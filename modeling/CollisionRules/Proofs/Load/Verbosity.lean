import CollisionRules.Load
import CollisionRules.Proofs.Resolution.Verbosity

namespace CollisionRules

variable {H Result : Type}

namespace Load

/-- A quiet load and a verbose one of the same source. -/
structure IsQuietOf [ToString H] (quiet verbose : Load H Result) : Prop where
  result : quiet.result = verbose.result
  operations : quiet.operations = verbose.operations
  /-- The quiet log is the verbose one without the details. -/
  events : quiet.events = verbose.events.filter (!·.isDetail)
  /-- The verbose log has word of each change, in the order the changes are asked for. -/
  changes : verbose.events.filter (·.isChange) = verbose.operations.filterMap (·.event?)

/-- What a load says before its pass. -/
def beforePass (config : LoadConfig) (reading : Reading) : List Event :=
  openingEvents config ++ reading.truncation.toList.map .truncated ++
    (Parsed.ofTokens reading.tokens).errors.map .rejected

theorem isDetail_of_mem_openingEvents (config : LoadConfig) :
    ∀ event ∈ openingEvents config, event.isDetail = false := by
  unfold openingEvents
  split <;> decide

/-- No details are said before the pass. -/
theorem isDetail_of_mem_beforePass (config : LoadConfig) (reading : Reading) :
    ∀ event ∈ beforePass config reading, event.isDetail = false := by
  intro event hevent
  simp only [beforePass, List.mem_append, List.mem_map] at hevent
  obtain (hopening | ⟨_, _, rfl⟩) | ⟨_, _, rfl⟩ := hevent
  · exact isDetail_of_mem_openingEvents config event hopening
  · rfl
  · rfl

/-- Clearing the rules is no detail of a load. -/
theorem filterMap_event?_openingOperations [ToString H] (config : LoadConfig) :
    (openingOperations config : List (RuleOperation H)).filterMap (·.event?) = [] := by
  unfold openingOperations
  split <;> rfl

theorem events_ofReading [ToString H] (lookup : String → Option H) (config : LoadConfig)
    (verbose : Bool) (reading : Reading) :
    let load := ofReading lookup { config with verbose } reading
    let pass := Resolution.ofStatements lookup verbose (Parsed.ofTokens reading.tokens).statements
    load.events = beforePass config reading ++ pass.events ++ [.finished load.result] :=
  rfl

theorem isQuietOf_ofReading [ToString H] (lookup : String → Option H) (config : LoadConfig)
    (reading : Reading) :
    IsQuietOf (ofReading lookup { config with verbose := false } reading)
      (ofReading lookup { config with verbose := true } reading) := by
  let parsed := Parsed.ofTokens reading.tokens
  have hpass := Resolution.isQuietOf_ofStatements lookup parsed.statements
  have hbefore := isDetail_of_mem_beforePass config reading
  have hresult : (ofReading lookup { config with verbose := false } reading).result =
      (ofReading lookup { config with verbose := true } reading).result := by
    simp only [ofReading, report, parsed, hpass.report]
  refine ⟨hresult, congrArg (openingOperations config ++ ·) hpass.operations, ?_, ?_⟩
  · have hkept : (beforePass config reading).filter (!·.isDetail) = beforePass config reading := by
      simpa using hbefore
    -- what is reported is said at the end in any case
    have hend (report : LoadReport) :
        [Event.finished report].filter (!·.isDetail) = [.finished report] := rfl
    rw [events_ofReading, events_ofReading, hresult, hpass.events]
    simp only [List.filter_append, hkept, hend, parsed]
  · have hnone : (beforePass config reading).filter (·.isChange) = [] :=
      Event.filter_isChange_eq_nil hbefore
    have hend (report : LoadReport) : [Event.finished report].filter (·.isChange) = [] := rfl
    have hasked : (ofReading lookup { config with verbose := true } reading).operations =
        openingOperations config ++
          (Resolution.ofStatements lookup true parsed.statements).operations := rfl
    rw [events_ofReading, hasked, List.filterMap_append, filterMap_event?_openingOperations]
    simp only [List.filter_append, hnone, hend, hpass.changes, List.nil_append, List.append_nil,
      parsed]

/-- The details of a load are those of its pass. -/
theorem countP_isDetail_ofReading [ToString H] (lookup : String → Option H) (config : LoadConfig)
    (reading : Reading) :
    let load := ofReading lookup { config with verbose := true } reading
    load.events.countP (·.isDetail) +
        (Parsed.ofTokens reading.tokens).statements.countP (·.isNameless) =
      load.result.operations + load.result.groupsBound := by
  intro load
  have hpass :=
    Resolution.isQuietOf_ofStatements lookup (Parsed.ofTokens reading.tokens).statements
  have hnone : (beforePass config reading).countP (·.isDetail) = 0 := by
    simpa [List.countP_eq_zero] using isDetail_of_mem_beforePass config reading
  have hend (report : LoadReport) : [Event.finished report].countP (·.isDetail) = 0 := rfl
  rw [events_ofReading, List.countP_append, List.countP_append, hnone, hend, Nat.zero_add,
    Nat.add_zero]
  exact hpass.details

/-- A rule file that does not open is not said more of verbosely. -/
theorem isQuietOf_ofOpened [ToString H] (lookup : String → Option H) (config : LoadConfig)
    (opened : Except Failure (List ReadEvent)) :
    IsQuietOf (ofOpened lookup { config with verbose := false } opened)
      (ofOpened lookup { config with verbose := true } opened) := by
  cases opened with
  | ok events =>
    have hread := isQuietOf_ofReading lookup config (.ofStream events)
    exact ⟨congrArg Except.ok hread.result, hread.operations, hread.events, hread.changes⟩
  | error failure =>
    have hsaid : ∀ event ∈ openingEvents config ++ [.unopened (.unreadable config.source failure)],
        event.isDetail = false :=
      List.forall_mem_append.mpr
        ⟨isDetail_of_mem_openingEvents config, List.forall_mem_singleton.mpr rfl⟩
    refine ⟨rfl, rfl, ?_, ?_⟩
    · refine (List.filter_eq_self.mpr fun event hevent => ?_).symm
      rw [hsaid event hevent]
      rfl
    · exact (Event.filter_isChange_eq_nil hsaid).trans
        (filterMap_event?_openingOperations config).symm

/-- Being verbose changes nothing but the log. A pass over any statements, and a load of
    any text, byte stream or rule file, asks for the same changes and so leaves the same
    rules, and comes to the same report, verbose or not; a pass also binds the same groups.
    The quiet log is the verbose one without its details, in the same order; those of them
    that are about changes name the handles and flags of the changes, one after the other;
    and there are as many details as there are changes and groups bound, nameless ones
    apart. -/
theorem verbosity_only_adds_details [BEq H] [ToString H] (lookup : String → Option H)
    (config : LoadConfig) (store : RuleStore H) :
    let quiet : LoadConfig := { config with verbose := false }
    let verbose : LoadConfig := { config with verbose := true }
    (∀ statements, (Resolution.ofStatements lookup false statements).IsQuietOf statements
        (Resolution.ofStatements lookup true statements)) ∧
      (∀ text, (ofText lookup quiet text).IsQuietOf (ofText lookup verbose text)) ∧
      (∀ events, (ofStream lookup quiet events).IsQuietOf (ofStream lookup verbose events)) ∧
      (∀ opened, (ofOpened lookup quiet opened).IsQuietOf (ofOpened lookup verbose opened)) ∧
      ∀ reading,
        let load := ofReading lookup verbose reading
        store.applyAll (ofReading lookup quiet reading).operations =
            store.applyAll load.operations ∧
          load.events.countP (·.isDetail) +
              (Parsed.ofTokens reading.tokens).statements.countP (·.isNameless) =
            load.result.operations + load.result.groupsBound := by
  intro quiet verbose
  refine ⟨Resolution.isQuietOf_ofStatements lookup, ?_, ?_, ?_, fun reading => ⟨?_, ?_⟩⟩
  · exact fun text => isQuietOf_ofReading lookup config (.ofText text)
  · exact fun events => isQuietOf_ofReading lookup config (.ofStream events)
  · exact isQuietOf_ofOpened lookup config
  · exact congrArg store.applyAll (isQuietOf_ofReading lookup config reading).operations
  · exact countP_isDetail_ofReading lookup config reading

end Load

end CollisionRules
