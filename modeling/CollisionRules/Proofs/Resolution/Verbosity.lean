import CollisionRules.Proofs.Resolution.Account

namespace CollisionRules

variable {H : Type}

namespace Event

/-- Word of a change of the rules. -/
def isChange : Event → Bool
  | .registered _ _ _ _ | .erased _ _ => true
  | _ => false

/-- What is only said verbosely: what a group was bound to, and each change of the
    rules. -/
def isDetail : Event → Bool
  | .bound _ _ _ => true
  | event => event.isChange

theorem isDetail_of_isChange {event : Event} (h : event.isChange) : event.isDetail := by
  cases event with
  | bound => cases h
  | _ => exact h

/-- Where there are no details there is no word of a change either. -/
theorem filter_isChange_eq_nil {events : List Event}
    (hevents : ∀ event ∈ events, event.isDetail = false) : events.filter isChange = [] := by
  rw [List.filter_eq_nil_iff]
  intro event hevent hchange
  have hdetail := isDetail_of_isChange hchange
  rw [hevents event hevent] at hdetail
  contradiction

end Event

/-- What is said verbosely of a change: its abilities by name, and its flags. Clearing the
    rules is said by every load, verbose or not. -/
def RuleOperation.event? [ToString H] : RuleOperation H → Option Event
  | .register rule =>
    some (.registered (toString rule.first) (toString rule.second) rule.removeFirst
      rule.removeSecond)
  | .eraseBetween a b => some (.erased (toString a) (toString b))
  | .clear => none

/-- A group declaration without a name. -/
def Statement.isNameless (statement : Statement) : Bool :=
  statement.group?.any (·.name == "")

namespace Resolution

theorem event?_change [ToString H] (effect : Effect) (pair : H × H) :
    (change effect pair).event? = some (changeEvent effect pair) := by
  cases effect <;> rfl

theorem isChange_changeEvent [ToString H] (effect : Effect) (pair : H × H) :
    (changeEvent effect pair).isChange := by
  cases effect <;> rfl

/-- What is said of the changes to some pairs, one after the other. -/
theorem filter_isChange_changeEvent [ToString H] (effect : Effect) (pairs : List (H × H)) :
    (pairs.map (changeEvent effect)).filter Event.isChange =
      (pairs.map (change effect)).filterMap (·.event?) := by
  have hall : (pairs.map (changeEvent effect)).filter Event.isChange =
      pairs.map (changeEvent effect) :=
    List.filter_eq_self.mpr (List.forall_mem_map.mpr fun pair _ => isChange_changeEvent effect pair)
  rw [hall, List.filterMap_map]
  simp only [Function.comp_def, event?_change, List.filterMap_eq_map']

/-- A quiet pass and a verbose one that have met the statements `met`. -/
structure IsQuietOf [ToString H] (met : List Statement) (quiet verbose : Resolution H) : Prop where
  groups : quiet.groups = verbose.groups
  report : quiet.report = verbose.report
  operations : quiet.operations = verbose.operations
  /-- The quiet log is the verbose one without the details. -/
  events : quiet.events = verbose.events.filter (!·.isDetail)
  /-- The verbose log has word of each change, in the order the changes are asked for. -/
  changes : verbose.events.filter (·.isChange) = verbose.operations.filterMap (·.event?)
  /-- There is a detail for each change and for each group bound, nameless ones apart. -/
  details : verbose.events.countP (·.isDetail) + met.countP (·.isNameless) =
    verbose.report.operations + verbose.report.groupsBound

variable [ToString H] {met : List Statement} {quiet verbose : Resolution H}

theorem isQuietOf_start : IsQuietOf [] (start : Resolution H) start where
  groups := rfl
  report := rfl
  operations := rfl
  events := rfl
  changes := rfl
  details := rfl

/-- Two passes stay in step if both ask for the same and say the same, and the verbose one
    then adds a detail for each change and for the group that is bound. -/
theorem IsQuietOf.say (hpasses : IsQuietOf met quiet verbose) (statement : Statement)
    (groups : GroupTable H) (report : LoadReport) (asked : List (RuleOperation H))
    {said added : List Event} (hsaid : ∀ event ∈ said, event.isDetail = false)
    (hadded : ∀ event ∈ added, event.isDetail = true)
    (hchanges : added.filter (·.isChange) = asked.filterMap (·.event?))
    (hcounts : report.operations + report.groupsBound =
      verbose.report.operations + verbose.report.groupsBound + added.length +
        [statement].countP (·.isNameless)) :
    IsQuietOf (met ++ [statement])
      ⟨groups, report, quiet.operations ++ asked, quiet.events ++ said⟩
      ⟨groups, report, verbose.operations ++ asked, verbose.events ++ (said ++ added)⟩ where
  groups := rfl
  report := rfl
  operations := congrArg (· ++ asked) hpasses.operations
  events := by
    have hkept : said.filter (!·.isDetail) = said := by simpa using hsaid
    have hnone : added.filter (!·.isDetail) = [] := by simpa using hadded
    rw [hpasses.events, List.filter_append, List.filter_append, hkept, hnone, List.append_nil]
  changes := by
    rw [List.filter_append, List.filter_append, List.filterMap_append, hpasses.changes,
      Event.filter_isChange_eq_nil hsaid, hchanges, List.nil_append]
  details := by
    have hsaidCount : said.countP (·.isDetail) = 0 := by
      simpa [List.countP_eq_zero] using hsaid
    have haddedCount : added.countP (·.isDetail) = added.length :=
      List.countP_eq_length.mpr hadded
    have hbefore := hpasses.details
    simp only [List.countP_append, hsaidCount, haddedCount]
    omega

theorem IsQuietOf.declare (hpasses : IsQuietOf met quiet verbose) (lookup : String → Option H)
    (declaration : GroupDeclaration) :
    IsQuietOf (met ++ [.group declaration]) (quiet.declare lookup false declaration)
      (verbose.declare lookup true declaration) := by
  have hgroups := hpasses.groups
  have hreport := hpasses.report
  let report := { verbose.report with
    statements := verbose.report.statements + 1
    groupsBound := verbose.report.groupsBound + 1 }
  by_cases hname : declaration.name = ""
  · have hsaid : ∀ event ∈ [Event.nameless declaration.position.line], event.isDetail = false :=
      List.forall_mem_singleton.mpr rfl
    have hnext := hpasses.say (.group declaration) (verbose.groups.bind "" [])
      { report with warnings := report.warnings + 1 } [] hsaid (List.forall_mem_nil _) rfl
      (by simp [report, LoadReport.operations, Statement.isNameless, Statement.group?, hname,
        Nat.add_assoc])
    simpa [Resolution.declare, hname, hgroups, hreport] using hnext
  · let members := members lookup verbose.groups declaration.members
    let unknown := unresolved lookup verbose.groups declaration.members
    have hsaid : ∀ event ∈ unknown.map Event.unresolved, event.isDetail = false :=
      List.forall_mem_map.mpr fun _ _ => rfl
    have hadded : ∀ event ∈ [Event.bound declaration.name members.length declaration.position.line],
        event.isDetail = true := List.forall_mem_singleton.mpr rfl
    have hnext := hpasses.say (.group declaration) (verbose.groups.bind declaration.name members)
      { report with warnings := report.warnings + unknown.length } [] hsaid hadded rfl
      (by simp [report, LoadReport.operations, Statement.isNameless, Statement.group?, hname,
        Nat.add_assoc])
    simpa [Resolution.declare, hname, hgroups, hreport] using hnext

theorem operations_countChanges (effect : Effect) (count : Nat) (report : LoadReport) :
    (countChanges effect count report).operations + (countChanges effect count report).groupsBound =
      report.operations + report.groupsBound + count := by
  cases effect <;> simp only [countChanges, LoadReport.operations] <;> omega

theorem IsQuietOf.collide (hpasses : IsQuietOf met quiet verbose) (lookup : String → Option H)
    (declaration : CollisionDeclaration) :
    IsQuietOf (met ++ [.collision declaration]) (quiet.collide lookup false declaration)
      (verbose.collide lookup true declaration) := by
  have hgroups := hpasses.groups
  have hreport := hpasses.report
  let effect := declaration.operator.effect
  let pairs := pairs (members lookup verbose.groups [declaration.left])
    (members lookup verbose.groups [declaration.right])
  let unknown := unresolved lookup verbose.groups [declaration.left, declaration.right]
  let report := { verbose.report with
    statements := verbose.report.statements + 1
    warnings := verbose.report.warnings + unknown.length }
  have hsaid : ∀ event ∈ unknown.map Event.unresolved, event.isDetail = false :=
    List.forall_mem_map.mpr fun _ _ => rfl
  have hadded : ∀ event ∈ pairs.map (changeEvent effect), event.isDetail = true :=
    List.forall_mem_map.mpr fun pair _ => Event.isDetail_of_isChange (isChange_changeEvent effect pair)
  have hnext := hpasses.say (.collision declaration) verbose.groups
    (countChanges effect pairs.length report) (pairs.map (change effect)) hsaid hadded
    (filter_isChange_changeEvent effect pairs) (by
      rw [operations_countChanges, List.length_map]
      rfl)
  simpa [Resolution.collide, hgroups, hreport] using hnext

theorem IsQuietOf.apply (hpasses : IsQuietOf met quiet verbose) (lookup : String → Option H)
    (statement : Statement) :
    IsQuietOf (met ++ [statement]) (quiet.apply lookup false statement)
      (verbose.apply lookup true statement) := by
  cases statement with
  | empty =>
    exact {
      groups := hpasses.groups
      report := hpasses.report
      operations := hpasses.operations
      events := hpasses.events
      changes := hpasses.changes
      details := by
        rw [List.countP_append]
        exact hpasses.details }
  | group declaration => exact hpasses.declare lookup declaration
  | collision declaration => exact hpasses.collide lookup declaration

/-- Any number of statements. -/
theorem IsQuietOf.applyAll (hpasses : IsQuietOf met quiet verbose) (lookup : String → Option H)
    (statements : List Statement) :
    IsQuietOf (met ++ statements) (quiet.applyAll lookup false statements)
      (verbose.applyAll lookup true statements) := by
  induction statements generalizing met quiet verbose with
  | nil => simpa [Resolution.applyAll] using hpasses
  | cons statement rest ih =>
    simpa [Resolution.applyAll] using ih (hpasses.apply lookup statement)

theorem isQuietOf_ofStatements (lookup : String → Option H) (statements : List Statement) :
    IsQuietOf statements (ofStatements lookup false statements)
      (ofStatements lookup true statements) :=
  isQuietOf_start.applyAll lookup statements

end Resolution

end CollisionRules
