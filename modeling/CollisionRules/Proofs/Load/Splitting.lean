import CollisionRules.Proofs.Load.Layout
import CollisionRules.Proofs.Resolution.Products
import CollisionRules.Proofs.Statement.Concatenation
import CollisionRules.Proofs.Statement.Names

namespace CollisionRules

variable {H : Type}

/-- The counts of two loads together. -/
instance : Add LoadReport where
  add report other := {
    statements := report.statements + other.statements
    rejectedLines := report.rejectedLines + other.rejectedLines
    warnings := report.warnings + other.warnings
    groupsBound := report.groupsBound + other.groupsBound
    registrations := report.registrations + other.registrations
    removals := report.removals + other.removals
    truncated := report.truncated || other.truncated }

theorem LoadReport.add_def (report other : LoadReport) :
    report + other =
      ⟨report.statements + other.statements, report.rejectedLines + other.rejectedLines,
        report.warnings + other.warnings, report.groupsBound + other.groupsBound,
        report.registrations + other.registrations, report.removals + other.removals,
        report.truncated || other.truncated⟩ :=
  rfl

/-- Every group that one of the operands names is bound. -/
def GroupTable.BindsAll (table : GroupTable H) (operands : List Operand) : Prop :=
  ∀ operand ∈ operands, operand.kind = .group → (table.get? operand.name).isSome

namespace Resolution

/-- A program that mentions a group only after a statement that declares it. -/
def DeclaresItsGroups (statements : List Statement) : Prop :=
  ∀ (k : Nat) (hk : k < statements.length), ∀ operand ∈ statements[k].operands,
    operand.kind = .group →
      ∃ declaration ∈ (statements.take k).filterMap Statement.group?,
        declaration.name = operand.name

instance (statements : List Statement) : Decidable (DeclaresItsGroups statements) :=
  inferInstanceAs (Decidable (∀ (k : Nat) (hk : k < statements.length),
    ∀ operand ∈ statements[k].operands, operand.kind = .group →
      ∃ declaration ∈ (statements.take k).filterMap Statement.group?,
        declaration.name = operand.name))

/-- A pass that has done after `past` what another one has done alone. It has the groups of that
    one, and may have others. -/
structure Continues (past alone pass : Resolution H) : Prop where
  groups : ∀ name members, alone.groups.get? name = some members →
    pass.groups.get? name = some members
  report : pass.report = past.report + alone.report
  operations : pass.operations = past.operations ++ alone.operations

theorem countChanges_add (effect : Effect) (count : Nat) (report other : LoadReport) :
    countChanges effect count (report + other) = report + countChanges effect count other := by
  cases effect <;> simp [countChanges, LoadReport.add_def, Nat.add_assoc]

theorem continues_start (past : Resolution H) : Continues past start past where
  groups name members hget := by simp [start] at hget
  report := by simp [start, LoadReport.zero, LoadReport.add_def]
  operations := (List.append_nil _).symm

namespace Continues

variable {past alone pass : Resolution H} (hpass : Continues past alone pass)
  (lookup : String → Option H)
include hpass

/-- An operand that the pass alone knows stands for the same in both. -/
theorem evaluate_eq {operand : Operand}
    (hbound : operand.kind = .group → (alone.groups.get? operand.name).isSome) :
    evaluate lookup pass.groups operand = evaluate lookup alone.groups operand := by
  cases hkind : operand.kind with
  | ability => simp only [evaluate, hkind]
  | group =>
    obtain ⟨members, hmembers⟩ := Option.isSome_iff_exists.mp (hbound hkind)
    simp only [evaluate, hkind, hmembers, hpass.groups _ _ hmembers]

/-- Operands that are bound by the later part alone have the same members behind the earlier one. -/
theorem members_eq {operands : List Operand} (hbound : alone.groups.BindsAll operands)
    (place : Position → Position) :
    members lookup pass.groups (operands.map (Operand.relocate place)) =
      members lookup alone.groups operands := by
  rw [members_relocate]
  refine List.flatMap_congr fun operand hoperand => ?_
  rw [hpass.evaluate_eq lookup (hbound operand hoperand)]

theorem length_unresolved_eq {operands : List Operand} (hbound : alone.groups.BindsAll operands)
    (place : Position → Position) :
    (unresolved lookup pass.groups (operands.map (Operand.relocate place))).length =
      (unresolved lookup alone.groups operands).length := by
  rw [unresolved_relocate, List.length_map]
  refine congrArg List.length (List.filter_congr fun operand hoperand => ?_)
  rw [hpass.evaluate_eq lookup (hbound operand hoperand)]

/-- A name that is bound to the same members in both passes keeps them in step. -/
theorem get?_bind (name : String) (bound : List H) :
    ∀ other members, (alone.groups.bind name bound).get? other = some members →
      (pass.groups.bind name bound).get? other = some members := by
  intro other members hget
  rw [GroupTable.get?_bind] at hget ⊢
  split at hget
  · next hother => rwa [if_pos hother]
  · next hother =>
    rw [if_neg hother]
    exact hpass.groups other members hget

variable (verbose : Bool) (place : Position → Position)

/-- A declaration adds the same to both passes. -/
theorem declare {declaration : GroupDeclaration}
    (hbound : alone.groups.BindsAll (Statement.group declaration).operands) :
    Continues past (alone.declare lookup verbose declaration)
      (pass.declare lookup verbose (declaration.relocate place)) := by
  by_cases hname : declaration.name = ""
  · constructor
    · simpa [Resolution.declare, GroupDeclaration.relocate, hname] using hpass.get?_bind "" []
    · simp [Resolution.declare, GroupDeclaration.relocate, hname, hpass.report,
        LoadReport.add_def, Nat.add_assoc]
    · simp only [declare_operations, hpass.operations]
  · rw [show (Statement.group declaration).operands = declaration.members from if_neg hname]
      at hbound
    have hmembers := hpass.members_eq lookup hbound place
    have hunknown := hpass.length_unresolved_eq lookup hbound place
    constructor
    · simpa [Resolution.declare, GroupDeclaration.relocate, hname, hmembers]
        using hpass.get?_bind declaration.name _
    · simp [Resolution.declare, GroupDeclaration.relocate, hname, hpass.report, hunknown,
        LoadReport.add_def, Nat.add_assoc]
    · simp only [declare_operations, hpass.operations]

/-- A collision adds the same to both passes, wherever it stands. -/
theorem collide [ToString H] {declaration : CollisionDeclaration}
    (hbound : alone.groups.BindsAll (Statement.collision declaration).operands) :
    Continues past (alone.collide lookup verbose declaration)
      (pass.collide lookup verbose (declaration.relocate place)) := by
  obtain ⟨left, operator, right⟩ := declaration
  obtain ⟨hleft, hright⟩ := List.forall_mem_cons.mp hbound
  have hleftMembers := hpass.members_eq lookup (List.forall_mem_singleton.mpr hleft) place
  have hrightMembers := hpass.members_eq lookup hright place
  have hunknown := hpass.length_unresolved_eq lookup hbound place
  simp only [Statement.operands, List.map_cons, List.map_nil] at hleftMembers hrightMembers hunknown
  constructor
  · exact hpass.groups
  · simp only [Resolution.collide, CollisionDeclaration.relocate, hleftMembers, hrightMembers,
      hunknown, hpass.report, ← countChanges_add]
    simp only [LoadReport.add_def, Nat.add_assoc]
  · simp only [Resolution.collide, CollisionDeclaration.relocate, hleftMembers, hrightMembers,
      hpass.operations, List.append_assoc]

/-- What one statement does to the two passes. -/
theorem apply [ToString H] {statement : Statement}
    (hbound : alone.groups.BindsAll statement.operands) :
    Continues past (alone.apply lookup verbose statement)
      (pass.apply lookup verbose (statement.relocate place)) := by
  cases statement with
  | empty => exact hpass
  | group declaration => exact hpass.declare lookup verbose place hbound
  | collision declaration => exact hpass.collide lookup verbose place hbound

end Continues

/-- What a statement mentions is bound by then, if the program declares its groups. -/
theorem DeclaresItsGroups.bindsAll [ToString H] {statements : List Statement}
    (hdeclares : DeclaresItsGroups statements) (lookup : String → Option H) (verbose : Bool)
    {k : Nat} (hk : k < statements.length) :
    (ofStatements lookup verbose (statements.take k)).groups.BindsAll statements[k].operands := by
  intro operand hoperand hkind
  have hmet := HasMet.applyAll_take lookup verbose statements (Nat.le_of_lt hk)
  rw [hmet.groups, Option.isSome_map, latestGroup?_isSome_iff]
  obtain ⟨declaration, hdeclaration, hname⟩ := hdeclares k hk operand hoperand hkind
  obtain ⟨statement, hstatement, hgroup⟩ := List.mem_filterMap.mp hdeclaration
  obtain ⟨j, hj, rfl⟩ := List.mem_take_iff_getElem.mp hstatement
  obtain ⟨hjk, hjlength⟩ := Nat.lt_min.mp hj
  refine ⟨j, declaration, hjk, ?_, hname⟩
  rw [List.getElem?_eq_getElem hjlength, Statement.group?_eq_some_iff.mp hgroup]

/-- Any number of statements, as long as the program has them. -/
theorem continues_take [ToString H] (past : Resolution H) {statements : List Statement}
    (hdeclares : DeclaresItsGroups statements) (lookup : String → Option H) (verbose : Bool)
    (place : Position → Position) {k : Nat} (hk : k ≤ statements.length) :
    Continues past (ofStatements lookup verbose (statements.take k))
      (past.applyAll lookup verbose ((statements.take k).map (Statement.relocate place))) := by
  induction k with
  | zero => exact continues_start past
  | succ k ih =>
    have hlt : k < statements.length := hk
    have hbound := hdeclares.bindsAll lookup verbose hlt
    have hstep := (ih (Nat.le_of_lt hlt)).apply lookup verbose place hbound
    rw [ofStatements_take_succ lookup verbose hlt, List.take_succ_eq_append_getElem hlt,
      List.map_append, applyAll, List.foldl_append]
    exact hstep

/-- A program that declares its groups does after any pass what it does alone. -/
theorem continues_ofStatements [ToString H] (past : Resolution H) {statements : List Statement}
    (hdeclares : DeclaresItsGroups statements) (lookup : String → Option H) (verbose : Bool)
    (place : Position → Position) :
    Continues past (ofStatements lookup verbose statements)
      (past.applyAll lookup verbose (statements.map (Statement.relocate place))) := by
  simpa using continues_take past hdeclares lookup verbose place (Nat.le_refl _)

end Resolution

namespace Load

variable [ToString H] (lookup : String → Option H) (config : LoadConfig)

/-- The pass over what a text says. -/
def passOver (text : List Char) : Resolution H :=
  Resolution.ofStatements lookup config.verbose (Parsed.ofText text).statements

theorem ofText_operations (text : List Char) :
    (ofText lookup config text).operations =
      openingOperations config ++ (passOver lookup config text).operations :=
  rfl

theorem ofText_result (text : List Char) :
    (ofText lookup config text).result =
      { (passOver lookup config text).report with
        rejectedLines := (Parsed.ofText text).errors.length
        truncated := false } := by
  have htruncation : (Reading.ofText text).truncation = none :=
    congrArg Reading.truncation (Reading.ofText_eq text)
  simp only [ofText, ofReading, report, htruncation]
  rfl

/-- A pass over a text continues the pass over its front with that over its back. -/
theorem continues_passOver {front back : List Char}
    (hfront : front = [] ∨ front.getLast? = some '\n')
    (hdeclares : Resolution.DeclaresItsGroups (Parsed.ofText back).statements) :
    Resolution.Continues (passOver lookup config front) (passOver lookup config back)
      (passOver lookup config (front ++ back)) := by
  have hpass := Resolution.continues_ofStatements (passOver lookup config front) hdeclares lookup
    config.verbose (Position.down (Text.lines front).length)
  rw [Statement.relocate_down] at hpass
  have hwhole : passOver lookup config (front ++ back) =
      (passOver lookup config front).applyAll lookup config.verbose
        ((Parsed.ofText back).statements.map (Statement.down (Text.lines front).length)) := by
    rw [passOver, Parsed.ofText_append hfront]
    exact List.foldl_append
  rw [hwhole]
  exact hpass

/-- A source can be split. Take a text that is empty or ends in a line feed, and another one
    whose accepted lines mention a group only after one of them that declares it. If a load
    does not clear the rules first, the load of the two texts in one asks for the changes
    that the load of the first asks for and then for those of the second, so it leaves the
    rules that the two loads leave one after the other, and every count of its report is the
    sum of theirs. -/
theorem split_text_loads_alike [BEq H] (store : RuleStore H)
    (hkept : config.clearExisting = false) {front back : List Char}
    (hfront : front = [] ∨ front.getLast? = some '\n')
    (hdeclares : Resolution.DeclaresItsGroups (Parsed.ofText back).statements) :
    let whole := ofText lookup config (front ++ back)
    let first := ofText lookup config front
    let second := ofText lookup config back
    whole.operations = first.operations ++ second.operations ∧
      store.applyAll whole.operations =
        (store.applyAll first.operations).applyAll second.operations ∧
      whole.result = first.result + second.result := by
  intro whole first second
  have hpass := continues_passOver lookup config hfront hdeclares
  have hopening : (openingOperations config : List (RuleOperation H)) = [] := by
    simp [openingOperations, hkept]
  have hoperations : whole.operations = first.operations ++ second.operations := by
    simp only [whole, first, second, ofText_operations, hopening, List.nil_append]
    exact hpass.operations
  refine ⟨hoperations, by rw [hoperations, RuleStore.applyAll_append], ?_⟩
  simp only [whole, first, second, ofText_result, hpass.report, Parsed.ofText_append hfront,
    LoadReport.add_def, List.length_append, List.length_map]
  rfl

/-- The second part declares again the group of the first, mentions it in its own next
    declaration, and has a line that is refused. -/
theorem split_text_loads_alike_group_declared_again :
    let front := "group \"G\" \x7bA\x7d\n$G > B\nB <\n".toList
    let back := "group \"G\" \x7bB, Ghost\x7d\n>\ngroup \"G\" \x7b$G, A\x7d\n$G ~ $G\nA x B".toList
    let lookup := (AbilityTable.ofList ["A", "B"]).get?
    let whole := ofText lookup .default (front ++ back)
    let first := ofText lookup .default front
    let second := ofText lookup .default back
    LoadConfig.default.clearExisting = false ∧ front.getLast? = some '\n' ∧
      Resolution.DeclaresItsGroups (Parsed.ofText back).statements ∧
      first.result = ⟨2, 1, 0, 1, 1, 0, false⟩ ∧ second.result = ⟨4, 1, 1, 2, 4, 1, false⟩ ∧
      whole.result = ⟨6, 2, 1, 3, 5, 1, false⟩ ∧
      whole.operations = first.operations ++ second.operations := by
  intro front back lookup whole first second
  have hfront : front.getLast? = some '\n' := by decide +kernel
  have hdeclares : Resolution.DeclaresItsGroups (Parsed.ofText back).statements := by
    decide +kernel
  have hfirst : first.result = ⟨2, 1, 0, 1, 1, 0, false⟩ := by decide +kernel
  have hsecond : second.result = ⟨4, 1, 1, 2, 4, 1, false⟩ := by decide +kernel
  obtain ⟨hoperations, -, hresult⟩ :=
    split_text_loads_alike lookup .default .empty rfl (.inr hfront) hdeclares
  refine ⟨rfl, hfront, hdeclares, hfirst, hsecond, ?_, hoperations⟩
  have hsum : whole.result = first.result + second.result := hresult
  rw [hsum, hfirst, hsecond]
  rfl

end Load

end CollisionRules
