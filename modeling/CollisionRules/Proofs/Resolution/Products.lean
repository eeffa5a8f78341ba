import CollisionRules.Proofs.Resolution.Value
import Mathlib.Data.List.ProdSigma

namespace CollisionRules.Resolution

variable {H : Type}

/-- The changes that statement `k` asks for: the effect of its operator on every pair
    of its sides, the left side outermost. Only a collision asks for any. -/
def operationsAt (lookup : String → Option H) (statements : List Statement) (k : Nat) :
    List (RuleOperation H) :=
  match statements[k]? with
  | some (.collision declaration) =>
    (valueAt lookup statements k declaration.left ×ˢ
      valueAt lookup statements k declaration.right).map (change declaration.operator.effect)
  | _ => []

/-- A pass that has met the first `k` statements of a program: its groups have the
    values of their latest declarations, and its changes are those of the statements
    met. -/
structure HasMet (lookup : String → Option H) (statements : List Statement) (k : Nat)
    (pass : Resolution H) : Prop where
  groups : ∀ name, pass.groups.get? name =
    (latestGroup? statements name k).map (declaredValue lookup statements)
  distinct : pass.groups.names.Nodup
  operations : pass.operations = (List.range k).flatMap (operationsAt lookup statements)

theorem hasMet_start (lookup : String → Option H) (statements : List Statement) :
    HasMet lookup statements 0 start where
  groups _ := GroupTable.get?_empty _
  distinct := List.nodup_nil
  operations := rfl

namespace HasMet

variable {lookup : String → Option H} {statements : List Statement} {k : Nat}
  {pass : Resolution H}

/-- The table of the pass gives an operand the value it has by position. -/
theorem evaluate_getD (hmet : HasMet lookup statements k pass) (operand : Operand) :
    (evaluate lookup pass.groups operand).getD [] = valueAt lookup statements k operand := by
  cases hkind : operand.kind with
  | ability =>
    rw [evaluate, hkind, valueAt_of_ability lookup statements k hkind]
    simp only [Ability.resolve]
    cases lookup (Ability.canonicalName operand.name) <;> rfl
  | group =>
    rw [evaluate, hkind, valueAt_of_group lookup statements k hkind]
    exact congrArg (·.getD []) (hmet.groups operand.name)

/-- The table of the pass gives operands the members that they have by position. -/
theorem members_eq (hmet : HasMet lookup statements k pass) (operands : List Operand) :
    members lookup pass.groups operands = operands.flatMap (valueAt lookup statements k) := by
  simp only [members, hmet.evaluate_getD]

/-- Binding what statement `k` declares keeps the table in step. -/
theorem bind (hmet : HasMet lookup statements k pass) {declaration : GroupDeclaration}
    (hget : statements[k]? = some (.group declaration)) {next : Resolution H}
    (hgroups : next.groups =
      pass.groups.bind declaration.name (declaredValue lookup statements (k, declaration)))
    (hoperations : next.operations = pass.operations) :
    HasMet lookup statements (k + 1) next where
  groups name := by
    rw [hgroups, GroupTable.get?_bind]
    obtain ⟨found, hfound, hname, hlatest⟩ | ⟨hnot, hskip⟩ :=
      latestGroup?_succ_cases statements name k
    · obtain rfl : declaration = found := by simpa [hget] using hfound
      rw [if_pos hname.symm, hlatest]
      rfl
    · rw [if_neg (hnot declaration hget).symm, hskip, hmet.groups]
  distinct := by
    rw [hgroups]
    exact GroupTable.nodup_names_bind hmet.distinct _ _
  operations := by
    have hnone : operationsAt lookup statements k = [] := by simp [operationsAt, hget]
    simp [hoperations, hmet.operations, List.range_succ, hnone]

/-- A statement that declares no group leaves the table as it is. -/
theorem keep (hmet : HasMet lookup statements k pass)
    (hget : ∀ declaration, statements[k]? ≠ some (.group declaration)) {next : Resolution H}
    (hgroups : next.groups = pass.groups)
    (hoperations : next.operations = pass.operations ++ operationsAt lookup statements k) :
    HasMet lookup statements (k + 1) next where
  groups name := by
    obtain ⟨found, hfound, _⟩ | ⟨_, hskip⟩ := latestGroup?_succ_cases statements name k
    · exact absurd hfound (hget found)
    · rw [hgroups, hskip, hmet.groups]
  distinct := by rw [hgroups]; exact hmet.distinct
  operations := by simp [hoperations, hmet.operations, List.range_succ]

/-- One more statement. -/
theorem apply [ToString H] (hmet : HasMet lookup statements k pass) (verbose : Bool)
    {statement : Statement} (hget : statements[k]? = some statement) :
    HasMet lookup statements (k + 1) (pass.apply lookup verbose statement) := by
  cases statement with
  | empty =>
    refine hmet.keep (by simp [hget]) rfl ?_
    simp [Resolution.apply, operationsAt, hget]
  | group declaration =>
    by_cases hname : declaration.name = ""
    · refine hmet.bind hget ?_ ?_
      · simp [Resolution.apply, declare, declaredValue, hname]
      · simp [Resolution.apply, declare, hname]
    · refine hmet.bind hget ?_ ?_
      · simp [Resolution.apply, declare, declaredValue, hname, hmet.members_eq]
      · simp [Resolution.apply, declare, hname]
  | collision declaration =>
    refine hmet.keep (by simp [hget]) rfl ?_
    have hleft := hmet.members_eq [declaration.left]
    have hright := hmet.members_eq [declaration.right]
    simp only [List.flatMap_singleton] at hleft hright
    simp only [Resolution.apply, collide, hleft, hright, operationsAt, hget]
    rfl

end HasMet

/-- Each statement is applied to what the pass over those before it has come to. -/
theorem ofStatements_take_succ [ToString H] (lookup : String → Option H) (verbose : Bool)
    {statements : List Statement} {k : Nat} (hk : k < statements.length) :
    ofStatements lookup verbose (statements.take (k + 1)) =
      (ofStatements lookup verbose (statements.take k)).apply lookup verbose statements[k] := by
  rw [List.take_succ_eq_append_getElem hk, ofStatements, applyAll, List.foldl_append]
  rfl

/-- Any number of statements, as long as the program has them. -/
theorem HasMet.applyAll_take [ToString H] (lookup : String → Option H) (verbose : Bool)
    (statements : List Statement) {k : Nat} (hk : k ≤ statements.length) :
    HasMet lookup statements k (ofStatements lookup verbose (statements.take k)) := by
  induction k with
  | zero => exact hasMet_start lookup statements
  | succ k ih =>
    have hlt : k < statements.length := hk
    rw [ofStatements_take_succ lookup verbose hlt]
    exact (ih (by omega)).apply verbose (List.getElem?_eq_getElem hlt)

/-- A statement only adds to the changes asked for so far. -/
theorem operations_prefix_apply [ToString H] (lookup : String → Option H) (verbose : Bool)
    (pass : Resolution H) (statement : Statement) :
    pass.operations <+: (pass.apply lookup verbose statement).operations := by
  cases statement with
  | empty => exact List.prefix_refl _
  | group declaration =>
    simp only [apply, declare]
    split <;> exact List.prefix_refl _
  | collision declaration => exact List.prefix_append _ _

/-- A pass never takes back what it has asked for. -/
theorem operations_prefix_applyAll [ToString H] (lookup : String → Option H) (verbose : Bool)
    (pass : Resolution H) (statements : List Statement) :
    pass.operations <+: (pass.applyAll lookup verbose statements).operations := by
  induction statements generalizing pass with
  | nil => exact List.prefix_refl _
  | cons statement rest ih =>
    exact (operations_prefix_apply lookup verbose pass statement).trans (ih _)

/-- A pass asks for the products of its collisions, statement by statement, each side
    with the value it has at that place of the program. It ends with the groups that
    are declared, each bound once and to the value of its last declaration, and no
    statement that follows takes back or alters a change asked for before it. -/
theorem ofStatements_eq_products [ToString H] (lookup : String → Option H) (verbose : Bool)
    (statements : List Statement) :
    let pass := ofStatements lookup verbose statements
    pass.operations = (List.range statements.length).flatMap (operationsAt lookup statements) ∧
      (∀ name, pass.groups.get? name =
        (latestGroup? statements name statements.length).map (declaredValue lookup statements)) ∧
      pass.groups.names.Nodup ∧
      (∀ name, name ∈ pass.groups.names ↔
        ∃ declaration, .group declaration ∈ statements ∧ declaration.name = name) ∧
      ∀ later, pass.operations <+: (ofStatements lookup verbose (statements ++ later)).operations := by
  intro pass
  have hmet : HasMet lookup statements statements.length pass := by
    simpa using HasMet.applyAll_take lookup verbose statements (Nat.le_refl _)
  refine ⟨hmet.operations, hmet.groups, hmet.distinct, fun name => ?_, fun later => ?_⟩
  · rw [GroupTable.mem_names_iff, hmet.groups, Option.isSome_map, latestGroup?_isSome_iff]
    constructor
    · rintro ⟨j, declaration, _, hget, hname⟩
      exact ⟨declaration, List.mem_of_getElem? hget, hname⟩
    · rintro ⟨declaration, hmem, hname⟩
      obtain ⟨j, hget⟩ := List.mem_iff_getElem?.mp hmem
      exact ⟨j, declaration, (List.getElem?_eq_some_iff.mp hget).1, hget, hname⟩
  · have hsplit : ofStatements lookup verbose (statements ++ later) =
        pass.applyAll lookup verbose later := List.foldl_append
    rw [hsplit]
    exact operations_prefix_applyAll lookup verbose pass later

end CollisionRules.Resolution
