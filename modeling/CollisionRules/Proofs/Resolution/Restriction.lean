import CollisionRules.Proofs.Resolution.Account
import CollisionRules.Proofs.Rule.Restriction

namespace CollisionRules

variable {H : Type} (known : H → Bool)

namespace GroupTable

/-- The same groups with their known members, in order. -/
def restrict (table : GroupTable H) : GroupTable H :=
  ⟨table.bindings.map fun binding => (binding.1, binding.2.filter known)⟩

theorem get?_restrict (table : GroupTable H) (name : String) :
    (table.restrict known).get? name = (table.get? name).map (List.filter known) := by
  obtain ⟨bindings⟩ := table
  induction bindings with
  | nil => rfl
  | cons binding rest ih =>
    obtain ⟨first, members⟩ := binding
    simp only [get?, restrict] at ih ⊢
    by_cases hfirst : name = first
    · simp [hfirst]
    · simpa [List.lookup_cons, beq_false_of_ne hfirst] using ih

theorem restrict_bind (table : GroupTable H) (name : String) (members : List H) :
    (table.bind name members).restrict known =
      (table.restrict known).bind name (members.filter known) := by
  simp [bind, restrict, List.filter_map, Function.comp_def]

end GroupTable

namespace Resolution

/-- A change is within the known abilities when its pair is. -/
theorem isWithin_change (effect : Effect) (pair : H × H) :
    (change effect pair).isWithin known = (known pair.1 && known pair.2) := by
  cases effect <;> rfl

/-- Known handles on either side make the pairs of known handles, in the same order. -/
theorem pairs_filter (left right : List H) :
    pairs (left.filter known) (right.filter known) =
      (pairs left right).filter fun pair => known pair.1 && known pair.2 := by
  induction left with
  | nil => rfl
  | cons first rest ih =>
    have hrest : pairs (first :: rest) right = right.map (first, ·) ++ pairs rest right := rfl
    rw [hrest, List.filter_append, ← ih, List.filter_map]
    cases hfirst : known first <;> simp [hfirst, pairs, Function.comp_def]

variable {known} {smallLookup largeLookup : String → Option H}
  (hlookup : ∀ name, smallLookup name = (largeLookup name).filter known)
include hlookup

/-- An operand means to the smaller roster what is left of its meaning to the larger one, and what
    the larger does not know the smaller does not know either. -/
theorem evaluate_restrict (groups : GroupTable H) (operand : Operand) :
    (evaluate smallLookup (groups.restrict known) operand).getD [] =
        ((evaluate largeLookup groups operand).getD []).filter known ∧
      ((evaluate largeLookup groups operand).isNone →
        (evaluate smallLookup (groups.restrict known) operand).isNone) := by
  obtain ⟨kind, name, position⟩ := operand
  cases kind with
  | ability =>
    simp only [evaluate, Ability.resolve, hlookup]
    cases largeLookup (Ability.canonicalName name) with
    | none => simp
    | some h => cases hknown : known h <;> simp [Option.filter, hknown]
  | group =>
    simp only [evaluate, GroupTable.get?_restrict]
    cases groups.get? name <;> simp

/-- Members are restricted one by one. -/
theorem members_restrict (groups : GroupTable H) (operands : List Operand) :
    members smallLookup (groups.restrict known) operands =
      (members largeLookup groups operands).filter known := by
  simp only [members, List.filter_flatMap, (evaluate_restrict hlookup groups _).1]

/-- An operand that names nothing known to either pass is warned of in both. -/
theorem unresolved_sublist (groups : GroupTable H) (operands : List Operand) :
    (unresolved largeLookup groups operands).Sublist
      (unresolved smallLookup (groups.restrict known) operands) :=
  List.monotone_filter_right operands fun operand => (evaluate_restrict hlookup groups operand).2

omit hlookup

/-- A pass that has done the part of another one which is between known handles, and has warned
    of all that the other one has warned of. -/
structure IsRestrictionOf (known : H → Bool) (small large : Resolution H) : Prop where
  groups : small.groups = large.groups.restrict known
  operations : small.operations = large.operations.filter (RuleOperation.isWithin known)
  warned : (large.events.filter (·.isWarning)).Sublist (small.events.filter (·.isWarning))

variable {small large : Resolution H}

theorem isRestrictionOf_start : IsRestrictionOf known (start : Resolution H) start :=
  ⟨rfl, rfl, List.Sublist.refl _⟩

include hlookup

/-- A declaration binds the restricted members. -/
theorem IsRestrictionOf.declare (hpass : IsRestrictionOf known small large) (verbose : Bool)
    (declaration : GroupDeclaration) :
    IsRestrictionOf known (small.declare smallLookup verbose declaration)
      (large.declare largeLookup verbose declaration) := by
  by_cases hname : declaration.name.isEmpty
  · constructor
    · simp [Resolution.declare, hname, GroupTable.restrict_bind, hpass.groups]
    · simp [Resolution.declare, hname, hpass.operations]
    · simpa [Resolution.declare, hname, List.filter_append] using hpass.warned
  · have hmembers := members_restrict hlookup large.groups declaration.members
    have hunknown := unresolved_sublist hlookup large.groups declaration.members
    have hadded (members : List H) : ∀ event ∈ [Event.bound declaration.name members.length
        declaration.position.line], event.isWarning = false :=
      List.forall_mem_singleton.mpr rfl
    constructor
    · simp [Resolution.declare, hname, GroupTable.restrict_bind, hpass.groups, hmembers]
    · simp [Resolution.declare, hname, hpass.operations]
    · simp only [Resolution.declare, hname, Bool.false_eq_true, reduceIte, hpass.groups,
        List.append_assoc, List.filter_append, filter_isWarning_unresolved_append _ _ (hadded _)]
      exact hpass.warned.append (hunknown.map _)

theorem IsRestrictionOf.collide [ToString H] (hpass : IsRestrictionOf known small large)
    (verbose : Bool) (declaration : CollisionDeclaration) :
    IsRestrictionOf known (small.collide smallLookup verbose declaration)
      (large.collide largeLookup verbose declaration) := by
  obtain ⟨left, operator, right⟩ := declaration
  have hunknown := unresolved_sublist hlookup large.groups [left, right]
  have hadded (pairs : List (H × H)) :
      ∀ event ∈ pairs.map (changeEvent operator.effect), event.isWarning = false :=
    List.forall_mem_map.mpr fun pair _ => not_isWarning_changeEvent _ pair
  constructor
  · exact hpass.groups
  · simp [Resolution.collide, hpass.groups, hpass.operations, members_restrict hlookup,
      pairs_filter, List.filter_map, Function.comp_def, isWithin_change]
  · simp only [Resolution.collide, hpass.groups, List.append_assoc, List.filter_append,
      filter_isWarning_unresolved_append _ _ (hadded _)]
    exact hpass.warned.append (hunknown.map _)

/-- What one statement does to the two passes. -/
theorem IsRestrictionOf.apply [ToString H] (hpass : IsRestrictionOf known small large)
    (verbose : Bool) (statement : Statement) :
    IsRestrictionOf known (small.apply smallLookup verbose statement)
      (large.apply largeLookup verbose statement) := by
  cases statement with
  | empty => exact hpass
  | group declaration => exact hpass.declare hlookup verbose declaration
  | collision declaration => exact hpass.collide hlookup verbose declaration

theorem IsRestrictionOf.applyAll [ToString H] (hpass : IsRestrictionOf known small large)
    (verbose : Bool) (statements : List Statement) :
    IsRestrictionOf known (small.applyAll smallLookup verbose statements)
      (large.applyAll largeLookup verbose statements) := by
  induction statements generalizing small large with
  | nil => exact hpass
  | cons statement rest ih => exact ih (hpass.apply hlookup verbose statement)

end Resolution

end CollisionRules
