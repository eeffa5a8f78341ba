import CollisionRules.Proofs.Resolution.Reachable

namespace CollisionRules

variable {H : Type} (known : H → Bool)

def Rule.isWithin (rule : Rule H) : Bool :=
  known rule.first && known rule.second

/-- An operation between known handles. Clearing names no handles. -/
def RuleOperation.isWithin : RuleOperation H → Bool
  | .register rule => rule.isWithin known
  | .eraseBetween a b => known a && known b
  | .clear => true

/-- The rules between known handles, in their order. -/
def RuleStore.restrict (store : RuleStore H) : RuleStore H :=
  ⟨store.rules.filter (Rule.isWithin known)⟩

namespace RuleStore

variable {known} [BEq H]

/-- An operation within the part does to the rules there what it does to all of them. -/
theorem restrict_apply_of_isWithin {operation : RuleOperation H}
    (hwithin : operation.isWithin known) (store : RuleStore H) :
    (store.apply operation).restrict known = (store.restrict known).apply operation := by
  cases operation with
  | register rule =>
    have hrule : rule.isWithin known := hwithin
    simp [apply, register, restrict, List.filter_append, hrule]
  | eraseBetween a b => simp [apply, eraseBetween, restrict, List.filter_filter, Bool.and_comm]
  | clear => rfl

variable {inScope : H → Prop} (hsame : ∀ a b, inScope a → inScope b → a == b → known a = known b)
include hsame

/-- Rules between two abilities are within the part if the two are. -/
theorem isWithin_of_isBetween {rule : Rule H} {a b : H}
    (hrule : inScope rule.first ∧ inScope rule.second) (ha : inScope a) (hb : inScope b)
    (hbetween : rule.isBetween a b) : rule.isWithin known = (known a && known b) := by
  simp only [Rule.isBetween, Bool.or_eq_true, Bool.and_eq_true] at hbetween
  rcases hbetween with ⟨hfirst, hsecond⟩ | ⟨hfirst, hsecond⟩
  · rw [Rule.isWithin, hsame _ _ hrule.1 ha hfirst, hsame _ _ hrule.2 hb hsecond]
  · rw [Rule.isWithin, hsame _ _ hrule.1 hb hfirst, hsame _ _ hrule.2 ha hsecond, Bool.and_comm]

/-- An operation that reaches outside the part leaves the rules there alone. -/
theorem restrict_apply_of_not_isWithin {store : RuleStore H} (hstore : store.IsAbout inScope)
    {operation : RuleOperation H} (hoperation : operation.IsAbout inScope)
    (houtside : operation.isWithin known = false) :
    (store.apply operation).restrict known = store.restrict known := by
  cases operation with
  | register rule =>
    have hrule : rule.isWithin known = false := houtside
    simp [apply, register, restrict, List.filter_append, hrule]
  | eraseBetween a b =>
    obtain ⟨ha, hb⟩ := hoperation
    simp only [apply, eraseBetween, restrict, List.filter_filter, RuleStore.mk.injEq]
    refine List.filter_congr fun rule hrule => ?_
    by_cases hbetween : rule.isBetween a b
    · rw [isWithin_of_isBetween hsame (hstore rule hrule) ha hb hbetween]
      simp [show (known a && known b) = false from houtside]
    · simp [hbetween]
  | clear => cases houtside

/-- Only the operations within the part make the rules there. -/
theorem restrict_applyAll {store : RuleStore H} (hstore : store.IsAbout inScope)
    {operations : List (RuleOperation H)}
    (hoperations : ∀ operation ∈ operations, operation.IsAbout inScope) :
    (store.applyAll operations).restrict known =
      (store.restrict known).applyAll (operations.filter (RuleOperation.isWithin known)) := by
  induction operations generalizing store with
  | nil => rfl
  | cons operation later ih =>
    obtain ⟨hfirst, hlater⟩ := List.forall_mem_cons.mp hoperations
    have hrun : (store.applyAll (operation :: later)).restrict known = _ :=
      ih (isAbout_apply hstore hfirst) hlater
    rw [hrun]
    by_cases hwithin : operation.isWithin known
    · rw [restrict_apply_of_isWithin hwithin, List.filter_cons_of_pos hwithin]
      rfl
    · rw [restrict_apply_of_not_isWithin hsame hstore hfirst (by simpa using hwithin),
        List.filter_cons_of_neg hwithin]

end RuleStore

end CollisionRules
