import CollisionRules.Rule

namespace CollisionRules

variable {H : Type}

namespace Rule

/-- The rule with its two sides exchanged, and with them which side is removed. -/
def mirror (rule : Rule H) : Rule H :=
  ⟨rule.second, rule.first, rule.removeSecond, rule.removeFirst⟩

theorem isBetween_mirror [BEq H] (a b : H) (rule : Rule H) :
    rule.mirror.isBetween b a = rule.isBetween a b := by
  simp only [isBetween, mirror, Bool.and_comm]

end Rule

/-- The operation on the rule, or between the abilities, with the two sides exchanged. -/
def RuleOperation.mirror : RuleOperation H → RuleOperation H
  | .register rule => .register rule.mirror
  | .eraseBetween a b => .eraseBetween b a
  | .clear => .clear

namespace RuleStore

/-- The store with the two sides of every rule exchanged. -/
def mirror (store : RuleStore H) : RuleStore H :=
  ⟨store.rules.map Rule.mirror⟩

/-- The same rules, each as often, in any order. -/
def SameRules (store other : RuleStore H) : Prop :=
  store.rules.Perm other.rules

theorem SameRules.refl (store : RuleStore H) : store.SameRules store :=
  List.Perm.refl _

theorem SameRules.trans {store middle other : RuleStore H} (h : store.SameRules middle)
    (hother : middle.SameRules other) : store.SameRules other :=
  List.Perm.trans h hother

variable [BEq H]

/-- An operation and its mirror image do the same to a store and its image. -/
theorem mirror_apply (store : RuleStore H) (operation : RuleOperation H) :
    (store.apply operation).mirror = store.mirror.apply operation.mirror := by
  cases operation with
  | register rule => simp [apply, register, mirror, RuleOperation.mirror]
  | eraseBetween a b =>
    simp [apply, eraseBetween, mirror, RuleOperation.mirror, List.filter_map, Function.comp_def,
      Rule.isBetween_mirror]
  | clear => rfl

theorem mirror_applyAll (store : RuleStore H) (operations : List (RuleOperation H)) :
    (store.applyAll operations).mirror =
      store.mirror.applyAll (operations.map RuleOperation.mirror) := by
  induction operations generalizing store with
  | nil => rfl
  | cons operation later ih =>
    have hrun : (store.applyAll (operation :: later)).mirror = _ := ih (store.apply operation)
    rw [hrun, mirror_apply]
    rfl

/-- No operation looks at the order of the rules. -/
theorem SameRules.apply {store other : RuleStore H} (h : store.SameRules other)
    (operation : RuleOperation H) : (store.apply operation).SameRules (other.apply operation) := by
  cases operation with
  | register rule => exact List.Perm.append_right [rule] h
  | eraseBetween a b => exact List.Perm.filter _ h
  | clear => exact .refl _

/-- Equal rules in any order stay so under the same operations. -/
theorem SameRules.applyAll {store other : RuleStore H} (h : store.SameRules other)
    (operations : List (RuleOperation H)) :
    (store.applyAll operations).SameRules (other.applyAll operations) := by
  induction operations generalizing store other with
  | nil => exact h
  | cons operation later ih => exact ih (h.apply operation)

/-- Whichever of the two operations comes first, the same rules are left. -/
def Interchange (a b : RuleOperation H) : Prop :=
  ∀ store : RuleStore H, ((store.apply a).apply b).SameRules ((store.apply b).apply a)

theorem interchange_register (rule other : Rule H) :
    Interchange (.register rule) (.register other) := by
  intro store
  have hswap : [rule, other].Perm [other, rule] := .swap other rule []
  simpa [SameRules, apply, register] using hswap.append_left store.rules

/-- Two deletions may change places. -/
theorem interchange_eraseBetween (a b c d : H) :
    Interchange (.eraseBetween a b) (.eraseBetween c d) := by
  intro store
  simp only [SameRules, apply, eraseBetween, List.filter_filter, Bool.and_comm]
  exact .refl _

/-- Operations any two of which can change places leave the same rules in any order. -/
theorem sameRules_applyAll_of_perm {operations others : List (RuleOperation H)}
    (hperm : operations.Perm others)
    (hfree : ∀ a ∈ operations, ∀ b ∈ operations, Interchange a b) (store : RuleStore H) :
    (store.applyAll operations).SameRules (store.applyAll others) := by
  induction hperm generalizing store with
  | nil => exact .refl _
  | cons operation _ ih =>
    exact ih (fun a ha b hb => hfree a (List.mem_cons_of_mem _ ha) b (List.mem_cons_of_mem _ hb))
      (store.apply operation)
  | swap second first later =>
    have hswap := hfree first List.mem_cons_self second (List.mem_cons_of_mem _ List.mem_cons_self)
    exact SameRules.applyAll (hswap store) later
  | trans hfront _ ihfront ihback =>
    refine (ihfront hfree store).trans (ihback (fun a ha b hb => ?_) store)
    exact hfree a (hfront.mem_iff.mpr ha) b (hfront.mem_iff.mpr hb)

end RuleStore

end CollisionRules
