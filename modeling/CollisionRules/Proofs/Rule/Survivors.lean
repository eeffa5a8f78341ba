import CollisionRules.Ability
import CollisionRules.Rule
import Mathlib.Data.Sym.Sym2

namespace CollisionRules

variable {H : Type} [BEq H] [EquivBEq H]

/-- Handles are the same when `==` says so. -/
def sameHandle (H : Type) [BEq H] [EquivBEq H] : Setoid H where
  r a b := a == b
  iseqv := ⟨fun _ => BEq.rfl, fun h => BEq.symm h, fun h k => BEq.trans h k⟩

/-- Two handles in no order, each as good as any that is the same. -/
def pairOf (a b : H) : Sym2 (Quotient (sameHandle H)) :=
  s(Quotient.mk _ a, Quotient.mk _ b)

/-- Neither of two abilities comes first in a pair. -/
theorem pairOf_comm (a b : H) : pairOf a b = pairOf b a :=
  Sym2.eq_swap

theorem pairOf_eq_iff {a b c d : H} :
    pairOf a b = pairOf c d ↔ (a == c ∧ b == d) ∨ (a == d ∧ b == c) := by
  have hmk (x y : H) : Quotient.mk (sameHandle H) x = Quotient.mk _ y ↔ x == y :=
    ⟨Quotient.exact, fun h => Quotient.sound h⟩
  simp only [pairOf, Sym2.eq_iff, hmk]

/-- The abilities that a rule is between. -/
def Rule.pair (rule : Rule H) : Sym2 (Quotient (sameHandle H)) :=
  pairOf rule.first rule.second

/-- A rule is between two abilities when they are its pair. -/
theorem Rule.isBetween_iff {rule : Rule H} {a b : H} :
    rule.isBetween a b ↔ rule.pair = pairOf a b := by
  simp [isBetween, pair, pairOf_eq_iff]

instance (rule : Rule H) (a b : H) : Decidable (rule.pair = pairOf a b) :=
  decidable_of_iff _ Rule.isBetween_iff

/-- What an operation takes out of any store: a clearing takes every rule, and a deletion
    every rule between the abilities it names. -/
def RuleOperation.Drops (rule : Rule H) : RuleOperation H → Prop
  | .register _ => False
  | .eraseBetween a b => rule.pair = pairOf a b
  | .clear => True

instance (rule : Rule H) (operation : RuleOperation H) : Decidable (operation.Drops rule) :=
  match operation with
  | .register _ => inferInstanceAs (Decidable False)
  | .eraseBetween a b => inferInstanceAs (Decidable (rule.pair = pairOf a b))
  | .clear => inferInstanceAs (Decidable True)

/-- None of the operations takes the rule out. -/
def Rule.Survives (rule : Rule H) (operations : List (RuleOperation H)) : Prop :=
  ∀ operation ∈ operations, ¬ operation.Drops rule

instance (rule : Rule H) (operations : List (RuleOperation H)) :
    Decidable (rule.Survives operations) :=
  inferInstanceAs (Decidable (∀ operation ∈ operations, ¬ operation.Drops rule))

/-- A rule survives when no later operation drops it. -/
theorem Rule.survives_cons {rule : Rule H} {operation : RuleOperation H}
    {later : List (RuleOperation H)} :
    rule.Survives (operation :: later) ↔ ¬ operation.Drops rule ∧ rule.Survives later :=
  List.forall_mem_cons

/-- The rule that an operation registers. -/
def RuleOperation.registered? {H : Type} : RuleOperation H → Option (Rule H)
  | .register rule => some rule
  | .eraseBetween _ _ | .clear => none

/-- The rules that operations register, in order, each with the operations after it. -/
def registrations {H : Type} (operations : List (RuleOperation H)) :
    List (Rule H × List (RuleOperation H)) :=
  operations.tails.filterMap fun
    | [] => none
    | operation :: later => operation.registered?.map (·, later)

theorem registrations_cons {H : Type} (operation : RuleOperation H)
    (later : List (RuleOperation H)) :
    registrations (operation :: later) =
      (operation.registered?.map (·, later)).toList ++ registrations later := by
  cases operation <;> rfl

namespace RuleStore

/-- A deletion leaves every rule between other abilities, in its place. -/
theorem rules_eraseBetween (store : RuleStore H) (a b : H) :
    (store.eraseBetween a b).rules = store.rules.filter fun rule => rule.pair ≠ pairOf a b := by
  simp [eraseBetween, ← Rule.isBetween_iff]

/-- One operation keeps the rules that it does not take out, in their order, and puts the
    rule that it registers behind them. -/
theorem rules_apply (store : RuleStore H) (operation : RuleOperation H) :
    (store.apply operation).rules =
      store.rules.filter (fun rule => ¬ operation.Drops rule) ++ operation.registered?.toList := by
  cases operation with
  | register rule => simp [apply, register, RuleOperation.Drops, RuleOperation.registered?]
  | eraseBetween a b =>
    simp [apply, eraseBetween, RuleOperation.Drops, RuleOperation.registered?, ← Rule.isBetween_iff]
  | clear => simp [apply, empty, RuleOperation.Drops, RuleOperation.registered?]

/-- By induction on the operations: what the first one leaves is up to the later ones. -/
theorem rules_applyAll (store : RuleStore H) (operations : List (RuleOperation H)) :
    (store.applyAll operations).rules =
      store.rules.filter (fun rule => rule.Survives operations) ++
        ((registrations operations).filter fun entry => entry.1.Survives entry.2).map Prod.fst := by
  induction operations generalizing store with
  | nil => simp [applyAll, registrations, Rule.Survives]
  | cons operation later ih =>
    have hrun : (store.applyAll (operation :: later)).rules = _ := ih (store.apply operation)
    have hkept : (store.rules.filter fun rule => ¬ operation.Drops rule).filter
        (fun rule => rule.Survives later) =
          store.rules.filter fun rule => rule.Survives (operation :: later) := by
      simp [List.filter_filter, Rule.survives_cons, and_comm]
    have hnew : operation.registered?.toList.filter (fun rule => rule.Survives later) =
        ((operation.registered?.map (·, later)).toList.filter
          fun entry => entry.1.Survives entry.2).map Prod.fst := by
      cases operation.registered? with
      | none => rfl
      | some rule => by_cases hrule : rule.Survives later <;> simp [hrule]
    rw [hrun, rules_apply, registrations_cons, List.filter_append, hkept, hnew, List.append_assoc,
      List.filter_append, List.map_append]

/-- The number that a deletion gives back is that of the rules it takes out. -/
theorem erasedBetween_eq_countP (store : RuleStore H) (a b : H) :
    store.erasedBetween a b = store.rules.countP fun rule => rule.pair = pairOf a b := by
  have hsplit := List.length_eq_countP_add_countP (fun rule => rule.isBetween a b) (l := store.rules)
  have hleft : (store.eraseBetween a b).size =
      store.rules.countP fun rule => ¬ rule.isBetween a b := by
    simp [eraseBetween, size, List.countP_eq_length_filter]
  have hcount : store.rules.countP (fun rule => rule.pair = pairOf a b) =
      store.rules.countP fun rule => rule.isBetween a b := by
    simp [← Rule.isBetween_iff]
  rw [erasedBetween, hleft, hcount, size]
  omega

/-- No rule is left between two abilities once those between them are deleted. -/
theorem between_eraseBetween {store : RuleStore H} {a b c d : H} (hpair : pairOf a b = pairOf c d) :
    (store.eraseBetween a b).between c d = [] := by
  rw [between, List.filter_eq_nil_iff]
  intro rule hrule hbetween
  rw [Rule.isBetween_iff, ← hpair, ← Rule.isBetween_iff] at hbetween
  have hkept := List.of_mem_filter hrule
  simp [hbetween] at hkept

/-- What a deletion gives back. -/
def returned {H : Type} [BEq H] (store : RuleStore H) : RuleOperation H → Nat
  | .eraseBetween a b => store.erasedBetween a b
  | .register _ | .clear => 0

/-- The number of rules that a clearing drops. -/
def cleared {H : Type} (store : RuleStore H) : RuleOperation H → Nat
  | .clear => store.size
  | .register _ | .eraseBetween _ _ => 0

/-- The sum of an amount over a run, each operation taken in the store that it meets. -/
def total {H : Type} [BEq H] (amount : RuleStore H → RuleOperation H → Nat) (store : RuleStore H) :
    List (RuleOperation H) → Nat
  | [] => 0
  | operation :: later => amount store operation + total amount (store.apply operation) later

omit [EquivBEq H] in
/-- One operation changes the size of a store by what it registers, gives back and drops. -/
theorem size_apply (store : RuleStore H) (operation : RuleOperation H) :
    (store.apply operation).size + store.returned operation + store.cleared operation =
      store.size + operation.registered?.toList.length := by
  cases operation with
  | register rule => simp [apply, register, size, returned, cleared, RuleOperation.registered?]
  | eraseBetween a b =>
    have hle : (store.eraseBetween a b).size ≤ store.size := List.length_filter_le _ _
    simp only [apply, returned, cleared, erasedBetween, RuleOperation.registered?,
      Option.toList_none, List.length_nil]
    omega
  | clear => simp [apply, empty, size, returned, cleared, RuleOperation.registered?]

omit [EquivBEq H] in
/-- All that was ever registered is there still, or was deleted or cleared away. -/
theorem size_applyAll (store : RuleStore H) (operations : List (RuleOperation H)) :
    (store.applyAll operations).size + store.total returned operations +
        store.total cleared operations =
      store.size + (registrations operations).length := by
  induction operations generalizing store with
  | nil => simp [applyAll, total, registrations]
  | cons operation later ih =>
    have hstep := size_apply store operation
    have hrun := ih (store.apply operation)
    have happly : store.applyAll (operation :: later) = (store.apply operation).applyAll later := rfl
    have hcount : (registrations (operation :: later)).length =
        operation.registered?.toList.length + (registrations later).length := by
      rw [registrations_cons, List.length_append]
      cases operation.registered? <;> rfl
    rw [happly, hcount, total, total]
    omega

/-- After a run of operations a store holds the rules it held at first and those that were
    registered, in this order and as often, without those that a later operation takes
    out. A deletion gives back the number of rules it takes out; it leaves none between
    its two abilities, whichever is named first, and every other rule in its place. So at
    every moment of the run the rules held, those deleted and those dropped by clearings
    are together as many as there were at first and have been registered since. -/
theorem run_keeps_survivors (store : RuleStore H) (operations : List (RuleOperation H)) :
    (store.applyAll operations).rules =
        store.rules.filter (fun rule => rule.Survives operations) ++
          ((registrations operations).filter fun entry => entry.1.Survives entry.2).map Prod.fst ∧
      (∀ (met : RuleStore H) (a b : H),
        let left := met.eraseBetween a b
        met.erasedBetween a b = met.rules.countP (fun rule => rule.pair = pairOf a b) ∧
          left.between a b = [] ∧ left.between b a = [] ∧
          left.rules = met.rules.filter fun rule => rule.pair ≠ pairOf a b) ∧
      ∀ moment,
        let sofar := operations.take moment
        (store.applyAll sofar).size + store.total returned sofar + store.total cleared sofar =
          store.size + (registrations sofar).length := by
  refine ⟨rules_applyAll store operations, fun met a b => ?_, fun moment => ?_⟩
  · exact ⟨erasedBetween_eq_countP met a b, between_eraseBetween rfl,
      between_eraseBetween (pairOf_comm a b), rules_eraseBetween met a b⟩
  · exact size_applyAll store (operations.take moment)

/-- A deletion names the handles the other way round and by other names; a rule of an
    ability with itself is none of those it takes out, and neither is one registered
    later. -/
theorem run_keeps_survivors_other_names :
    let a : Ability := ⟨0, "A"⟩
    let b : Ability := ⟨1, "B"⟩
    let store : RuleStore Ability := ⟨[⟨a, b, false, true⟩]⟩
    let operations : List (RuleOperation Ability) :=
      [.register ⟨b, a, true, true⟩, .register ⟨a, a, true, false⟩, .register ⟨a, a, true, false⟩,
        .eraseBetween ⟨1, "Beta"⟩ ⟨0, "Alpha"⟩, .register ⟨a, b, false, false⟩]
    let final := store.applyAll operations
    final.rules = [⟨a, a, true, false⟩, ⟨a, a, true, false⟩, ⟨a, b, false, false⟩] ∧
      store.total returned operations = 2 ∧ final.size + 2 = store.size + 4 := by
  intro a b store operations final
  obtain ⟨hrules, -, hsize⟩ := run_keeps_survivors store operations
  exact ⟨hrules, rfl, hsize operations.length⟩

end RuleStore

end CollisionRules
