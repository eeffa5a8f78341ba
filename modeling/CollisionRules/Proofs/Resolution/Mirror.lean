import CollisionRules.Proofs.Rule.Mirror
import CollisionRules.Resolution
import Mathlib.Data.List.Perm.Basic

namespace CollisionRules

variable {H : Type}

/-- The operator that does to exchanged sides what this one does. -/
def Operator.mirror : Operator → Operator
  | .greater => .less
  | .less => .greater
  | .equal => .equal
  | .tilde => .tilde
  | .cross => .cross

/-- The effect on a pair that is its effect on the pair with its sides exchanged. -/
def Effect.mirror : Effect → Effect
  | .erase => .erase
  | .register removeFirst removeSecond => .register removeSecond removeFirst

theorem Operator.effect_mirror (operator : Operator) :
    operator.mirror.effect = operator.effect.mirror := by
  cases operator <;> rfl

def CollisionDeclaration.mirror (declaration : CollisionDeclaration) : CollisionDeclaration :=
  ⟨declaration.right, declaration.operator.mirror, declaration.left⟩

/-- The statement with the two sides of a collision exchanged. -/
def Statement.mirror : Statement → Statement
  | .empty => .empty
  | .group declaration => .group declaration
  | .collision declaration => .collision declaration.mirror

namespace Resolution

open RuleStore

/-- The mirrored change is that of the mirrored effect for the pair turned round. -/
theorem change_mirror (effect : Effect) (pair : H × H) :
    change effect.mirror pair.swap = (change effect pair).mirror := by
  cases effect <;> rfl

theorem countChanges_mirror (effect : Effect) (count : Nat) (report : LoadReport) :
    countChanges effect.mirror count report = countChanges effect count report := by
  cases effect <;> rfl

/-- Changes that one effect makes for two pairs may change places. -/
theorem interchange_change [BEq H] (effect : Effect) (pair other : H × H) :
    Interchange (change effect pair) (change effect other) := by
  cases effect with
  | erase => exact interchange_eraseBetween _ _ _ _
  | register removeFirst removeSecond => exact interchange_register _ _

/-- Either side outermost, there are the same pairs. -/
theorem pairs_swap_perm (left right : List H) :
    (pairs right left).Perm ((pairs left right).map Prod.swap) := by
  induction left with
  | nil => simp [pairs]
  | cons first rest ih =>
    have hsplit : (pairs right (first :: rest)).Perm
        (right.map (·, first) ++ pairs right rest) :=
      (List.map_append_flatMap_perm right (·, first) fun second => rest.map (second, ·)).symm
    have hmirror : (pairs (first :: rest) right).map Prod.swap =
        right.map (·, first) ++ (pairs rest right).map Prod.swap := by
      simp [pairs, Function.comp_def]
    rw [hmirror]
    exact hsplit.trans (ih.append_left _)

/-- The changes that a mirrored collision asks for are the mirrored ones, in some order. -/
theorem map_change_mirror_perm (effect : Effect) (left right : List H) :
    ((pairs right left).map (change effect.mirror)).Perm
      (((pairs left right).map (change effect)).map RuleOperation.mirror) := by
  have hpairs := (pairs_swap_perm left right).map (change effect.mirror)
  rwa [List.map_map, show change effect.mirror ∘ Prod.swap = RuleOperation.mirror ∘ change effect
    from funext (change_mirror effect), ← List.map_map] at hpairs

/-- What a mirrored collision leaves of a mirrored store. -/
theorem sameRules_changes_mirror [BEq H] (effect : Effect) (left right : List H)
    (store : RuleStore H) :
    (store.mirror.applyAll ((pairs right left).map (change effect.mirror))).SameRules
      (store.applyAll ((pairs left right).map (change effect))).mirror := by
  rw [mirror_applyAll]
  refine sameRules_applyAll_of_perm (map_change_mirror_perm effect left right) ?_ store.mirror
  intro a ha b hb
  obtain ⟨pair, _, rfl⟩ := List.mem_map.mp ha
  obtain ⟨other, _, rfl⟩ := List.mem_map.mp hb
  exact interchange_change effect.mirror pair other

/-- A pass that has bound the groups of another one and counted what that one has, and that
    leaves of a mirrored store the mirrored rules. -/
structure IsMirrorOf [BEq H] (mirrored pass : Resolution H) : Prop where
  groups : mirrored.groups = pass.groups
  report : mirrored.report = pass.report
  rules : ∀ store : RuleStore H, (store.mirror.applyAll mirrored.operations).SameRules
    (store.applyAll pass.operations).mirror

variable [BEq H] {mirrored pass : Resolution H}

theorem isMirrorOf_start : IsMirrorOf (start : Resolution H) start :=
  ⟨rfl, rfl, fun _ => .refl _⟩

/-- A declaration of a group has nothing to mirror. -/
theorem IsMirrorOf.declare (hpass : IsMirrorOf mirrored pass) (lookup : String → Option H)
    (verbose : Bool) (declaration : GroupDeclaration) :
    IsMirrorOf (mirrored.declare lookup verbose declaration)
      (pass.declare lookup verbose declaration) := by
  constructor
  · simp only [Resolution.declare, hpass.groups]
    split <;> rfl
  · simp only [Resolution.declare, hpass.groups, hpass.report]
    split <;> rfl
  · simpa only [declare_operations] using hpass.rules

/-- A mirrored collision asks for the mirrored changes, in some other order. -/
theorem IsMirrorOf.collide [ToString H] (hpass : IsMirrorOf mirrored pass)
    (lookup : String → Option H) (verbose : Bool) (declaration : CollisionDeclaration) :
    IsMirrorOf (mirrored.collide lookup verbose declaration.mirror)
      (pass.collide lookup verbose declaration) := by
  obtain ⟨left, operator, right⟩ := declaration
  have hunknown : (unresolved lookup pass.groups [right, left]).length =
      (unresolved lookup pass.groups [left, right]).length :=
    ((List.Perm.swap left right []).filter _).length_eq
  constructor
  · exact hpass.groups
  · have hcount := (pairs_swap_perm (members lookup pass.groups [left])
      (members lookup pass.groups [right])).length_eq
    rw [List.length_map] at hcount
    simp only [Resolution.collide, CollisionDeclaration.mirror, Operator.effect_mirror,
      countChanges_mirror, hpass.groups, hpass.report, hunknown, hcount]
  · intro store
    simp only [Resolution.collide, CollisionDeclaration.mirror, Operator.effect_mirror,
      hpass.groups, applyAll_append]
    exact ((hpass.rules store).applyAll _).trans (sameRules_changes_mirror _ _ _ _)

/-- What one statement does to the two passes. -/
theorem IsMirrorOf.apply [ToString H] (hpass : IsMirrorOf mirrored pass)
    (lookup : String → Option H) (verbose : Bool) (statement : Statement) :
    IsMirrorOf (mirrored.apply lookup verbose statement.mirror)
      (pass.apply lookup verbose statement) := by
  cases statement with
  | empty => exact hpass
  | group declaration => exact hpass.declare lookup verbose declaration
  | collision declaration => exact hpass.collide lookup verbose declaration

/-- A mirrored program mirrors all that its passes come to. -/
theorem IsMirrorOf.applyAll [ToString H] (hpass : IsMirrorOf mirrored pass)
    (lookup : String → Option H) (verbose : Bool) (statements : List Statement) :
    IsMirrorOf (mirrored.applyAll lookup verbose (statements.map Statement.mirror))
      (pass.applyAll lookup verbose statements) := by
  induction statements generalizing mirrored pass with
  | nil => exact hpass
  | cons statement rest ih => exact ih (hpass.apply lookup verbose statement)

/-- Mirroring a program mirrors its rules. Exchange the two sides of every collision, and `>`
    with `<`: a pass over this program binds the same groups and gives the same report, and
    from an empty store it leaves the same rules with their sides exchanged, each as often,
    though maybe in another order. Nothing is asked of how handles compare. -/
theorem mirrored_program_mirrors_rules [ToString H] (lookup : String → Option H) (verbose : Bool)
    (statements : List Statement) :
    let pass := ofStatements lookup verbose statements
    let mirrored := ofStatements lookup verbose (statements.map Statement.mirror)
    mirrored.groups = pass.groups ∧ mirrored.report = pass.report ∧
      (RuleStore.empty.applyAll mirrored.operations).rules.Perm
        ((RuleStore.empty.applyAll pass.operations).rules.map Rule.mirror) := by
  intro pass mirrored
  have hpass : IsMirrorOf mirrored pass := isMirrorOf_start.applyAll lookup verbose statements
  exact ⟨hpass.groups, hpass.report, hpass.rules .empty⟩

end Resolution

end CollisionRules
