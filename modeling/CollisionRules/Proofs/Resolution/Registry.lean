import CollisionRules.Pass

namespace CollisionRules

variable {H S : Type}

namespace RuleRegistry

variable [RuleRegistry H S]

def apply (registry : S) : RuleOperation H → S
  | .register rule => register registry rule
  | .eraseBetween a b => (eraseBetween registry a b).1
  | .clear => clear registry

/-- The registry once the operations have been carried out on it, in order. -/
def replay (registry : S) (operations : List (RuleOperation H)) : S :=
  operations.foldl apply registry

theorem replay_append (registry : S) (front back : List (RuleOperation H)) :
    replay registry (front ++ back) = replay (replay registry front) back :=
  List.foldl_append

/-- On a store of rules the operations do what they say. -/
theorem replay_ruleStore [BEq H] (store : RuleStore H) (operations : List (RuleOperation H)) :
    replay store operations = store.applyAll operations := by
  have happly : (apply : RuleStore H → RuleOperation H → RuleStore H) = RuleStore.apply := by
    funext store operation
    cases operation <;> rfl
  rw [replay, happly]
  rfl

end RuleRegistry

open RuleRegistry (replay replay_append)

namespace Pass

/-- Looking one operand up warns of it if it names nothing known, and changes no group. -/
theorem resolve_eq (lookup : String → Option H) (pass : Pass H S) (operand : Operand) :
    pass.resolve lookup operand =
      (Resolution.members lookup pass.groups [operand],
        { pass with
          report := { pass.report with
            warnings := pass.report.warnings +
              (Resolution.unresolved lookup pass.groups [operand]).length }
          events := pass.events ++
            (Resolution.unresolved lookup pass.groups [operand]).map .unresolved }) := by
  cases hvalue : Resolution.evaluate lookup pass.groups operand <;>
    simp [resolve, Resolution.members, Resolution.unresolved, hvalue, warn, say]

/-- Operands are looked up one after the other, and no look-up changes what a later one finds:
    what is warned of are the operands that name nothing known, in their order. -/
theorem resolveAll_eq (lookup : String → Option H) (pass : Pass H S) (operands : List Operand) :
    pass.resolveAll lookup operands =
      (Resolution.members lookup pass.groups operands,
        { pass with
          report := { pass.report with
            warnings := pass.report.warnings +
              (Resolution.unresolved lookup pass.groups operands).length }
          events := pass.events ++
            (Resolution.unresolved lookup pass.groups operands).map .unresolved }) := by
  induction operands generalizing pass with
  | nil => simp [resolveAll, Resolution.members, Resolution.unresolved]
  | cons operand rest ih =>
    have hmembers : Resolution.members lookup pass.groups (operand :: rest) =
        Resolution.members lookup pass.groups [operand] ++
          Resolution.members lookup pass.groups rest := by
      simp [Resolution.members]
    have hunresolved : Resolution.unresolved lookup pass.groups (operand :: rest) =
        Resolution.unresolved lookup pass.groups [operand] ++
          Resolution.unresolved lookup pass.groups rest :=
      List.filter_append [operand] rest
    rw [resolveAll, resolve_eq, hmembers, hunresolved]
    simp only [ih, List.length_append, List.map_append, List.append_assoc, Nat.add_assoc]

variable [RuleRegistry H S] [ToString H]

/-- The changes of a collision, one pair after the other, are those of all its pairs. -/
theorem foldl_changePair (verbose : Bool) (effect : Effect) (pass : Pass H S)
    (pairs : List (H × H)) :
    pairs.foldl (fun pass pair => pass.changePair verbose effect pair.1 pair.2) pass =
      { pass with
        registry := replay pass.registry (pairs.map (Resolution.change effect))
        report := Resolution.countChanges effect pairs.length pass.report
        events := pass.events ++
          if verbose then pairs.map (Resolution.changeEvent effect) else [] } := by
  induction pairs generalizing pass with
  | nil => cases effect <;> simp [replay, Resolution.countChanges]
  | cons pair rest ih =>
    rw [List.foldl_cons, ih]
    cases effect <;> cases verbose <;>
      simp [changePair, say, replay, RuleRegistry.apply, Resolution.change,
        Resolution.countChanges, Nat.add_assoc, Nat.add_comm 1]

/-- A loop over the right side within one over the left side makes all the changes of the two
    sides. -/
theorem foldl_changePairs (verbose : Bool) (effect : Effect) (pass : Pass H S)
    (left right : List H) :
    left.foldl (fun pass first =>
        right.foldl (fun pass second => pass.changePair verbose effect first second) pass) pass =
      { pass with
        registry := replay pass.registry
          ((Resolution.pairs left right).map (Resolution.change effect))
        report := Resolution.countChanges effect (Resolution.pairs left right).length pass.report
        events := pass.events ++
          if verbose then (Resolution.pairs left right).map (Resolution.changeEvent effect)
          else [] } := by
  rw [← foldl_changePair, Resolution.pairs, List.foldl_flatMap]
  simp only [List.foldl_map]

end Pass

namespace Resolution

variable [RuleRegistry H S]

/-- A pass that has been carried out on a registry. -/
def on (registry : S) (pass : Resolution H) : Pass H S :=
  ⟨pass.groups, pass.report, pass.events, replay registry pass.operations⟩

/-- A declaration leaves the registry alone. -/
theorem declare_on (lookup : String → Option H) (verbose : Bool) (registry : S)
    (pass : Resolution H) (declaration : GroupDeclaration) :
    (pass.on registry).countStatement.declare lookup verbose declaration =
      (pass.declare lookup verbose declaration).on registry := by
  cases hnameless : declaration.name.isEmpty <;> cases verbose <;>
    simp [Pass.declare, Pass.resolveAll_eq, declare, hnameless, on, Pass.countStatement, Pass.bind,
      Pass.say, Pass.warn]

variable [ToString H]

/-- A collision makes its changes on the registry pair by pair, in the order that they are recorded.
    -/
theorem collide_on (lookup : String → Option H) (verbose : Bool) (registry : S)
    (pass : Resolution H) (declaration : CollisionDeclaration) :
    (pass.on registry).countStatement.collide lookup verbose declaration =
      (pass.collide lookup verbose declaration).on registry := by
  have hunresolved : unresolved lookup pass.groups [declaration.left, declaration.right] =
      unresolved lookup pass.groups [declaration.left] ++
        unresolved lookup pass.groups [declaration.right] :=
    List.filter_append [declaration.left] [declaration.right]
  simp only [Pass.collide, Pass.resolve_eq, Pass.foldl_changePairs]
  simp [collide, hunresolved, on, Pass.countStatement, replay_append, Nat.add_assoc]

/-- Each statement does to a registry what it asks for, and nothing else of it is looked at. -/
theorem apply_on (lookup : String → Option H) (verbose : Bool) (registry : S)
    (pass : Resolution H) (statement : Statement) :
    (pass.on registry).apply lookup verbose statement =
      (pass.apply lookup verbose statement).on registry := by
  cases statement with
  | empty => rfl
  | group declaration => exact declare_on lookup verbose registry pass declaration
  | collision declaration => exact collide_on lookup verbose registry pass declaration

/-- A pass over a program does to a registry just what it is recorded to ask for, in that order,
    and says and counts the same whatever the registry holds. -/
theorem ofStatements_on (lookup : String → Option H) (verbose : Bool) (registry : S)
    (statements : List Statement) :
    Pass.ofStatements lookup verbose registry statements =
      (ofStatements lookup verbose statements).on registry := by
  have hstart : Pass.start registry = start.on registry := rfl
  rw [Pass.ofStatements, hstart]
  exact List.foldl_hom (on registry) (apply_on lookup verbose registry)

end Resolution

end CollisionRules
