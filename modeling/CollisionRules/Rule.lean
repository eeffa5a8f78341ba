import CollisionRules.Statement

namespace CollisionRules

variable {H : Type}

/-- What happens when two abilities collide. -/
structure Rule (H : Type) where
  first : H
  second : H
  removeFirst : Bool
  removeSecond : Bool
  deriving DecidableEq, Repr

namespace Rule

/-- The operator whose effect is to add this rule. -/
def operator (rule : Rule H) : Operator :=
  match rule.removeFirst, rule.removeSecond with
  | false, false => .tilde
  | true, false => .less
  | false, true => .greater
  | true, true => .equal

/-- A rule between the two abilities, in whichever order they stand. Handles are
    compared by `==`, which need not tell apart everything that differs. -/
def isBetween [BEq H] (a b : H) (rule : Rule H) : Bool :=
  (rule.first == a && rule.second == b) || (rule.first == b && rule.second == a)

/-- The rule as a statement of the rule language. -/
def render [ToString H] (rule : Rule H) : String :=
  toString rule.first ++ " " ++ String.singleton rule.operator.symbol ++ " " ++
    toString rule.second

end Rule

inductive RuleOperation (H : Type) where
  | register (rule : Rule H)
  | eraseBetween (a b : H)
  | clear
  deriving DecidableEq, Repr

/-- Rules in the order they were registered. The same rule may stand in a store
    more than once. -/
structure RuleStore (H : Type) where
  rules : List (Rule H)
  deriving DecidableEq, Repr

namespace RuleStore

def empty : RuleStore H := ⟨[]⟩

def size (store : RuleStore H) : Nat :=
  store.rules.length

def register (store : RuleStore H) (rule : Rule H) : RuleStore H :=
  ⟨store.rules ++ [rule]⟩

def between [BEq H] (store : RuleStore H) (a b : H) : List (Rule H) :=
  store.rules.filter (Rule.isBetween a b)

def eraseBetween [BEq H] (store : RuleStore H) (a b : H) : RuleStore H :=
  ⟨store.rules.filter fun rule => !rule.isBetween a b⟩

/-- The number of rules that deleting those between two abilities takes away. -/
def erasedBetween [BEq H] (store : RuleStore H) (a b : H) : Nat :=
  store.size - (store.eraseBetween a b).size

def apply [BEq H] (store : RuleStore H) : RuleOperation H → RuleStore H
  | .register rule => store.register rule
  | .eraseBetween a b => store.eraseBetween a b
  | .clear => empty

def applyAll [BEq H] (store : RuleStore H) (operations : List (RuleOperation H)) : RuleStore H :=
  operations.foldl apply store

theorem applyAll_append [BEq H] (store : RuleStore H) (front back : List (RuleOperation H)) :
    store.applyAll (front ++ back) = (store.applyAll front).applyAll back :=
  List.foldl_append

end RuleStore

end CollisionRules
