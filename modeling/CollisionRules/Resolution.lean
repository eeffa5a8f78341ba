import CollisionRules.Ability.Alias
import CollisionRules.Event
import CollisionRules.Group
import CollisionRules.Rule

namespace CollisionRules

variable {H : Type}

/-- A pass in progress: the groups bound so far, the counts, and the changes and
    events in order. An operand sees the groups bound before its statement, and a
    later declaration of a group takes the place of an earlier one for what follows
    it. -/
structure Resolution (H : Type) where
  groups : GroupTable H
  report : LoadReport
  operations : List (RuleOperation H)
  events : List Event

namespace Resolution

def start : Resolution H := ⟨.empty, .zero, [], []⟩

/-- The abilities that an operand stands for, unless it names nothing known. -/
def evaluate (lookup : String → Option H) (groups : GroupTable H) (operand : Operand) :
    Option (List H) :=
  match operand.kind with
  | .ability => (Ability.resolve lookup operand.name).map ([·])
  | .group => groups.get? operand.name

def members (lookup : String → Option H) (groups : GroupTable H) (operands : List Operand) :
    List H :=
  operands.flatMap fun operand => (evaluate lookup groups operand).getD []

def unresolved (lookup : String → Option H) (groups : GroupTable H) (operands : List Operand) :
    List Operand :=
  operands.filter fun operand => (evaluate lookup groups operand).isNone

/-- Every pair of a left and a right side, the left side outermost. No pair is left
    out for being met before. -/
def pairs (left right : List H) : List (H × H) :=
  left.flatMap fun first => right.map fun second => (first, second)

/-- The change that an effect makes for one pair. -/
def change (effect : Effect) (pair : H × H) : RuleOperation H :=
  match effect with
  | .erase => .eraseBetween pair.1 pair.2
  | .register removeFirst removeSecond =>
    .register ⟨pair.1, pair.2, removeFirst, removeSecond⟩

/-- What is said of the change that an effect makes for one pair. -/
def changeEvent [ToString H] (effect : Effect) (pair : H × H) : Event :=
  match effect with
  | .erase => .erased (toString pair.1) (toString pair.2)
  | .register removeFirst removeSecond =>
    .registered (toString pair.1) (toString pair.2) removeFirst removeSecond

/-- The report once an effect has been applied to `count` pairs. -/
def countChanges (effect : Effect) (count : Nat) (report : LoadReport) : LoadReport :=
  match effect with
  | .erase => { report with removals := report.removals + count }
  | .register _ _ => { report with registrations := report.registrations + count }

/-- Declares a group. A group without a name is bound to nothing, and its operands
    are not looked at. -/
def declare (lookup : String → Option H) (verbose : Bool) (pass : Resolution H)
    (declaration : GroupDeclaration) : Resolution H :=
  let report := { pass.report with
    statements := pass.report.statements + 1
    groupsBound := pass.report.groupsBound + 1 }
  if declaration.name.isEmpty then
    { pass with
      groups := pass.groups.bind "" []
      report := { report with warnings := report.warnings + 1 }
      events := pass.events ++ [.nameless declaration.position.line] }
  else
    let members := members lookup pass.groups declaration.members
    let unknown := unresolved lookup pass.groups declaration.members
    let line := declaration.position.line
    { pass with
      groups := pass.groups.bind declaration.name members
      report := { report with warnings := report.warnings + unknown.length }
      events := pass.events ++ unknown.map .unresolved ++
        if verbose then [.bound declaration.name members.length line] else [] }

theorem declare_operations (lookup : String → Option H) (verbose : Bool) (pass : Resolution H)
    (declaration : GroupDeclaration) :
    (pass.declare lookup verbose declaration).operations = pass.operations := by
  unfold declare
  split <;> rfl

/-- Applies the operator of a collision to every pair of its sides. -/
def collide [ToString H] (lookup : String → Option H) (verbose : Bool) (pass : Resolution H)
    (declaration : CollisionDeclaration) : Resolution H :=
  let effect := declaration.operator.effect
  let pairs := pairs (members lookup pass.groups [declaration.left])
    (members lookup pass.groups [declaration.right])
  let unknown := unresolved lookup pass.groups [declaration.left, declaration.right]
  { pass with
    report := countChanges effect pairs.length
      { pass.report with
        statements := pass.report.statements + 1
        warnings := pass.report.warnings + unknown.length }
    operations := pass.operations ++ pairs.map (change effect)
    events := pass.events ++ unknown.map .unresolved ++
      if verbose then pairs.map (changeEvent effect) else [] }

def apply [ToString H] (lookup : String → Option H) (verbose : Bool) (pass : Resolution H) :
    Statement → Resolution H
  | .empty => pass
  | .group declaration => pass.declare lookup verbose declaration
  | .collision declaration => pass.collide lookup verbose declaration

def applyAll [ToString H] (lookup : String → Option H) (verbose : Bool) (pass : Resolution H)
    (statements : List Statement) : Resolution H :=
  statements.foldl (apply lookup verbose) pass

def ofStatements [ToString H] (lookup : String → Option H) (verbose : Bool)
    (statements : List Statement) : Resolution H :=
  start.applyAll lookup verbose statements

end Resolution

end CollisionRules
