import CollisionRules.Resolution

namespace CollisionRules

variable {H S : Type}

/-- What a pass can do to the rules that are there. Deleting says how many rules went. -/
class RuleRegistry (H : outParam Type) (S : Type) where
  register : S → Rule H → S
  eraseBetween : S → H → H → S × Nat
  clear : S → S

instance RuleStore.registry [BEq H] : RuleRegistry H (RuleStore H) where
  register := RuleStore.register
  eraseBetween store a b := (store.eraseBetween a b, store.erasedBetween a b)
  clear _ := .empty

/-- A pass at work on a registry: the groups bound so far, the counts, the events in
    order, and the registry as the changes of the pass have left it. -/
structure Pass (H S : Type) where
  groups : GroupTable H
  report : LoadReport
  events : List Event
  registry : S

namespace Pass

def start (registry : S) : Pass H S := ⟨.empty, .zero, [], registry⟩

def say (pass : Pass H S) (event : Event) : Pass H S :=
  { pass with events := pass.events ++ [event] }

/-- Says a warning and counts it. -/
def warn (pass : Pass H S) (event : Event) : Pass H S :=
  { pass.say event with report := { pass.report with warnings := pass.report.warnings + 1 } }

/-- The abilities that an operand stands for. One that names nothing known is warned
    of, and stands for none. -/
def resolve (lookup : String → Option H) (pass : Pass H S) (operand : Operand) :
    List H × Pass H S :=
  match Resolution.evaluate lookup pass.groups operand with
  | some members => (members, pass)
  | none => ([], pass.warn (.unresolved operand))

def resolveAll (lookup : String → Option H) (pass : Pass H S) :
    List Operand → List H × Pass H S
  | [] => ([], pass)
  | operand :: rest =>
    let (members, pass) := pass.resolve lookup operand
    let (others, pass) := pass.resolveAll lookup rest
    (members ++ others, pass)

def bind (pass : Pass H S) (name : String) (members : List H) : Pass H S :=
  { pass with
    groups := pass.groups.bind name members
    report := { pass.report with groupsBound := pass.report.groupsBound + 1 } }

/-- Declares a group. The operands of a group without a name are not looked at. -/
def declare (lookup : String → Option H) (verbose : Bool) (pass : Pass H S)
    (declaration : GroupDeclaration) : Pass H S :=
  let line := declaration.position.line
  if declaration.name.isEmpty then (pass.warn (.nameless line)).bind "" []
  else
    let (members, pass) := pass.resolveAll lookup declaration.members
    let pass := if verbose then pass.say (.bound declaration.name members.length line) else pass
    pass.bind declaration.name members

section Change

variable [RuleRegistry H S] [ToString H]

/-- Makes the change of an effect for one pair. How many rules a deletion has taken away
    is not looked at. -/
def changePair (verbose : Bool) (effect : Effect) (pass : Pass H S) (first second : H) :
    Pass H S :=
  let registry :=
    match effect with
    | .erase => (RuleRegistry.eraseBetween pass.registry first second).1
    | .register removeFirst removeSecond =>
      RuleRegistry.register pass.registry ⟨first, second, removeFirst, removeSecond⟩
  let report := Resolution.countChanges effect 1 pass.report
  let pass := { pass with registry, report }
  if verbose then pass.say (Resolution.changeEvent effect (first, second)) else pass

/-- Applies the operator of a collision to every pair of its sides, one pair after the
    other, the left side outermost. -/
def collide (lookup : String → Option H) (verbose : Bool) (pass : Pass H S)
    (declaration : CollisionDeclaration) : Pass H S :=
  let (left, pass) := pass.resolve lookup declaration.left
  let (right, pass) := pass.resolve lookup declaration.right
  let effect := declaration.operator.effect
  left.foldl (fun pass first =>
    right.foldl (fun pass second => pass.changePair verbose effect first second) pass) pass

def countStatement (pass : Pass H S) : Pass H S :=
  { pass with report := { pass.report with statements := pass.report.statements + 1 } }

def apply (lookup : String → Option H) (verbose : Bool) (pass : Pass H S) :
    Statement → Pass H S
  | .empty => pass
  | .group declaration => pass.countStatement.declare lookup verbose declaration
  | .collision declaration => pass.countStatement.collide lookup verbose declaration

def applyAll (lookup : String → Option H) (verbose : Bool) (pass : Pass H S)
    (statements : List Statement) : Pass H S :=
  statements.foldl (apply lookup verbose) pass

def ofStatements (lookup : String → Option H) (verbose : Bool) (registry : S)
    (statements : List Statement) : Pass H S :=
  (start registry).applyAll lookup verbose statements

end Change

end Pass

end CollisionRules
