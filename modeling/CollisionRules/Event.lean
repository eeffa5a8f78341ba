import CollisionRules.Error
import CollisionRules.Report

namespace CollisionRules

inductive Level where
  | info
  | warn
  deriving DecidableEq, Repr

inductive FieldValue where
  | number (value : Nat)
  | text (value : String)
  deriving DecidableEq, Repr

def FieldValue.render : FieldValue → String
  | .number value => toString value
  | .text value => value

/-- Something that happened. -/
inductive Event where
  | clearing
  | beginning
  /-- The source could not be read to its end. -/
  | truncated (truncation : Truncation)
  | unopened (error : Error)
  | rejected (error : ParseError)
  /-- An operand names nothing known. -/
  | unresolved (operand : Operand)
  | nameless (line : Nat)
  | bound (name : String) (members : Nat) (line : Nat)
  | registered (first second : String) (removeFirst removeSecond : Bool)
  /-- The rules between two abilities were deleted. -/
  | erased (first second : String)
  | finished (report : LoadReport)
  | reloaded
  | wroteSettings (path : Path)
  /-- A rule file without rules was written. -/
  | wroteRules (path : Path)
  deriving DecidableEq, Repr

namespace Event

def level : Event → Level
  | .truncated _ | .unopened _ | .rejected _ | .unresolved _ | .nameless _ => .warn
  | _ => .info

def message : Event → String
  | .clearing => "Clearing out core collisions..."
  | .beginning => "Initializing Collisions..."
  | .truncated _ => "failed to read collision source, token stream truncated"
  | .unopened error => error.render
  | .rejected error => error.render
  | .unresolved operand => (Error.ofUnknown operand).render
  | .nameless line =>
    s!"group declared with an empty name on line {line}, binding it to no abilities"
  | .bound name members _ => s!"Bound group '{name}' to {members} abilities"
  | .registered first second removeFirst removeSecond =>
    s!"Registering collision between: {first} and {second} RemoveFirst: {removeFirst} " ++
      s!"RemoveSecond: {removeSecond}"
  | .erased first second => s!"Removing collision between: {first} and {second}"
  | .finished _ => "Finished Initializing Collisions"
  | .reloaded => "Collisions have reloaded"
  | .wroteSettings path => s!"Wrote default settings to {path.text}"
  | .wroteRules path => s!"Wrote empty collision file to {path.text}"

/-- The named values that go with the message. -/
def fields : Event → List (String × FieldValue)
  | .truncated truncation =>
    [("line", .number truncation.line), ("error", .text truncation.failure.message)]
  | .rejected error =>
    [("line", .number error.position.line), ("column", .number error.position.column)]
  | .unresolved operand => [("line", .number operand.position.line)]
  | .nameless line => [("line", .number line)]
  | .bound _ _ line => [("line", .number line)]
  | .finished report =>
    [("statements", .number report.statements), ("registered", .number report.registrations),
      ("removed", .number report.removals), ("syntax_errors", .number report.rejectedLines),
      ("warnings", .number report.warnings)]
  | _ => []

end Event

end CollisionRules
