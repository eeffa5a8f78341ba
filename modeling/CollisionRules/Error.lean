import CollisionRules.Failure
import CollisionRules.File.Path
import CollisionRules.Statement.Sequence

namespace CollisionRules

inductive Cause where
  | unreadable (path : Path) (failure : Failure)
  /-- A line breaks the grammar of the rule language. -/
  | grammar (found : String) (message : String) (position : Position)
  | unknownAbility (name : String) (line : Nat)
  /-- An operand names no group declared so far. -/
  | unknownGroup (name : String) (line : Nat)
  | invalidSettings (message : String)
  deriving DecidableEq, Repr

def Cause.render : Cause → String
  | .unreadable path failure => s!"could not read '{path.text}': {failure.message}"
  | .grammar found message position =>
    s!"unexpected {found} found on line {position.line}:{position.column}: {message}"
  | .unknownAbility name line =>
    s!"could not find ability with the name '{name}' on line {line}"
  | .unknownGroup name line =>
    s!"could not find a group with the name '{name}' on line {line}"
  | .invalidSettings message => s!"invalid settings: {message}"

/-- Where something went wrong, as far as that is known. -/
structure ErrorContext where
  source? : Option String
  line? : Option Nat
  deriving DecidableEq, Repr

/-- The context as it is shown. A line says nothing without its source. -/
def ErrorContext.render (context : ErrorContext) : String :=
  match context.source?, context.line? with
  | some source, some line => s!"at {source}:{line}"
  | some source, none => s!"at {source}"
  | none, _ => ""

/-- An error: its cause, and where it arose. -/
structure Error where
  cause : Cause
  context? : Option ErrorContext
  deriving DecidableEq, Repr

namespace Error

def ofCause (cause : Cause) : Error := ⟨cause, none⟩

def unreadable (path : Path) (failure : Failure) : Error :=
  ofCause (.unreadable path failure)

def render (error : Error) : String :=
  error.cause.render

/-- The line of the source that the error refers to. -/
def line? (error : Error) : Option Nat :=
  match error.cause with
  | .grammar _ _ position => some position.line
  | .unknownAbility _ line => some line
  | .unknownGroup _ line => some line
  | .unreadable _ _ | .invalidSettings _ => error.context?.bind ErrorContext.line?

def ofParseError (error : ParseError) : Error :=
  ofCause (.grammar error.found.name error.expected.message error.position)

/-- The error of an operand that names nothing known. -/
def ofUnknown (operand : Operand) : Error :=
  ofCause <|
    match operand.kind with
    | .ability => .unknownAbility operand.name operand.position.line
    | .group => .unknownGroup operand.name operand.position.line

end Error

end CollisionRules
