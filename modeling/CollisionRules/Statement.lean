import CollisionRules.Token

namespace CollisionRules

/-- What an operator does to each pair of abilities that it is applied to. -/
inductive Effect where
  /-- Every rule between the two is deleted, in whichever order they stand. -/
  | erase
  /-- A rule is added, with word of which side a collision removes. -/
  | register (removeFirst removeSecond : Bool)
  deriving DecidableEq, Repr

/-- The collision operators. -/
inductive Operator where
  /-- The right side is removed. -/
  | greater
  /-- The left side is removed. -/
  | less
  /-- Both sides are removed. -/
  | equal
  /-- Neither side is removed. -/
  | tilde
  /-- The rules between the two sides are deleted. -/
  | cross
  deriving DecidableEq, Repr

namespace Operator

/-- The operator that a kind of token stands for. -/
def ofKind? : TokenKind → Option Operator
  | .greater => some .greater
  | .less => some .less
  | .equal => some .equal
  | .tilde => some .tilde
  | .cross => some .cross
  | _ => none

/-- The operator as it is written. -/
def symbol : Operator → Char
  | .greater => '>'
  | .less => '<'
  | .equal => '='
  | .tilde => '~'
  | .cross => 'x'

/-- What the operator does to a pair. -/
def effect : Operator → Effect
  | .greater => .register false true
  | .less => .register true false
  | .equal => .register true true
  | .tilde => .register false false
  | .cross => .erase

end Operator

/-- What an operand names. -/
inductive OperandKind where
  | ability
  | group
  deriving DecidableEq, Repr

/-- A reference to an ability or to a group, and where its name stands. -/
structure Operand where
  kind : OperandKind
  name : String
  position : Position
  deriving DecidableEq, Repr

/-- The operand as it is written: a group's name follows a `$`. -/
def Operand.render (operand : Operand) : String :=
  match operand.kind with
  | .ability => operand.name
  | .group => "$" ++ operand.name

/-- The declaration of a group: its name, its members in order, and where the
    keyword stands. -/
structure GroupDeclaration where
  name : String
  members : List Operand
  position : Position
  deriving DecidableEq, Repr

/-- The group declaration as it is written. -/
def GroupDeclaration.render (declaration : GroupDeclaration) : String :=
  let members := ", ".intercalate (declaration.members.map Operand.render)
  "group \"" ++ declaration.name ++ "\" \x7b" ++ members ++ "\x7d"

/-- The declaration of what happens when abilities of two sides collide. -/
structure CollisionDeclaration where
  left : Operand
  operator : Operator
  right : Operand
  deriving DecidableEq, Repr

/-- The collision declaration as it is written. -/
def CollisionDeclaration.render (declaration : CollisionDeclaration) : String :=
  declaration.left.render ++ " " ++ String.singleton declaration.operator.symbol ++ " " ++
    declaration.right.render

/-- What one line of a source says. -/
inductive Statement where
  /-- A blank line, or one that only holds a comment. -/
  | empty
  | group (declaration : GroupDeclaration)
  | collision (declaration : CollisionDeclaration)
  deriving DecidableEq, Repr

namespace Statement

/-- A statement that says nothing. -/
def isEmpty : Statement → Bool
  | .empty => true
  | _ => false

/-- The group declaration, if the statement is one. -/
def group? : Statement → Option GroupDeclaration
  | .group declaration => some declaration
  | _ => none

theorem group?_eq_some_iff {statement : Statement} {declaration : GroupDeclaration} :
    statement.group? = some declaration ↔ statement = .group declaration := by
  cases statement <;> simp [group?]

/-- The collision declaration, if the statement is one. -/
def collision? : Statement → Option CollisionDeclaration
  | .collision declaration => some declaration
  | _ => none

/-- The statement as it is written. -/
def render : Statement → String
  | .empty => ""
  | .group declaration => declaration.render
  | .collision declaration => declaration.render

end Statement

end CollisionRules
