namespace CollisionRules

/-- A place in a source: line and column, both counted from 1, the column in
    characters. The counts have no bound. Those of a source with fewer than 2 ^ 32 lines
    and characters fit in 32 bits. -/
structure Position where
  line : Nat
  column : Nat
  deriving DecidableEq, Repr

/-- The line after a line. The count has 32 bits, so that line 0 comes after the last
    line that it can hold. -/
def Position.lineAfter (line : Nat) : Nat :=
  (UInt32.ofNat line + 1).toNat

/-- Every line but the last that 32 bits can hold is followed by the line of the next
    number. -/
theorem Position.lineAfter_of_lt {line : Nat} (hline : line + 1 < UInt32.size) :
    lineAfter line = line + 1 := by
  have hsize : line + 1 < 4294967296 := hline
  simp only [lineAfter, UInt32.toNat_add, UInt32.toNat_ofNat', UInt32.toNat_one]
  omega

/-- A position as it is shown, such as `12:4`. -/
def Position.render (position : Position) : String :=
  s!"{position.line}:{position.column}"

inductive TokenKind where
  /-- The word `group` in any mixture of cases. -/
  | groupKeyword
  | greater
  | less
  | equal
  | tilde
  /-- The letter `x`, which is an operator and never part of a word. -/
  | cross
  | quote
  | openBrace
  | closeBrace
  | comma
  /-- The mark that begins a comment. -/
  | hash
  /-- The mark before a reference to a group. -/
  | dollar
  | literal
  | endOfLine
  | endOfInput
  deriving DecidableEq, Repr

namespace TokenKind

/-- The kind of a character that is a token by itself. -/
def ofSpecial? : Char → Option TokenKind
  | '#' => some .hash
  | '\"' => some .quote
  | '\x7b' => some .openBrace
  | '\x7d' => some .closeBrace
  | ',' => some .comma
  | '>' => some .greater
  | '<' => some .less
  | '=' => some .equal
  | 'x' => some .cross
  | '~' => some .tilde
  | '$' => some .dollar
  | _ => none

def isOperator : TokenKind → Bool
  | .greater | .less | .equal | .tilde | .cross => true
  | _ => false

/-- A kind that may follow a complete statement. -/
def isTerminator : TokenKind → Bool
  | .endOfLine | .endOfInput | .hash => true
  | _ => false

def name : TokenKind → String
  | .groupKeyword => "keyword 'group'"
  | .greater => "'>'"
  | .less => "'<'"
  | .equal => "'='"
  | .tilde => "'~'"
  | .cross => "'x'"
  | .quote => "'\"'"
  | .openBrace => "'\x7b'"
  | .closeBrace => "'\x7d'"
  | .comma => "','"
  | .hash => "'#'"
  | .dollar => "'$'"
  | .literal => "string literal"
  | .endOfLine => "end of line"
  | .endOfInput => "end of input"

end TokenKind

/-- A token: its kind, the characters it was read from, and where they begin. -/
structure Token where
  kind : TokenKind
  text : String
  position : Position
  deriving DecidableEq, Repr

namespace Token

def endOfLine (position : Position) : Token := ⟨.endOfLine, "", position⟩

/-- The end of input that follows `lines` physical lines. -/
def endOfInput (lines : Nat) : Token := ⟨.endOfInput, "", ⟨lines + 1, 1⟩⟩

end Token

end CollisionRules
