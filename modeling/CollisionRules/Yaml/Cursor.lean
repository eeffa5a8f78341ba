namespace CollisionRules.Yaml

/-- A character that a stream may hold: a tab, a line break, or a printable one. -/
def isAllowed (c : Char) : Bool :=
  let n := c.toNat
  n == 0x09 || n == 0x0A || n == 0x0D || (0x20 ≤ n && n ≤ 0x7E) || n == 0x85 ||
    (0xA0 ≤ n && n ≤ 0xD7FF) || (0xE000 ≤ n && n ≤ 0xFFFD) || 0x10000 ≤ n

def isBreak (c : Char) : Bool :=
  c == '\n' || c == '\r' || c == '\u0085' || c == '\u2028' || c == '\u2029'

def isBlank (c : Char) : Bool :=
  c == ' ' || c == '\t'

def isGap (c : Char) : Bool :=
  isBlank c || isBreak c

/-- Nothing, or something that begins with a blank or a line break. -/
def gapAhead : List Char → Bool
  | [] => true
  | c :: _ => isGap c

/-- Nothing, or something that begins with a line break. -/
def breakAhead : List Char → Bool
  | [] => true
  | c :: _ => isBreak c

/-- A place in a stream: what is left of it, how many characters came before, and
    the line and column, both counted from 0. -/
structure Cursor where
  rest : List Char
  offset : Nat
  line : Nat
  column : Nat
  deriving DecidableEq, Repr

namespace Cursor

def ofText (text : List Char) : Cursor := ⟨text, 0, 0, 0⟩

/-- Moves over characters of one line, `count` of them. -/
def skip (cursor : Cursor) (count : Nat) : Cursor :=
  { cursor with
    rest := cursor.rest.drop count
    offset := cursor.offset + count
    column := cursor.column + count }

/-- Moves over the longest run of characters that `accepts` accepts, none of which
    may be a line break. -/
def skipWhile (cursor : Cursor) (accepts : Char → Bool) : Cursor :=
  cursor.skip (cursor.rest.takeWhile accepts).length

/-- Moves over one line break, which may be a carriage return with a line feed. -/
def skipBreak (cursor : Cursor) : Cursor :=
  match cursor.rest with
  | [] => cursor
  | '\r' :: '\n' :: rest => ⟨rest, cursor.offset + 2, cursor.line + 1, 0⟩
  | _ :: rest => ⟨rest, cursor.offset + 1, cursor.line + 1, 0⟩

/-- The line break ahead, as it counts within a scalar. -/
def breakAsRead (cursor : Cursor) : Char :=
  match cursor.rest with
  | '\u2028' :: _ => '\u2028'
  | '\u2029' :: _ => '\u2029'
  | _ => '\n'

/-- Three times `mark` at the beginning of a line, with a gap behind. -/
def atIndicator (cursor : Cursor) (mark : Char) : Bool :=
  cursor.column == 0 && cursor.rest.take 3 == [mark, mark, mark] && gapAhead (cursor.rest.drop 3)

def atDocumentIndicator (cursor : Cursor) : Bool :=
  cursor.atIndicator '-' || cursor.atIndicator '.'

end Cursor

end CollisionRules.Yaml
