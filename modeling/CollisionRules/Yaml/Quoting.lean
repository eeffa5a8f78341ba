import CollisionRules.Yaml.Cursor
import CollisionRules.Yaml.Library
import CollisionRules.Yaml.Number

namespace CollisionRules.Yaml

def nullWords : List String := ["null", "Null", "NULL", "~"]

/-- A text that a plain scalar would not say is a text. -/
def isAmbiguous (text : List Char) : Bool :=
  text.isEmpty || ((nullWords ++ trueWords ++ falseWords).map String.toList).contains text ||
    Number.looksNumeric text

/-- A line break that a scalar may hold as it is: the separator of lines or that of
    paragraphs. -/
def isSeparatorBreak (c : Char) : Bool :=
  c == '\u2028' || c == '\u2029'

/-- A character that needs no escape within a line. -/
def isPlainlyPrintable (c : Char) : Bool :=
  let n := c.toNat
  !isSeparatorBreak c &&
    ((0x20 ≤ n && n ≤ 0x7E) || (0xA0 ≤ n && n ≤ 0xD7FF) ||
      (0xE000 ≤ n && n ≤ 0xFFFD && n != 0xFEFF) || 0x10000 ≤ n)

/-- The characters that a plain scalar must not begin with. -/
def leadingIndicators : List Char :=
  ['#', ',', '[', ']', '\x7b', '\x7d', '&', '*', '!', '|', '>', '\'', '\"', '%', '@', '\x60']

/-- No colon stands before a gap, and no `#` behind one. -/
def isUnbroken : List Char → Bool
  | [] => true
  | c :: rest =>
    !(c == ':' && gapAhead rest) && !(isGap c && rest.head? == some '#') && isUnbroken rest

/-- A text that reads back as itself when written plain. -/
def isPlainSafe (text : List Char) : Bool :=
  match text with
  | [] => false
  | c :: rest =>
    c != ' ' && text.getLast? != some ' ' &&
      text.take 3 != ['-', '-', '-'] && text.take 3 != ['.', '.', '.'] &&
      !leadingIndicators.contains c &&
      !((c == '?' || c == ':' || c == '-') && gapAhead rest) && isUnbroken text

/-- No space stands right before a line break, nor right behind one. -/
def breaksStandClear : List Char → Bool
  | c :: d :: rest =>
    !(c == ' ' && isBreak d) && !(isBreak c && d == ' ') && breaksStandClear (d :: rest)
  | _ => true

/-- A text that reads back as itself when written in single quotes. -/
def isSingleSafe (text : List Char) : Bool :=
  text.all (fun c => isPlainlyPrintable c || isSeparatorBreak c) && breaksStandClear text

inductive ScalarStyle where
  | plain
  | single
  | double
  deriving DecidableEq, Repr

def styleOf (text : List Char) : ScalarStyle :=
  if !isSingleSafe text then .double
  else if isAmbiguous text || text.any isBreak || !isPlainSafe text then .single
  else .plain

def hexDigits (width n : Nat) : List Char :=
  let digits := (Nat.toDigits 16 n).map Char.toUpper
  List.replicate (width - digits.length) '0' ++ digits

def letterEscapes : List (Char × Char) :=
  [('\x00', '0'), ('\x07', 'a'), ('\x08', 'b'), ('\t', 't'), ('\n', 'n'), ('\x0b', 'v'),
    ('\x0c', 'f'), ('\r', 'r'), ('\x1b', 'e'), ('\"', '\"'), ('\\', '\\'), ('\u0085', 'N'),
    ('\u00a0', '_'), ('\u2028', 'L'), ('\u2029', 'P')]

/-- A character as it is written between double quotes. -/
def escaped (c : Char) : List Char :=
  if isPlainlyPrintable c && c != '\"' && c != '\\' then [c]
  else
    match letterEscapes.lookup c with
    | some letter => ['\\', letter]
    | none =>
      if c.toNat ≤ 0xFF then '\\' :: 'x' :: hexDigits 2 c.toNat
      else if c.toNat ≤ 0xFFFF then '\\' :: 'u' :: hexDigits 4 c.toNat
      else '\\' :: 'U' :: hexDigits 8 c.toNat

/-- The characters between single quotes, where a quote is written twice. What comes
    behind line breaks stands in column `margin`. -/
def singleBody (margin : Nat) (afterBreak : Bool) : List Char → List Char
  | [] => indent
  | c :: rest =>
    if isBreak c then c :: singleBody margin true rest
    else indent ++ (if c == '\'' then ['\'', '\''] else [c]) ++ singleBody margin false rest
where
  indent : List Char := if afterBreak then List.replicate margin ' ' else []

def renderSingle (margin : Nat) (text : List Char) : List Char :=
  '\'' :: singleBody margin false text ++ ['\'']

def renderDouble (text : List Char) : List Char :=
  '\"' :: text.flatMap escaped ++ ['\"']

/-- A text as it is written. Its further lines, if there are any, begin in column
    `margin`. -/
def renderScalar (margin : Nat) (text : List Char) : List Char :=
  match styleOf text with
  | .plain => text
  | .single => renderSingle margin text
  | .double => renderDouble text

end CollisionRules.Yaml
