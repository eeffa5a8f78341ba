import CollisionRules.Yaml.Scalar

namespace CollisionRules.Yaml

inductive Token where
  /-- The version that the stream says it is written in. -/
  | version (major minor : Nat)
  | documentStart
  | documentEnd
  | streamEnd
  | blockSequenceStart
  | blockMappingStart
  | blockEnd
  | flowSequenceStart
  | flowSequenceEnd
  | flowMappingStart
  | flowMappingEnd
  | blockEntry
  | flowEntry
  | key
  | value
  | scalar (quoted : Bool) (text : List Char)
  deriving DecidableEq, Repr

/-- A token that may turn out to be a key: its number among the tokens, where it
    begins, and whether nothing but a key can stand there. -/
structure PossibleKey where
  number : Nat
  offset : Nat
  line : Nat
  column : Nat
  required : Bool
  deriving DecidableEq, Repr

/-- A stream in the course of being cut into tokens. The columns of the open blocks
    are kept innermost first, and the possible key of the innermost brackets is kept
    apart from those of the brackets around them. Anchors, aliases, tags and block
    scalars are refused. -/
structure Scanner where
  cursor : Cursor
  blocks : List Nat
  possibleKey : Option PossibleKey
  outerKeys : List (Option PossibleKey)
  keyAllowed : Bool
  tokens : List Token
  deriving DecidableEq, Repr

namespace Scanner

def ofText (text : List Char) : Scanner :=
  ⟨.ofText text, [], none, [], true, []⟩

def inFlow (scanner : Scanner) : Bool :=
  !scanner.outerKeys.isEmpty

/-- The column of what may belong to the innermost block or go on after it. -/
def margin (scanner : Scanner) : Nat :=
  match scanner.blocks with
  | [] => 0
  | column :: _ => column + 1

def emit (scanner : Scanner) (token : Token) : Scanner :=
  { scanner with tokens := scanner.tokens ++ [token] }

/-- Adds tokens in front of the one with the given number. -/
def emitAt (scanner : Scanner) (number : Nat) (tokens : List Token) : Scanner :=
  { scanner with
    tokens := scanner.tokens.take number ++ tokens ++ scanner.tokens.drop number }

/-- Adds a token for the next `length` characters. -/
def take (scanner : Scanner) (length : Nat) (token : Token) : Scanner :=
  { scanner with cursor := scanner.cursor.skip length }.emit token

def allowKey (scanner : Scanner) (allowed : Bool) : Scanner :=
  { scanner with keyAllowed := allowed }

/-- Closes every block whose column is greater than `column`, or every block. -/
def closeBlocks (scanner : Scanner) (column : Option Nat) : Scanner :=
  if scanner.inFlow then scanner
  else
    let closes (block : Nat) : Bool := !column.any (block ≤ ·)
    { scanner with
      blocks := scanner.blocks.dropWhile closes
      tokens := scanner.tokens ++ (scanner.blocks.takeWhile closes).map fun _ => .blockEnd }

/-- Opens a block at `column` in front of the token with the given number, unless
    one is open there or the scanner stands within brackets. -/
def openBlock (scanner : Scanner) (column number : Nat) (start : Token) : Scanner :=
  if scanner.inFlow || scanner.blocks.head?.any (column ≤ ·) then scanner
  else { scanner.emitAt number [start] with blocks := column :: scanner.blocks }

/-- The possible key is none after all. -/
def dropKey (scanner : Scanner) : Option Scanner :=
  if scanner.possibleKey.any PossibleKey.required then none
  else some { scanner with possibleKey := none }

/-- Remembers that the next token may turn out to be a key. -/
def saveKey (scanner : Scanner) : Option Scanner :=
  if scanner.keyAllowed then do
    let cursor := scanner.cursor
    let required := !scanner.inFlow && scanner.blocks.head? == some cursor.column
    let dropped ← scanner.dropKey
    return { dropped with
      possibleKey :=
        some ⟨scanner.tokens.length, cursor.offset, cursor.line, cursor.column, required⟩ }
  else some scanner

/-- Forgets a possible key that lies too far back. One that has to be a key must not
    be forgotten. -/
def forgetKey (cursor : Cursor) (possible : Option PossibleKey) : Option (Option PossibleKey) :=
  match possible with
  | none => some none
  | some key =>
    if key.line < cursor.line || key.offset + 1024 < cursor.offset then
      if key.required then none else some none
    else some (some key)

/-- Moves over blanks, comments and line breaks. Outside brackets a key may stand at
    the beginning of a line, and there a tab is not taken for a blank. A line may begin
    with a byte order mark, which counts as one column. -/
def skipGaps : (budget : Nat) → Scanner → Scanner
  | 0, scanner => scanner
  | budget + 1, scanner =>
    let cursor := scanner.cursor
    let cursor :=
      if cursor.column == 0 && cursor.rest.head? == some '\ufeff' then cursor.skip 1 else cursor
    let tabs := scanner.inFlow || !scanner.keyAllowed
    let cursor := cursor.skipWhile fun c => c == ' ' || (tabs && c == '\t')
    let cursor :=
      if cursor.rest.head? == some '#' then cursor.skipWhile (!isBreak ·) else cursor
    if !cursor.rest.isEmpty && breakAhead cursor.rest then
      skipGaps budget
        { scanner with
          cursor := cursor.skipBreak
          keyAllowed := scanner.keyAllowed || !scanner.inFlow }
    else { scanner with cursor := cursor }

/-- Moves to the next token: forgets what can no longer be a key, and closes the
    blocks that the token lies outside of. -/
def settle (scanner : Scanner) : Option Scanner := do
  let scanner := scanner.skipGaps (scanner.cursor.rest.length + 1)
  let possibleKey ← forgetKey scanner.cursor scanner.possibleKey
  let outerKeys ← scanner.outerKeys.mapM (forgetKey scanner.cursor)
  return { scanner with possibleKey, outerKeys }.closeBlocks (some scanner.cursor.column)

def finish (scanner : Scanner) : Option (List Token) := do
  let scanner ← (scanner.closeBlocks none).dropKey
  return scanner.tokens ++ [.streamEnd]

/-- The mark of the beginning or the end of a document. -/
def documentMark (scanner : Scanner) (token : Token) : Option Scanner := do
  let scanner ← (scanner.closeBlocks none).dropKey
  return (scanner.allowKey false).take 3 token

/-- Digits of a version number, at most nine, and what follows them. -/
def versionNumber? (text : List Char) : Option (Nat × List Char) :=
  let digits := text.takeWhile Char.isDigit
  if digits.isEmpty || 9 < digits.length then none
  else some (digits.foldl (fun n d => n * 10 + (d.toNat - '0'.toNat)) 0, text.drop digits.length)

/-- A line that says which version of YAML the stream is written in. -/
def directive (scanner : Scanner) : Option Scanner := do
  let scanner ← (scanner.closeBlocks none).dropKey
  let text := scanner.cursor.rest
  if text.take 5 != ['%', 'Y', 'A', 'M', 'L'] then none
  let afterName := text.drop 5
  let major ← if afterName.head?.any isBlank then versionNumber? (afterName.dropWhile isBlank)
    else none
  let minor ← if major.2.head? == some '.' then versionNumber? (major.2.drop 1) else none
  let cursor := (scanner.cursor.skip (text.length - minor.2.length)).skipWhile isBlank
  let cursor :=
    if cursor.rest.head? == some '#' then cursor.skipWhile (!isBreak ·) else cursor
  if !breakAhead cursor.rest then none
  return { scanner.allowKey false with cursor := cursor.skipBreak }.emit (.version major.1 minor.1)

/-- An opening bracket, which may begin a key. -/
def openFlow (scanner : Scanner) (token : Token) : Option Scanner := do
  let scanner ← scanner.saveKey
  let scanner := { scanner with
    possibleKey := none
    outerKeys := scanner.possibleKey :: scanner.outerKeys }
  return (scanner.allowKey true).take 1 token

def closeFlow (scanner : Scanner) (token : Token) : Option Scanner := do
  let scanner ← scanner.dropKey
  let scanner :=
    match scanner.outerKeys with
    | [] => scanner
    | key :: outer => { scanner with possibleKey := key, outerKeys := outer }
  return (scanner.allowKey false).take 1 token

def flowEntry (scanner : Scanner) : Option Scanner := do
  let scanner ← scanner.dropKey
  return (scanner.allowKey true).take 1 .flowEntry

/-- Opens a block for an entry or a key that is marked, where one may stand. -/
def openMarked (scanner : Scanner) (start : Token) : Option Scanner :=
  if scanner.inFlow then some scanner
  else if scanner.keyAllowed then
    some (scanner.openBlock scanner.cursor.column scanner.tokens.length start)
  else none

def blockEntry (scanner : Scanner) : Option Scanner := do
  let scanner ← scanner.openMarked .blockSequenceStart
  let scanner ← scanner.dropKey
  return (scanner.allowKey true).take 1 .blockEntry

def markedKey (scanner : Scanner) : Option Scanner := do
  let scanner ← scanner.openMarked .blockMappingStart
  let scanner ← scanner.dropKey
  return (scanner.allowKey !scanner.inFlow).take 1 .key

/-- The mark of a value. What may be a key becomes one. -/
def valueMark (scanner : Scanner) : Option Scanner := do
  match scanner.possibleKey with
  | some key =>
    let marked := (scanner.emitAt key.number [.key]).openBlock key.column key.number
      .blockMappingStart
    return ({ marked with possibleKey := none }.allowKey false).take 1 .value
  | none =>
    let scanner ← scanner.openMarked .blockMappingStart
    return (scanner.allowKey !scanner.inFlow).take 1 .value

def quoted (scanner : Scanner) (double : Bool) : Option Scanner := do
  let scanner ← scanner.saveKey
  let (text, cursor) ← scanQuoted double (scanner.cursor.rest.length + 1) (scanner.cursor.skip 1)
  return { scanner.allowKey false with cursor := cursor }.emit (.scalar true text)

def plain (scanner : Scanner) : Option Scanner := do
  let scanner ← scanner.saveKey
  let (text, cursor, broken) ←
    scanPlain scanner.inFlow scanner.margin (scanner.cursor.rest.length + 1) scanner.cursor
  return { scanner.allowKey broken with cursor := cursor }.emit (.scalar false text)

def indicators : List Char :=
  ['-', '?', ':', ',', '[', ']', '\x7b', '\x7d', '#', '&', '*', '!', '|', '>', '\'', '\"', '%', '@',
    '\x60']

/-- Whether a plain scalar begins with `c`, given what follows it. -/
def beginsPlain (inFlow : Bool) (c : Char) (rest : List Char) : Bool :=
  (!isGap c && !indicators.contains c) || (c == '-' && !rest.head?.any isBlank) ||
    (!inFlow && (c == '?' || c == ':') && !gapAhead rest)

/-- Takes the token ahead, whose first character is `c`. -/
def next (scanner : Scanner) (c : Char) (rest : List Char) : Option Scanner :=
  let marks := gapAhead rest
  if scanner.cursor.column == 0 && c == '%' then scanner.directive
  else if scanner.cursor.atIndicator '-' then scanner.documentMark .documentStart
  else if scanner.cursor.atIndicator '.' then scanner.documentMark .documentEnd
  else if c == '[' then scanner.openFlow .flowSequenceStart
  else if c == '\x7b' then scanner.openFlow .flowMappingStart
  else if c == ']' then scanner.closeFlow .flowSequenceEnd
  else if c == '\x7d' then scanner.closeFlow .flowMappingEnd
  else if c == ',' then scanner.flowEntry
  else if c == '-' && marks then scanner.blockEntry
  else if c == '?' && (scanner.inFlow || marks) then scanner.markedKey
  else if c == ':' && (scanner.inFlow || marks) then scanner.valueMark
  else if c == '\'' then scanner.quoted false
  else if c == '\"' then scanner.quoted true
  else if beginsPlain scanner.inFlow c rest then scanner.plain
  else none

/-- Takes tokens up to the end of the stream. -/
def run : (budget : Nat) → Scanner → Option (List Token)
  | 0, _ => none
  | budget + 1, scanner => do
    let scanner ← scanner.settle
    match scanner.cursor.rest with
    | [] => scanner.finish
    | c :: rest => run budget (← scanner.next c rest)

end Scanner

/-- The tokens of a stream, if it can be cut into tokens. Every token but the last
    takes at least one character. -/
def Token.ofText? (text : List Char) : Option (List Token) :=
  if text.all isAllowed then (Scanner.ofText text).run (text.length + 1) else none

end CollisionRules.Yaml
