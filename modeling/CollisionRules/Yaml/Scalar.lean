import CollisionRules.Yaml.Cursor

namespace CollisionRules.Yaml

/-- The blanks and line breaks between two parts of a scalar: the blanks, as long as
    there is no line break; the first line break, unless it was escaped; and the
    others. A line break within a scalar is folded: one becomes a space, and of
    several the first is dropped. -/
structure Fold where
  blanks : List Char
  broken : Bool
  first : Option Char
  others : List Char
  deriving DecidableEq, Repr

namespace Fold

def none : Fold := ⟨[], false, .none, []⟩

def escaped : Fold := ⟨[], true, .none, []⟩

/-- The fold with one more line break. -/
def addBreak (fold : Fold) (lineBreak : Char) : Fold :=
  if fold.broken then { fold with others := fold.others ++ [lineBreak] }
  else ⟨[], true, some lineBreak, []⟩

/-- The characters that the fold stands for. -/
def text (fold : Fold) : List Char :=
  if fold.broken then
    match fold.first with
    | some '\n' => if fold.others.isEmpty then [' '] else fold.others
    | some lineBreak => lineBreak :: fold.others
    | .none => fold.others
  else fold.blanks

/-- Reads all blanks and line breaks ahead. After a line break, a tab before
    column `margin` is refused, if there is a margin. -/
def scan (margin : Option Nat) : (budget : Nat) → Fold → Cursor → Option (Fold × Cursor)
  | 0, fold, cursor => some (fold, cursor)
  | budget + 1, fold, cursor =>
    match cursor.rest with
    | [] => some (fold, cursor)
    | c :: _ =>
      if isBlank c then
        if fold.broken then
          if c == '\t' && margin.any (cursor.column < ·) then .none
          else scan margin budget fold (cursor.skip 1)
        else scan margin budget { fold with blanks := fold.blanks ++ [c] } (cursor.skip 1)
      else if isBreak c then
        scan margin budget (fold.addBreak cursor.breakAsRead) cursor.skipBreak
      else some (fold, cursor)

end Fold

/-- The run of plain characters ahead, up to a gap or to an indicator that ends a
    plain scalar. Within brackets a colon must not stand right before certain
    indicators. -/
def plainRun (inFlow : Bool) : List Char → Option (List Char)
  | [] => some []
  | c :: rest =>
    if isGap c then some []
    else if inFlow && c == ':' && rest.head?.any [',', '?', '[', ']', '\x7b', '\x7d'].contains then
      none
    else if c == ':' && gapAhead rest then some []
    else if inFlow && [',', '[', ']', '\x7b', '\x7d'].contains c then some []
    else (plainRun inFlow rest).map (c :: ·)

/-- Reads the rest of a plain scalar. Gives its text, the cursor behind it, and
    whether a line break lies between the two. -/
def scanPlain (inFlow : Bool) (margin : Nat) :
    (budget : Nat) → Cursor → Option (List Char × Cursor × Bool)
  | 0, _ => none
  | budget + 1, cursor =>
    if cursor.atDocumentIndicator || cursor.rest.head? == some '#' then some ([], cursor, false)
    else do
      let run ← plainRun inFlow cursor.rest
      let cursor := cursor.skip run.length
      if !gapAhead cursor.rest || cursor.rest.isEmpty then return (run, cursor, false)
      let (fold, cursor) ← Fold.scan (some margin) cursor.rest.length .none cursor
      if !inFlow && cursor.column < margin then return (run, cursor, fold.broken)
      let (text, final, broken) ← scanPlain inFlow margin budget cursor
      if text.isEmpty then return (run, final, fold.broken)
      return (run ++ fold.text ++ text, final, broken)

def hexDigit? (c : Char) : Option Nat :=
  if '0' ≤ c && c ≤ '9' then some (c.toNat - '0'.toNat)
  else if 'a' ≤ c && c ≤ 'f' then some (c.toNat - 'a'.toNat + 10)
  else if 'A' ≤ c && c ≤ 'F' then some (c.toNat - 'A'.toNat + 10)
  else none

def hexValue? (digits : List Char) : Option Nat :=
  digits.foldlM (fun value digit => (hexDigit? digit).map (value * 16 + ·)) 0

def hexChar? (count : Nat) (text : List Char) : Option Char := do
  let digits := text.take count
  if digits.length < count then none
  let value ← hexValue? digits
  if value.isValidChar then return Char.ofNat value else none

def escapes : List (Char × Char) :=
  [('0', '\x00'), ('a', '\x07'), ('b', '\x08'), ('t', '\t'), ('\t', '\t'), ('n', '\n'),
    ('v', '\x0b'), ('f', '\x0c'), ('r', '\r'), ('e', '\x1b'), (' ', ' '), ('\"', '\"'),
    ('/', '/'), ('\\', '\\'), ('N', '\u0085'), ('_', '\u00a0'), ('L', '\u2028'),
    ('P', '\u2029')]

/-- The character that an escape stands for, and the length of the escape behind
    its backslash. -/
def escape? : List Char → Option (Char × Nat)
  | [] => none
  | 'x' :: rest => (hexChar? 2 rest).map (·, 3)
  | 'u' :: rest => (hexChar? 4 rest).map (·, 5)
  | 'U' :: rest => (hexChar? 8 rest).map (·, 9)
  | c :: _ => (escapes.lookup c).map (·, 1)

/-- Reads the rest of a quoted scalar, whose quotes are double or single. Gives its
    text and the cursor behind the closing quote. -/
def scanQuoted (double : Bool) : (budget : Nat) → Cursor → Option (List Char × Cursor)
  | 0, _ => none
  | budget + 1, cursor =>
    let continueWith (text : List Char) (next : Cursor) : Option (List Char × Cursor) :=
      (scanQuoted double budget next).map fun (more, final) => (text ++ more, final)
    if cursor.atDocumentIndicator then none
    else
      match cursor.rest with
      | [] => none
      | c :: rest =>
        if isGap c then do
          let (fold, next) ← Fold.scan none cursor.rest.length .none cursor
          continueWith fold.text next
        else if c == '\'' && !double then
          if rest.head? == some '\'' then continueWith ['\''] (cursor.skip 2)
          else some ([], cursor.skip 1)
        else if c == '\"' && double then some ([], cursor.skip 1)
        else if c == '\\' && double then
          if !rest.isEmpty && breakAhead rest then do
            let next := (cursor.skip 1).skipBreak
            let (fold, next) ← Fold.scan none next.rest.length .escaped next
            continueWith fold.text next
          else do
            let (escaped, length) ← escape? rest
            continueWith [escaped] (cursor.skip (length + 1))
        else continueWith [c] (cursor.skip 1)

end CollisionRules.Yaml
