import CollisionRules.Source
import CollisionRules.Token.Line

namespace CollisionRules

/-- A line in the course of being read: the characters that are left of it, the column
    of the first of them, and whether the last token was a comment mark, so that
    only the end of the line is owed. -/
structure OpenLine where
  rest : List Char
  column : Nat
  comment : Bool
  deriving DecidableEq, Repr

namespace OpenLine

open CollisionRules.Text

def ofText (text : List Char) : OpenLine :=
  ⟨text, 1, false⟩

/-- The line past the separators in front. -/
def skipSeparators (line : OpenLine) : OpenLine :=
  { line with
    rest := line.rest.dropWhile isSeparator
    column := line.column + (line.rest.takeWhile isSeparator).length }

/-- The token that begins where the line stands, and what it leaves of the line. The end of
    the line leaves nothing. -/
def read (number : Nat) (line : OpenLine) : Token × Option OpenLine :=
  let position : Position := ⟨number, line.column⟩
  match line.rest with
  | [] => (.endOfLine position, none)
  | c :: rest =>
    match TokenKind.ofSpecial? c with
    | some kind =>
      (⟨kind, String.singleton c, position⟩, some ⟨rest, line.column + 1, kind == .hash⟩)
    | none =>
      let word := (c :: rest).takeWhile Token.isWordChar
      (⟨Token.wordKind word, String.ofList word, position⟩,
        some ⟨(c :: rest).dropWhile Token.isWordChar, line.column + word.length, false⟩)

/-- The next token of line `number`, and what it leaves of the line. The end of the line
    that is owed after a comment mark discards the comment. -/
def next (number : Nat) (line : OpenLine) : Token × Option OpenLine :=
  if line.comment then (.endOfLine ⟨number, line.column⟩, none)
  else line.skipSeparators.read number

end OpenLine

/-- A source in the course of being read token by token: the line that is open, if one
    is, the answers still to come, the number of lines begun, and whether the source
    has said that it is finished. -/
structure TokenStream where
  openLine? : Option OpenLine
  source : LineSource
  linesRead : Nat
  drained : Bool
  deriving DecidableEq, Repr

namespace TokenStream

def ofSource (source : LineSource) : TokenStream :=
  ⟨none, source, 0, false⟩

def endToken (stream : TokenStream) : Token :=
  .endOfInput stream.linesRead

/-- The next token of an open line. -/
def nextOf (stream : TokenStream) (line : OpenLine) : Except Failure Token × TokenStream :=
  (.ok (line.next stream.linesRead).1,
    { stream with openLine? := (line.next stream.linesRead).2 })

/-- The next token, or the failure that stands in its place. A failure leaves the
    stream as it was but for the answer that is used up. A drained stream gives
    the end of input for ever, and asks its source no more. -/
def next (stream : TokenStream) : Except Failure Token × TokenStream :=
  match stream.openLine? with
  | some line => stream.nextOf line
  | none =>
    if stream.drained then (.ok stream.endToken, stream)
    else
      match stream.source with
      | [] => (.ok stream.endToken, { stream with drained := true })
      | .finished :: rest => (.ok stream.endToken, { stream with source := rest, drained := true })
      | .failed failure :: rest => (.error failure, { stream with source := rest })
      | .line text :: rest =>
        let line := OpenLine.ofText text
        nextOf ⟨some line, rest, stream.linesRead + 1, false⟩ line

/-- The first `count` answers of `next`. -/
def take : Nat → TokenStream → List (Except Failure Token)
  | 0, _ => []
  | count + 1, stream => (next stream).1 :: take count (next stream).2

end TokenStream

/-- A source that could not be read to its end: the line that was being read, and
    why it could not. -/
structure Truncation where
  line : Nat
  failure : Failure
  deriving DecidableEq, Repr

/-- What was read of a source. Without a truncation the tokens end in the end of
    input; with one they end on a line boundary and hold no end of input. -/
structure Reading where
  tokens : List Token
  truncation : Option Truncation
  deriving DecidableEq, Repr

namespace Reading

def truncationMessage (reading : Reading) (truncation : Truncation) : String :=
  s!"source read failed after {reading.tokens.length} tokens: {truncation.failure.message}"

/-- Reads on after `linesRead` lines, up to the end of input or to the first
    failure. -/
def after (linesRead : Nat) : LineSource → Reading
  | [] | .finished :: _ => ⟨[.endOfInput linesRead], none⟩
  | .failed failure :: _ => ⟨[], some ⟨linesRead + 1, failure⟩⟩
  | .line text :: rest =>
    let following := after (linesRead + 1) rest
    ⟨Token.ofLine (linesRead + 1) 1 text ++ following.tokens, following.truncation⟩

def ofSource (source : LineSource) : Reading :=
  after 0 source

def ofText (text : List Char) : Reading :=
  ofSource (.ofText text)

def ofStream (events : List ReadEvent) : Reading :=
  ofSource (.ofStream events)

end Reading

def tokenize (text : List Char) : List Token :=
  (Reading.ofText text).tokens

end CollisionRules
