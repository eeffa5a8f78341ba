import CollisionRules.Statement.Parser
import CollisionRules.Token.Stream

namespace CollisionRules

/-- A line that breaks the grammar: what was expected, the kind of token found
    instead, and where that token stands. -/
structure ParseError where
  expected : Expectation
  found : TokenKind
  position : Position
  deriving DecidableEq, Repr

def ParseError.render (error : ParseError) : String :=
  s!"unexpected {error.found.name} found on line {error.position.line}: {error.expected.message}"

/-- The statements of the accepted lines and the errors of the refused ones, each
    in the order of the source. -/
structure Parsed where
  statements : List Statement
  errors : List ParseError
  deriving DecidableEq, Repr

/-- A sequence of tokens in the course of being read line by line: the tokens
    left, and where the end of input stands if they hold none. -/
structure Parser where
  rest : List Token
  finish : Position
  deriving DecidableEq, Repr

namespace Parser

open TokenReader

/-- The parser before its first line. An end of input that is missing is taken to
    stand on the line after the last token. -/
def ofTokens (tokens : List Token) : Parser where
  rest := tokens
  finish := ⟨(tokens.getLast?.map fun token => Position.lineAfter token.position.line).getD 1, 1⟩

/-- The error of a line that was refused with `rest` left. -/
def errorAt (finish : Position) (expected : Expectation) (rest : List Token) : ParseError where
  expected := expected
  found := frontKind rest
  position := (rest.head?.map Token.position).getD finish

/-- Reads one line. A refused line leaves the token that was not expected in
    front. -/
def line (parser : Parser) : Except ParseError Statement × Parser :=
  match TokenReader.line parser.rest with
  | (.ok statement, rest) => (.ok statement, { parser with rest := rest })
  | (.error expected, rest) =>
    (.error (errorAt parser.finish expected rest), { parser with rest := rest })

/-- Reads every line of `tokens`, and gives what is left with what was read. -/
def linesOf (finish : Position) (tokens : List Token) : Parsed × List Token :=
  if _hfront : frontKind tokens = .endOfInput then (⟨[], []⟩, tokens)
  else
    match _hline : TokenReader.line tokens with
    | (.ok statement, rest) =>
      let (parsed, final) := linesOf finish rest
      ({ parsed with statements := statement :: parsed.statements }, final)
    | (.error expected, rest) =>
      let (parsed, final) := linesOf finish (recover rest)
      ({ parsed with errors := errorAt finish expected rest :: parsed.errors }, final)
termination_by tokens.length
decreasing_by
  · exact line_shorter _hfront _hline
  · simpa [_hline] using recover_line_shorter _hfront

def lines (parser : Parser) : Parsed × Parser :=
  let (parsed, rest) := linesOf parser.finish parser.rest
  (parsed, { parser with rest := rest })

end Parser

namespace Parsed

def ofTokens (tokens : List Token) : Parsed :=
  (Parser.ofTokens tokens).lines.1

def ofText (text : List Char) : Parsed :=
  ofTokens (tokenize text)

end Parsed

end CollisionRules
