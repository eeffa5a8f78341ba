import CollisionRules.Failure
import CollisionRules.Text.Lines
import CollisionRules.Text.Utf8

namespace CollisionRules

inductive LineAnswer where
  | line (text : List Char)
  | failed (failure : Failure)
  | finished
  deriving DecidableEq, Repr

/-- The answers that a line source gives, in order. Once they are used up, every
    further answer is `finished`. -/
abbrev LineSource := List LineAnswer

/-- One event of a byte stream: some bytes arrive, or a read fails. The bytes that
    arrive are not empty before the end of a stream, for an empty read is its end. -/
inductive ReadEvent where
  | bytes (bytes : List UInt8)
  | failed (failure : Failure)
  deriving DecidableEq, Repr

namespace LineSource

def ofText (text : List Char) : LineSource :=
  (Text.lines text).map .line

/-- The lines of a byte stream, given the bytes of the line that is still open.
    An interrupted read is tried again, and costs nothing; any other failure is
    passed on, and the bytes of the open line are lost with it. Bytes that are
    not UTF-8 are replaced. -/
def ofOpenLine (openLine : List UInt8) : List ReadEvent → LineSource
  | [] => if openLine.isEmpty then [] else [.line (Text.Utf8.decodeLossy openLine)]
  | .bytes bytes :: rest =>
    let (whole, remainder) := Text.cut (· == 0x0A) (openLine ++ bytes)
    whole.map (fun line => .line (Text.Utf8.decodeLossy (Text.dropFinal 0x0D line))) ++
      ofOpenLine remainder rest
  | .failed failure :: rest =>
    if failure.kind = .interrupted then ofOpenLine openLine rest
    else .failed failure :: ofOpenLine [] rest

def ofStream (events : List ReadEvent) : LineSource :=
  ofOpenLine [] events

end LineSource

end CollisionRules
