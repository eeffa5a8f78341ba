import CollisionRules.CommandLine.Log
import CollisionRules.Text.Blank
import CollisionRules.Text.Lines

namespace CollisionRules.CommandLine

/-- The events that can be told apart by their level. -/
inductive LogFilter where
  | nothing
  | warnings
  | everything
  deriving DecidableEq, Repr

namespace LogFilter

def shows : LogFilter → Event → Bool
  | .nothing, _ => false
  | .warnings, event => event.level == .warn
  | .everything, _ => true

/-- The names of the levels, and their numbers. No event is graver than a warning. -/
def levels : List (String × LogFilter) :=
  [("off", .nothing), ("0", .nothing), ("error", .nothing), ("1", .nothing),
    ("warn", .warnings), ("2", .warnings), ("info", .everything), ("3", .everything),
    ("debug", .everything), ("4", .everything), ("trace", .everything), ("5", .everything)]

/-- A number without the zeros in front of it. Any other word stays as it is. -/
def unpadded (word : List Char) : List Char :=
  if word.all Char.isDigit && !word.isEmpty then
    match word.dropWhile (· == '0') with
    | [] => ['0']
    | digits => digits
  else word

/-- The filter that a word asks for, if it is the name of a level, in any mixture of
    cases, or its number. -/
def ofLevel? (word : List Char) : Option LogFilter :=
  levels.lookup (String.ofList (unpadded (Text.lowerAscii word)))

/-- A word that is a level or a name: it begins with a letter, a digit, a dash, a colon
    or an underscore, after any white space. Every character outside ASCII counts as a
    letter here. -/
def isWord (word : List Char) : Bool :=
  (Text.trim word).head?.any fun c =>
    c.isAlphanum || c == '-' || c == ':' || c == '_' || 0x80 ≤ c.toNat

def wordsOf (text : List Char) : List (List Char) :=
  let (whole, remainder) := Text.cut (· == ',') text
  (whole ++ [remainder]).filter fun word => !word.isEmpty

/-- The filter that words ask for. The last level counts. A word that is no level is a
    name whose events alone are asked for, and no event goes by a name. -/
def ofWords (words : List (List Char)) : LogFilter :=
  (words.filterMap ofLevel?).getLast?.getD .nothing

end LogFilter

/-- The library that the program reads filters with. -/
instance logReader : LogReader where
  read? text :=
    let words := LogFilter.wordsOf text.toList
    if words.all LogFilter.isWord then some (LogFilter.ofWords words).shows else none
  readParts text :=
    (LogFilter.ofWords ((LogFilter.wordsOf text.toList).filter LogFilter.isWord)).shows

end CollisionRules.CommandLine

