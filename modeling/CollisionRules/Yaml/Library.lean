namespace CollisionRules.Yaml

/-- A node of a document, with aliases replaced by what they stand for. A scalar is
    quoted when it can only be a text, and one that is not there is a plain scalar
    without text. -/
inductive Node where
  | scalar (quoted : Bool) (text : List Char)
  | sequence (entries : List Node)
  | mapping (entries : List (Node × Node))

/-- The name of a field: a word of letters, which means itself wherever it stands. -/
structure Word where
  text : String
  isWord : text.toList ≠ [] ∧ text.toList.all Char.isAlpha = true ∧ text.toList.length ≤ 128

/-- A document that is to be written: a truth value, a text, or a block of named
    fields. -/
inductive Document where
  | truth (value : Bool)
  | text (value : String)
  | block (fields : List (Word × Document))

/-- A library that reads and writes YAML. -/
class Library where
  /-- The tree of the only document of a text, or why the text has none. A stream
      without a document has no tree. -/
  read (text : List Char) : Except String (Option Node)
  /-- What is said of a text whose document is not of the kind that was asked for. -/
  misfit (text : List Char) : String
  /-- The text of a document, or why there is none. -/
  write (document : Document) : Except String String

/-- The plain scalars that stand for what is true. -/
def trueWords : List String := ["true", "True", "TRUE"]

/-- The plain scalars that stand for what is false. -/
def falseWords : List String := ["false", "False", "FALSE"]

namespace Node

/-- The truth value that a node stands for. Words in quotes are no truth values. -/
def truth? : Node → Option Bool
  | .scalar false text =>
    if trueWords.contains (String.ofList text) then some true
    else if falseWords.contains (String.ofList text) then some false
    else none
  | _ => none

/-- The text that a node stands for. -/
def text? : Node → Option String
  | .scalar _ text => some (String.ofList text)
  | _ => none

/-- The entries of a node that stands for named fields. A node that is not there
    has none. -/
def fields? : Node → Option (List (String × Node))
  | .mapping entries => entries.mapM fun (key, value) => key.text?.map (·, value)
  | .scalar false [] => some []
  | _ => none

end Node

end CollisionRules.Yaml
