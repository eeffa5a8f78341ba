import CollisionRules.Yaml.Library
import CollisionRules.Yaml.Node
import CollisionRules.Yaml.Quoting

namespace CollisionRules.Yaml

namespace Document

mutual

/-- What is written behind the colon of a field whose name stands in column `margin`.
    The fields of a block, and the further lines of a text, stand two columns
    further in. -/
def renderValue (margin : Nat) : Document → List Char
  | .truth value => ' ' :: (toString value).toList ++ ['\n']
  | .text value => ' ' :: renderScalar (margin + 2) value.toList ++ ['\n']
  | .block [] => [' ', '\x7b', '\x7d', '\n']
  | .block fields => '\n' :: renderFields (margin + 2) fields
termination_by structural document => document

/-- The lines of fields whose names stand in column `margin`. -/
def renderFields (margin : Nat) : List (Word × Document) → List Char
  | [] => []
  | (name, value) :: rest =>
    List.replicate margin ' ' ++ (name.text.toList ++ ':' :: renderValue margin value) ++
      renderFields margin rest
termination_by structural fields => fields

end

/-- The text of a document. -/
def render : Document → List Char
  | .truth value => (toString value).toList ++ ['\n']
  | .text value => renderScalar 0 value.toList ++ ['\n']
  | .block [] => ['\x7b', '\x7d', '\n']
  | .block fields => renderFields 0 fields

end Document

/-- The library that the program reads and writes YAML with. It says the same of every
    text that it does not read. -/
instance library : Library where
  read text := (Node.ofText? text).elim (.error "the text is no document") .ok
  misfit _ := "the document is not a block of options"
  write document := .ok (String.ofList document.render)

end CollisionRules.Yaml
