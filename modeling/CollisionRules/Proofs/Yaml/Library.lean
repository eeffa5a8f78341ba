import CollisionRules.Text.Blank
import CollisionRules.Yaml.Library

namespace CollisionRules.Yaml

/-- A character of a single line: no control character, and no separator of lines or of
    paragraphs. -/
def isLineChar (c : Char) : Bool :=
  0x20 ≤ c.toNat && !(0x7F ≤ c.toNat && c.toNat ≤ 0x9F) && !(c == '\u2028' || c == '\u2029')

mutual

/-- A tree that stands for a document. A truth value and a text may be written in any way that says
    them. -/
inductive Node.Shows : Node → Document → Prop
  | truth {node : Node} {value : Bool} (hvalue : node.truth? = some value) :
      Node.Shows node (.truth value)
  | text {node : Node} {value : String} (hvalue : node.text? = some value) :
      Node.Shows node (.text value)
  | block {entries : List (Node × Node)} {fields : List (Word × Document)}
      (hfields : Node.ShowFields entries fields) : Node.Shows (.mapping entries) (.block fields)

/-- The entries of a tree that stand for named fields, in their order. -/
inductive Node.ShowFields : List (Node × Node) → List (Word × Document) → Prop
  | nil : Node.ShowFields [] []
  | cons {key value : Node} {name : Word} {field : Document} {entries : List (Node × Node)}
      {fields : List (Word × Document)} (hname : key.text? = some name.text)
      (hvalue : Node.Shows value field) (hrest : Node.ShowFields entries fields) :
      Node.ShowFields ((key, value) :: entries) ((name, field) :: fields)

end

/-- A document that fits on a line: a truth value, or a text of a single line. -/
def Document.IsLine : Document → Prop
  | .truth _ => True
  | .text value => ∀ c ∈ value.toList, isLineChar c = true
  | .block _ => False

/-- A document that is one section: under a name, a block of named values of a line each. -/
inductive Document.IsSection : Document → Prop
  | intro {name : Word} {fields : List (Word × Document)} (hne : fields ≠ [])
      (hline : ∀ field ∈ fields, field.2.IsLine) : IsSection (.block [(name, .block fields)])

/-- What is relied on of a library of YAML: sections keep what they say when they are written and
    read. No text of one line may be written as a scalar that says anything else. -/
structure Library.KeepsSections [Library] : Prop where
  /-- A section can be written, and not as nothing but white space. -/
  writes {document : Document} (hdocument : document.IsSection) :
    ∃ text, Library.write document = .ok text ∧ Text.trim text.toList ≠ []
  /-- The text that is written for a section is read as a tree that stands for it. -/
  reads {document : Document} (hdocument : document.IsSection) {text : String}
    (hwrite : Library.write document = .ok text) :
    ∃ root, Library.read text.toList = .ok (some root) ∧ root.Shows document

end CollisionRules.Yaml
