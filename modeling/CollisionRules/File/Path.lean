import CollisionRules.Text.Lines

namespace CollisionRules

/-- The path of a file, as text. A slash parts the names; empty names and `.` stand
    for the directory reached so far, except at the very front. -/
structure Path where
  text : String
  deriving DecidableEq, Repr

namespace Path

/-- A path from the root, which does not depend on where it is read from. -/
def isAbsolute (path : Path) : Bool :=
  path.text.toList.head? == some '/'

/-- The path `child` as read from the directory `base`. -/
def join (base child : Path) : Path :=
  if child.isAbsolute then child
  else if base.text.isEmpty || base.text.toList.getLast? == some '/' then
    ⟨base.text ++ child.text⟩
  else ⟨base.text ++ "/" ++ child.text⟩

def pieces (text : List Char) : List (List Char) :=
  let (whole, remainder) := Text.cut (· == '/') text
  whole ++ [remainder]

def ofPieces (pieces : List (List Char)) : List Char :=
  ['/'].intercalate pieces

/-- A piece that leads nowhere. -/
def isFiller (piece : List Char) : Bool :=
  piece.isEmpty || piece == ['.']

/-- The pieces up to the last one that leads somewhere. -/
def dropFillers (pieces : List (List Char)) : List (List Char) :=
  (pieces.reverse.dropWhile isFiller).reverse

/-- A text parted into the front that always stays (the root, or a `.` that stands
    for the working directory) and the rest. -/
def anchored : List Char → List Char × List Char
  | '/' :: rest => (['/'], rest)
  | ['.'] => (['.'], [])
  | '.' :: '/' :: rest => (['.'], '/' :: rest)
  | text => ([], text)

/-- The directory that holds the last name of a path. The root and the empty path
    have none. -/
def parent? (path : Path) : Option Path :=
  let (anchor, rest) := anchored path.text.toList
  match dropFillers (pieces rest) with
  | [] => if anchor = ['.'] then some ⟨""⟩ else none
  | first :: others =>
    some ⟨String.ofList (anchor ++ ofPieces (dropFillers (first :: others).dropLast))⟩

/-- The directory that relative paths in the file at `path` are read from. -/
def directory (path : Path) : Path :=
  match path.parent? with
  | some parent => if parent.text.isEmpty then ⟨"."⟩ else parent
  | none => ⟨"."⟩

end Path

end CollisionRules
