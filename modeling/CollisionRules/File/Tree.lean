import CollisionRules.File.Path
import CollisionRules.Source

namespace CollisionRules

/-- The names that lead from the root to a place in a tree. -/
abbrev Location := List String

inductive Entry where
  | file (bytes : List UInt8)
  | directory
  deriving DecidableEq, Repr

/-- A tree of files and directories, and the place that relative paths are read
    from. -/
structure FileTree where
  entry? : Location → Option Entry
  workingDirectory : Location

namespace FileTree

/-- The tree that only holds its working directory and what leads there. -/
def empty (workingDirectory : Location) : FileTree where
  entry? location := if location <+: workingDirectory then some .directory else none
  workingDirectory := workingDirectory

def put (tree : FileTree) (location : Location) (entry : Entry) : FileTree :=
  { tree with
    entry? := fun other => if other = location then some entry else tree.entry? other }

/-- The tree without a place and all that is below it. -/
def remove (tree : FileTree) (location : Location) : FileTree :=
  { tree with
    entry? := fun other => if location <+: other then none else tree.entry? other }

/-- Follows names from a place. Gives the place reached and what stands there. -/
def follow (tree : FileTree) (location : Location) :
    List String → Except Failure (Location × Option Entry)
  | [] => .ok (location, tree.entry? location)
  | name :: rest =>
    match tree.entry? location with
    | none => .error .notFound
    | some (.file _) => .error .notDirectory
    | some .directory =>
      if name = "" ∨ name = "." then tree.follow location rest
      else if name = ".." then tree.follow location.dropLast rest
      else tree.follow (location ++ [name]) rest

def namesOf (path : Path) : List String :=
  (Path.pieces path.text.toList).map String.ofList

/-- The names without the empty ones at the end. -/
def dropTrailing (names : List String) : List String :=
  (names.reverse.dropWhile (· = "")).reverse

/-- A path that no file or directory can have, and why. -/
def refusal? (path : Path) : Option Failure :=
  if path.text.isEmpty then some .notFound
  else if path.text.toList.contains '\x00' then some .nullInPath
  else none

/-- Follows names from where `path` is read from. -/
def followFrom (tree : FileTree) (path : Path) (names : List String) :
    Except Failure (Location × Option Entry) :=
  match refusal? path with
  | some failure => .error failure
  | none => tree.follow (if path.isAbsolute then [] else tree.workingDirectory) names

def find (tree : FileTree) (path : Path) : Except Failure Entry :=
  match tree.followFrom path (namesOf path) with
  | .ok (_, some entry) => .ok entry
  | .ok (_, none) => .error .notFound
  | .error failure => .error failure

/-- Opens what stands at a path for reading. A directory opens too, but the first
    read of it fails. -/
def openFile (tree : FileTree) (path : Path) : Except Failure (List ReadEvent) :=
  match tree.find path with
  | .ok (.file bytes) => .ok [.bytes bytes]
  | .ok .directory => .ok [.failed .isDirectory]
  | .error failure => .error failure

def fileExists (tree : FileTree) (path : Path) : Bool :=
  match tree.find path with
  | .ok _ => true
  | .error _ => false

def isDirectory (tree : FileTree) (path : Path) : Bool :=
  match tree.find path with
  | .ok .directory => true
  | _ => false

/-- Makes a directory where nothing stands yet, in one that is there. -/
def makeDirectory (tree : FileTree) (path : Path) : Except Failure FileTree :=
  match tree.followFrom path (dropTrailing (namesOf path)) with
  | .ok (location, none) => .ok (tree.put location .directory)
  | .ok (_, some _) => .error .alreadyExists
  | .error failure => .error failure

/-- Writes a file in place of any that stands at the path. A path that ends in a
    slash can only be that of a directory. -/
def writeFile (tree : FileTree) (path : Path) (bytes : List UInt8) : Except Failure FileTree :=
  let names := namesOf path
  match tree.followFrom path (dropTrailing names) with
  | .error failure => .error failure
  | .ok (_, some .directory) => .error .isDirectory
  | .ok (location, _) =>
    if names.getLast? = some "" then .error .isDirectory
    else .ok (tree.put location (.file bytes))

end FileTree

end CollisionRules
