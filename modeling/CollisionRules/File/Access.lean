import CollisionRules.File.Tree

namespace CollisionRules

/-- Access to files. What a program does to files is written once, for every monad
    that gives access to them; a tree of files carried as state is one such monad. -/
class FileAccess (m : Type → Type) where
  openFile : Path → m (Except Failure (List ReadEvent))
  fileExists : Path → m Bool
  isDirectory : Path → m Bool
  makeDirectory : Path → m (Except Failure Unit)
  writeFile : Path → List UInt8 → m (Except Failure Unit)

/-- A change of a tree that may fail, and then changes nothing. -/
def FileTree.attempt (change : FileTree → Except Failure FileTree) :
    StateM FileTree (Except Failure Unit) :=
  fun tree =>
    match change tree with
    | .ok changed => (.ok (), changed)
    | .error failure => (.error failure, tree)

instance : FileAccess (StateM FileTree) where
  openFile path := fun tree => (tree.openFile path, tree)
  fileExists path := fun tree => (tree.fileExists path, tree)
  isDirectory path := fun tree => (tree.isDirectory path, tree)
  makeDirectory path := FileTree.attempt fun tree => tree.makeDirectory path
  writeFile path bytes := FileTree.attempt fun tree => tree.writeFile path bytes

namespace FileAccess

/-- All bytes of a stream, or the first failure that is not an interruption. -/
def bytesOf : List ReadEvent → Except Failure (List UInt8)
  | [] => .ok []
  | .bytes bytes :: rest => (bytesOf rest).map (bytes ++ ·)
  | .failed failure :: rest =>
    if failure.kind = .interrupted then bytesOf rest else .error failure

/-- The text of a stream that opened, all of which has to be UTF-8. -/
def textOf (opened : Except Failure (List ReadEvent)) : Except Failure (List Char) := do
  let bytes ← bytesOf (← opened)
  match Text.Utf8.decode? bytes with
  | some text => .ok text
  | none => .error .notUtf8

variable {m : Type → Type} [Monad m] [FileAccess m]

def readText (path : Path) : m (Except Failure (List Char)) := do
  return textOf (← openFile path)

def writeText (path : Path) (text : String) : m (Except Failure Unit) :=
  writeFile path (Text.Utf8.encode text.toList)

/-- Makes a directory, and up to `depth` of the directories above it that are not
    there. -/
def makeDirectoriesWithin : (depth : Nat) → Path → m (Except Failure Unit)
  | 0, _ => return .error .noAncestor
  | depth + 1, path => do
    if path.text.isEmpty then return .ok ()
    match ← makeDirectory path with
    | .ok () => return .ok ()
    | .error failure =>
      if failure.kind ≠ .notFound then settle path failure
      else
        match path.parent? with
        | none => return .error .noAncestor
        | some parent =>
          match ← makeDirectoriesWithin depth parent with
          | .error failure => return .error failure
          | .ok () =>
            match ← makeDirectory path with
            | .ok () => return .ok ()
            | .error failure => settle path failure
where
  /-- A directory that could not be made because it is there is as good as made. -/
  settle (path : Path) (failure : Failure) : m (Except Failure Unit) := do
    if ← isDirectory path then return .ok () else return .error failure

/-- Makes a directory with all directories above it that are not there. A path has
    fewer directories above it than characters. -/
def makeDirectories (path : Path) : m (Except Failure Unit) :=
  makeDirectoriesWithin (path.text.length + 1) path

end FileAccess

end CollisionRules
