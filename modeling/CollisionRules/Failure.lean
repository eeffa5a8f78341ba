namespace CollisionRules

/-- The kinds of failure that a read or a file operation reports. -/
inductive FailureKind where
  | alreadyExists
  | brokenPipe
  | connectionReset
  | interrupted
  | invalidData
  | invalidInput
  | isDirectory
  | notDirectory
  | notFound
  | permissionDenied
  | unexpectedEnd
  | other
  deriving DecidableEq, Repr

/-- A failure: its kind, and the text shown to the user. -/
structure Failure where
  kind : FailureKind
  message : String
  deriving DecidableEq, Repr

namespace Failure

def notFound : Failure := ⟨.notFound, "No such file or directory (os error 2)"⟩

def alreadyExists : Failure := ⟨.alreadyExists, "File exists (os error 17)"⟩

/-- The path leads through a file as if it were a directory. -/
def notDirectory : Failure := ⟨.notDirectory, "Not a directory (os error 20)"⟩

def isDirectory : Failure := ⟨.isDirectory, "Is a directory (os error 21)"⟩

def notUtf8 : Failure := ⟨.invalidData, "stream did not contain valid UTF-8"⟩

/-- The path holds a null character, which no file name can. -/
def nullInPath : Failure := ⟨.invalidInput, "file name contained an unexpected NUL byte"⟩

/-- No ancestor of the path is left that could be created. -/
def noAncestor : Failure := ⟨.other, "failed to create whole tree"⟩

end Failure

end CollisionRules
