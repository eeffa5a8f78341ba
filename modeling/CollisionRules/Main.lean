import CollisionRules.CommandLine.LogFilter
import CollisionRules.CommandLine.Run
import CollisionRules.Yaml.Block

namespace CollisionRules

/-- The failure that an error of the machine stands for. -/
def Failure.ofError (error : IO.Error) : Failure :=
  match error with
  | .noFileOrDirectory _ _ _ => .notFound
  | .alreadyExists _ _ _ => .alreadyExists
  | .inappropriateType _ code _ =>
    if code = 20 then .notDirectory
    else if code = 21 then .isDirectory
    else ⟨.other, toString error⟩
  | .interrupted _ _ _ => ⟨.interrupted, toString error⟩
  | _ => ⟨.other, toString error⟩

/-- What an action of the machine gives, or why it failed. -/
def attempt {α : Type} (action : IO α) : IO (Except Failure α) := do
  try
    return .ok (← action)
  catch error =>
    return .error (.ofError error)

/-- A path as an entry of a directory, by which the machine is asked about it. -/
def entryOf (path : Path) : IO.FS.DirEntry := ⟨path.text, ""⟩

instance : FileAccess IO where
  openFile path := do
    if path.text.isEmpty then return .error .notFound
    match ← attempt (IO.FS.Handle.mk path.text .read) with
    | .error failure => return .error failure
    | .ok handle =>
      match ← attempt handle.readBinToEnd with
      | .ok bytes => return .ok [.bytes bytes.toList]
      | .error failure => return .ok [.failed failure]
  fileExists path := (entryOf path).root.pathExists
  isDirectory path := (entryOf path).root.isDir
  makeDirectory path := attempt (IO.FS.createDir path.text)
  writeFile path bytes := attempt (IO.FS.writeBinFile path.text (ByteArray.mk bytes.toArray))

end CollisionRules

open CollisionRules in
/-- Runs the command line and prints what it leaves behind. -/
def main (arguments : List String) : IO UInt32 := do
  let outcome ← CommandLine.run arguments (← IO.getEnv "RUST_LOG")
  IO.print (CommandLine.linesText outcome.output)
  IO.eprint (CommandLine.linesText outcome.messages)
  return outcome.exitCode.toUInt32
