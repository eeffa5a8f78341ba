import CollisionRules.File.Access
import CollisionRules.Load
import CollisionRules.Yaml.Library

namespace CollisionRules

/-- The options of a load. In a YAML file they are the block `Properties`, with the
    keys `Verbose`, `DisableCoreCollisions` and `CollisionFile`. Every key may be
    left out, and keys of other names do not count. -/
structure Settings where
  /-- Say what happens to each group and each pair. -/
  verbose : Bool
  /-- Delete every rule before a load. -/
  disableCoreCollisions : Bool
  /-- The rule file, as read from the directory that holds the settings. -/
  collisionFile : String
  deriving DecidableEq, Repr

namespace Settings

open Yaml

/-- The settings of a file that says nothing. -/
def default : Settings := ⟨false, false, LoadConfig.defaultSource⟩

/-- The name of a settings file. -/
def fileName : Path := ⟨"config.yml"⟩

/-- What `read` gives for the only field of a name, or `absent` if there is none.
    A name must not be given twice. -/
def field? {α : Type} (fields : List (String × Node)) (name : String) (absent : α)
    (read : Node → Option α) : Option α :=
  match fields.filter (·.1 == name) with
  | [] => some absent
  | [(_, node)] => read node
  | _ => none

/-- The settings that the block of options stands for. -/
def ofProperties? (node : Node) : Option Settings := do
  let fields ← node.fields?
  let verbose ← field? fields "Verbose" default.verbose Node.truth?
  let disable ← field? fields "DisableCoreCollisions" default.disableCoreCollisions Node.truth?
  let file ← field? fields "CollisionFile" default.collisionFile Node.text?
  return ⟨verbose, disable, file⟩

/-- The settings that a document stands for. -/
def ofNode? (root : Node) : Option Settings := do
  field? (← root.fields?) "Properties" default ofProperties?

/-- The settings that a text stands for. Nothing but white space, and no document,
    stand for the defaults. -/
def ofYaml? [Library] (text : List Char) : Option Settings := do
  if (Text.trim text).isEmpty then return default
  match ← (Library.read text).toOption with
  | none => return default
  | some root => ofNode? root

/-- What is said of a text that stands for no settings. -/
def malformed [Library] (text : List Char) : Error :=
  .ofCause <| .invalidSettings <|
    match Library.read text with
    | .error message => message
    | .ok _ => Library.misfit text

/-- The settings that a text stands for, or the error if it stands for none. -/
def ofYaml [Library] (text : List Char) : Except Error Settings :=
  match ofYaml? text with
  | some settings => .ok settings
  | none => .error (malformed text)

/-- The document that settings are written as. -/
def toDocument (settings : Settings) : Document :=
  .block [(⟨"Properties", by decide⟩, .block
    [(⟨"Verbose", by decide⟩, .truth settings.verbose),
      (⟨"DisableCoreCollisions", by decide⟩, .truth settings.disableCoreCollisions),
      (⟨"CollisionFile", by decide⟩, .text settings.collisionFile)])]

/-- The text that settings are written as, or the error if they cannot be written. -/
def toText [Library] (settings : Settings) : Except Error String :=
  match Library.write settings.toDocument with
  | .ok text => .ok text
  | .error message => .error (.ofCause (.invalidSettings message))

/-- How a load is done under the settings, whose rule file is read from `base`. -/
def toLoadConfig (settings : Settings) (base : Path) : LoadConfig where
  verbose := settings.verbose
  clearExisting := settings.disableCoreCollisions
  source := base.join ⟨settings.collisionFile⟩

/-- The settings in the text of the file at `path`, if the text could be read. -/
def ofRead [Library] (path : Path) (read : Except Failure (List Char)) : Except Error Settings :=
  match read with
  | .error failure => .error (.unreadable path failure)
  | .ok text =>
    match ofYaml text with
    | .ok settings => .ok settings
    | .error error => .error { error with context? := some ⟨some path.text, none⟩ }

/-- The rule file of a directory that has none. -/
def emptyRules : String :=
  "# Collision rules, one per line.\n" ++
  "#\n" ++
  "#   A > B    A removes B\n" ++
  "#   A < B    B removes A\n" ++
  "#   A = B    both are removed\n" ++
  "#   A ~ B    neither is removed\n" ++
  "#   A x B    remove every rule between A and B\n" ++
  "#\n" ++
  "# group \"Name\" \x7bA, B, $Other\x7d declares a group; use it later as $Name.\n"

variable {m : Type → Type} [Monad m] [FileAccess m]

/-- Reads the settings in a file. -/
def load [Library] (path : Path) : m (Except Error Settings) := do
  return ofRead path (← FileAccess.readText path)

/-- Writes a text, if there is one, to a file where nothing stands. Gives the events:
    one if the text was written, none if something stood there. -/
def writeMissing (path : Path) (text : Except Error String) (written : Event) :
    m (Except Error (List Event)) := do
  if ← FileAccess.fileExists path then return .ok []
  match text with
  | .error error => return .error error
  | .ok text =>
    match ← FileAccess.writeText path text with
    | .ok () => return .ok [written]
    | .error failure => return .error (.unreadable path failure)

/-- Makes a directory with settings and a rule file, and keeps what is there.
    Gives the path of the settings, and the events up to the end or to the first
    failure. -/
def prepare [Library] (directory : Path) : m (Except Error Path × List Event) := do
  match ← FileAccess.makeDirectories directory with
  | .error failure => return (.error (.unreadable directory failure), [])
  | .ok () =>
    let settingsPath := directory.join fileName
    match ← writeMissing settingsPath default.toText (.wroteSettings settingsPath) with
    | .error error => return (.error error, [])
    | .ok events =>
      match ← load settingsPath with
      | .error error => return (.error error, events)
      | .ok settings =>
        let rulesPath := directory.join ⟨settings.collisionFile⟩
        match ← writeMissing rulesPath (.ok emptyRules) (.wroteRules rulesPath) with
        | .error error => return (.error error, events)
        | .ok more => return (.ok settingsPath, events ++ more)

end Settings

end CollisionRules
