import CollisionRules.CommandLine.LogFilter
import CollisionRules.CommandLine.Options
import CollisionRules.Host
import CollisionRules.Settings.Text

namespace CollisionRules.CommandLine

def helpText : String :=
  "\n".intercalate [
    "\x1b[1mCollider\x1b[0m - Collision rule loader",
    "",
    "\x1b[1mUSAGE:\x1b[0m",
    "    collider [OPTIONS] [FILE]",
    "",
    "\x1b[1mARGUMENTS:\x1b[0m",
    "    [FILE]    Rule file to load (overrides CollisionFile from settings)",
    "",
    "\x1b[1mOPTIONS:\x1b[0m",
    "    -h, --help              Print help information",
    "    -V, --version           Print version information",
    "    -c, --config PATH       Read settings from a YAML file",
    "    -v, --verbose           Log every group binding and rule operation",
    "    -q, --quiet             Only log warnings",
    "        --clear             Remove existing rules before loading",
    "        --abilities PATH    Ability roster, one name per line",
    "        --init DIR          Write default settings and rule file to DIR",
    "",
    "\x1b[1mDEBUG OPTIONS:\x1b[0m",
    "    --tokens                Print the token stream before loading",
    "    --ast                   Print parsed statements before loading",
    "",
    "\x1b[1mEXAMPLES:\x1b[0m",
    "    collider collisions.txt            Load a rule file and print the rules",
    "    collider -c plugin/config.yml      Load the file named in the settings",
    "    collider --init plugin             Create plugin/config.yml and load it",
    "    collider -v --ast rules.txt        Show statements and every operation",
    "",
    "Set RUST_LOG to change which log lines are printed."]

def versionText : String := "collider 0.1.0"

/-- What a run leaves behind: its exit code, and the lines of its two outputs. -/
structure Outcome where
  exitCode : Nat
  output : List String
  messages : List String
  deriving DecidableEq, Repr

def linesText (lines : List String) : String :=
  String.join (lines.map (· ++ "\n"))

def errorLine (message : String) : String :=
  s!"\x1b[31mError: {message}\x1b[0m"

def heading (title : String) : String :=
  s!"\x1b[1;36m=== {title} ===\x1b[0m"

/-- Spaces that fill up a text to a width. -/
def filling (width : Nat) (text : String) : String :=
  String.ofList (List.replicate (width - text.length) ' ')

def tokenLine (token : Token) : String :=
  let position := token.position.render
  let kind := token.kind.name
  filling 6 position ++ position ++ "  " ++ kind ++ filling 12 kind ++ " " ++ token.text

def tokenDump (text : List Char) : List String :=
  [heading "Tokens"] ++ (tokenize text).map tokenLine ++ [""]

def statementDump (parsed : Parsed) : List String :=
  let rejected := parsed.errors.length
  [heading "Statements"] ++
    (parsed.statements.filter fun statement => !statement.isEmpty).map Statement.render ++
    (if rejected = 0 then [] else [s!"({rejected} lines rejected)"]) ++ [""]

/-- What the dumps of a run print and say, and why they stopped short, if they did. -/
structure Dump where
  output : List String
  events : List Event
  error? : Option Error

def Dump.none : Dump := ⟨[], [], .none⟩

/-- The dump of the tokens of a text, if it could be read. -/
def Dump.tokens (path : Path) : Except Failure (List Char) → Dump
  | .ok text => ⟨tokenDump text, [], .none⟩
  | .error failure => ⟨[], [], some (.unreadable path failure)⟩

/-- The dump of the statements of a text, if it could be read. Parsing it says which
    lines it refuses. -/
def Dump.statements (path : Path) : Except Failure (List Char) → Dump
  | .ok text =>
    let parsed := Parsed.ofText text
    ⟨statementDump parsed, parsed.errors.map .rejected, .none⟩
  | .error failure => ⟨[], [], some (.unreadable path failure)⟩

variable {m : Type → Type} [Monad m] [FileAccess m]

/-- The settings that a run reads. A directory to be prepared has settings, which are
    read unless others are given. -/
def settingsPath [Yaml.Library] (options : Options) :
    m (Except Error (Option Path) × List Event) := do
  match options.value? .init with
  | none => return (.ok (options.value? .config), [])
  | some directory =>
    match ← Settings.prepare directory with
    | (.error error, events) => return (.error error, events)
    | (.ok created, events) =>
      return (.ok (some ((options.value? .config).getD created)), events)

def abilities (options : Options) : m (Except Error AbilityTable) :=
  match options.value? .abilities with
  | none => return .ok Roster.coreTable
  | some path => Roster.load path

/-- The host of a run, before what the options force on it. -/
def baseHost [Yaml.Library] (abilities : AbilityTable) (settings : Option Path) :
    m (Except Error Host) :=
  match settings with
  | none => return .ok (.new abilities .default)
  | some path => Host.fromSettings abilities path

def force (options : Options) (host : Host) : Host :=
  let host := (host.withVerbose (options.flags .verbose)).withClearExisting (options.flags .clear)
  match options.file? with
  | none => host
  | some file => host.withSource file

/-- The host of a run, and the events of preparing it. -/
def openHost [Yaml.Library] (options : Options) : m (Except Error Host × List Event) := do
  match ← settingsPath options with
  | (.error error, events) => return (.error error, events)
  | (.ok settings, events) =>
    match ← abilities options with
    | .error error => return (.error error, events)
    | .ok abilities =>
      match ← baseHost abilities settings with
      | .error error => return (.error error, events)
      | .ok host => return (.ok (force options host), events)

/-- A dump made with `make` of the text of the file at `source`, if it is asked for. -/
def dumpIf (asked : Bool) (make : Path → Except Failure (List Char) → Dump) (source : Path) :
    m Dump := do
  if asked then return make source (← FileAccess.readText source) else return .none

/-- The dumps that the options ask for, the tokens first. A dump that fails is the
    last. -/
def dump (options : Options) (source : Path) : m Dump := do
  let tokens ← dumpIf (options.flags .tokens) .tokens source
  match tokens.error? with
  | some _ => return tokens
  | none =>
    let statements ← dumpIf (options.flags .statements) .statements source
    return ⟨tokens.output ++ statements.output, tokens.events ++ statements.events,
      statements.error?⟩

/-- A run that failed after printing some lines. -/
def failed (output log : List String) (message : String) : Outcome :=
  ⟨1, output, log ++ [errorLine message]⟩

/-- The filter of a run that is asked for no other. -/
def defaultFilter : String := "info"

/-- The filter of a run that is to be quiet. -/
def quietFilter : String := "warn"

/-- The filter of a run: the one that is wanted from outside, or else the one that the
    options ask for. -/
def filterOf [LogReader] (options : Options) (wanted? : Option String) : Event → Bool :=
  (wanted?.bind LogReader.read?).getD
    (LogReader.readParts (if options.flags .quiet then quietFilter else defaultFilter))

/-- Loads the rule file of a host and prints the rules, after the dumps. -/
def loadAndPrint (options : Options) (filter : Event → Bool) (host : Host) (opening : List Event) :
    m Outcome := do
  let dump ← dump options host.config.source
  match dump.error? with
  | some error =>
    return failed dump.output (logLines filter (opening ++ dump.events)) error.render
  | none =>
    let step ← host.load
    let log := logLines filter (opening ++ dump.events ++ step.events)
    match step.result with
    | .error error => return failed dump.output log error.render
    | .ok report =>
      return ⟨0, dump.output ++ step.host.rules.rules.map Rule.render, log ++ [report.render]⟩

def runOptions [Yaml.Library] [LogReader] (options : Options) (wanted? : Option String) :
    m Outcome := do
  if options.flags .help then return ⟨0, [helpText], []⟩
  if options.flags .version then return ⟨0, [versionText], []⟩
  let filter := filterOf options wanted?
  match ← openHost options with
  | (.error error, events) => return failed [] (logLines filter events) error.render
  | (.ok host, events) => loadAndPrint options filter host events

/-- Does what arguments ask for. The text that comes with them, if there is one, says
    which events are wanted. -/
def run [Yaml.Library] [LogReader] (arguments : List String) (wanted? : Option String) :
    m Outcome :=
  match Options.ofArguments arguments with
  | .error error => return failed [] [] error.render
  | .ok options => runOptions options wanted?

end CollisionRules.CommandLine
