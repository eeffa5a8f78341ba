import CollisionRules.File.Path

namespace CollisionRules.CommandLine

/-- The options without a value. -/
inductive Flag where
  | help
  | version
  | verbose
  | quiet
  | clear
  | tokens
  | statements
  deriving DecidableEq, Repr

/-- The options with a value. -/
inductive ValueOption where
  | config
  | abilities
  | init
  deriving DecidableEq, Repr

/-- The option as messages name it. -/
def ValueOption.name : ValueOption → String
  | .config => "--config"
  | .abilities => "--abilities"
  | .init => "--init"

/-- What an argument is when it is not a value. -/
inductive Argument where
  | flag (flag : Flag)
  | option (option : ValueOption)
  | unknown
  | file
  deriving DecidableEq, Repr

/-- Tells what an argument is when it is not a value. What begins with a dash and is
    no option is unknown. -/
def Argument.ofText (text : String) : Argument :=
  if text = "-h" ∨ text = "--help" then .flag .help
  else if text = "-V" ∨ text = "--version" then .flag .version
  else if text = "-v" ∨ text = "--verbose" then .flag .verbose
  else if text = "-q" ∨ text = "--quiet" then .flag .quiet
  else if text = "--clear" then .flag .clear
  else if text = "--tokens" then .flag .tokens
  else if text = "--ast" then .flag .statements
  else if text = "-c" ∨ text = "--config" then .option .config
  else if text = "--abilities" then .option .abilities
  else if text = "--init" then .option .init
  else if text.toList.head? = some '-' then .unknown
  else .file

/-- What the arguments ask for: the flags that are set, the last value given for
    each option, and the rule file. -/
structure Options where
  flags : Flag → Bool
  value? : ValueOption → Option Path
  file? : Option Path

/-- Why arguments are refused. -/
inductive UsageError where
  | unknownOption (text : String)
  | extraArgument (text : String)
  | missingValue (option : ValueOption)
  deriving DecidableEq, Repr

/-- The error as it is shown. -/
def UsageError.render : UsageError → String
  | .unknownOption text => s!"unknown option: {text}"
  | .extraArgument text => s!"unexpected extra argument: {text}"
  | .missingValue option => s!"{option.name} requires a value"

namespace Options

/-- What no arguments ask for. -/
def none : Options where
  flags _ := false
  value? _ := .none
  file? := .none

/-- The options with a flag set. -/
def setFlag (options : Options) (flag : Flag) : Options :=
  { options with flags := fun other => options.flags other || other = flag }

/-- The options with a value given. -/
def setValue (options : Options) (option : ValueOption) (value : Path) : Options :=
  { options with
    value? := fun other => if other = option then some value else options.value? other }

/-- The options after further arguments, read from the left. -/
def addArguments (options : Options) : List String → Except UsageError Options
  | [] => .ok options
  | text :: rest =>
    match Argument.ofText text with
    | .flag flag => (options.setFlag flag).addArguments rest
    | .option option =>
      match rest with
      | [] => .error (.missingValue option)
      | value :: rest => (options.setValue option ⟨value⟩).addArguments rest
    | .unknown => .error (.unknownOption text)
    | .file =>
      if options.file?.isSome then .error (.extraArgument text)
      else { options with file? := some ⟨text⟩ }.addArguments rest

/-- What arguments ask for. -/
def ofArguments (arguments : List String) : Except UsageError Options :=
  none.addArguments arguments

end Options

end CollisionRules.CommandLine
