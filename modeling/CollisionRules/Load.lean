import CollisionRules.Pass

namespace CollisionRules

variable {H : Type}

/-- How a load is done. -/
structure LoadConfig where
  /-- Say what happens to each group and each pair. -/
  verbose : Bool
  /-- Delete every rule first. -/
  clearExisting : Bool
  /-- The rule file. -/
  source : Path
  deriving DecidableEq, Repr

namespace LoadConfig

/-- The name of a rule file when none is given. -/
def defaultSource : String := "collisions.txt"

def default : LoadConfig := ⟨false, false, ⟨defaultSource⟩⟩

end LoadConfig

/-- What a load comes to: its result, the changes it makes to the rules, and the
    events. None of that depends on the rules that are there, so that it can be told
    without them. -/
structure Load (H Result : Type) where
  result : Result
  operations : List (RuleOperation H)
  events : List Event

namespace Load

/-- The changes that come before anything is read. -/
def openingOperations (config : LoadConfig) : List (RuleOperation H) :=
  if config.clearExisting then [.clear] else []

/-- The events that come before anything is read. -/
def openingEvents (config : LoadConfig) : List Event :=
  (if config.clearExisting then [.clearing] else []) ++ [.beginning]

/-- The report of a pass over what was parsed of a reading. -/
def report (reading : Reading) (parsed : Parsed) (pass : Resolution H) : LoadReport :=
  { pass.report with
    rejectedLines := parsed.errors.length
    truncated := reading.truncation.isSome }

def ofReading [ToString H] (lookup : String → Option H) (config : LoadConfig)
    (reading : Reading) : Load H LoadReport :=
  let parsed := Parsed.ofTokens reading.tokens
  let pass := Resolution.ofStatements lookup config.verbose parsed.statements
  let report := report reading parsed pass
  { result := report
    operations := openingOperations config ++ pass.operations
    events := openingEvents config ++ reading.truncation.toList.map .truncated ++
      parsed.errors.map .rejected ++ pass.events ++ [.finished report] }

def ofText [ToString H] (lookup : String → Option H) (config : LoadConfig) (text : List Char) :
    Load H LoadReport :=
  ofReading lookup config (.ofText text)

def ofStream [ToString H] (lookup : String → Option H) (config : LoadConfig)
    (events : List ReadEvent) : Load H LoadReport :=
  ofReading lookup config (.ofStream events)

/-- Loads the rule file of the configuration, given what opening it gave. The rules
    are cleared before the file is opened, so also when it does not open. -/
def ofOpened [ToString H] (lookup : String → Option H) (config : LoadConfig)
    (opened : Except Failure (List ReadEvent)) : Load H (Except Error LoadReport) :=
  match opened with
  | .ok events =>
    let load := ofStream lookup config events
    { load with result := .ok load.result }
  | .error failure =>
    let error := Error.unreadable config.source failure
    { result := .error error
      operations := openingOperations config
      events := openingEvents config ++ [.unopened error] }

end Load

/-- A load at work on a registry: its result, the events in order, and the registry as
    it leaves it. -/
structure Loaded (Result S : Type) where
  result : Result
  events : List Event
  registry : S

namespace Loaded

variable {S : Type} [RuleRegistry H S]

/-- What a load does before anything is read. -/
def begin (config : LoadConfig) (registry : S) : List Event × S :=
  if config.clearExisting then ([.clearing, .beginning], RuleRegistry.clear registry)
  else ([.beginning], registry)

/-- Works off what was read, on the rules that are there. -/
def ofReading [ToString H] (lookup : String → Option H) (config : LoadConfig) (registry : S)
    (reading : Reading) : Loaded LoadReport S :=
  let (opening, registry) := begin config registry
  let parsed := Parsed.ofTokens reading.tokens
  let pass := Pass.ofStatements lookup config.verbose registry parsed.statements
  let report := { pass.report with
    rejectedLines := parsed.errors.length
    truncated := reading.truncation.isSome }
  { result := report
    events := opening ++ reading.truncation.toList.map .truncated ++
      parsed.errors.map .rejected ++ pass.events ++ [.finished report]
    registry := pass.registry }

def ofText [ToString H] (lookup : String → Option H) (config : LoadConfig) (registry : S)
    (text : List Char) : Loaded LoadReport S :=
  ofReading lookup config registry (.ofText text)

/-- Loads the rule file of the configuration, given what opening it gave. -/
def ofOpened [ToString H] (lookup : String → Option H) (config : LoadConfig) (registry : S)
    (opened : Except Failure (List ReadEvent)) : Loaded (Except Error LoadReport) S :=
  match opened with
  | .ok events =>
    let loaded := ofReading lookup config registry (.ofStream events)
    { loaded with result := .ok loaded.result }
  | .error failure =>
    let (opening, registry) := begin config registry
    let error := Error.unreadable config.source failure
    { result := .error error
      events := opening ++ [.unopened error]
      registry }

end Loaded

end CollisionRules
