import CollisionRules.Ability.Roster
import CollisionRules.Settings

namespace CollisionRules

/-- What is forced on every load, whatever the settings say. -/
structure Overrides where
  verbose : Bool
  clearExisting : Bool
  source? : Option Path
  deriving DecidableEq, Repr

namespace Overrides

def none : Overrides := ⟨false, false, .none⟩

/-- A configuration with what is forced. -/
def apply (overrides : Overrides) (config : LoadConfig) : LoadConfig where
  verbose := config.verbose || overrides.verbose
  clearExisting := config.clearExisting || overrides.clearExisting
  source := overrides.source?.getD config.source

end Overrides

/-- Abilities, the rules between them, and the options of loads. A load adds to the
    rules; whether it first deletes those that are there is an option. -/
structure Host where
  abilities : AbilityTable
  rules : RuleStore Ability
  settingsPath? : Option Path
  /-- The options without what is forced. -/
  baseConfig : LoadConfig
  overrides : Overrides
  /-- The number of loads that gave a report. -/
  loads : Nat

namespace Host

/-- What a step of a host gives: a result, the host after it, and the events. -/
structure Step (α : Type) where
  result : α
  host : Host
  events : List Event

def new (abilities : AbilityTable) (config : LoadConfig) : Host where
  abilities := abilities
  rules := .empty
  settingsPath? := none
  baseConfig := config
  overrides := .none
  loads := 0

/-- The options in the settings at `path`, given what reading them gave. -/
def configOf [Yaml.Library] (path : Path) (read : Except Failure (List Char)) :
    Except Error LoadConfig :=
  match Settings.ofRead path read with
  | .ok settings => .ok (settings.toLoadConfig path.directory)
  | .error error => .error error

/-- A host whose options come from the settings at `path`, given what reading them
    gave. -/
def ofRead [Yaml.Library] (abilities : AbilityTable) (path : Path)
    (read : Except Failure (List Char)) : Except Error Host :=
  match configOf path read with
  | .ok config => .ok { new abilities config with settingsPath? := some path }
  | .error error => .error error

def withRules (host : Host) (rules : RuleStore Ability) : Host :=
  { host with rules }

/-- The host with events for each group and each pair forced on, or not. -/
def withVerbose (host : Host) (verbose : Bool) : Host :=
  { host with overrides := { host.overrides with verbose } }

/-- The host with the deletion of all rules before a load forced on, or not. -/
def withClearExisting (host : Host) (clearExisting : Bool) : Host :=
  { host with overrides := { host.overrides with clearExisting } }

/-- The host with the given rule file in place of that of its options. -/
def withSource (host : Host) (source : Path) : Host :=
  { host with overrides := { host.overrides with source? := some source } }

def config (host : Host) : LoadConfig :=
  host.overrides.apply host.baseConfig

def countLoad (host : Host) : Host :=
  { host with loads := host.loads + 1 }

def loadText (host : Host) (text : List Char) : Step LoadReport :=
  let loaded := Loaded.ofText host.abilities.get? host.config host.rules text
  ⟨loaded.result, (host.withRules loaded.registry).countLoad, loaded.events⟩

/-- Loads the rule file, given what opening it gave. -/
def loadOpened (host : Host) (opened : Except Failure (List ReadEvent)) :
    Step (Except Error LoadReport) :=
  let loaded := Loaded.ofOpened host.abilities.get? host.config host.rules opened
  let changed := host.withRules loaded.registry
  match loaded.result with
  | .ok report => ⟨.ok report, changed.countLoad, loaded.events⟩
  | .error error => ⟨.error error, changed, loaded.events⟩

/-- A reload that gave a report says so. -/
def announceReload (step : Step (Except Error LoadReport)) : Step (Except Error LoadReport) :=
  match step.result with
  | .ok _ => { step with events := step.events ++ [.reloaded] }
  | .error _ => step

variable {m : Type → Type} [Monad m] [FileAccess m]

/-- A host whose options come from the settings at `path`. -/
def fromSettings [Yaml.Library] (abilities : AbilityTable) (path : Path) :
    m (Except Error Host) := do
  return ofRead abilities path (← FileAccess.readText path)

def load (host : Host) : m (Step (Except Error LoadReport)) := do
  return host.loadOpened (← FileAccess.openFile host.config.source)

/-- Reads the settings again, if there are any, and loads the rule file. Settings
    that cannot be read leave the host as it is. -/
def reload [Yaml.Library] (host : Host) : m (Step (Except Error LoadReport)) := do
  match host.settingsPath? with
  | none => return announceReload (← host.load)
  | some path =>
    match configOf path (← FileAccess.readText path) with
    | .error error => return ⟨.error error, host, []⟩
    | .ok config => return announceReload (← { host with baseConfig := config }.load)

end Host

def Roster.load {m : Type → Type} [Monad m] [FileAccess m] (path : Path) :
    m (Except Error AbilityTable) := do
  match ← FileAccess.readText path with
  | .ok text => return .ok (Roster.table text)
  | .error failure => return .error (.unreadable path failure)

end CollisionRules
