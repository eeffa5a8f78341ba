import CollisionRules.Host
import CollisionRules.Proofs.Resolution.Registry

namespace CollisionRules

variable {H S Result : Type}

open RuleRegistry (replay replay_append)

namespace Load

variable [RuleRegistry H S]

/-- A load that has been carried out on a registry. -/
def on (registry : S) (load : Load H Result) : Loaded Result S :=
  ⟨load.result, load.events, replay registry load.operations⟩

theorem begin_eq (config : LoadConfig) (registry : S) :
    Loaded.begin config registry =
      (openingEvents config, replay registry (openingOperations config)) := by
  unfold Loaded.begin openingEvents openingOperations
  split <;> rfl

variable [ToString H]

/-- Whatever was read, a load does to a registry just what it is recorded to ask for. -/
theorem ofReading_on (lookup : String → Option H) (config : LoadConfig) (registry : S)
    (reading : Reading) :
    Loaded.ofReading lookup config registry reading =
      (ofReading lookup config reading).on registry := by
  simp only [Loaded.ofReading, begin_eq, Resolution.ofStatements_on, on, ofReading, report,
    Resolution.on, replay_append]

/-- The same of a rule file, which is asked to be cleared of its rules even if it does not open. -/
theorem ofOpened_on (lookup : String → Option H) (config : LoadConfig) (registry : S)
    (opened : Except Failure (List ReadEvent)) :
    Loaded.ofOpened lookup config registry opened =
      (ofOpened lookup config opened).on registry := by
  cases opened with
  | ok events =>
    simp only [Loaded.ofOpened, ofReading_on]
    rfl
  | error failure =>
    simp only [Loaded.ofOpened, begin_eq]
    rfl

end Load

namespace Host

/-- Loading a text takes a host to the rules that the recorded changes make of those it has. -/
theorem loadText_eq (host : Host) (text : List Char) :
    host.loadText text =
      let load := Load.ofText host.abilities.get? host.config text
      ⟨load.result, (host.withRules (host.rules.applyAll load.operations)).countLoad,
        load.events⟩ := by
  simp only [loadText, Loaded.ofText, Load.ofReading_on, Load.on, RuleRegistry.replay_ruleStore]
  rfl

/-- Loading a rule file does as well. Only a load that gave a report is counted. -/
theorem loadOpened_eq (host : Host) (opened : Except Failure (List ReadEvent)) :
    host.loadOpened opened =
      let load := Load.ofOpened host.abilities.get? host.config opened
      let changed := host.withRules (host.rules.applyAll load.operations)
      match load.result with
      | .ok report => ⟨.ok report, changed.countLoad, load.events⟩
      | .error error => ⟨.error error, changed, load.events⟩ := by
  cases hresult : (Load.ofOpened host.abilities.get? host.config opened).result <;>
    simp only [loadOpened, Load.ofOpened_on, Load.on, RuleRegistry.replay_ruleStore, hresult]

/-- A rule file that opens is loaded as the stream that it gives. -/
theorem loadOpened_ok (host : Host) (stream : List ReadEvent) :
    host.loadOpened (.ok stream) =
      let load := Load.ofStream host.abilities.get? host.config stream
      ⟨.ok load.result, (host.withRules (host.rules.applyAll load.operations)).countLoad,
        load.events⟩ := by
  rw [loadOpened_eq]
  rfl

end Host

end CollisionRules
