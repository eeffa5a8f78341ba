import CollisionRules.Proofs.Ability.Alias
import CollisionRules.Proofs.Resolution.Rewording
import CollisionRules.Rule

namespace CollisionRules

variable {H : Type}

/-- The operand with the canonical name of its ability. A group has one name only. -/
def Operand.canonical (operand : Operand) : Operand :=
  match operand.kind with
  | .ability => { operand with name := Ability.canonicalName operand.name }
  | .group => operand

/-- The statement with each ability by its canonical name. -/
def Statement.canonical : Statement → Statement :=
  Statement.reword Operand.canonical id

/-- The event as it is of a program in canonical names. -/
def Event.canonical : Event → Event
  | .unresolved operand => .unresolved operand.canonical
  | event => event

namespace Resolution

/-- What a program means: the changes it asks for, the groups it binds, the rules that its changes
    make of those there are, and its report. -/
structure Meaning (H : Type) where
  operations : List (RuleOperation H)
  groups : GroupTable H
  rules : RuleStore H
  report : LoadReport
  deriving DecidableEq

/-- What a pass means for the rules of a store. -/
def meaning [BEq H] (pass : Resolution H) (store : RuleStore H) : Meaning H :=
  ⟨pass.operations, pass.groups, store.applyAll pass.operations, pass.report⟩

@[simp] theorem meaning_saying [BEq H] (pass : Resolution H) (say : Event → Event)
    (store : RuleStore H) : (pass.saying say).meaning store = pass.meaning store :=
  rfl

variable {lookup other : String → Option H}

/-- An operand is looked up by its canonical name alone, which is looked up as it is. -/
theorem evaluate_canonical
    (hother : ∀ name, Ability.canonicalName name = name → other name = lookup name)
    (groups : GroupTable H) (operand : Operand) :
    evaluate other groups operand.canonical = evaluate lookup groups operand := by
  obtain ⟨kind, name, position⟩ := operand
  have hcanonical := Ability.canonicalName_canonicalName name
  cases kind with
  | ability =>
    simp [evaluate, Operand.canonical, Ability.resolve, hcanonical, hother _ hcanonical]
  | group => rfl

/-- Look-ups that agree on canonical names give every operand the same members. -/
theorem evaluate_congr
    (hother : ∀ name, Ability.canonicalName name = name → other name = lookup name)
    (groups : GroupTable H) (operand : Operand) :
    evaluate other groups operand = evaluate lookup groups operand := by
  rw [← evaluate_canonical (fun _ _ => rfl), evaluate_canonical hother]

/-- Writing names canonically is not seen by a pass. -/
theorem isUnseen_canonical (lookup : String → Option H) :
    IsUnseen lookup lookup Operand.canonical id Event.canonical where
  evaluate := evaluate_canonical fun _ _ => rfl

/-- What a registry knows by other names than canonical ones is not seen. -/
theorem isUnseen_registry
    (hother : ∀ name, Ability.canonicalName name = name → other name = lookup name) :
    IsUnseen lookup other id id id where
  evaluate := evaluate_congr hother

variable [BEq H] [ToString H] (verbose : Bool) (store : RuleStore H) (statements : List Statement)

theorem meaning_canonical (lookup : String → Option H) :
    (ofStatements lookup verbose (statements.map Statement.canonical)).meaning store =
      (ofStatements lookup verbose statements).meaning store := by
  have hsaying := (isUnseen_canonical lookup).ofStatements verbose statements
  rw [Statement.canonical, hsaying, meaning_saying]

/-- A program means the same with every ability by its canonical name. To make a name canonical
    again changes nothing, and a pass asks a registry for canonical names alone, so that the table
    of alternate names bears on a name once. Programs that differ in which of the names of an
    ability they write mean the same. -/
theorem canonical_program_keeps_meaning (lookup : String → Option H) :
    let meaningOf (statements : List Statement) : Meaning H :=
      (ofStatements lookup verbose statements).meaning store
    meaningOf (statements.map Statement.canonical) = meaningOf statements ∧
      (∀ name, Ability.canonicalName (Ability.canonicalName name) = Ability.canonicalName name) ∧
      (∀ other : String → Option H,
        (∀ name, Ability.canonicalName name = name → other name = lookup name) →
          ofStatements other verbose statements = ofStatements lookup verbose statements) ∧
      ∀ others : List Statement,
        others.map Statement.canonical = statements.map Statement.canonical →
          meaningOf others = meaningOf statements := by
  intro meaningOf
  refine ⟨meaning_canonical verbose store statements lookup, Ability.canonicalName_canonicalName,
    fun other hother => ?_, fun others hothers => ?_⟩
  · simpa using (isUnseen_registry hother).ofStatements verbose statements
  · calc
      meaningOf others = meaningOf (others.map Statement.canonical) :=
        (meaning_canonical verbose store others lookup).symm
      _ = meaningOf (statements.map Statement.canonical) := by rw [hothers]
      _ = meaningOf statements := meaning_canonical verbose store statements lookup

/-- Groups that are named like alternate names are not taken for abilities. -/
theorem canonical_program_keeps_meaning_group_like_alias :
    let roster := ["FireBlastCharged", "SurgeWave", "IceSpikePillar"]
    let lookup (name : String) : Option String := if name ∈ roster then some name else none
    let program (blast surge : String) : List Statement :=
      let inner : GroupDeclaration :=
        ⟨"CFB", [⟨.ability, surge, ⟨1, 14⟩⟩, ⟨.ability, "IceSpike", ⟨1, 25⟩⟩], ⟨1, 1⟩⟩
      let outer : GroupDeclaration :=
        ⟨"Surge", [⟨.group, "CFB", ⟨2, 17⟩⟩, ⟨.ability, blast, ⟨2, 22⟩⟩], ⟨2, 1⟩⟩
      let registration : CollisionDeclaration :=
        ⟨⟨.group, "Surge", ⟨3, 2⟩⟩, .greater, ⟨.ability, blast, ⟨3, 10⟩⟩⟩
      let deletion : CollisionDeclaration :=
        ⟨⟨.ability, surge, ⟨4, 1⟩⟩, .cross, ⟨.ability, blast, ⟨4, 13⟩⟩⟩
      [.group inner, .group outer, .collision registration, .collision deletion]
    let meaningOf (statements : List Statement) : Meaning String :=
      (ofStatements lookup true statements).meaning .empty
    (program "CFB" "Surge").map Statement.canonical ≠ program "CFB" "Surge" ∧
      meaningOf (program "ChargedFireBlast" "SurgeWave") = meaningOf (program "CFB" "Surge") ∧
      (meaningOf (program "CFB" "Surge")).rules.rules =
        [⟨"IceSpikePillar", "FireBlastCharged", false, true⟩,
          ⟨"FireBlastCharged", "FireBlastCharged", false, true⟩] := by
  intro roster lookup program meaningOf
  obtain ⟨-, -, -, hinterchange⟩ :=
    canonical_program_keeps_meaning true .empty (program "CFB" "Surge") lookup
  exact ⟨by decide +kernel, hinterchange _ (by decide +kernel), by decide +kernel⟩

end Resolution

end CollisionRules
