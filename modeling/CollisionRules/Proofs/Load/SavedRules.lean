import CollisionRules.Proofs.Ability.Alias
import CollisionRules.Proofs.Ability.Table
import CollisionRules.Proofs.Resolution.Reachable
import CollisionRules.Proofs.Statement.RuleText

namespace CollisionRules

namespace Ability

/-- A handle of a table that a source names by the handle's own name. -/
structure IsNameable (table : AbilityTable) (ability : Ability) : Prop where
  isName : IsName ability.name
  resolves : resolve table.get? ability.name = some ability

/-- What any name stands for can be named by its own name. -/
theorem isNameable_of_resolve {table : AbilityTable} {name : String} {ability : Ability}
    (hname : IsName name) (h : resolve table.get? name = some ability) :
    ability.IsNameable table := by
  have hcanonical : ability.name = canonicalName name := AbilityTable.name_of_get? h
  refine ⟨hcanonical ▸ isName_canonicalName hname, ?_⟩
  rw [resolve, hcanonical, canonicalName_canonicalName]
  exact h

end Ability

namespace Resolution

variable {table : AbilityTable}

/-- A nameable ability stands for itself in its own table. -/
theorem members_of_isNameable {ability : Ability} (hability : ability.IsNameable table)
    (groups : GroupTable Ability) (position : Position) :
    members table.get? groups [⟨.ability, ability.name, position⟩] = [ability] := by
  simp [members, evaluate, hability.resolves]

theorem unresolved_of_isNameable {first second : Ability} (hfirst : first.IsNameable table)
    (hsecond : second.IsNameable table) (groups : GroupTable Ability) (left right : Position) :
    unresolved table.get? groups
      [⟨.ability, first.name, left⟩, ⟨.ability, second.name, right⟩] = [] := by
  simp [unresolved, evaluate, hfirst.resolves, hsecond.resolves]

/-- A rule that is read as it is shown is registered. -/
theorem apply_declaration (pass : Resolution Ability) (verbose : Bool) {rule : Rule Ability}
    (hfirst : rule.first.IsNameable table) (hsecond : rule.second.IsNameable table)
    (number : Nat) :
    let next := pass.apply table.get? verbose (.collision (rule.declaration number))
    next.operations = pass.operations ++ [.register rule] ∧
      next.report = { pass.report with
        statements := pass.report.statements + 1
        registrations := pass.report.registrations + 1 } := by
  simp [apply, collide, Rule.declaration, members_of_isNameable hfirst,
    members_of_isNameable hsecond, unresolved_of_isNameable hfirst hsecond, pairs, change,
    countChanges]

/-- Rules that are read as they are shown are registered in order. -/
theorem applyAll_declarations (pass : Resolution Ability) (verbose : Bool)
    {rules : List (Rule Ability)}
    (hrules : ∀ rule ∈ rules, rule.first.IsNameable table ∧ rule.second.IsNameable table)
    (number : Nat) :
    let final := pass.applyAll table.get? verbose
      ((rules.zipIdx number).map fun entry => .collision (entry.1.declaration entry.2))
    final.operations = pass.operations ++ rules.map .register ∧
      final.report = { pass.report with
        statements := pass.report.statements + rules.length
        registrations := pass.report.registrations + rules.length } := by
  induction rules generalizing pass number with
  | nil => simp [applyAll]
  | cons rule rest ih =>
    obtain ⟨hfirst, hsecond⟩ := hrules rule List.mem_cons_self
    obtain ⟨hoperations, hreport⟩ := apply_declaration pass verbose hfirst hsecond number
    obtain ⟨hrestOperations, hrestReport⟩ :=
      ih (pass.apply table.get? verbose (.collision (rule.declaration number)))
        (fun other hother => hrules other (List.mem_cons_of_mem _ hother)) (number + 1)
    intro final
    refine ⟨?_, ?_⟩
    · exact hrestOperations.trans (by rw [hoperations]; simp)
    · refine hrestReport.trans ?_
      rw [hreport]
      simp only [List.length_cons, LoadReport.mk.injEq, true_and, and_true]
      omega

end Resolution

/-- Registering rules puts them behind those that are there, in their order. -/
theorem RuleStore.applyAll_register {H : Type} [BEq H] (store : RuleStore H)
    (rules : List (Rule H)) :
    store.applyAll (rules.map .register) = ⟨store.rules ++ rules⟩ := by
  induction rules generalizing store with
  | nil => simp [applyAll]
  | cons rule rest ih =>
    have hrest := ih (store.register rule)
    simpa [applyAll, apply, register] using hrest

namespace Load

variable {H : Type}

/-- The rules that a store holds once texts have been loaded, one after the other. -/
def afterTexts [BEq H] [ToString H] (lookup : String → Option H) (store : RuleStore H)
    (texts : List (LoadConfig × List Char)) : RuleStore H :=
  texts.foldl (fun store entry => store.applyAll (ofText lookup entry.1 entry.2).operations) store

/-- A store that was empty or is cleared first holds the rules that are then registered. -/
theorem applyAll_opening_register [BEq H] (config : LoadConfig) (store : RuleStore H) :
    RuleStore.empty.applyAll (openingOperations config ++ store.rules.map .register) = store := by
  have hopening : RuleStore.empty.applyAll (openingOperations config) =
      (RuleStore.empty : RuleStore H) := by
    unfold openingOperations
    split <;> rfl
  rw [RuleStore.applyAll_append, hopening, RuleStore.applyAll_register]
  rfl

/-- A load asks for nothing but changes between abilities that can be named again. -/
theorem isAbout_operations_ofText (table : AbilityTable) (config : LoadConfig) (text : List Char) :
    ∀ operation ∈ (ofText table.get? config text).operations,
      operation.IsAbout (Ability.IsNameable table) := by
  intro operation hoperation
  have hpass : (Resolution.ofStatements table.get? config.verbose
      (Parsed.ofText text).statements).IsAbout (Ability.IsNameable table) := by
    refine Resolution.isAbout_applyAll Resolution.isAbout_start config.verbose ?_
    intro statement hstatement name hname ability hability
    have hread := Parsed.isName_of_mem_statements hstatement name hname
    exact Ability.isNameable_of_resolve hread hability
  rcases List.mem_append.mp hoperation with hopening | hmem
  · unfold openingOperations at hopening
    split at hopening
    · obtain rfl := List.mem_singleton.mp hopening
      trivial
    · cases hopening
  · exact hpass.operations operation hmem

/-- Loads of texts leave a store with no ability but those of the table. -/
theorem isAbout_afterTexts (table : AbilityTable) {store : RuleStore Ability}
    (hstore : store.IsAbout (Ability.IsNameable table)) (texts : List (LoadConfig × List Char)) :
    (afterTexts table.get? store texts).IsAbout (Ability.IsNameable table) := by
  induction texts generalizing store with
  | nil => exact hstore
  | cons entry rest ih =>
    exact ih (RuleStore.isAbout_applyAll hstore (isAbout_operations_ofText table entry.1 entry.2))

/-- A load of rules as they are shown registers them in order, and nothing else happens. -/
theorem ofText_text {table : AbilityTable} {store : RuleStore Ability}
    (hstore : store.IsAbout (Ability.IsNameable table)) (config : LoadConfig) :
    let load := ofText table.get? config store.text
    load.operations = openingOperations config ++ store.rules.map .register ∧
      load.result = { LoadReport.zero with
        statements := store.size
        registrations := store.size } := by
  intro load
  have hparsed : Parsed.ofTokens (Reading.ofText store.text).tokens =
      ⟨(store.rules.zipIdx 1).map fun entry => .collision (entry.1.declaration entry.2), []⟩ :=
    Parsed.ofText_text fun rule hrule =>
      ⟨(hstore rule hrule).1.isName, (hstore rule hrule).2.isName⟩
  have hwhole : (Reading.ofText store.text).truncation = none := by rw [Reading.ofText_eq]
  obtain ⟨hoperations, hreport⟩ :=
    Resolution.applyAll_declarations .start config.verbose hstore 1
  constructor
  · simp only [load, ofText, ofReading, hparsed]
    exact congrArg (openingOperations config ++ ·) hoperations
  · have hcount : 0 + store.rules.length = store.size := Nat.zero_add _
    simp only [load, ofText, ofReading, hparsed, report, hwhole, ← hcount]
    exact congrArg (fun counts : LoadReport => { counts with rejectedLines := 0, truncated := false })
      hreport

/-- Rules that any number of loads have left in a store are written out, each as it is
    shown and on a line of its own, and this text is loaded with the same table: the load
    registers just these rules in their order and asks for nothing else, so an empty store
    then holds what the first one holds, and nothing is warned of. -/
theorem saved_rules_reload (table : AbilityTable) (texts : List (LoadConfig × List Char))
    (config : LoadConfig) :
    let store := afterTexts table.get? .empty texts
    let again := ofText table.get? config store.text
    RuleStore.empty.applyAll again.operations = store ∧
      again.operations = openingOperations config ++ store.rules.map .register ∧
      again.result.isClean = true ∧ again.result.registrations = store.size ∧
      again.result.removals = 0 := by
  intro store again
  have hstore : store.IsAbout (Ability.IsNameable table) :=
    isAbout_afterTexts table RuleStore.isAbout_empty texts
  obtain ⟨hoperations, hresult⟩ := ofText_text hstore config
  refine ⟨?_, hoperations, ?_, ?_, ?_⟩
  · rw [hoperations]
    exact applyAll_opening_register config store
  · rw [hresult]
    rfl
  · rw [hresult]
  · rw [hresult]
    rfl

end Load

end CollisionRules
