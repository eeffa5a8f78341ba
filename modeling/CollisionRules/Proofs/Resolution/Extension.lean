import CollisionRules.Proofs.Ability.Table
import CollisionRules.Proofs.Load.SavedRules
import CollisionRules.Proofs.Resolution.Restriction

namespace CollisionRules

namespace AbilityTable

/-- An ability whose name has been entered. -/
def owns (table : AbilityTable) (ability : Ability) : Bool :=
  table.contains ability.name

variable {small large : AbilityTable}

/-- Names that are entered later take no handle away and change none. -/
theorem get?_of_prefix (h : small.names <+: large.names) (name : String) :
    small.get? name = (large.get? name).filter small.owns := by
  cases hsmall : small.get? name with
  | some ability =>
    have howns : small.owns ability := by
      rw [owns, contains, name_of_get? hsmall, List.contains_iff_mem]
      exact (get?_eq_some_iff.mp hsmall).1
    rw [get?_mono h hsmall, Option.filter_some, if_pos howns]
  | none =>
    have hname : name ∉ small.names := by
      rw [← isSome_get?_iff, hsmall]
      simp
    cases hlarge : large.get? name with
    | none => rfl
    | some ability => simp [Option.filter, owns, contains, name_of_get? hlarge, hname]

end AbilityTable

namespace Resolution

/-- A pass asks for nothing but changes between handles of its table. -/
theorem isAbout_ofStatements_get? (table : AbilityTable) (verbose : Bool)
    (statements : List Statement) :
    ∀ operation ∈ (ofStatements table.get? verbose statements).operations,
      operation.IsAbout fun ability => ∃ name, table.get? name = some ability := by
  have hnames : ∀ statement ∈ statements, ∀ name ∈ statement.names,
      StandsForKnown table.get? (fun ability => ∃ name, table.get? name = some ability) name :=
    fun _ _ name _ ability hability => ⟨Ability.canonicalName name, hability⟩
  exact (isAbout_applyAll isAbout_start verbose hnames).operations

/-- Extending a roster is conservative, as long as it has no more names than there are indices.
    The abilities of the smaller table keep their handles. A pass over any statements with the
    smaller table asks for the changes that a pass with the larger one asks for between these
    abilities, in the same order; each of its groups holds those of its members that are
    among them, in the same order; and it warns of all that the other one warns of. From an
    empty store it leaves the rules that the other one leaves between these abilities, in
    the same order. -/
theorem roster_extension_is_conservative (names more : List String)
    (hsize : (AbilityTable.ofList (names ++ more)).size ≤ UInt32.size) (verbose : Bool)
    (statements : List Statement) :
    let small := AbilityTable.ofList names
    let large := AbilityTable.ofList (names ++ more)
    let pass := ofStatements small.get? verbose statements
    let extended := ofStatements large.get? verbose statements
    (∀ name, small.get? name = (large.get? name).filter small.owns) ∧
      pass.operations = extended.operations.filter (RuleOperation.isWithin small.owns) ∧
      (∀ name, pass.groups.get? name =
        (extended.groups.get? name).map (List.filter small.owns)) ∧
      extended.report.warnings ≤ pass.report.warnings ∧
      (extended.events.filter (·.isWarning)).Sublist (pass.events.filter (·.isWarning)) ∧
      (RuleStore.empty.applyAll pass.operations).rules =
        (RuleStore.empty.applyAll extended.operations).rules.filter
          (Rule.isWithin small.owns) := by
  intro small large pass extended
  have hlookup : ∀ name, small.get? name = (large.get? name).filter small.owns :=
    AbilityTable.get?_of_prefix (AbilityTable.names_prefix_ofList_append names more)
  have hpass : IsRestrictionOf small.owns pass extended :=
    isRestrictionOf_start.applyAll hlookup verbose statements
  have hwarnings : extended.report.warnings ≤ pass.report.warnings := by
    rw [(ofStatements_balances small.get? verbose statements).2.warnings,
      (ofStatements_balances large.get? verbose statements).2.warnings]
    simpa [List.countP_eq_length_filter] using hpass.warned.length_le
  -- a handle outside the smaller table is not the same as one inside, for each has its own index
  have hsame : ∀ a b, (∃ name, large.get? name = some a) → (∃ name, large.get? name = some b) →
      a == b → small.owns a = small.owns b := by
    rintro a b ⟨_, ha⟩ ⟨_, hb⟩ hab
    rw [AbilityTable.eq_of_beq hsize ha hb hab]
  have hrules := RuleStore.restrict_applyAll hsame RuleStore.isAbout_empty
    (isAbout_ofStatements_get? large verbose statements)
  rw [← hpass.operations] at hrules
  refine ⟨hlookup, hpass.operations, fun name => ?_, hwarnings, hpass.warned,
    congrArg RuleStore.rules hrules.symm⟩
  rw [hpass.groups, GroupTable.get?_restrict]

/-- An alternate name stands for nothing until the canonical name is entered; then it is a
    member of its groups, also of those that mention one of them. -/
theorem roster_extension_is_conservative_alternate_name :
    let names := ["Ember", "Nova"]
    let more := ["FireBlastCharged", "Ember"]
    let inner : GroupDeclaration :=
      ⟨"Inner", [⟨.ability, "CFB", ⟨1, 16⟩⟩, ⟨.ability, "Ember", ⟨1, 21⟩⟩], ⟨1, 1⟩⟩
    let outer : GroupDeclaration :=
      ⟨"Outer", [⟨.group, "Inner", ⟨2, 17⟩⟩, ⟨.ability, "Nova", ⟨2, 24⟩⟩], ⟨2, 1⟩⟩
    let registration : CollisionDeclaration :=
      ⟨⟨.group, "Outer", ⟨3, 2⟩⟩, .greater, ⟨.ability, "Nova", ⟨3, 10⟩⟩⟩
    let deletion : CollisionDeclaration :=
      ⟨⟨.ability, "Nova", ⟨4, 1⟩⟩, .cross, ⟨.ability, "Nova", ⟨4, 8⟩⟩⟩
    let statements := [.group inner, .group outer, .collision registration, .collision deletion]
    let small := AbilityTable.ofList names
    let large := AbilityTable.ofList (names ++ more)
    let rules (table : AbilityTable) : List (Rule Ability) :=
      (RuleStore.empty.applyAll (ofStatements table.get? false statements).operations).rules
    large.size ≤ UInt32.size ∧
      (rules large).map (fun rule => (rule.first.name, rule.second.name)) =
        [("FireBlastCharged", "Nova"), ("Ember", "Nova")] ∧
      (rules small).map (fun rule => (rule.first.name, rule.second.name)) = [("Ember", "Nova")] ∧
      rules small = (rules large).filter (Rule.isWithin small.owns) := by
  intro names more inner outer registration deletion statements small large rules
  have hsize : large.size ≤ UInt32.size := by decide
  obtain ⟨_, _, _, _, _, hrules⟩ :=
    roster_extension_is_conservative names more hsize false statements
  exact ⟨hsize, by decide +kernel, by decide +kernel, hrules⟩

end Resolution

end CollisionRules
