import CollisionRules.Ability.Alias
import CollisionRules.Proofs.Statement.Names

namespace CollisionRules.Ability

/-- The canonical names stand for themselves, and are names of the rule language. -/
theorem aliases_canonical : ∀ entry ∈ aliases, IsName entry.2 ∧ canonicalName entry.2 = entry.2 := by
  decide

theorem canonicalName_eq_or_mem (name : String) :
    canonicalName name = name ∨ ∃ entry ∈ aliases, canonicalName name = entry.2 := by
  unfold canonicalName
  cases hlookup : aliases.lookup name with
  | none => exact .inl rfl
  | some canonical =>
    obtain ⟨before, after, hsplit, _⟩ := List.lookup_eq_some_iff.mp hlookup
    exact .inr ⟨(name, canonical), by simp [hsplit], rfl⟩

theorem canonicalName_canonicalName (name : String) :
    canonicalName (canonicalName name) = canonicalName name := by
  obtain hself | ⟨entry, hentry, heq⟩ := canonicalName_eq_or_mem name
  · rw [hself, hself]
  · rw [heq]
    exact (aliases_canonical entry hentry).2

theorem isName_canonicalName {name : String} (hname : IsName name) :
    IsName (canonicalName name) := by
  obtain hself | ⟨entry, hentry, heq⟩ := canonicalName_eq_or_mem name
  · rwa [hself]
  · rw [heq]
    exact (aliases_canonical entry hentry).1

end CollisionRules.Ability
