import CollisionRules.Proofs.Yaml.Section
import CollisionRules.Settings.Text

namespace CollisionRules.Settings

open Yaml

variable {settings : Settings}

/-- Settings are written as one section, if the name of their rule file fits on a line. -/
theorem isSection_toDocument (hline : ∀ c ∈ settings.collisionFile.toList, isLineChar c = true) :
    settings.toDocument.IsSection := by
  refine .intro (List.cons_ne_nil _ _) ?_
  simpa [Document.IsLine] using hline

/-- A tree that stands for what settings are written as stands for those settings: each option is
    found under its own name, and once. -/
theorem ofNode?_of_shows {root : Node} (hroot : root.Shows settings.toDocument) :
    ofNode? root = some settings := by
  cases hroot with
  | block hfields =>
  cases hfields with
  | cons hname hblock hnil =>
  cases hnil
  cases hblock with
  | block hfields =>
  cases hfields with
  | cons hverboseName hverbose hfields =>
  cases hfields with
  | cons hdisableName hdisable hfields =>
  cases hfields with
  | cons hfileName hfile hnil =>
  cases hnil
  cases hverbose with
  | truth hverbose =>
  cases hdisable with
  | truth hdisable =>
  cases hfile with
  | text hfile =>
  simp [ofNode?, ofProperties?, Node.fields?, field?, hname, hverboseName, hdisableName, hfileName,
    hverbose, hdisable, hfile]

/-- With any library that keeps sections, settings can be written, and what is written says those
    settings. -/
theorem exists_toText [Library] (hlibrary : Library.KeepsSections)
    (hline : ∀ c ∈ settings.collisionFile.toList, isLineChar c = true) :
    ∃ text, settings.toText = .ok text ∧ ofYaml text.toList = .ok settings := by
  have hsection := isSection_toDocument hline
  obtain ⟨text, hwrite, htrim⟩ := hlibrary.writes hsection
  obtain ⟨root, hread, hshows⟩ := hlibrary.reads hsection hwrite
  have hblank : (Text.trim text.toList).isEmpty = false := by simpa using htrim
  have hsettings : ofYaml? text.toList = some settings := by
    simp [ofYaml?, hblank, hread, Except.toOption, ofNode?_of_shows hshows]
  exact ⟨text, by rw [toText, hwrite], by rw [ofYaml, hsettings]⟩

/-- Settings whose rule file has a name of one line can be written. They are the same after they
    were written and read again, and so are the loads that they ask for. -/
theorem written_settings_are_read_back [Library] (hlibrary : Library.KeepsSections)
    (settings : Settings) (hline : ∀ c ∈ settings.collisionFile.toList, isLineChar c = true) :
    ∃ text, settings.toText = .ok text ∧ ofYaml text.toList = .ok settings ∧
      ∀ base, (ofYaml text.toList).map (·.toLoadConfig base) = .ok (settings.toLoadConfig base) := by
  obtain ⟨text, htext, hread⟩ := exists_toText hlibrary hline
  refine ⟨text, htext, hread, fun base => ?_⟩
  rw [hread]
  rfl

/-- A name that would say something else without its quotes. -/
theorem written_settings_are_read_back_marked_name :
    let settings : Settings := ⟨true, false, "- 'no': null #1 "⟩
    Library.KeepsSections ∧ (∀ c ∈ settings.collisionFile.toList, isLineChar c = true) ∧
      settings.toYaml = "Properties:\n  Verbose: true\n  DisableCoreCollisions: false\n" ++
        "  CollisionFile: '- ''no'': null #1 '\n" ∧
      settings.toText = .ok settings.toYaml ∧ ofYaml settings.toYaml.toList = .ok settings ∧
      ∀ base, (ofYaml settings.toYaml.toList).map (·.toLoadConfig base) =
        .ok (settings.toLoadConfig base) := by
  intro settings
  have hline : ∀ c ∈ settings.collisionFile.toList, isLineChar c = true :=
    List.all_eq_true.mp (by decide)
  obtain ⟨text, htext, hread⟩ := written_settings_are_read_back keepsSections settings hline
  obtain rfl : settings.toYaml = text := Except.ok.inj htext
  exact ⟨keepsSections, hline, by decide +kernel, rfl, hread⟩

end CollisionRules.Settings
