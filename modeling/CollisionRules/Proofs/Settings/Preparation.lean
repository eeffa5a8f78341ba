import CollisionRules.Proofs.File.Tree
import CollisionRules.Proofs.Host.Lifecycle
import CollisionRules.Proofs.Settings.RoundTrip
import CollisionRules.Proofs.Source.Arrival
import CollisionRules.Proofs.Text.Utf8

namespace CollisionRules.Settings

open FileTree

variable {tree made settled after : FileTree} {directory path : Path}
  {text : Except Error String} {written : Event} {events more : List Event} {location : Location}
  {settings : Settings}

theorem writeMissing_run (path : Path) (text : Except Error String) (written : Event)
    (tree : FileTree) :
    writeMissing (m := StateM FileTree) path text written tree =
      if tree.fileExists path then (.ok [], tree)
      else
        match text with
        | .error error => (.error error, tree)
        | .ok content =>
          match tree.writeFile path (Text.Utf8.encode content.toList) with
          | .ok changed => (.ok [written], changed)
          | .error failure => (.error (.unreadable path failure), tree) := by
  unfold writeMissing
  simp only [bind_run, FileAccess.fileExists]
  split
  · rfl
  · cases text with
    | error error => rfl
    | ok content =>
      simp only [FileAccess.writeText, FileAccess.writeFile, FileTree.attempt, bind_run]
      cases tree.writeFile path (Text.Utf8.encode content.toList) <;> rfl

/-- A file that exists is left alone. -/
theorem writeMissing_of_fileExists (hexists : tree.fileExists path = true)
    (text : Except Error String) (written : Event) :
    writeMissing (m := StateM FileTree) path text written tree = (.ok [], tree) := by
  rw [writeMissing_run, if_pos hexists]

/-- What is missing is written at the end of its path, where nothing stood, or the tree stays as it
    is. -/
theorem writeMissing_cases (path : Path) (text : Except Error String) (written : Event)
    (tree : FileTree) :
    let run := writeMissing (m := StateM FileTree) path text written tree
    (run.2 = tree ∧ (run.1.isOk = true → tree.fileExists path = true)) ∨
      ∃ location content, text = .ok content ∧ tree.reach path = .ok (location, none) ∧
        run.2 = tree.put location (.file (Text.Utf8.encode content.toList)) := by
  intro run
  have hrun : run = _ := writeMissing_run path text written tree
  by_cases hexists : tree.fileExists path = true
  · rw [if_pos hexists] at hrun
    exact .inl ⟨congrArg Prod.snd hrun, fun _ => hexists⟩
  rw [if_neg hexists] at hrun
  cases text with
  | error error => exact .inl ⟨congrArg Prod.snd hrun, fun hok => by rw [hrun] at hok; contradiction⟩
  | ok content =>
    cases hwrite : tree.writeFile path (Text.Utf8.encode content.toList) with
    | error failure =>
      simp only [hwrite] at hrun
      exact .inl ⟨congrArg Prod.snd hrun, fun hok => by rw [hrun] at hok; contradiction⟩
    | ok changed =>
      simp only [hwrite] at hrun
      obtain ⟨location, hreach, hput⟩ := writeFile_eq_ok (by simpa using hexists) hwrite
      exact .inr ⟨location, content, rfl, hreach, (congrArg Prod.snd hrun).trans hput⟩

/-- A file that is found once what is missing has been written was there, or is what was written. -/
theorem entry?_writeMissing {result : Except Error (List Event)} {bytes : List UInt8}
    (hrun : writeMissing (m := StateM FileTree) path text written tree = (result, after))
    (hentry : after.entry? location = some (.file bytes)) :
    tree.entry? location = some (.file bytes) ∨
      ∃ content, text = .ok content ∧ tree.reach path = .ok (location, none) ∧
        bytes = Text.Utf8.encode content.toList := by
  have hcases := writeMissing_cases path text written tree
  rw [hrun] at hcases
  obtain ⟨rfl, -⟩ | ⟨place, content, htext, hreach, rfl⟩ := hcases
  · exact .inl hentry
  · by_cases hplace : location = place
    · subst location
      rw [entry?_put] at hentry
      cases hentry
      exact .inr ⟨content, htext, hreach, rfl⟩
    · exact .inl ((if_neg hplace).symm.trans hentry)

/-- A file is there once it has been written for want of one. -/
theorem fileExists_writeMissing
    (hrun : writeMissing (m := StateM FileTree) path text written tree = (.ok events, after)) :
    after.fileExists path = true := by
  have hcases := writeMissing_cases path text written tree
  rw [hrun] at hcases
  obtain ⟨rfl, hexists⟩ | ⟨location, content, -, hreach, rfl⟩ := hcases
  · exact hexists rfl
  · have hextends := extends_put (entry?_of_followFrom hreach)
      (.file (Text.Utf8.encode content.toList))
    have hreached := hextends.followFrom hreach
    rw [entry?_put] at hreached
    exact fileExists_iff.mpr ⟨location, _, hreached⟩

/-- The steps of a preparation that goes through, and the trees between them. -/
structure Prepares [Yaml.Library] (directory : Path) (tree made settled after : FileTree)
    (settings : Settings)
    (events more : List Event) : Prop where
  makes : FileAccess.makeDirectories (m := StateM FileTree) directory tree = (.ok (), made)
  writesSettings : writeMissing (m := StateM FileTree) (directory.join fileName) default.toText
    (.wroteSettings (directory.join fileName)) made = (.ok events, settled)
  loads : load (m := StateM FileTree) (directory.join fileName) settled = (.ok settings, settled)
  writesRules : writeMissing (m := StateM FileTree) (directory.join ⟨settings.collisionFile⟩)
    (.ok emptyRules) (.wroteRules (directory.join ⟨settings.collisionFile⟩)) settled = (.ok more, after)

/-- Steps that go through make up a preparation. -/
theorem Prepares.run [Yaml.Library]
    (hsteps : Prepares directory tree made settled after settings events more) :
    prepare (m := StateM FileTree) directory tree =
      ((.ok (directory.join fileName), events ++ more), after) := by
  unfold prepare
  simp only [bind_run, hsteps.makes, hsteps.writesSettings, hsteps.loads, hsteps.writesRules]
  rfl

theorem load_run [Yaml.Library] (path : Path) (tree : FileTree) :
    load (m := StateM FileTree) path tree =
      (ofRead path (FileAccess.textOf (tree.openFile path)), tree) :=
  rfl

/-- A preparation that gives a path goes through all its steps. -/
theorem exists_prepares [Yaml.Library]
    (hok : (prepare (m := StateM FileTree) directory tree).1.1 = .ok path) :
    path = directory.join fileName ∧ ∃ made settled settings events more,
      Prepares directory tree made settled (prepare (m := StateM FileTree) directory tree).2
        settings events more := by
  generalize hrun : prepare (m := StateM FileTree) directory tree = run at hok ⊢
  simp only [prepare, bind_run] at hrun
  generalize hmakes : FileAccess.makeDirectories (m := StateM FileTree) directory tree = makes at hrun
  obtain ⟨_ | _, made⟩ := makes
  · cases hrun
    contradiction
  simp only [bind_run] at hrun
  generalize hwrites : writeMissing (m := StateM FileTree) (directory.join fileName) default.toText
    (.wroteSettings (directory.join fileName)) made = writes at hrun
  obtain ⟨_ | events, settled⟩ := writes
  · cases hrun
    contradiction
  simp only [bind_run] at hrun
  generalize hloads : load (m := StateM FileTree) (directory.join fileName) settled = loads at hrun
  have hsettled : loads.2 = settled := congrArg Prod.snd hloads.symm
  obtain ⟨_ | settings, _⟩ := loads
  · cases hrun
    contradiction
  obtain rfl := hsettled
  simp only [bind_run] at hrun
  generalize hrules : writeMissing (m := StateM FileTree) (directory.join ⟨settings.collisionFile⟩)
    (.ok emptyRules) (.wroteRules (directory.join ⟨settings.collisionFile⟩)) _ = rules at hrun
  obtain ⟨_ | more, after⟩ := rules
  · cases hrun
    contradiction
  cases hrun
  exact ⟨(Except.ok.inj hok).symm, made, _, settings, events, more, hmakes, hwrites, hloads, hrules⟩

/-- An action that leaves all that stands in a tree. -/
def Keeps {α : Type} (action : StateM FileTree α) : Prop :=
  ∀ tree : FileTree, tree.Extends (action tree).2

theorem keeps_pure {α : Type} (result : α) : Keeps (pure result) :=
  fun tree => .refl tree

/-- Steps that keep what is there may follow one another. -/
theorem Keeps.bind {α β : Type} {action : StateM FileTree α} {next : α → StateM FileTree β}
    (haction : Keeps action) (hnext : ∀ result, Keeps (next result)) : Keeps (action >>= next) :=
  fun tree => (haction tree).trans (hnext _ _)

theorem keeps_makeDirectories (directory : Path) :
    Keeps (FileAccess.makeDirectories (m := StateM FileTree) directory) :=
  fun tree => (makesDirectory_makeDirectories directory tree).grows

/-- Writing a missing file replaces none. -/
theorem keeps_writeMissing (path : Path) (text : Except Error String) (written : Event) :
    Keeps (writeMissing (m := StateM FileTree) path text written) := by
  intro tree
  obtain ⟨hsame, -⟩ | ⟨location, content, -, hreach, hput⟩ :=
    writeMissing_cases path text written tree
  · rw [hsame]
    exact .refl tree
  · rw [hput]
    exact extends_put (entry?_of_followFrom hreach) _

theorem keeps_load [Yaml.Library] (path : Path) : Keeps (load (m := StateM FileTree) path) :=
  fun tree => .refl tree

/-- Whether a preparation goes through or fails on the way, all that stood still stands. -/
theorem keeps_prepare [Yaml.Library] (directory : Path) :
    Keeps (prepare (m := StateM FileTree) directory) := by
  refine (keeps_makeDirectories directory).bind fun result => ?_
  cases result with
  | error failure => exact keeps_pure _
  | ok _ =>
    refine (keeps_writeMissing _ _ _).bind fun result => ?_
    cases result with
    | error error => exact keeps_pure _
    | ok events =>
      refine (keeps_load _).bind fun result => ?_
      cases result with
      | error error => exact keeps_pure _
      | ok settings =>
        refine (keeps_writeMissing _ _ _).bind fun result => ?_
        cases result <;> exact keeps_pure _

/-- Settings that could be read are read again in a tree that has grown. -/
theorem load_of_extends [Yaml.Library] (hextends : settled.Extends after)
    (hloads : load (m := StateM FileTree) path settled = (.ok settings, settled)) :
    load (m := StateM FileTree) path after = (.ok settings, after) := by
  rw [load_run] at hloads ⊢
  have hread := congrArg Prod.fst hloads
  cases hopen : settled.openFile path with
  | error failure =>
    rw [hopen] at hread
    contradiction
  | ok events =>
    rw [hopen] at hread
    rw [hextends.openFile hopen]
    exact Prod.ext hread rfl

theorem bytesOf_bytes (bytes : List UInt8) : FileAccess.bytesOf [.bytes bytes] = .ok bytes := by
  simp [FileAccess.bytesOf, Except.map]

/-- A file that a text was written to gives the text. -/
theorem textOf_encode (text : List Char) :
    FileAccess.textOf (.ok [.bytes (Text.Utf8.encode text)]) = .ok text := by
  have hdecode := Text.Utf8.decode?_encode text
  simp only [FileAccess.textOf, bind, Except.bind, bytesOf_bytes, hdecode]

/-- Default settings that can be written say the default settings when they are read. -/
def DefaultIsReadBack [Yaml.Library] : Prop :=
  ∀ text, default.toText = .ok text → ofYaml text.toList = .ok default

/-- A library that keeps sections reads back the default settings. -/
theorem defaultIsReadBack [Yaml.Library] (hlibrary : Yaml.Library.KeepsSections) :
    DefaultIsReadBack := by
  have hline : ∀ c ∈ default.collisionFile.toList, Yaml.isLineChar c = true :=
    List.all_eq_true.mp (by decide +kernel)
  obtain ⟨text, htext, hread⟩ := exists_toText hlibrary hline
  intro other hother
  rw [htext] at hother
  cases hother
  exact hread

/-- Settings that were written to a file are loaded from it. -/
theorem load_of_reach [Yaml.Library] {content : String}
    (hread : ofYaml content.toList = .ok settings)
    (hreach : settled.reach path =
      .ok (location, some (.file (Text.Utf8.encode content.toList)))) :
    load (m := StateM FileTree) path settled = (.ok settings, settled) := by
  rw [load_run, openFile_of_reach hreach]
  simp only [Entry.stream, textOf_encode, ofRead, hread]

namespace Prepares

variable [Yaml.Library]
  (hsteps : Prepares directory tree made settled after settings events more)

include hsteps

theorem extends_made : made.Extends settled := by
  have hkeeps := keeps_writeMissing (directory.join fileName) default.toText
    (.wroteSettings (directory.join fileName)) made
  rwa [hsteps.writesSettings] at hkeeps

theorem extends_settled : settled.Extends after := by
  have hkeeps := keeps_writeMissing (directory.join ⟨settings.collisionFile⟩) (.ok emptyRules)
    (.wroteRules (directory.join ⟨settings.collisionFile⟩)) settled
  rwa [hsteps.writesRules] at hkeeps

/-- The settings in force are read in the tree that is left. -/
theorem loads_after :
    load (m := StateM FileTree) (directory.join fileName) after = (.ok settings, after) :=
  load_of_extends hsteps.extends_settled hsteps.loads

/-- A preparation leaves a rule file where the settings say it is. -/
theorem fileExists_rules : after.fileExists (directory.join ⟨settings.collisionFile⟩) = true :=
  fileExists_writeMissing hsteps.writesRules

/-- The tree that is left is prepared by no further step. -/
theorem again : Prepares directory after after after after settings [] [] := by
  have hthere := (makesDirectory_makeDirectories directory tree).isThere
  rw [hsteps.makes] at hthere
  have hdirectory := (hthere rfl).imp_right fun hmade =>
    (hsteps.extends_made.trans hsteps.extends_settled).isDirectory hmade
  have hsettings := hsteps.extends_settled.fileExists (fileExists_writeMissing hsteps.writesSettings)
  exact ⟨makeDirectories_of_isThere hdirectory, writeMissing_of_fileExists hsettings _ _,
    hsteps.loads_after, writeMissing_of_fileExists hsteps.fileExists_rules _ _⟩

/-- The rule file is found where it was seen to, although its path is another one when it is read
    from the directory of the settings. -/
theorem reach_rules :
    after.reach ((directory.join fileName).directory.join ⟨settings.collisionFile⟩) =
      after.reach (directory.join ⟨settings.collisionFile⟩) := by
  obtain ⟨location, _, hsettings⟩ := fileExists_iff.mp (fileExists_writeMissing hsteps.writesSettings)
  obtain ⟨place, _, hrules⟩ := fileExists_iff.mp hsteps.fileExists_rules
  refine reach_join_directory (by decide) (by decide) (refusal?_eq_none_of_reach hsettings) ?_ after
  intro hnil
  have hrefusal := refusal?_eq_none_of_reach hrules
  simp [refusal?, String.toList_eq_nil_iff.mp hnil] at hrefusal

/-- A new file at the end of the rule file's path holds no rules: it is not the new settings, since
    these name a rule file beside them. -/
theorem bytes_of_new (hdefault : DefaultIsReadBack) {bytes : List UInt8}
    (hrules : after.reach (directory.join ⟨settings.collisionFile⟩) =
      .ok (location, some (.file bytes)))
    (hnew : tree.entry? location = none) :
    bytes = Text.Utf8.encode emptyRules.toList := by
  have hmade : made.entry? location ≠ some (.file bytes) := by
    have hmakes := (makesDirectory_makeDirectories directory tree).addsNoFile location bytes
    rw [hsteps.makes, hnew] at hmakes
    exact fun hfile => nomatch hmakes hfile
  obtain hsettled | ⟨content, hcontent, -, hbytes⟩ :=
    entry?_writeMissing hsteps.writesRules (entry?_of_followFrom hrules)
  · obtain hkept | ⟨content, hcontent, hreach, rfl⟩ :=
      entry?_writeMissing hsteps.writesSettings hsettled
    · exact absurd hkept hmade
    · have hfound := hsteps.extends_made.followFrom hreach
      rw [hsettled] at hfound
      have hloads : load (m := StateM FileTree) (directory.join fileName) settled =
          (.ok default, settled) := load_of_reach (hdefault content hcontent) hfound
      rw [hsteps.loads] at hloads
      obtain rfl : settings = default := Except.ok.inj (congrArg Prod.fst hloads)
      have hlast := getLast?_of_reach_join (by decide) (by decide) (by decide) hrules
      rw [getLast?_of_reach_join (by decide) (by decide) (by decide) hreach] at hlast
      exact absurd hlast (by decide)
  · cases hcontent
    exact hbytes

end Prepares

/-- Statements that say nothing change nothing. -/
theorem applyAll_replicate_empty {H : Type} [ToString H] (lookup : String → Option H)
    (verbose : Bool) (pass : Resolution H) (count : Nat) :
    pass.applyAll lookup verbose (List.replicate count .empty) = pass := by
  induction count with
  | zero => rfl
  | succ count ih => exact ih

/-- A load of the rule file of a directory that had none finds nothing. -/
theorem result_ofStream_emptyRules {H : Type} [ToString H] (lookup : String → Option H)
    (config : LoadConfig) :
    (Load.ofStream lookup config [.bytes (Text.Utf8.encode emptyRules.toList)]).result = .zero := by
  have hreading : Reading.ofStream [.bytes (Text.Utf8.encode emptyRules.toList)] =
      Reading.ofText emptyRules.toList := by
    rw [Reading.ofStream, LineSource.ofStream_eq_ofText (bytesOf_bytes _),
      Text.Utf8.decodeLossy_encode]
    rfl
  have hwhole : (Reading.ofText emptyRules.toList).truncation = none := by
    rw [Reading.ofText_eq]
  have hparsed : Parsed.ofTokens (Reading.ofText emptyRules.toList).tokens =
      ⟨List.replicate 9 .empty, []⟩ := by
    unfold emptyRules
    -- line by line, for a long text is slow to take apart
    iterate 8 rw [String.toList_append]
    decide +kernel
  simp only [Load.ofStream, Load.ofReading, Load.report, hreading, hparsed, hwhole,
    Resolution.ofStatements,
    applyAll_replicate_empty]
  rfl

/-- A host made of settings loads the rule file that they name. -/
theorem load_madeOf (abilities : AbilityTable) (path : Path) (settings : Settings)
    (tree : FileTree) :
    (Host.load (m := StateM FileTree) (Host.madeOf abilities path settings) tree).1.result =
      (Load.ofOpened abilities.get? (settings.toLoadConfig path.directory)
        (tree.openFile (path.directory.join ⟨settings.collisionFile⟩))).result := by
  have hconfig : (Host.madeOf abilities path settings).config =
      settings.toLoadConfig path.directory := by
    simp [Host.config, Host.madeOf, Host.new, Overrides.apply, Overrides.none, toLoadConfig]
  rw [Host.load_run, Host.loadOpened_result, hconfig]
  rfl

/-- Preparing a directory touches nothing that stands, whether it goes through or fails. If it
    gives a path, that is the path of the settings in the directory, and preparing the directory
    again gives the same path and changes nothing. A host can then be made of the settings; the
    rule file that it reads is found where the directory has it, and its load gives a report. If
    the rule file is a new one, the report is clean and counts nothing, as long as default settings
    are read back as such. -/
theorem preparation [Yaml.Library] (directory : Path) (tree : FileTree) :
    let run := prepare (m := StateM FileTree) directory tree
    let after := run.2
    tree.Extends after ∧
      ∀ path, run.1.1 = .ok path →
        path = directory.join fileName ∧
        prepare (m := StateM FileTree) directory after = ((.ok path, []), after) ∧
        ∃ settings, load (m := StateM FileTree) path after = (.ok settings, after) ∧
          after.reach (path.directory.join ⟨settings.collisionFile⟩) =
            after.reach (directory.join ⟨settings.collisionFile⟩) ∧
          ∀ abilities, ∃ host report,
            Host.fromSettings (m := StateM FileTree) abilities path after = (.ok host, after) ∧
            host.config.source = path.directory.join ⟨settings.collisionFile⟩ ∧
            (host.load (m := StateM FileTree) after).1.result = .ok report ∧
            (DefaultIsReadBack → ∀ location bytes,
              after.reach (directory.join ⟨settings.collisionFile⟩) =
                  .ok (location, some (.file bytes)) →
                tree.entry? location = none →
                  report.isClean = true ∧ report.statements = 0 ∧ report.operations = 0) := by
  intro run after
  refine ⟨keeps_prepare directory tree, fun path hok => ?_⟩
  obtain ⟨rfl, made, settled, settings, events, more, hsteps⟩ := exists_prepares hok
  refine ⟨rfl, hsteps.again.run, settings, hsteps.loads_after, hsteps.reach_rules,
    fun abilities => ?_⟩
  obtain ⟨place, entry, hrules⟩ := fileExists_iff.mp hsteps.fileExists_rules
  have hopen := openFile_of_reach (hsteps.reach_rules.trans hrules)
  let config := settings.toLoadConfig (directory.join fileName).directory
  refine ⟨Host.madeOf abilities (directory.join fileName) settings,
    (Load.ofStream abilities.get? config entry.stream).result, ?_, rfl, ?_, ?_⟩
  · rw [Host.fromSettings_run, hsteps.loads_after]
    rfl
  · rw [load_madeOf, hopen]
    rfl
  · intro hdefault location bytes hfound hnew
    have hentry : entry = .file bytes := by
      rw [hrules] at hfound
      cases hfound
      rfl
    rw [hentry, hsteps.bytes_of_new hdefault hfound hnew, Entry.stream, result_ofStream_emptyRules]
    exact ⟨rfl, rfl, rfl⟩

/-- The settings that are there name a rule file in another directory, which has none. -/
theorem preparation_beside_directory :
    let text := "Properties:\n  CollisionFile: ../shared/./rules.txt\n"
    let tree := (((FileTree.empty []).put ["maps"] .directory).put ["shared"] .directory).put
      ["maps", "config.yml"] (.file (Text.Utf8.encode text.toList))
    let directory : Path := ⟨"maps/."⟩
    let path : Path := ⟨"maps/./config.yml"⟩
    let run := prepare (m := StateM FileTree) directory tree
    let after := run.2
    run.1.1 = .ok path ∧ tree.entry? ["shared", "rules.txt"] = none ∧
      after.entry? ["maps", "config.yml"] = some (.file (Text.Utf8.encode text.toList)) ∧
      prepare (m := StateM FileTree) directory after = ((.ok path, []), after) ∧
      ∃ host report,
        Host.fromSettings (m := StateM FileTree) (.ofList ["A", "B"]) path after = (.ok host, after) ∧
        host.config.source = ⟨"maps/../shared/./rules.txt"⟩ ∧
        (host.load (m := StateM FileTree) after).1.result = .ok report ∧
        report.isClean = true ∧ report.statements = 0 ∧ report.operations = 0 := by
  intro text tree directory path run after
  have hfacts : run.1.1 = .ok path ∧ tree.entry? ["shared", "rules.txt"] = none ∧
      tree.entry? ["maps", "config.yml"] = some (.file (Text.Utf8.encode text.toList)) ∧
      (load (m := StateM FileTree) path after).1 = .ok ⟨false, false, "../shared/./rules.txt"⟩ ∧
      (after.reach (directory.join ⟨"../shared/./rules.txt"⟩)).map Prod.fst =
        .ok ["shared", "rules.txt"] ∧
      after.entry? ["shared", "rules.txt"] ≠ none ∧
      after.entry? ["shared", "rules.txt"] ≠ some .directory ∧
      path.directory.join ⟨"../shared/./rules.txt"⟩ = ⟨"maps/../shared/./rules.txt"⟩ := by
    decide +kernel
  obtain ⟨hok, hnone, hkept, hsettings, hplace, hmissing, hfile, hsource⟩ := hfacts
  obtain ⟨hextends, hprepared⟩ := preparation directory tree
  obtain ⟨bytes, hrules⟩ := exists_file_of_reach hplace hmissing hfile
  obtain ⟨-, hagain, settings, hload, -, hhost⟩ := hprepared path hok
  obtain ⟨host, report, hfrom, hfile, hreport, hclean⟩ := hhost (.ofList ["A", "B"])
  rw [hload] at hsettings
  obtain rfl := Except.ok.inj hsettings
  exact ⟨hok, hnone, hextends.entry? hkept, hagain, host, report, hfrom, hfile.trans hsource, hreport,
    hclean (defaultIsReadBack Yaml.keepsSections) _ _ hrules hnone⟩

end CollisionRules.Settings
