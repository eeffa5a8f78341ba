import CollisionRules.Proofs.Text.Trim
import CollisionRules.Proofs.Yaml.Quoting
import CollisionRules.Yaml.Block

namespace CollisionRules.Yaml

/-- A field as it is read: its name, and its value as a scalar. -/
structure Entry where
  name : List Char
  quoted : Bool
  text : List Char

namespace Entry

/-- The tokens of a field of a block. -/
def tokens (entry : Entry) : List Token :=
  [.key, .scalar false entry.name, .value, .scalar entry.quoted entry.text]

/-- The name and the value of a field as nodes. -/
def nodes (entry : Entry) : Node × Node :=
  (.scalar false entry.name, .scalar entry.quoted entry.text)

theorem length_tokens (entries : List Entry) :
    (entries.flatMap tokens).length = 4 * entries.length := by
  induction entries with
  | nil => rfl
  | cons entry entries ih =>
    rw [List.flatMap_cons, List.length_append, ih, List.length_cons, Nat.mul_succ, Nat.add_comm]
    rfl

/-- A field in front of a block is read before the rest of the block. -/
theorem readMapping_cons (entry : Entry) (budget : Nat) (following : List Token) :
    Node.readMapping (budget + 2) (entry.tokens ++ following) =
      (Node.readMapping (budget + 1) following).map fun (entries, rest) =>
        (entry.nodes :: entries, rest) := by
  rw [Option.map_eq_bind]
  rfl

/-- The fields of a block are read off their tokens in order, up to the end of the block. -/
theorem readMapping_tokens (entries : List Entry) (budget : Nat) (rest : List Token) :
    Node.readMapping (budget + entries.length + 1) (entries.flatMap tokens ++ .blockEnd :: rest) =
      some (entries.map nodes, rest) := by
  induction entries with
  | nil => rfl
  | cons entry entries ih =>
    rw [List.flatMap_cons, List.append_assoc, List.length_cons, ← Nat.add_assoc, readMapping_cons, ih]
    rfl

/-- The tokens of a section. -/
def sectionTokens (name : List Char) (entries : List Entry) : List Token :=
  .blockMappingStart :: .key :: .scalar false name :: .value :: .blockMappingStart ::
    (entries.flatMap tokens ++ [.blockEnd, .blockEnd, .streamEnd])

/-- The tree of a section. -/
def sectionNode (name : List Char) (entries : List Entry) : Node :=
  .mapping [(.scalar false name, .mapping (entries.map nodes))]

/-- A section is read as a mapping of its name to that of its fields. -/
theorem read_sectionTokens (name : List Char) (entries : List Entry) (budget : Nat) :
    Node.read true false (budget + entries.length + 4) (sectionTokens name entries) =
      some (sectionNode name entries, [.streamEnd]) := by
  have hfields := readMapping_tokens entries budget [.blockEnd, .streamEnd]
  have hblock : Node.read true true (budget + entries.length + 2)
      (.blockMappingStart :: (entries.flatMap tokens ++ [.blockEnd, .blockEnd, .streamEnd])) =
        some (.mapping (entries.map nodes), [.blockEnd, .streamEnd]) := by
    rw [Node.read, if_pos rfl, hfields]
    rfl
  have hends : Node.unlessAt [.key, .value, .blockEnd]
      (Node.read true true (budget + entries.length + 2))
      (.blockMappingStart :: (entries.flatMap tokens ++ [.blockEnd, .blockEnd, .streamEnd])) =
        some (.mapping (entries.map nodes), [.blockEnd, .streamEnd]) := hblock
  have houter : Node.readMapping (budget + entries.length + 3)
      (.key :: .scalar false name :: .value :: .blockMappingStart ::
        (entries.flatMap tokens ++ [.blockEnd, .blockEnd, .streamEnd])) =
      some ([(.scalar false name, .mapping (entries.map nodes))], [.streamEnd]) := by
    have hname (following : List Token) : Node.unlessAt [.key, .value, .blockEnd]
        (Node.read true true (budget + entries.length + 2)) (.scalar false name :: following) =
          some (.scalar false name, following) := rfl
    rw [Node.readMapping]
    simp only [hname, hends, Option.bind_eq_bind, Option.bind_some]
    rfl
  rw [sectionTokens, Node.read, if_pos rfl, houter]
  rfl

/-- The tokens of a section are read as its tree. -/
theorem ofTokens?_sectionTokens (name : List Char) (entries : List Entry) :
    Node.ofTokens? (sectionTokens name entries) = some (some (sectionNode name entries)) := by
  obtain ⟨budget, hbudget⟩ : ∃ budget,
      2 * (sectionTokens name entries).length + 1 = budget + entries.length + 4 := by
    have hlength := length_tokens entries
    refine ⟨2 * (sectionTokens name entries).length + 1 - (entries.length + 4), ?_⟩
    simp only [sectionTokens, List.length_cons, List.length_append, List.length_nil]
    omega
  have hread := read_sectionTokens name entries budget
  rw [← hbudget, sectionTokens] at hread
  rw [sectionTokens]
  simp only [Node.ofTokens?, hread, Option.bind_eq_bind, Option.bind_some]
  rfl

end Entry

/-- The name of a field can be a key. -/
theorem Word.isKeyWord (name : Word) : Scanner.IsKeyWord name.text.toList := by
  obtain ⟨hne, hletters, hshort⟩ := name.isWord
  exact .of_letters hne (List.all_eq_true.mp hletters) (hshort.trans (by decide))

theorem isKeyWord_toString (b : Bool) : Scanner.IsKeyWord (toString b).toList := by
  cases b <;> exact .of_letters (by decide) (List.all_eq_true.mp (by decide)) (by decide)

/-- The tree of a scalar stands for the text of the scalar. -/
theorem Node.shows_text (quoted : Bool) (value : String) :
    (Node.scalar quoted value.toList).Shows (.text value) :=
  .text (congrArg some String.ofList_toList)

/-- The tree of a plain scalar stands for the truth value that it names. -/
theorem Node.shows_truth (value : Bool) :
    (Node.scalar false (toString value).toList).Shows (.truth value) :=
  .truth (by cases value <;> decide)

namespace Document

/-- What fits on a line is written on one, as a scalar that stands for it. -/
theorem renderValue_of_isLine {value : Document} (hvalue : value.IsLine) (margin : Nat) :
    ∃ quoted text written, renderValue margin value = ' ' :: (written ++ ['\n']) ∧
      WrittenAs text quoted written ∧ (Node.scalar quoted text).Shows value := by
  cases value with
  | truth value =>
    have hword := isKeyWord_toString value
    exact ⟨false, _, _, rfl, .plain hword.plainText hword.startsPlain, Node.shows_truth value⟩
  | text value =>
    obtain ⟨quoted, hwritten⟩ := writtenAs_renderScalar hvalue (margin + 2)
    exact ⟨quoted, _, _, rfl, hwritten, Node.shows_text quoted value⟩
  | block fields => exact hvalue.elim

/-- A letter may stand in a stream. -/
theorem isAllowed_of_isAlpha {c : Char} (hc : c.isAlpha = true) : isAllowed c = true := by
  have hletter : (decide (65 ≤ c.val ∧ c.val ≤ 90) ||
      (decide (97 ≤ c.val) && decide (c.val ≤ 122))) = true := hc
  have hrange : (65 ≤ c.toNat ∧ c.toNat ≤ 90) ∨ (97 ≤ c.toNat ∧ c.toNat ≤ 122) := by
    simpa [UInt32.le_iff_toNat_le] using hletter
  simp only [isAllowed, Bool.or_eq_true, Bool.and_eq_true, beq_iff_eq, decide_eq_true_eq]
  omega

/-- What is written for a value that fits on a line may stand in a stream. -/
theorem all_isAllowed_renderValue {value : Document} (hvalue : value.IsLine) (margin : Nat) :
    (renderValue margin value).all isAllowed = true := by
  cases value with
  | truth value => cases value <;> rfl
  | text value =>
    have hscalar : (renderScalar (margin + 2) value.toList).all isAllowed = true :=
      List.all_eq_true.mpr fun _ hc => isAllowed_of_mem_renderScalar hvalue hc
    have hmarks : isAllowed ' ' = true ∧ isAllowed '\n' = true := ⟨rfl, rfl⟩
    simp only [renderValue, List.cons_append, List.all_cons, List.all_append, List.all_nil, hscalar,
      hmarks, Bool.and_self]
  | block fields => exact hvalue.elim

theorem all_isAllowed_word (name : Word) : name.text.toList.all isAllowed = true :=
  List.all_eq_true.mpr fun c hc => isAllowed_of_isAlpha (List.all_eq_true.mp name.isWord.2.1 c hc)

/-- The lines of fields that fit on a line each may stand in a stream. -/
theorem all_isAllowed_renderFields {fields : List (Word × Document)}
    (hline : ∀ field ∈ fields, field.2.IsLine) (margin : Nat) :
    (renderFields margin fields).all isAllowed = true := by
  have hindent : (List.replicate margin ' ').all isAllowed = true :=
    List.all_eq_true.mpr fun _ hc => List.eq_of_mem_replicate hc ▸ rfl
  have hcolon : isAllowed ':' = true := rfl
  induction fields with
  | nil => rfl
  | cons field rest ih =>
    obtain ⟨name, value⟩ := field
    have hvalue := all_isAllowed_renderValue (hline _ List.mem_cons_self) margin
    have hrest := ih fun other hother => hline other (List.mem_cons_of_mem _ hother)
    simp only [renderFields, List.all_append, List.all_cons, hindent, all_isAllowed_word, hcolon,
      hvalue, hrest, Bool.and_self]

/-- Every field that does not stand at the left margin takes three characters, and more. -/
theorem length_le_renderFields (fields : List (Word × Document)) {margin : Nat}
    (hmargin : 2 ≤ margin) : 3 * fields.length ≤ (renderFields margin fields).length := by
  induction fields with
  | nil => exact Nat.le_refl 0
  | cons field rest ih =>
    simp only [renderFields, List.length_append, List.length_cons, List.length_replicate]
    omega

end Document

namespace Scanner

/-- A block that has been opened is not opened again. -/
theorem blocksAt_idem (column : Nat) (blocks : List Nat) :
    blocksAt column (blocksAt column blocks) = blocksAt column blocks ∧
      openingAt column (blocksAt column blocks) = [] := by
  have hopen : (blocksAt column blocks).head?.any (column ≤ ·) = true := by
    unfold blocksAt
    split
    · assumption
    · simp
  rw [blocksAt, openingAt, if_pos hopen, if_pos hopen]
  exact ⟨rfl, rfl⟩

open Document in
/-- The fields of a block that is the last of its stream are read one after the other. -/
theorem run_fields {column : Nat} {name : Word} {value : Document} {others : List (Word × Document)}
    (hline : ∀ field ∈ (name, value) :: others, field.2.IsLine) {scanner : Scanner}
    {blocks : List Nat} {tokens : List Token}
    (hbefore : scanner.StandsBefore column
      (name.text.toList ++ ':' :: (renderValue column value ++ renderFields column others)) blocks
      tokens)
    (hblocks : ∀ block, blocks.head? = some block → block ≤ column) (budget : Nat) :
    ∃ entries : List Entry,
      Node.ShowFields (entries.map Entry.nodes) ((name, value) :: others) ∧
      run (budget + 3 * others.length + 4) scanner =
        some (tokens ++ (openingAt column blocks ++ (entries.flatMap Entry.tokens ++
          (List.replicate (blocksAt column blocks).length .blockEnd ++ [.streamEnd])))) := by
  obtain ⟨quoted, text, written, hrender, hwritten, hshows⟩ :=
    renderValue_of_isLine (hline _ List.mem_cons_self) column
  have hname : (Node.scalar false name.text.toList).text? = some name.text :=
    congrArg some String.ofList_toList
  induction others generalizing name value scanner blocks tokens quoted text written with
  | nil =>
    rw [hrender, renderFields, List.append_nil] at hbefore
    refine ⟨[⟨name.text.toList, quoted, text⟩], .cons hname hshows .nil, ?_⟩
    rw [List.length_nil, Nat.mul_zero, Nat.add_zero,
      run_lastEntry name.isKeyWord hwritten hbefore hblocks budget]
    simp only [List.flatMap_cons, List.flatMap_nil, Entry.tokens, List.append_nil,
      List.append_assoc]
  | cons other others ih =>
    obtain ⟨otherName, otherValue⟩ := other
    have htail : ∀ field ∈ (otherName, otherValue) :: others, field.2.IsLine :=
      fun field hfield => hline field (List.mem_cons_of_mem _ hfield)
    obtain ⟨otherQuoted, otherText, otherWritten, hotherRender, hotherWritten, hotherShows⟩ :=
      renderValue_of_isLine (htail _ List.mem_cons_self) column
    have hnext : name.text.toList ++ ':' :: (renderValue column value ++
        renderFields column ((otherName, otherValue) :: others)) =
      name.text.toList ++ ':' :: ' ' :: (written ++ '\n' :: (List.replicate column ' ' ++
        (otherName.text.toList ++ ':' :: (renderValue column otherValue ++
          renderFields column others)))) := by
      rw [hrender, renderFields]
      simp only [List.append_assoc, List.cons_append, List.nil_append]
    rw [hnext] at hbefore
    obtain ⟨after, hafter, hrun⟩ := run_entry name.isKeyWord hwritten otherName.isKeyWord hbefore
      hblocks (budget + 3 * others.length + 4)
    obtain ⟨outer, houter⟩ := exists_blocksAt hblocks
    obtain ⟨hidem, hnone⟩ := blocksAt_idem column blocks
    obtain ⟨entries, hentries, hrest⟩ := ih htail hafter (by simp [houter]) otherQuoted otherText
      otherWritten hotherRender hotherWritten hotherShows (congrArg some String.ofList_toList)
    refine ⟨⟨name.text.toList, quoted, text⟩ :: entries, .cons hname hshows hentries, ?_⟩
    have hbudget : budget + 3 * ((otherName, otherValue) :: others).length + 4 =
        budget + 3 * others.length + 4 + 3 := by
      rw [List.length_cons]
      omega
    rw [hbudget, hrun, hrest, hidem, hnone]
    simp only [List.flatMap_cons, Entry.tokens, List.append_assoc, List.nil_append]

end Scanner

section Section

variable {name first : Word} {value : Document} {others : List (Word × Document)}

open Document

/-- A section is written as its name on a line, and its fields on the next ones. -/
theorem Document.render_section :
    (Document.block [(name, .block ((first, value) :: others))]).render =
      name.text.toList ++ ':' :: '\n' :: renderFields 2 ((first, value) :: others) := by
  simp [render, renderFields, renderValue]

/-- What is written for a section is read as its tree. -/
theorem Node.ofText?_section (hline : ∀ field ∈ (first, value) :: others, field.2.IsLine) :
    let document := Document.block [(name, .block ((first, value) :: others))]
    ∃ root : Node, Node.ofText? document.render = some (some root) ∧ root.Shows document := by
  intro document
  have hrender : document.render = _ := Document.render_section
  have hallowed : document.render.all isAllowed = true := by
    have hfields := all_isAllowed_renderFields hline 2
    have hmarks : isAllowed ':' = true ∧ isAllowed '\n' = true := ⟨rfl, rfl⟩
    rw [hrender, List.all_append, List.all_cons, List.all_cons, all_isAllowed_word, hmarks.1,
      hmarks.2, hfields]
    rfl
  have htext : document.render = name.text.toList ++ ':' :: '\n' :: (List.replicate 2 ' ' ++
      (first.text.toList ++ ':' :: (renderValue 2 value ++ renderFields 2 others))) := by
    rw [hrender, renderFields]
    simp only [List.append_assoc, List.cons_append]
  obtain ⟨budget, hbudget⟩ : ∃ budget,
      document.render.length + 1 = budget + 3 * others.length + 4 + 2 := by
    have hothers := length_le_renderFields others (Nat.le_refl 2)
    have hname := List.length_pos_iff.mpr name.isWord.1
    have hfirst := List.length_pos_iff.mpr first.isWord.1
    refine ⟨document.render.length + 1 - (3 * others.length + 4 + 2), ?_⟩
    simp only [htext, List.length_append, List.length_cons, List.length_replicate]
    omega
  have hstart : (Scanner.ofText document.render).StandsBefore 0 _ [] [] :=
    Scanner.standsBefore_word name.isKeyWord htext (by simp)
  obtain ⟨after, hafter, hopen⟩ := Scanner.run_blockKey name.isKeyWord first.isKeyWord hstart
    (by simp) (Nat.zero_le 2) (budget + 3 * others.length + 4)
  obtain ⟨entries, hentries, hrun⟩ :=
    Scanner.run_fields hline hafter (by simp [Scanner.blocksAt]) budget
  have htokens : Token.ofText? document.render =
      some (Entry.sectionTokens name.text.toList entries) := by
    rw [Token.ofText?, if_pos hallowed, hbudget, hopen, hrun]
    rfl
  refine ⟨Entry.sectionNode name.text.toList entries, ?_,
    .block (.cons (congrArg some String.ofList_toList) (.block hentries) .nil)⟩
  rw [Node.ofText?, htokens]
  exact Entry.ofTokens?_sectionTokens _ _

end Section

/-- The library of the program keeps sections. -/
theorem keepsSections : Library.KeepsSections where
  writes hdocument := by
    cases hdocument with
    | @intro name fields hne hline =>
    obtain ⟨⟨first, value⟩, others, rfl⟩ := List.exists_cons_of_ne_nil hne
    refine ⟨_, rfl, ?_⟩
    rw [String.toList_ofList, Document.render_section]
    exact Text.trim_ne_nil (List.mem_append_right _ List.mem_cons_self) rfl
  reads hdocument text hwrite := by
    cases hdocument with
    | @intro name fields hne hline =>
    obtain ⟨⟨first, value⟩, others, rfl⟩ := List.exists_cons_of_ne_nil hne
    have hsection := @Node.ofText?_section name first value others hline
    obtain ⟨root, hread, hshows⟩ := hsection
    cases hwrite
    refine ⟨root, ?_, hshows⟩
    simp only [Library.read, String.toList_ofList, hread]
    rfl

end CollisionRules.Yaml
