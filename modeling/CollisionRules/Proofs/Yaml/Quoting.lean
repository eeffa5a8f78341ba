import CollisionRules.Proofs.Yaml.Token

namespace CollisionRules.Yaml

/-- A character that is written as it is. -/
theorem readsAs_self {double : Bool} {c : Char} (hgap : isGap c = false)
    (hmark : c ≠ quoteMark double) (hslash : double = true → c ≠ '\\') :
    ReadsAs double c [c] := by
  refine ⟨noGapAhead_cons hgap, fun {budget cursor tail} hcolumn hrest => ?_⟩
  rw [scanQuoted, Cursor.atDocumentIndicator_of_column hcolumn]
  rw [List.singleton_append] at hrest
  cases double <;> simp_all [quoteMark]

/-- A single quote is written twice between single quotes. -/
theorem readsAs_twice : ReadsAs false '\'' ['\'', '\''] := by
  refine ⟨noGapAhead_cons rfl, fun {budget cursor tail} hcolumn hrest => ?_⟩
  have hgap : isGap '\'' = false := rfl
  rw [scanQuoted, Cursor.atDocumentIndicator_of_column hcolumn]
  simp [hrest, hgap]

/-- A character that is written as an escape. -/
theorem readsAs_escape {c : Char} {escape : List Char} (hbreak : breakAhead escape = false)
    (hescape : ∀ tail, escape? (escape ++ tail) = some (c, escape.length)) :
    ReadsAs true c ('\\' :: escape) := by
  refine ⟨noGapAhead_cons rfl, fun {budget cursor tail} hcolumn hrest => ?_⟩
  have hgap : isGap '\\' = false := rfl
  have hbreakTail : breakAhead (escape ++ tail) = false := by
    cases escape with
    | nil => contradiction
    | cons d rest => exact hbreak
  rw [List.cons_append] at hrest
  rw [scanQuoted, Cursor.atDocumentIndicator_of_column hcolumn]
  simp [hrest, hgap, hbreakTail, hescape]

/-- A character of a line is printed as it is, but for three that Unicode sets apart. -/
theorem isPlainlyPrintable_cases {c : Char} (hc : isLineChar c = true) :
    isPlainlyPrintable c = true ∨ c = '\ufeff' ∨ c = '\ufffe' ∨ c = '\uffff' := by
  have hvalid : c.toNat < 0xD800 ∨ 0xDFFF < c.toNat ∧ c.toNat < 0x110000 := c.valid
  have hseparator := isSeparatorBreak_of_isLineChar hc
  simp only [isLineChar, Bool.and_eq_true, Bool.not_eq_true', decide_eq_true_eq,
    Bool.and_eq_false_iff, decide_eq_false_iff_not] at hc
  obtain ⟨⟨hlow, hcontrol⟩, -⟩ := hc
  have hchar (d : Char) (hd : c.toNat = d.toNat) : c = d := Char.toNat_inj.mp hd
  by_cases hfeff : c.toNat = 0xFEFF
  · exact .inr (.inl (hchar _ hfeff))
  by_cases hfffe : c.toNat = 0xFFFE
  · exact .inr (.inr (.inl (hchar _ hfffe)))
  by_cases hffff : c.toNat = 0xFFFF
  · exact .inr (.inr (.inr (hchar _ hffff)))
  left
  simp only [isPlainlyPrintable, hseparator, Bool.not_false, Bool.true_and, Bool.or_eq_true,
    Bool.and_eq_true, decide_eq_true_eq, bne_iff_ne]
  omega

/-- Between double quotes a character of a line is written as it is, but for five of them. -/
theorem escaped_cases {c : Char} (hline : isLineChar c = true) :
    (escaped c = [c] ∧ isPlainlyPrintable c = true ∧ c ≠ '\"' ∧ c ≠ '\\') ∨
      c = '\"' ∨ c = '\\' ∨ c = '\ufeff' ∨ c = '\ufffe' ∨ c = '\uffff' := by
  by_cases hquote : c = '\"'
  · exact .inr (.inl hquote)
  by_cases hslash : c = '\\'
  · exact .inr (.inr (.inl hslash))
  obtain hprintable | hother := isPlainlyPrintable_cases hline
  · have hescaped : escaped c = [c] := by simp [escaped, hprintable, hquote, hslash]
    exact .inl ⟨hescaped, hprintable, hquote, hslash⟩
  · exact .inr (.inr (.inr hother))

/-- Between double quotes every character of a line is read as it is or as its escape. -/
theorem readsAs_escaped {c : Char} (hline : isLineChar c = true) (hspace : c ≠ ' ') :
    ReadsAs true c (escaped c) := by
  have hgap : isGap c = false := by
    rw [isGap_of_isLineChar hline]
    exact beq_false_of_ne hspace
  obtain ⟨hescaped, -, hquote, hslash⟩ | rfl | rfl | rfl | rfl | rfl := escaped_cases hline
  · rw [hescaped]
    exact readsAs_self hgap hquote fun _ => hslash
  all_goals exact readsAs_escape rfl fun tail => rfl

/-- A character as it is written between single quotes. -/
def singleForm (c : Char) : List Char :=
  if c == '\'' then ['\'', '\''] else [c]

theorem readsAs_singleForm {c : Char} (hline : isLineChar c = true) (hspace : c ≠ ' ') :
    ReadsAs false c (singleForm c) := by
  have hgap : isGap c = false := by
    rw [isGap_of_isLineChar hline]
    exact beq_false_of_ne hspace
  by_cases hquote : c = '\''
  · subst c
    exact readsAs_twice
  · have hform : singleForm c = [c] := by simp [singleForm, hquote]
    rw [hform]
    exact readsAs_self hgap hquote nofun

/-- A text in single quotes is written character by character, for it has no line to fold. -/
theorem singleBody_eq_flatMap {text : List Char} (hline : ∀ c ∈ text, isLineChar c = true)
    (margin : Nat) : singleBody margin false text = text.flatMap singleForm := by
  induction text with
  | nil => rfl
  | cons c rest ih =>
    have hc := isBreak_of_isLineChar (hline c List.mem_cons_self)
    have hrest := ih fun d hd => hline d (List.mem_cons_of_mem _ hd)
    rw [singleBody, hc, List.flatMap_cons, hrest]
    rfl

section Written

variable {text written : List Char}

/-- A text of one line that need not stand in quotes. -/
theorem plainText_of_isPlainSafe (hline : ∀ c ∈ text, isLineChar c = true)
    (hmark : text.head? ≠ some '\ufeff') (hsafe : isPlainSafe text = true) :
    PlainText text ∧ Scanner.StartsPlain text := by
  cases text with
  | nil => exact absurd hsafe (by decide)
  | cons c rest =>
    simp only [isPlainSafe, Bool.and_eq_true, bne_iff_ne, ne_eq, Bool.not_eq_true',
      List.contains_eq_mem, decide_eq_false_iff_not] at hsafe
    obtain ⟨⟨⟨⟨⟨⟨hspace, hlast⟩, -⟩, -⟩, hleading⟩, hgap⟩, hunbroken⟩ := hsafe
    have hhash : c ≠ '#' := by
      rintro rfl
      exact hleading (by decide)
    refine ⟨.of_isUnbroken hline (List.cons_ne_nil c rest) (by simpa using hspace)
      (by simpa using hhash) hlast hunbroken, c, rest, rfl, ?_, hleading, by simpa using hmark,
      fun hc => ?_⟩
    · rw [isGap_of_isLineChar (hline c List.mem_cons_self)]
      exact beq_false_of_ne hspace
    · obtain hnone | hgap := Bool.and_eq_false_iff.mp hgap
      · rcases hc with rfl | rfl | rfl <;> contradiction
      · exact hgap

/-- How a text stands in a stream: as it is, or between quotes. -/
inductive WrittenAs (text : List Char) : (quoted : Bool) → List Char → Prop
  | plain (htext : PlainText text) (hstart : Scanner.StartsPlain text) : WrittenAs text false text
  | quoted (double : Bool) (write : Char → List Char) (hspace : write ' ' = [' '])
      (hwrite : ∀ c ∈ text, c ≠ ' ' → ReadsAs double c (write c)) :
      WrittenAs text true (quoteMark double :: text.flatMap write ++ [quoteMark double])

theorem isPlainlyPrintable_of_isSingleSafe (hline : ∀ c ∈ text, isLineChar c = true)
    (hsafe : isSingleSafe text = true) : ∀ c ∈ text, isPlainlyPrintable c = true := by
  intro c hc
  rw [isSingleSafe, Bool.and_eq_true, List.all_eq_true] at hsafe
  obtain hprintable | hseparator := Bool.or_eq_true_iff.mp (hsafe.1 c hc)
  · exact hprintable
  · rw [isSeparatorBreak_of_isLineChar (hline c hc)] at hseparator
    contradiction

theorem isSingleSafe_of_styleOf (hstyle : styleOf text ≠ .double) : isSingleSafe text = true := by
  by_contra hsafe
  exact hstyle (by simp [styleOf, hsafe])

theorem isPlainSafe_of_styleOf (hstyle : styleOf text = .plain) : isPlainSafe text = true := by
  by_contra hsafe
  have hsingle : isSingleSafe text = true := isSingleSafe_of_styleOf (by simp [hstyle])
  simp [styleOf, hsingle, hsafe] at hstyle

/-- A text of one line is written as it is, or between quotes from which it can be read. -/
theorem writtenAs_renderScalar (hline : ∀ c ∈ text, isLineChar c = true) (margin : Nat) :
    ∃ quoted, WrittenAs text quoted (renderScalar margin text) := by
  unfold renderScalar
  cases hstyle : styleOf text with
  | plain =>
    have hsingle : isSingleSafe text = true := isSingleSafe_of_styleOf (by simp [hstyle])
    have hmark : text.head? ≠ some '\ufeff' := by
      intro hhead
      have hprintable := isPlainlyPrintable_of_isSingleSafe hline hsingle _
        (List.mem_of_mem_head? hhead)
      contradiction
    obtain ⟨htext, hstart⟩ :=
      plainText_of_isPlainSafe hline hmark (isPlainSafe_of_styleOf hstyle)
    exact ⟨false, .plain htext hstart⟩
  | single =>
    rw [renderSingle, singleBody_eq_flatMap hline]
    exact ⟨true, .quoted false singleForm rfl fun c hc => readsAs_singleForm (hline c hc)⟩
  | double => exact ⟨true, .quoted true escaped rfl fun c hc => readsAs_escaped (hline c hc)⟩

/-- A character that is printed as it is may stand in a stream. -/
theorem isAllowed_of_isPlainlyPrintable {c : Char} (hc : isPlainlyPrintable c = true) :
    isAllowed c = true := by
  simp only [isPlainlyPrintable, isAllowed, Bool.and_eq_true, Bool.or_eq_true, beq_iff_eq,
    decide_eq_true_eq] at hc ⊢
  omega

/-- So may every character of an escape. -/
theorem isAllowed_of_mem_escaped {c d : Char} (hline : isLineChar c = true) (hd : d ∈ escaped c) :
    isAllowed d = true := by
  obtain ⟨hescaped, hprintable, -⟩ | hother := escaped_cases hline
  · rw [hescaped] at hd
    exact List.mem_singleton.mp hd ▸ isAllowed_of_isPlainlyPrintable hprintable
  · have hall : (escaped c).all isAllowed = true := by
      rcases hother with rfl | rfl | rfl | rfl | rfl <;> decide
    exact List.all_eq_true.mp hall d hd

/-- What is written for a text of one line may stand in a stream. -/
theorem isAllowed_of_mem_renderScalar (hline : ∀ c ∈ text, isLineChar c = true) {margin : Nat}
    {d : Char} (hd : d ∈ renderScalar margin text) : isAllowed d = true := by
  have hprintable (hstyle : styleOf text ≠ .double) (c : Char) (hc : c ∈ text) :
      isAllowed c = true :=
    isAllowed_of_isPlainlyPrintable
      (isPlainlyPrintable_of_isSingleSafe hline (isSingleSafe_of_styleOf hstyle) c hc)
  unfold renderScalar at hd
  cases hstyle : styleOf text with
  | plain => exact hprintable (by simp [hstyle]) d (by simpa [hstyle] using hd)
  | single =>
    simp only [hstyle, renderSingle, singleBody_eq_flatMap hline, List.cons_append, List.mem_cons,
      List.mem_append, List.mem_flatMap, List.not_mem_nil, or_false] at hd
    obtain rfl | ⟨c, hc, hd⟩ | rfl := hd
    · rfl
    · unfold singleForm at hd
      split at hd
      · simp only [List.mem_cons, List.not_mem_nil, or_false, or_self] at hd
        rw [hd]
        rfl
      · exact hprintable (by simp [hstyle]) d (List.mem_singleton.mp hd ▸ hc)
    · rfl
  | double =>
    simp only [hstyle, renderDouble, List.cons_append, List.mem_cons, List.mem_append,
      List.mem_flatMap, List.not_mem_nil, or_false] at hd
    obtain rfl | ⟨c, hc, hd⟩ | rfl := hd
    · rfl
    · exact isAllowed_of_mem_escaped (hline c hc) hd
    · rfl

namespace Scanner

variable {quoted : Bool} {tail : List Char} {n : Nat}

/-- A text that is written behind the mark of a key is read as it is, up to the next line or to the
    end of its own. -/
theorem run_written {cursor : Cursor} {block : Nat} (outer : List Nat) (tokens : List Token)
    (hwritten : WrittenAs text quoted written)
    (hrest : cursor.rest = ' ' :: (written ++ '\n' :: (List.replicate n ' ' ++ tail)))
    (htail : NoGapAhead tail) (hblock : block ≤ cursor.column) (hn : n ≤ block) (budget : Nat) :
    ∃ next keyAllowed,
      (next.rest = tail ∧ next.column = n ∧ keyAllowed = true ∨
        next.rest = '\n' :: (List.replicate n ' ' ++ tail)) ∧
      run (budget + 1) (between cursor (block :: outer) false tokens) =
        run budget (between next (block :: outer) keyAllowed
          (tokens ++ [.scalar quoted text])) := by
  cases hwritten with
  | plain htext hstart =>
    obtain ⟨next, hnext, hcolumn, hrun⟩ :=
      run_plain outer tokens htext hstart hrest htail hblock hn budget
    exact ⟨next, true, .inl ⟨hnext, hcolumn, rfl⟩, hrun⟩
  | quoted double write hspace hwrite =>
    have hquoted : cursor.rest = ' ' :: quoteMark double :: (text.flatMap write ++
        quoteMark double :: '\n' :: (List.replicate n ' ' ++ tail)) := by
      simp [hrest]
    obtain ⟨next, hnext, hrun⟩ :=
      run_quoted outer tokens hspace hwrite hquoted (by simp) hblock budget
    exact ⟨next, false, .inr hnext, hrun⟩

section Entry

variable {scanner : Scanner} {column : Nat} {word other : List Char} {blocks : List Nat}
  {tokens : List Token}

/-- A key with a value behind it, and another key on the next line. -/
theorem run_entry (hword : IsKeyWord word) (hwritten : WrittenAs text quoted written)
    (hother : IsKeyWord other)
    (hbefore : scanner.StandsBefore column
      (word ++ ':' :: ' ' :: (written ++ '\n' :: (List.replicate column ' ' ++ (other ++ tail))))
      blocks tokens)
    (hblocks : ∀ block, blocks.head? = some block → block ≤ column) (budget : Nat) :
    ∃ after : Scanner,
      after.StandsBefore column (other ++ tail) (blocksAt column blocks)
        (tokens ++ (openingAt column blocks ++
          [.key, .scalar false word, .value, .scalar quoted text])) ∧
      run (budget + 3) scanner = run budget after := by
  obtain ⟨outer, houter⟩ := exists_blocksAt hblocks
  obtain ⟨behind, hbehind, hcolumn, hkey⟩ := run_key hword hbefore rfl hblocks (budget + 1)
  rw [houter] at hkey
  obtain ⟨next, keyAllowed, hnext, hvalue⟩ := run_written outer
    (tokens ++ (openingAt column blocks ++ [.key, .scalar false word, .value])) hwritten hbehind
    (hother.isRun.noGapAhead tail) hcolumn (Nat.le_refl column) budget
  have htokens : tokens ++ (openingAt column blocks ++ [.key, .scalar false word, .value]) ++
      [.scalar quoted text] = tokens ++ (openingAt column blocks ++
        [.key, .scalar false word, .value, .scalar quoted text]) := by
    simp only [List.append_assoc, List.cons_append, List.nil_append]
  rw [htokens] at hvalue
  refine ⟨_, ?_, hkey.trans hvalue⟩
  rw [houter]
  obtain ⟨hrest, rfl, rfl⟩ | hrest := hnext
  · exact standsBefore_word hother hrest (by simp)
  · exact standsBefore_lineBreak hother hrest (by simp)

/-- A key with a value behind it, as the last one of a stream. -/
theorem run_lastEntry (hword : IsKeyWord word) (hwritten : WrittenAs text quoted written)
    (hbefore : scanner.StandsBefore column (word ++ ':' :: ' ' :: (written ++ ['\n'])) blocks tokens)
    (hblocks : ∀ block, blocks.head? = some block → block ≤ column) (budget : Nat) :
    run (budget + 4) scanner =
      some (tokens ++ (openingAt column blocks ++
        ([.key, .scalar false word, .value, .scalar quoted text] ++
          List.replicate (blocksAt column blocks).length .blockEnd ++ [.streamEnd]))) := by
  obtain ⟨outer, houter⟩ := exists_blocksAt hblocks
  obtain ⟨behind, hbehind, hcolumn, hkey⟩ := run_key hword hbefore rfl hblocks (budget + 2)
  have hend : NoGapAhead [] := nofun
  obtain ⟨next, keyAllowed, hnext, hvalue⟩ := run_written (n := 0) outer
    (tokens ++ (openingAt column blocks ++ [.key, .scalar false word, .value])) hwritten hbehind
    hend hcolumn (Nat.zero_le _) (budget + 1)
  have hlast : next.rest = [] ∨ next.rest = ['\n'] := hnext.imp_left And.left
  rw [hkey, houter, hvalue, run_end hlast]
  simp only [List.append_assoc, List.cons_append, List.nil_append]

end Entry

end Scanner

end Written

end CollisionRules.Yaml
