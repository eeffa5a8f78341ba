import CollisionRules.Proofs.Text.Cut
import CollisionRules.Proofs.Yaml.Scalar
import CollisionRules.Yaml.Token

namespace CollisionRules.Yaml.Scanner

/-- A scanner outside brackets that takes nothing for a possible key. -/
def between (cursor : Cursor) (blocks : List Nat) (keyAllowed : Bool) (tokens : List Token) :
    Scanner :=
  ⟨cursor, blocks, none, [], keyAllowed, tokens⟩

/-- A character that a token begins with. -/
structure IsTokenStart (c : Char) : Prop where
  noGap : isGap c = false
  noComment : c ≠ '#'
  noByteOrderMark : c ≠ '\ufeff'

variable {scanner settled after : Scanner} {c : Char} {rest tail : List Char} {budget n : Nat}

/-- Spaces in front of a token are skipped. -/
theorem skipGaps_spaces
    (hrest : scanner.cursor.rest = List.replicate n ' ' ++ c :: rest) (hc : IsTokenStart c) :
    scanner.skipGaps (budget + 1) = { scanner with cursor := scanner.cursor.skip n } := by
  obtain ⟨hblank, hbreak⟩ := Bool.or_eq_false_iff.mp hc.noGap
  obtain ⟨hspace, htab⟩ := Bool.or_eq_false_iff.mp hblank
  have hmark : (scanner.cursor.column == 0 && scanner.cursor.rest.head? == some '\ufeff') =
      false := by
    have hhead : scanner.cursor.rest.head? ≠ some '\ufeff' := by
      rw [hrest]
      cases n with
      | zero => simpa using hc.noByteOrderMark
      | succ n => simp [List.replicate_succ]
    rw [beq_false_of_ne hhead, Bool.and_false]
  have hskip (tabs : Bool) : scanner.cursor.skipWhile (fun d => d == ' ' || (tabs && d == '\t')) =
      scanner.cursor.skip n := by
    have htake : (List.replicate n ' ' ++ c :: rest).takeWhile
        (fun d => d == ' ' || (tabs && d == '\t')) = List.replicate n ' ' := by
      refine (Text.takeWhile_append_of_head? (by simp) fun d hd => ?_).1
      obtain rfl : c = d := by simpa using hd
      simp only [hspace, htab, Bool.and_false, Bool.or_self]
    rw [Cursor.skipWhile, hrest, htake, List.length_replicate]
  have hbehind : (scanner.cursor.skip n).rest = c :: rest := by
    simp [Cursor.skip, hrest]
  have hhash : ((scanner.cursor.skip n).rest.head? == some '#') = false := by
    rw [hbehind]
    exact beq_false_of_ne (by simpa using hc.noComment)
  have hahead : breakAhead (scanner.cursor.skip n).rest = false := by
    rw [hbehind]
    exact hbreak
  unfold skipGaps
  simp only [hmark, Bool.false_eq_true, if_false, hskip, hhash, hahead, Bool.and_false]

/-- A line break is skipped, and a key may stand behind it. -/
theorem skipGaps_lineBreak (hflow : scanner.outerKeys = [])
    (hrest : scanner.cursor.rest = '\n' :: rest) :
    scanner.skipGaps (budget + 1) =
      skipGaps budget { scanner with
        cursor := ⟨rest, scanner.cursor.offset + 1, scanner.cursor.line + 1, 0⟩
        keyAllowed := true } := by
  have hstay : scanner.cursor.skip 0 = scanner.cursor := by simp [Cursor.skip]
  have hinFlow : scanner.inFlow = false := by simp [inFlow, hflow]
  conv_lhs => unfold skipGaps
  simp [hrest, Cursor.skipWhile, hstay, breakAhead, isBreak, hinFlow, Cursor.skipBreak]

theorem skipGaps_end (hrest : scanner.cursor.rest = []) :
    scanner.skipGaps budget = scanner := by
  have hstay : scanner.cursor.skip 0 = scanner.cursor := by simp [Cursor.skip]
  cases budget with
  | zero => rfl
  | succ budget =>
    unfold skipGaps
    simp [hrest, Cursor.skipWhile, hstay]

/-- A scanner settles where nothing but gaps was skipped, if the token ahead does not lie outside of
    the innermost block. -/
theorem settle_of_skipGaps
    (hskip : scanner.skipGaps (scanner.cursor.rest.length + 1) = settled)
    (hflow : settled.outerKeys = [])
    (hkey : forgetKey settled.cursor settled.possibleKey = some settled.possibleKey)
    (hblocks : ∀ block, settled.blocks.head? = some block → block ≤ settled.cursor.column) :
    scanner.settle = some settled := by
  have hinFlow : settled.inFlow = false := by simp [inFlow, hflow]
  have hclose : settled.closeBlocks (some settled.cursor.column) = settled := by
    unfold closeBlocks
    rw [hinFlow]
    obtain ⟨cursor, blocks, possibleKey, outerKeys, keyAllowed, tokens⟩ := settled
    cases blocks with
    | nil => simp
    | cons block others =>
      have hblock := hblocks block rfl
      simp_all
  unfold settle
  simp only [hskip, hkey, hflow, Option.bind_eq_bind, Option.bind_some, List.mapM_nil, pure]
  rw [← hflow]
  exact congrArg some hclose

section Between

variable {cursor : Cursor} {blocks : List Nat} {keyAllowed : Bool} {tokens : List Token}

/-- Between tokens, spaces in front of one are skipped. -/
theorem settle_between_spaces (hrest : cursor.rest = List.replicate n ' ' ++ c :: rest)
    (hc : IsTokenStart c)
    (hblocks : ∀ block, blocks.head? = some block → block ≤ cursor.column + n) :
    (between cursor blocks keyAllowed tokens).settle =
      some (between (cursor.skip n) blocks keyAllowed tokens) :=
  settle_of_skipGaps (skipGaps_spaces hrest hc) rfl rfl hblocks

/-- In front of a token a scanner has settled. -/
theorem settle_between (hrest : cursor.rest = c :: rest) (hc : IsTokenStart c)
    (hblocks : ∀ block, blocks.head? = some block → block ≤ cursor.column) :
    (between cursor blocks keyAllowed tokens).settle =
      some (between cursor blocks keyAllowed tokens) :=
  settle_between_spaces (n := 0) hrest hc hblocks

/-- Between tokens, a line break and the spaces behind it are skipped. -/
theorem settle_between_lineBreak
    (hrest : cursor.rest = '\n' :: (List.replicate n ' ' ++ c :: rest)) (hc : IsTokenStart c)
    (hblocks : ∀ block, blocks.head? = some block → block ≤ n) :
    (between cursor blocks keyAllowed tokens).settle =
      some (between ⟨c :: rest, cursor.offset + 1 + n, cursor.line + 1, n⟩ blocks true tokens) := by
  refine settle_of_skipGaps ?_ rfl rfl hblocks
  have hlength : cursor.rest.length + 1 = (cursor.rest.length - 1 + 1) + 1 := by
    simp [hrest]
  change skipGaps (cursor.rest.length + 1) (between cursor blocks keyAllowed tokens) = _
  rw [hlength, skipGaps_lineBreak rfl hrest, skipGaps_spaces rfl hc]
  simp [between, Cursor.skip]

end Between

/-- A scanner that has settled reads its next token, and runs on. -/
theorem run_succ (hsettle : scanner.settle = some settled) (hrest : settled.cursor.rest = c :: rest)
    (hnext : settled.next c rest = some after) (budget : Nat) :
    run (budget + 1) scanner = run budget after := by
  rw [run, hsettle]
  simp [hrest, hnext]

/-- A character that a plain scalar begins with, given what follows it. -/
structure IsPlainStart (c : Char) (rest : List Char) : Prop where
  noGap : isGap c = false
  noIndicator : c ∉ leadingIndicators
  noByteOrderMark : c ≠ '\ufeff'
  noMark : c = '-' ∨ c = '?' ∨ c = ':' → gapAhead rest = false

theorem IsPlainStart.append (hstart : IsPlainStart c rest) (tail : List Char) :
    IsPlainStart c (rest ++ tail) := by
  refine ⟨hstart.noGap, hstart.noIndicator, hstart.noByteOrderMark, fun hmark => ?_⟩
  have hrest := hstart.noMark hmark
  rw [← Bool.not_eq_true] at hrest ⊢
  exact fun hgap => hrest (gapAhead_of_append hgap)

theorem IsPlainStart.isTokenStart (hstart : IsPlainStart c rest) : IsTokenStart c := by
  refine ⟨hstart.noGap, ?_, hstart.noByteOrderMark⟩
  rintro rfl
  exact hstart.noIndicator (by decide)

/-- A text that a plain scalar may be from its first character on. -/
def StartsPlain (text : List Char) : Prop :=
  ∃ c rest, text = c :: rest ∧ IsPlainStart c rest

theorem beginsPlain_of_isPlainStart (hstart : IsPlainStart c rest) :
    beginsPlain false c rest = true := by
  by_cases hmark : c = '-' ∨ c = '?' ∨ c = ':'
  · have hrest := hstart.noMark hmark
    have hblank : rest.head?.any isBlank = false := by
      cases rest with
      | nil => rfl
      | cons d others => exact (Bool.or_eq_false_iff.mp hrest).1
    rcases hmark with rfl | rfl | rfl <;> simp [beginsPlain, hrest, hblank]
  · have hindicator : c ∉ indicators := by
      have hleading := hstart.noIndicator
      simp only [indicators, leadingIndicators, List.mem_cons, not_or] at hleading hmark ⊢
      tauto
    simp [beginsPlain, hstart.noGap, hindicator]

/-- A character that may begin a plain scalar begins one between tokens. -/
theorem next_eq_plain (hflow : scanner.outerKeys = [])
    (hdocument : scanner.cursor.atDocumentIndicator = false)
    (hstart : IsPlainStart c rest) : scanner.next c rest = scanner.plain := by
  have hinFlow : scanner.inFlow = false := by simp [inFlow, hflow]
  obtain ⟨hdash, hdot⟩ := Bool.or_eq_false_iff.mp hdocument
  have hne (d : Char) (hd : d ∈ leadingIndicators) : (c == d) = false :=
    beq_false_of_ne fun heq => hstart.noIndicator (heq ▸ hd)
  have hmarked (d : Char) (hd : d = '-' ∨ d = '?' ∨ d = ':') : (c == d && gapAhead rest) = false := by
    by_cases heq : c = d
    · rw [hstart.noMark (heq ▸ hd), Bool.and_false]
    · rw [beq_false_of_ne heq, Bool.false_and]
  have hbegins := beginsPlain_of_isPlainStart hstart
  unfold next
  simp only [hdash, hdot, hinFlow, hne '%' (by decide), hne '[' (by decide),
    hne '\x7b' (by decide), hne ']' (by decide), hne '\x7d' (by decide), hne ',' (by decide),
    hne '\'' (by decide), hne '\"' (by decide), hmarked '-' (by simp), hmarked '?' (by simp),
    hmarked ':' (by simp), hbegins, Bool.and_false, Bool.false_or, Bool.false_eq_true, if_false,
    if_true]

section Value

variable {cursor : Cursor} {block : Nat} {text : List Char} (outer : List Nat)
  (tokens : List Token)

/-- What a plain scalar behind the mark of its key comes to: its token, and a key may stand on the
    next line. -/
theorem plain_value {final : Cursor} (htext : PlainText text) (hrest : cursor.rest = text ++ tail)
    (hblock : block < cursor.column)
    (hends : PlainEnds (block + 1) (cursor.skip text.length) final true) :
    (between cursor (block :: outer) false tokens).plain =
      some (between final (block :: outer) true (tokens ++ [.scalar false text])) := by
  have hscan := htext.scanPlain hrest (Cursor.atDocumentIndicator_of_column (by omega)) hblock hends
    (show text.length < cursor.rest.length + 1 by rw [hrest, List.length_append]; omega)
  unfold plain
  simp [saveKey, between, inFlow, margin, hscan, allowKey, emit]

/-- A text that is written plain behind the mark of a key is read as it is, up to the next line. -/
theorem run_plain (htext : PlainText text) (hstart : StartsPlain text)
    (hrest : cursor.rest = ' ' :: (text ++ '\n' :: (List.replicate n ' ' ++ tail)))
    (htail : NoGapAhead tail) (hblock : block ≤ cursor.column) (hn : n ≤ block) (budget : Nat) :
    ∃ next : Cursor, next.rest = tail ∧ next.column = n ∧
      run (budget + 1) (between cursor (block :: outer) false tokens) =
        run budget (between next (block :: outer) true (tokens ++ [.scalar false text])) := by
  obtain ⟨c, rest, rfl, hstart⟩ := hstart
  have hbehind : (cursor.skip 1).rest = c :: rest ++ '\n' :: (List.replicate n ' ' ++ tail) := by
    simp [Cursor.skip, hrest]
  have hcolumn : (cursor.skip 1).column = cursor.column + 1 := rfl
  have hsettle : (between cursor (block :: outer) false tokens).settle =
      some (between (cursor.skip 1) (block :: outer) false tokens) :=
    settle_between_spaces (n := 1) hrest hstart.isTokenStart (by simp; omega)
  obtain ⟨final, hfinal, hfinalColumn, hends⟩ : ∃ final : Cursor, final.rest = tail ∧
      final.column = n ∧
      PlainEnds (block + 1) ((cursor.skip 1).skip (c :: rest).length) final true :=
    ⟨_, rfl, rfl, .lineBreak (Cursor.rest_skip hbehind) htail (by omega)⟩
  have hnext : (between (cursor.skip 1) (block :: outer) false tokens).next c
      (rest ++ '\n' :: (List.replicate n ' ' ++ tail)) = some (between final (block :: outer) true
        (tokens ++ [.scalar false (c :: rest)])) := by
    rw [next_eq_plain rfl (Cursor.atDocumentIndicator_of_column (Nat.succ_ne_zero _))
      (hstart.append _)]
    exact plain_value outer tokens htext hbehind (by omega) hends
  exact ⟨final, hfinal, hfinalColumn, run_succ hsettle hbehind hnext budget⟩

/-- A quote mark begins a quoted scalar. -/
theorem next_quoteMark {double : Bool} (hdocument : scanner.cursor.atDocumentIndicator = false) :
    scanner.next (quoteMark double) rest = scanner.quoted double := by
  obtain ⟨hdash, hdot⟩ := Bool.or_eq_false_iff.mp hdocument
  cases double <;> simp [next, hdash, hdot, quoteMark]

/-- Nothing is written as nothing. -/
theorem length_le_length_flatMap {double : Bool} {write : Char → List Char}
    (hspace : write ' ' = [' ']) (hwrite : ∀ c ∈ text, c ≠ ' ' → ReadsAs double c (write c)) :
    text.length ≤ (text.flatMap write).length := by
  induction text with
  | nil => exact Nat.le_refl _
  | cons c rest ih =>
    have hrest := ih fun d hd => hwrite d (List.mem_cons_of_mem _ hd)
    have hne : write c ≠ [] := by
      intro hnil
      by_cases hc : c = ' '
      · simp [hc, hspace] at hnil
      · have hgap := (hwrite c List.mem_cons_self hc).noGapAhead [' '] ' ' (by rw [hnil]; rfl)
        contradiction
    have hpos := List.length_pos_iff.mpr hne
    rw [List.flatMap_cons, List.length_append, List.length_cons]
    omega

/-- A text that is written in quotes behind the mark of a key is read as it is. -/
theorem run_quoted {double : Bool} {write : Char → List Char} (hspace : write ' ' = [' '])
    (hwrite : ∀ c ∈ text, c ≠ ' ' → ReadsAs double c (write c))
    (hrest : cursor.rest =
      ' ' :: quoteMark double :: (text.flatMap write ++ quoteMark double :: tail))
    (htail : tail.head? ≠ some '\'') (hblock : block ≤ cursor.column) (budget : Nat) :
    ∃ next : Cursor, next.rest = tail ∧
      run (budget + 1) (between cursor (block :: outer) false tokens) =
        run budget (between next (block :: outer) false (tokens ++ [.scalar true text])) := by
  have hlength := length_le_length_flatMap hspace hwrite
  have hmark : (cursor.skip 1).rest =
      quoteMark double :: (text.flatMap write ++ quoteMark double :: tail) := by
    simp [Cursor.skip, hrest]
  have hbody : ((cursor.skip 1).skip 1).rest =
      text.flatMap write ++ quoteMark double :: tail := by
    simp [Cursor.skip, hrest]
  have hstart : IsTokenStart (quoteMark double) := by
    cases double <;> exact ⟨rfl, by decide, by decide⟩
  have hsettle : (between cursor (block :: outer) false tokens).settle =
      some (between (cursor.skip 1) (block :: outer) false tokens) :=
    settle_between_spaces (n := 1) hrest hstart (by simp; omega)
  have hscan : scanQuoted double ((cursor.skip 1).rest.length + 1) ((cursor.skip 1).skip 1) = _ :=
    scanQuoted_flatMap hspace hwrite (Nat.succ_ne_zero _) hbody htail (by
      simp only [hmark, List.length_cons, List.length_append]
      omega)
  have hnext : (between (cursor.skip 1) (block :: outer) false tokens).next (quoteMark double)
      (text.flatMap write ++ quoteMark double :: tail) = some (between
        (((cursor.skip 1).skip 1).skip ((text.flatMap write).length + 1)) (block :: outer) false
          (tokens ++ [.scalar true text])) := by
    rw [next_quoteMark (Cursor.atDocumentIndicator_of_column (Nat.succ_ne_zero _))]
    unfold quoted
    simp [saveKey, between, hscan, allowKey, emit]
  refine ⟨_, ?_, run_succ hsettle hmark hnext budget⟩
  rw [← Cursor.skip_skip, Cursor.skip, Cursor.rest_skip hbody]
  rfl

end Value

/-- The word of a key that is written plain. -/
structure IsKeyWord (word : List Char) : Prop where
  isRun : IsRun word
  isUnbroken : isUnbroken word = true
  startsPlain : StartsPlain word
  noDocumentMark : word.head? ≠ some '-' ∧ word.head? ≠ some '.'
  isShort : word.length ≤ 1024

/-- A word that can be a key can be written plain. -/
theorem IsKeyWord.plainText {word : List Char} (hword : IsKeyWord word) : PlainText word :=
  .run hword.isRun hword.isUnbroken

section Letters

variable {word : List Char}

theorem ne_of_isAlpha {d : Char} (hc : c.isAlpha = true) (hd : d.isAlpha = false) : c ≠ d := by
  rintro rfl
  rw [hc] at hd
  contradiction

theorem isGap_of_isAlpha (hc : c.isAlpha = true) : isGap c = false := by
  have hne (d : Char) (hd : d.isAlpha = false) : (c == d) = false :=
    beq_false_of_ne (ne_of_isAlpha hc hd)
  simp only [isGap, isBlank, isBreak, hne ' ' rfl, hne '\t' rfl, hne '\n' rfl, hne '\r' rfl,
    hne '\u0085' rfl, hne '\u2028' rfl, hne '\u2029' rfl, Bool.or_self]

/-- Letters hold nothing that breaks a plain scalar. -/
theorem isUnbroken_of_letters (hword : ∀ c ∈ word, c.isAlpha = true) : isUnbroken word = true := by
  induction word with
  | nil => rfl
  | cons c rest ih =>
    have hc := hword c List.mem_cons_self
    have hrest := ih fun d hd => hword d (List.mem_cons_of_mem _ hd)
    have hcolon : (c == ':') = false := beq_false_of_ne (ne_of_isAlpha hc rfl)
    rw [isUnbroken, isGap_of_isAlpha hc, hcolon, hrest]
    rfl

/-- A letter may begin a plain scalar. -/
theorem isPlainStart_of_isAlpha (hc : c.isAlpha = true) (rest : List Char) :
    IsPlainStart c rest := by
  refine ⟨isGap_of_isAlpha hc, fun hmem => ?_, ne_of_isAlpha hc rfl, fun hmark => ?_⟩
  · have hall : leadingIndicators.all (!·.isAlpha) = true := by decide
    have hnot := List.all_eq_true.mp hall c hmem
    rw [hc] at hnot
    contradiction
  · rcases hmark with rfl | rfl | rfl <;> contradiction

/-- A word of letters can be a key. -/
theorem IsKeyWord.of_letters (hne : word ≠ []) (hword : ∀ c ∈ word, c.isAlpha = true)
    (hshort : word.length ≤ 1024) : IsKeyWord word := by
  obtain ⟨c, rest, rfl⟩ := List.exists_cons_of_ne_nil hne
  have hc := hword c List.mem_cons_self
  have hstart := isPlainStart_of_isAlpha hc rest
  refine ⟨⟨hne, fun d hd => isGap_of_isAlpha (hword d hd), ?_⟩, isUnbroken_of_letters hword,
    ⟨c, rest, rfl, hstart⟩, ⟨?_, ?_⟩, hshort⟩
  · simpa using hstart.isTokenStart.noComment
  · simpa using ne_of_isAlpha hc rfl
  · simpa using ne_of_isAlpha hc rfl

end Letters

/-- The blocks that are open behind a key in the given column. -/
def blocksAt (column : Nat) (blocks : List Nat) : List Nat :=
  if blocks.head?.any (column ≤ ·) then blocks else column :: blocks

/-- The token that begins a block at a key in the given column, if the key begins one. -/
def openingAt (column : Nat) (blocks : List Nat) : List Token :=
  if blocks.head?.any (column ≤ ·) then [] else [.blockMappingStart]

section Key

variable {here : Cursor} {blocks : List Nat} {tokens : List Token} {word : List Char}

/-- A scanner behind a word that may turn out to be a key. -/
def behindWord (here : Cursor) (word : List Char) (blocks : List Nat) (tokens : List Token) :
    Scanner :=
  ⟨here.skip word.length, blocks,
    some ⟨tokens.length, here.offset, here.line, here.column, blocks.head? == some here.column⟩,
    [], false, tokens ++ [.scalar false word]⟩

/-- A word is scanned as a plain scalar up to its colon. -/
theorem plain_word (hword : IsKeyWord word) (hrest : here.rest = word ++ ':' :: tail)
    (htail : gapAhead tail = true) (hdocument : here.atDocumentIndicator = false) :
    (between here blocks true tokens).plain = some (behindWord here word blocks tokens) := by
  have hhash : here.rest.head? ≠ some '#' := by
    obtain ⟨c, rest, rfl, -⟩ := hword.startsPlain
    rw [hrest]
    simpa using hword.isRun.noComment
  have hscan (margin : Nat) : scanPlain false margin (here.rest.length + 1) here =
      some (word, here.skip word.length, false) :=
    scanPlain_run hrest hdocument hhash hword.isRun.noGap hword.isUnbroken
      (.colon (Cursor.rest_skip hrest) htail)
  unfold plain
  simp [saveKey, between, inFlow, dropKey, hscan, allowKey, emit, behindWord]

/-- Behind a word there is nothing to pass over before its colon. -/
theorem settle_behindWord (hword : IsKeyWord word) (hrest : here.rest = word ++ ':' :: tail)
    (hblocks : ∀ block, blocks.head? = some block → block ≤ here.column) :
    (behindWord here word blocks tokens).settle = some (behindWord here word blocks tokens) := by
  have hskip : (behindWord here word blocks tokens).skipGaps
      ((behindWord here word blocks tokens).cursor.rest.length + 1) =
        behindWord here word blocks tokens :=
    skipGaps_spaces (n := 0) (Cursor.rest_skip hrest) ⟨rfl, by decide, by decide⟩
  have hshort := hword.isShort
  refine settle_of_skipGaps hskip rfl ?_ fun block hblock => ?_
  · simpa [forgetKey, behindWord, Cursor.skip] using hshort
  · exact (hblocks block hblock).trans (Nat.le_add_right ..)

/-- A colon with a gap behind it marks a value. -/
theorem next_eq_valueMark (hdocument : scanner.cursor.atDocumentIndicator = false)
    (hrest : gapAhead rest = true) : scanner.next ':' rest = scanner.valueMark := by
  obtain ⟨hdash, hdot⟩ := Bool.or_eq_false_iff.mp hdocument
  simp [next, hdash, hdot, hrest]

/-- A colon behind a word makes it a key. -/
theorem next_colon (hword : word ≠ []) (htail : gapAhead tail = true) :
    (behindWord here word blocks tokens).next ':' tail =
      some (between (here.skip (word.length + 1)) (blocksAt here.column blocks) false
        (tokens ++ (openingAt here.column blocks ++ [.key, .scalar false word, .value]))) := by
  have hcolumn : (here.skip word.length).column ≠ 0 := by
    have hlength := List.length_pos_iff.mpr hword
    simp only [Cursor.skip]
    omega
  rw [next_eq_valueMark (Cursor.atDocumentIndicator_of_column hcolumn) htail]
  unfold valueMark blocksAt openingAt
  by_cases hopen : blocks.head?.any (here.column ≤ ·) = true
  · simp [behindWord, emitAt, openBlock, inFlow, hopen, allowKey, take, emit, between,
      Cursor.skip_skip]
  · simp [behindWord, emitAt, openBlock, inFlow, hopen, allowKey, take, emit, between,
      Cursor.skip_skip]

/-- A scanner whose next token is the first of `text`, in the given column, where a key may stand.
    -/
def StandsBefore (scanner : Scanner) (column : Nat) (text : List Char) (blocks : List Nat)
    (tokens : List Token) : Prop :=
  ∃ here : Cursor, here.rest = text ∧ here.column = column ∧
    scanner.settle = some (between here blocks true tokens)

/-- A scanner stands before the word that it has in front. -/
theorem standsBefore_word (hword : IsKeyWord word) (hrest : here.rest = word ++ tail)
    (hblocks : ∀ block, blocks.head? = some block → block ≤ here.column) :
    (between here blocks true tokens).StandsBefore here.column (word ++ tail) blocks tokens := by
  obtain ⟨c, rest, rfl, hstart⟩ := hword.startsPlain
  exact ⟨here, hrest, rfl, settle_between hrest hstart.isTokenStart hblocks⟩

/-- A line break and an indentation are passed over before the next word. -/
theorem standsBefore_lineBreak {keyAllowed : Bool} (hword : IsKeyWord word)
    (hrest : here.rest = '\n' :: (List.replicate n ' ' ++ (word ++ tail)))
    (hblocks : ∀ block, blocks.head? = some block → block ≤ n) :
    (between here blocks keyAllowed tokens).StandsBefore n (word ++ tail) blocks tokens := by
  obtain ⟨c, rest, rfl, hstart⟩ := hword.startsPlain
  exact ⟨_, rfl, rfl, settle_between_lineBreak hrest hstart.isTokenStart hblocks⟩

/-- A word with a colon behind it is read as a key, which begins a block if it stands further in
    than the innermost one. -/
theorem run_key {column : Nat} (hword : IsKeyWord word)
    (hbefore : scanner.StandsBefore column (word ++ ':' :: tail) blocks tokens)
    (htail : gapAhead tail = true)
    (hblocks : ∀ block, blocks.head? = some block → block ≤ column) (budget : Nat) :
    ∃ next : Cursor, next.rest = tail ∧ column ≤ next.column ∧
      run (budget + 2) scanner =
        run budget (between next (blocksAt column blocks) false
          (tokens ++ (openingAt column blocks ++ [.key, .scalar false word, .value]))) := by
  obtain ⟨here, hrest, rfl, hsettle⟩ := hbefore
  obtain ⟨c, rest, hcons, hstart⟩ := hword.startsPlain
  obtain ⟨hdash, hdot⟩ := hword.noDocumentMark
  have hfront : here.rest = c :: (rest ++ ':' :: tail) := by rw [hrest, hcons, List.cons_append]
  have hdocument : here.atDocumentIndicator = false :=
    Cursor.atDocumentIndicator_of_cons hfront (by simpa [hcons] using hdash)
      (by simpa [hcons] using hdot)
  have hnext : (between here blocks true tokens).next c (rest ++ ':' :: tail) =
      some (behindWord here word blocks tokens) := by
    rw [next_eq_plain rfl hdocument (hstart.append _)]
    exact plain_word hword hrest htail hdocument
  refine ⟨here.skip (word.length + 1), ?_, Nat.le_add_right .., ?_⟩
  · rw [← Cursor.skip_skip, Cursor.skip, Cursor.rest_skip hrest]
    rfl
  · rw [run_succ hsettle hfront hnext,
      run_succ (settle_behindWord hword hrest hblocks) (Cursor.rest_skip hrest)
        (next_colon hword.isRun.ne_nil htail)]

/-- The block that a column belongs to is open once the deeper ones are closed. -/
theorem exists_blocksAt {column : Nat}
    (hblocks : ∀ block, blocks.head? = some block → block ≤ column) :
    ∃ outer, blocksAt column blocks = column :: outer := by
  unfold blocksAt
  split
  · rename_i hopen
    cases blocks with
    | nil => contradiction
    | cons block outer =>
      have hle : column ≤ block := by simpa using hopen
      exact ⟨outer, by rw [Nat.le_antisymm hle (hblocks block rfl)]⟩
  · exact ⟨blocks, rfl⟩

/-- A key with a block of its own behind it, whose first key is `first`. -/
theorem run_blockKey {column : Nat} {first : List Char} (hword : IsKeyWord word)
    (hfirst : IsKeyWord first)
    (hbefore : scanner.StandsBefore column
      (word ++ ':' :: '\n' :: (List.replicate n ' ' ++ (first ++ tail))) blocks tokens)
    (hblocks : ∀ block, blocks.head? = some block → block ≤ column) (hn : column ≤ n)
    (budget : Nat) :
    ∃ after : Scanner,
      after.StandsBefore n (first ++ tail) (blocksAt column blocks)
        (tokens ++ (openingAt column blocks ++ [.key, .scalar false word, .value])) ∧
      run (budget + 2) scanner = run budget after := by
  obtain ⟨outer, houter⟩ := exists_blocksAt hblocks
  obtain ⟨behind, hbehind, -, hkey⟩ := run_key hword hbefore rfl hblocks budget
  exact ⟨_, standsBefore_lineBreak hfirst hbehind (by simp [houter, hn]), hkey⟩

end Key

/-- At the end of a stream, with or without a last line break, the open blocks end. -/
theorem run_end {cursor : Cursor} {blocks : List Nat} {keyAllowed : Bool} {tokens : List Token}
    (hrest : cursor.rest = [] ∨ cursor.rest = ['\n']) (budget : Nat) :
    run (budget + 1) (between cursor blocks keyAllowed tokens) =
      some (tokens ++ List.replicate blocks.length .blockEnd ++ [.streamEnd]) := by
  obtain ⟨last, allowed, hlast, hskip⟩ : ∃ last allowed, last.rest = [] ∧
      (between cursor blocks keyAllowed tokens).skipGaps (cursor.rest.length + 1) =
        between last blocks allowed tokens := by
    obtain hrest | hrest := hrest
    · exact ⟨cursor, keyAllowed, hrest, skipGaps_end hrest⟩
    · exact ⟨⟨[], cursor.offset + 1, cursor.line + 1, 0⟩, true, rfl,
        (skipGaps_lineBreak rfl hrest).trans (skipGaps_end rfl)⟩
  have hsettle : (between cursor blocks keyAllowed tokens).settle =
      some ((between last blocks allowed tokens).closeBlocks (some last.column)) := by
    unfold settle
    change skipGaps ((between cursor blocks keyAllowed tokens).cursor.rest.length + 1) _ = _ at hskip
    rw [hskip]
    rfl
  have hcount (closes : Nat → Bool) :
      (blocks.takeWhile closes).length + (blocks.dropWhile closes).length = blocks.length := by
    rw [← List.length_append, List.takeWhile_append_dropWhile]
  have hall (list : List Nat) : list.takeWhile (fun _ => true) = list :=
    List.takeWhile_eq_self_iff.mpr fun _ _ => rfl
  rw [run, hsettle]
  simp [closeBlocks, between, inFlow, hlast, finish, dropKey, hall, hcount]

end CollisionRules.Yaml.Scanner
