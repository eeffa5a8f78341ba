import CollisionRules.Proofs.Text.Lines
import CollisionRules.Proofs.Token.Lines
import Mathlib.Data.List.Basic
import Mathlib.Data.List.TakeWhile

namespace CollisionRules.Token

open CollisionRules.Text

/-- A longest run of word characters in a text, with no comment mark before it. -/
structure IsRun (text before word after : List Char) : Prop where
  split : text = before ++ word ++ after
  uncommented : '#' ∉ before
  nonempty : word ≠ []
  letters : ∀ c ∈ word, isWordChar c
  left : ∀ c, before.getLast? = some c → isWordChar c = false
  right : ∀ c, after.head? = some c → isWordChar c = false

/-- Where a line ends: behind the first comment mark, or else behind the last character. -/
def finalColumn (text : List Char) : Nat :=
  if '#' ∈ text then text.idxOf '#' + 2 else text.length + 1

/-- A token that line `line` of a source has, when it reads `text`. -/
inductive StandsIn (line : Nat) (text : List Char) : Token → Prop where
  /-- A special character, the first comment mark included. -/
  | special {before after : List Char} {c : Char} {kind : TokenKind}
    (htext : text = before ++ c :: after) (hbefore : '#' ∉ before)
    (hkind : TokenKind.ofSpecial? c = some kind) :
    StandsIn line text ⟨kind, String.singleton c, ⟨line, before.length + 1⟩⟩
  | keyword {before word after : List Char} (hrun : IsRun text before word after)
    (hword : lowerAscii word = "group".toList) :
    StandsIn line text ⟨.groupKeyword, String.ofList word, ⟨line, before.length + 1⟩⟩
  | literal {before word after : List Char} (hrun : IsRun text before word after)
    (hword : lowerAscii word ≠ "group".toList) :
    StandsIn line text ⟨.literal, String.ofList word, ⟨line, before.length + 1⟩⟩
  | endOfLine : StandsIn line text (.endOfLine ⟨line, finalColumn text⟩)

/-- A longest run of word characters stands in its line as a word. -/
theorem IsRun.standsIn {text before word after : List Char} (hrun : IsRun text before word after)
    (line : Nat) :
    StandsIn line text ⟨wordKind word, String.ofList word, ⟨line, before.length + 1⟩⟩ := by
  by_cases hword : lowerAscii word = ['g', 'r', 'o', 'u', 'p']
  · rw [wordKind, if_pos hword]
    exact .keyword hrun hword
  · rw [wordKind, if_neg hword]
    exact .literal hrun hword

theorem isWordChar_of_special {c : Char} {kind : TokenKind}
    (hkind : TokenKind.ofSpecial? c = some kind) : isWordChar c = false := by
  simp [isWordChar, hkind]

theorem isWordChar_of_separator {c : Char} (hseparator : isSeparator c) : isWordChar c = false := by
  simp [isWordChar, hseparator]

/-- No special character is a separator. -/
theorem isSeparator_of_special {c : Char} {kind : TokenKind}
    (hkind : TokenKind.ofSpecial? c = some kind) : isSeparator c = false := by
  unfold TokenKind.ofSpecial? at hkind
  split at hkind
  rotate_right
  · cases hkind
  all_goals rfl

/-- A separator in front only moves what follows it. -/
theorem ofLine_separator {c : Char} (hseparator : Text.isSeparator c) (line column : Nat)
    (rest : List Char) : ofLine line column (c :: rest) = ofLine line (column + 1) rest := by
  have hspecial : TokenKind.ofSpecial? c = none := by
    cases hkind : TokenKind.ofSpecial? c with
    | none => rfl
    | some kind =>
      rw [isSeparator_of_special hkind] at hseparator
      contradiction
  rw [ofLine, hspecial]
  exact if_pos hseparator

/-- A special character that begins no comment is a token, and the line goes on behind it. -/
theorem ofLine_special {c : Char} {kind : TokenKind} (hkind : TokenKind.ofSpecial? c = some kind)
    (hhash : kind ≠ .hash) (line column : Nat) (rest : List Char) :
    ofLine line column (c :: rest) =
      ⟨kind, String.singleton c, ⟨line, column⟩⟩ :: ofLine line (column + 1) rest := by
  rw [ofLine, hkind]
  split
  · next heq => exact absurd (Option.some.inj heq) hhash
  · next heq =>
    obtain rfl := Option.some.inj heq
    rfl
  · next heq => cases heq

/-- The kinds that no character has by itself. -/
theorem special_kind_not_mem {c : Char} {kind : TokenKind}
    (hkind : TokenKind.ofSpecial? c = some kind) :
    kind ∉ [.groupKeyword, .literal, .endOfLine, .endOfInput] := by
  unfold TokenKind.ofSpecial? at hkind
  split at hkind
  rotate_right
  · cases hkind
  all_goals
    cases hkind
    decide

/-- Only one character begins a comment. -/
theorem ofSpecial?_eq_hash {c : Char} (hkind : TokenKind.ofSpecial? c = some .hash) : c = '#' := by
  unfold TokenKind.ofSpecial? at hkind
  split at hkind <;> simp_all

/-- A character that is read alone breaks into no run. -/
private theorem unbroken_concat {before rest : List Char} {c : Char}
    (hc : isWordChar c = false) :
    ∀ first, rest.head? = some first → isWordChar first →
      ∀ last, (before ++ [c]).getLast? = some last → isWordChar last = false := by
  intro _ _ _ last hlast
  obtain rfl : c = last := by simpa using hlast
  exact hc

/-- By induction on the rest of the line: what stands before it has been read, and no run of
    word characters has been broken into. -/
theorem standsIn_of_mem_ofLine {line column : Nat} (before : List Char) {text : List Char}
    {token : Token} (hcolumn : column = before.length + 1) (hbefore : '#' ∉ before)
    (hunbroken : ∀ first, text.head? = some first → isWordChar first →
      ∀ last, before.getLast? = some last → isWordChar last = false)
    (hmem : token ∈ ofLine line column text) : StandsIn line (before ++ text) token := by
  fun_induction ofLine line column text generalizing before with
  | case1 column =>
    obtain rfl : token = .endOfLine ⟨line, column⟩ := by simpa using hmem
    subst hcolumn
    have hfinal : finalColumn before = before.length + 1 := by simp [finalColumn, hbefore]
    rw [List.append_nil, ← hfinal]
    exact .endOfLine
  | case2 column c rest hhash =>
    obtain rfl := ofSpecial?_eq_hash hhash
    subst hcolumn
    rcases List.mem_cons.mp hmem with rfl | hend
    · exact .special rfl hbefore hhash
    · obtain rfl := List.mem_singleton.mp hend
      have hfinal : finalColumn (before ++ '#' :: rest) = before.length + 2 := by
        simp [finalColumn, List.idxOf_append_of_notMem hbefore]
      rw [Nat.add_assoc, ← hfinal]
      exact .endOfLine
  | case3 column c rest kind hnothash hspecial ih =>
    subst hcolumn
    rcases List.mem_cons.mp hmem with rfl | hmem
    · exact .special rfl hbefore hspecial
    · have hc : '#' ∉ before ++ [c] := by
        have hne : c ≠ '#' := by
          rintro rfl
          exact hnothash (Option.some.inj hspecial).symm
        simp [hbefore, hne.symm]
      have hread := ih (before ++ [c]) (by simp) hc
        (unbroken_concat (isWordChar_of_special hspecial)) hmem
      simpa using hread
  | case4 column c rest hspecial hseparator ih =>
    subst hcolumn
    have hc : '#' ∉ before ++ [c] := by
      have hne : c ≠ '#' := by
        rintro rfl
        cases hspecial
      simp [hbefore, hne.symm]
    have hread := ih (before ++ [c]) (by simp) hc
      (unbroken_concat (isWordChar_of_separator hseparator)) hmem
    simpa using hread
  | case5 column c rest hspecial hseparator word =>
    rename_i ih
    subst hcolumn
    have hletters : ∀ letter ∈ word, isWordChar letter := by
      intro letter hletter
      rcases List.mem_cons.mp hletter with rfl | hletter
      · simp [isWordChar, hspecial, hseparator]
      · exact List.mem_takeWhile_imp hletter
    have hsplit : c :: rest = word ++ rest.dropWhile isWordChar := by
      simp [word, List.takeWhile_append_dropWhile]
    have hright : ∀ first, (rest.dropWhile isWordChar).head? = some first →
        isWordChar first = false := by
      intro first hfirst
      have hnot := List.head?_dropWhile_not isWordChar rest
      rwa [hfirst] at hnot
    rcases List.mem_cons.mp hmem with rfl | hmem
    · refine IsRun.standsIn ⟨?_, hbefore, by simp [word], hletters, ?_, hright⟩ line
      · rw [hsplit, List.append_assoc]
      · exact hunbroken c rfl (hletters c List.mem_cons_self)
    · have hc : '#' ∉ before ++ word := by
        have hword : '#' ∉ word := fun hhash => absurd (hletters _ hhash) (by decide)
        simp [hbefore, hword]
      have hread := ih (before ++ word) (by simp; omega) hc ?_ hmem
      · rw [hsplit, ← List.append_assoc]
        exact hread
      · intro first hfirst hletter
        rw [hright first hfirst] at hletter
        contradiction

/-- The tokens of the rest of a line stand no further left than the rest does. -/
theorem column_le_of_mem_ofLine {line column : Nat} {text : List Char} {token : Token}
    (hmem : token ∈ ofLine line column text) : column ≤ token.position.column := by
  fun_induction ofLine line column text with
  | case1 column =>
    obtain rfl := List.mem_singleton.mp hmem
    exact Nat.le_refl _
  | case2 column =>
    rcases List.mem_cons.mp hmem with rfl | hend
    · exact Nat.le_refl _
    · obtain rfl := List.mem_singleton.mp hend
      exact Nat.le_succ _
  | case3 column c rest kind _ _ ih =>
    rcases List.mem_cons.mp hmem with rfl | hmem
    · exact Nat.le_refl _
    · exact Nat.le_of_succ_le (ih hmem)
  | case4 column c rest _ _ ih => exact Nat.le_of_succ_le (ih hmem)
  | case5 column c rest _ _ word =>
    rename_i ih
    rcases List.mem_cons.mp hmem with rfl | hmem
    · exact Nat.le_refl _
    · exact Nat.le_of_add_right_le (ih hmem)

/-- The tokens of a line stand at increasing columns. -/
theorem pairwise_ofLine (line column : Nat) (text : List Char) :
    (ofLine line column text).Pairwise fun a b => a.position.column < b.position.column := by
  fun_induction ofLine line column text with
  | case1 column => exact List.pairwise_singleton _ _
  | case2 column => simp [endOfLine]
  | case3 column c rest kind _ _ ih =>
    refine List.pairwise_cons.mpr ⟨fun token hmem => ?_, ih⟩
    exact column_le_of_mem_ofLine hmem
  | case4 column c rest _ _ ih => exact ih
  | case5 column c rest _ _ word ih =>
    refine List.pairwise_cons.mpr ⟨fun token hmem => ?_, ih⟩
    have hle := column_le_of_mem_ofLine hmem
    have hpositive : 0 < word.length := by simp [word]
    exact Nat.lt_of_lt_of_le (Nat.lt_add_of_pos_right hpositive) hle

/-- The character in a column belongs to the token. -/
def Covers (token : Token) (column : Nat) : Prop :=
  token.position.column ≤ column ∧ column < token.position.column + token.text.length

/-- Every character belongs to a token, but for separators and what follows a comment mark. -/
theorem covered_of_getElem? (line column : Nat) {text : List Char} {i : Nat} {c : Char}
    (hi : text[i]? = some c) :
    (∃ token ∈ ofLine line column text, token.Covers (column + i)) ∨
      isSeparator c ∨ '#' ∈ text.take i := by
  fun_induction ofLine line column text generalizing i with
  | case1 column => simp at hi
  | case2 column first rest hhash =>
    obtain rfl := ofSpecial?_eq_hash hhash
    cases i with
    | zero =>
      have hlength : 0 < "#".length := by decide
      exact .inl ⟨_, List.mem_cons_self, Nat.le_refl _, Nat.lt_add_of_pos_right hlength⟩
    | succ i => exact .inr (.inr (by simp))
  | case3 column first rest kind _ _ ih =>
    cases i with
    | zero => exact .inl ⟨_, List.mem_cons_self, Nat.le_refl _, by simp⟩
    | succ i =>
      have hcount : column + (i + 1) = column + 1 + i := by omega
      rcases ih hi with ⟨token, hmem, hcovers⟩ | hseparator | hhash
      · exact .inl ⟨token, List.mem_cons_of_mem _ hmem, hcount ▸ hcovers⟩
      · exact .inr (.inl hseparator)
      · exact .inr (.inr (by simp [hhash]))
  | case4 column first rest _ hseparator ih =>
    cases i with
    | zero =>
      obtain rfl : first = c := by simpa using hi
      exact .inr (.inl hseparator)
    | succ i =>
      have hcount : column + (i + 1) = column + 1 + i := by omega
      rcases ih hi with ⟨token, hmem, hcovers⟩ | hseparator | hhash
      · exact .inl ⟨token, hmem, hcount ▸ hcovers⟩
      · exact .inr (.inl hseparator)
      · exact .inr (.inr (by simp [hhash]))
  | case5 column first rest _ _ word =>
    rename_i ih
    have hsplit : first :: rest = word ++ rest.dropWhile isWordChar := by
      simp [word, List.takeWhile_append_dropWhile]
    rw [hsplit] at hi ⊢
    by_cases hinside : i < word.length
    · refine .inl ⟨_, List.mem_cons_self, Nat.le_add_right _ _, ?_⟩
      simp only [String.length_ofList]
      omega
    · obtain ⟨j, rfl⟩ : ∃ j, i = word.length + j := ⟨i - word.length, by omega⟩
      rw [List.getElem?_append_right (by omega), Nat.add_sub_cancel_left] at hi
      rcases ih hi with ⟨token, hmem, hcovers⟩ | hseparator | hhash
      · exact .inl ⟨token, List.mem_cons_of_mem _ hmem, by rwa [← Nat.add_assoc]⟩
      · exact .inr (.inl hseparator)
      · refine .inr (.inr ?_)
        rw [List.take_append]
        simp [hhash]

namespace IsRun

variable {text before word after : List Char}

/-- Within a run all characters are word characters. -/
theorem letter_at (hrun : IsRun text before word after) {i : Nat} (hlo : before.length ≤ i)
    (hhi : i < before.length + word.length) : ∃ c, text[i]? = some c ∧ isWordChar c := by
  have hlt : i - before.length < word.length := by omega
  refine ⟨word[i - before.length], ?_, hrun.letters _ (List.getElem_mem hlt)⟩
  rw [hrun.split, List.append_assoc, List.getElem?_append_right hlo,
    List.getElem?_append_left hlt, List.getElem?_eq_getElem hlt]

/-- The character before a run is none. -/
theorem no_letter_before (hrun : IsRun text before word after) {i : Nat}
    (hi : before.length = i + 1) {c : Char} (hc : text[i]? = some c) : isWordChar c = false := by
  refine hrun.left c ?_
  rw [hrun.split, List.append_assoc, List.getElem?_append_left (by omega)] at hc
  rw [List.getLast?_eq_getElem?, hi, Nat.add_sub_cancel, hc]

/-- The character behind a run is none. -/
theorem no_letter_after (hrun : IsRun text before word after) {c : Char}
    (hc : text[before.length + word.length]? = some c) : isWordChar c = false := by
  refine hrun.right c ?_
  rw [hrun.split, List.getElem?_append_right (by simp)] at hc
  simpa [List.head?_eq_getElem?] using hc

/-- A run that begins further right than another lies behind all of it. -/
private theorem not_lt_of_overlap {otherBefore otherWord otherAfter : List Char}
    (hrun : IsRun text before word after) (hother : IsRun text otherBefore otherWord otherAfter)
    {i : Nat} (hhi : i < before.length + word.length) (hlo : otherBefore.length ≤ i) :
    ¬ before.length < otherBefore.length := by
  intro hlt
  obtain ⟨c, hc, hletter⟩ :=
    hrun.letter_at (i := otherBefore.length - 1) (by omega) (by omega)
  have hnot := hother.no_letter_before (by omega) hc
  rw [hnot] at hletter
  contradiction

/-- Two runs that share a character are the same. -/
theorem eq_of_overlap {otherBefore otherWord otherAfter : List Char}
    (hrun : IsRun text before word after) (hother : IsRun text otherBefore otherWord otherAfter)
    {i : Nat} (hlo : before.length ≤ i) (hhi : i < before.length + word.length)
    (hlo' : otherBefore.length ≤ i) (hhi' : i < otherBefore.length + otherWord.length) :
    before = otherBefore ∧ word = otherWord := by
  have hnotlt := hrun.not_lt_of_overlap hother hhi hlo'
  have hnotgt := hother.not_lt_of_overlap hrun hhi' hlo
  have hstart : before.length = otherBefore.length := by omega
  have hlength : word.length = otherWord.length := by
    rcases Nat.lt_trichotomy word.length otherWord.length with hlt | heq | hgt
    · obtain ⟨c, hc, hletter⟩ :=
        hother.letter_at (i := before.length + word.length) (by omega) (by omega)
      rw [hrun.no_letter_after hc] at hletter
      contradiction
    · exact heq
    · obtain ⟨c, hc, hletter⟩ :=
        hrun.letter_at (i := otherBefore.length + otherWord.length) (by omega) (by omega)
      rw [hother.no_letter_after hc] at hletter
      contradiction
  have hsplit := hrun.split.symm.trans hother.split
  have hfront := (List.append_inj hsplit (by simp [hstart, hlength])).1
  exact List.append_inj hfront hstart

end IsRun

/-- The start of a run is a word character that stands before any comment mark. -/
theorem IsRun.starts {text before word after : List Char} (hrun : IsRun text before word after) :
    ∃ c, text[before.length]? = some c ∧ isSeparator c = false ∧
      '#' ∉ text.take before.length := by
  have hpositive := List.length_pos_of_ne_nil hrun.nonempty
  obtain ⟨c, hc, hletter⟩ := hrun.letter_at (Nat.le_refl _) (Nat.lt_add_of_pos_right hpositive)
  have htake : text.take before.length = before := by
    rw [hrun.split, List.append_assoc, List.take_left]
  exact ⟨c, hc, by simp_all [isWordChar], by rw [htake]; exact hrun.uncommented⟩

namespace StandsIn

variable {line : Nat} {text : List Char} {token other : Token}

theorem line_eq (htoken : StandsIn line text token) : token.position.line = line := by
  cases htoken <;> rfl

theorem column_pos (htoken : StandsIn line text token) : 0 < token.position.column := by
  cases htoken with
  | endOfLine =>
    change 0 < finalColumn text
    unfold finalColumn
    split <;> omega
  | _ => exact Nat.succ_pos _

/-- The text of a token is what the line has from its column on. -/
theorem text_prefix (htoken : StandsIn line text token) :
    token.text.toList <+: text.drop (token.position.column - 1) := by
  cases htoken with
  | special htext => simp [htext]
  | keyword hrun => simp [hrun.split]
  | literal hrun => simp [hrun.split]
  | endOfLine => exact List.nil_prefix

/-- Only the end of the line has the kind of one. -/
theorem eq_endOfLine (htoken : StandsIn line text token) (hkind : token.kind = .endOfLine) :
    token = .endOfLine ⟨line, finalColumn text⟩ := by
  cases htoken with
  | special _ _ hspecial =>
    obtain rfl : _ = TokenKind.endOfLine := hkind
    exact absurd (by simp) (special_kind_not_mem hspecial)
  | keyword => cases hkind
  | literal => cases hkind
  | endOfLine => rfl

theorem kind_ne_endOfInput (htoken : StandsIn line text token) : token.kind ≠ .endOfInput := by
  intro hkind
  cases htoken with
  | special _ _ hspecial =>
    obtain rfl : _ = TokenKind.endOfInput := hkind
    exact absurd (by simp) (special_kind_not_mem hspecial)
  | _ => cases hkind

/-- A token is a special character, a run of word characters, or the end of the line. -/
theorem shape (htoken : StandsIn line text token) :
    (∃ before c after kind, text = before ++ c :: after ∧ '#' ∉ before ∧
        TokenKind.ofSpecial? c = some kind ∧
        token = ⟨kind, String.singleton c, ⟨line, before.length + 1⟩⟩) ∨
      (∃ before word after, IsRun text before word after ∧
        token = ⟨wordKind word, String.ofList word, ⟨line, before.length + 1⟩⟩) ∨
      token = .endOfLine ⟨line, finalColumn text⟩ := by
  cases htoken with
  | special htext hbefore hkind => exact .inl ⟨_, _, _, _, htext, hbefore, hkind, rfl⟩
  | @keyword before word after hrun hword =>
    have hkind : wordKind word = .groupKeyword := if_pos hword
    exact .inr (.inl ⟨before, word, after, hrun, by rw [hkind]⟩)
  | @literal before word after hrun hword =>
    have hkind : wordKind word = .literal := if_neg hword
    exact .inr (.inl ⟨before, word, after, hrun, by rw [hkind]⟩)
  | endOfLine => exact .inr (.inr rfl)

/-- A token that covers a character is the special character itself, or the run that the
    character is in. -/
theorem covers_cases (htoken : StandsIn line text token) {i : Nat}
    (hcovers : token.Covers (i + 1)) :
    (∃ before c after kind, text = before ++ c :: after ∧ before.length = i ∧
        TokenKind.ofSpecial? c = some kind ∧
        token = ⟨kind, String.singleton c, ⟨line, i + 1⟩⟩) ∨
      ∃ before word after, IsRun text before word after ∧ before.length ≤ i ∧
        i < before.length + word.length ∧
        token = ⟨wordKind word, String.ofList word, ⟨line, before.length + 1⟩⟩ := by
  obtain ⟨hlo, hhi⟩ := hcovers
  obtain ⟨before, c, after, kind, htext, _, hkind, rfl⟩ | ⟨before, word, after, hrun, rfl⟩ | rfl :=
    htoken.shape
  · simp only [String.length_singleton] at hlo hhi
    obtain rfl : before.length = i := by omega
    exact .inl ⟨before, c, after, kind, htext, rfl, hkind, rfl⟩
  · simp only [String.length_ofList] at hlo hhi
    exact .inr ⟨before, word, after, hrun, by omega, by omega, rfl⟩
  · have hempty : (Token.endOfLine ⟨line, finalColumn text⟩).text.length = 0 := rfl
    omega

/-- No character is covered twice. -/
theorem eq_of_covers (htoken : StandsIn line text token) (hother : StandsIn line text other)
    {i : Nat} (hcovers : token.Covers (i + 1)) (hcovers' : other.Covers (i + 1)) :
    token = other := by
  have hclash : ∀ {before after word front behind : List Char} {c : Char} {kind : TokenKind},
      text = before ++ c :: after → before.length = i → TokenKind.ofSpecial? c = some kind →
      IsRun text front word behind → front.length ≤ i → i < front.length + word.length →
      False := by
    intro before after word front behind c kind htext hbefore hkind hrun hlo hhi
    obtain ⟨letter, hletter, hword⟩ := hrun.letter_at hlo hhi
    obtain rfl : c = letter := by simpa [htext, ← hbefore] using hletter
    rw [isWordChar_of_special hkind] at hword
    contradiction
  rcases htoken.covers_cases hcovers with
    ⟨before, c, after, kind, htext, hbefore, hkind, rfl⟩ | ⟨before, word, after, hrun, hlo, hhi, rfl⟩
  · rcases hother.covers_cases hcovers' with
      ⟨before', c', after', kind', htext', hbefore', hkind', rfl⟩ |
        ⟨_, _, _, hrun', hlo', hhi', rfl⟩
    · have hsplit := List.append_inj (htext.symm.trans htext') (hbefore.trans hbefore'.symm)
      obtain ⟨rfl, _⟩ := List.cons.inj hsplit.2
      obtain rfl := Option.some.inj (hkind.symm.trans hkind')
      rfl
    · exact (hclash htext hbefore hkind hrun' hlo' hhi').elim
  · rcases hother.covers_cases hcovers' with
      ⟨_, _, _, _, htext', hbefore', hkind', rfl⟩ | ⟨_, _, _, hrun', hlo', hhi', rfl⟩
    · exact (hclash htext' hbefore' hkind' hrun hlo hhi).elim
    · obtain ⟨rfl, rfl⟩ := hrun.eq_of_overlap hrun' hlo hhi hlo' hhi'
      rfl

/-- A token other than the end of the line covers the character in its column, which is no
    separator and stands before any comment mark. -/
theorem covers_start (htoken : StandsIn line text token) (hkind : token.kind ≠ .endOfLine) :
    ∃ i c, token.Covers (i + 1) ∧ text[i]? = some c ∧ isSeparator c = false ∧
      '#' ∉ text.take i := by
  obtain ⟨before, c, after, kind, htext, hbefore, hspecial, rfl⟩ |
      ⟨before, word, after, hrun, rfl⟩ | rfl := htoken.shape
  · refine ⟨before.length, c, ⟨Nat.le_refl _, by simp⟩, by simp [htext],
      isSeparator_of_special hspecial, by simpa [htext] using hbefore⟩
  · obtain ⟨c, hc, hseparator, hhash⟩ := hrun.starts
    have hpositive := List.length_pos_of_ne_nil hrun.nonempty
    exact ⟨before.length, c, ⟨Nat.le_refl _, by simpa using hpositive⟩, hc, hseparator, hhash⟩
  · exact absurd rfl hkind

end StandsIn

/-- The tokens read from a line are those that stand in it. -/
theorem mem_ofLine_iff {line : Nat} {text : List Char} {token : Token} :
    token ∈ ofLine line 1 text ↔ StandsIn line text token := by
  have hsound : ∀ {found : Token}, found ∈ ofLine line 1 text → StandsIn line text found :=
    fun hmem => standsIn_of_mem_ofLine [] rfl (by simp) (by simp) hmem
  refine ⟨hsound, fun htoken => ?_⟩
  by_cases hkind : token.kind = .endOfLine
  · obtain ⟨final, hlast⟩ := getLast?_ofLine line 1 text
    have hmem := List.mem_of_getLast? hlast
    rw [htoken.eq_endOfLine hkind, ← (hsound hmem).eq_endOfLine rfl]
    exact hmem
  · obtain ⟨i, c, hcovers, hc, hseparator, hhash⟩ := htoken.covers_start hkind
    obtain ⟨found, hmem, hfound⟩ | hcontra | hcontra := covered_of_getElem? line 1 hc
    · rw [Nat.add_comm] at hfound
      rwa [htoken.eq_of_covers (hsound hmem) hcovers hfound]
    · rw [hseparator] at hcontra
      contradiction
    · contradiction

/-- A line has one end, and nothing behind it. -/
theorem ofLine_eq_concat (line : Nat) (text : List Char) :
    ∃ front, ofLine line 1 text = front ++ [.endOfLine ⟨line, finalColumn text⟩] ∧
      ∀ token ∈ front, token.kind ≠ .endOfLine ∧ token.kind ≠ .endOfInput := by
  obtain ⟨final, hlast⟩ := getLast?_ofLine line 1 text
  have hend := mem_ofLine_iff.mp (List.mem_of_getLast? hlast)
  rw [hend.eq_endOfLine rfl] at hlast
  obtain ⟨front, hfront⟩ := List.getLast?_eq_some_iff.mp hlast
  refine ⟨front, hfront, fun token hmem => ?_⟩
  have htoken : StandsIn line text token := mem_ofLine_iff.mp (by simp [hfront, hmem])
  have hbefore : token.position.column < finalColumn text := by
    have hpairwise := pairwise_ofLine line 1 text
    rw [hfront, List.pairwise_append] at hpairwise
    exact hpairwise.2.2 token hmem _ List.mem_cons_self
  refine ⟨fun hkind => ?_, htoken.kind_ne_endOfInput⟩
  rw [htoken.eq_endOfLine hkind] at hbefore
  exact Nat.lt_irrefl _ hbefore

end CollisionRules.Token

namespace CollisionRules

/-- The lines of a source give their tokens each for itself, with its own number. -/
theorem Reading.tokensOfLines_eq_flatMap (linesRead : Nat) (texts : List (List Char)) :
    tokensOfLines linesRead texts =
      (texts.zipIdx (linesRead + 1)).flatMap fun entry => Token.ofLine entry.2 1 entry.1 := by
  induction texts generalizing linesRead with
  | nil => rfl
  | cons text rest ih => rw [tokensOfLines, List.zipIdx_cons, List.flatMap_cons, ih]

/-- The tokens of a text are those of its physical lines, one line after the other, and
    then the one end of input. The lines with their ends make up the text, and no other
    lines do. The tokens of a line stand at increasing columns, each
    reads what the line has there, and they are just the tokens that stand in the line;
    what none of them covers is a separator or follows the comment mark; and the line
    ends in its only end of line. -/
theorem tokenize_eq_lines (text : List Char) :
    let lines := Text.lines text
    (∀ found, Text.HasLines text found ↔ found = lines) ∧
      tokenize text =
        ((lines.zipIdx 1).flatMap fun entry => Token.ofLine entry.2 1 entry.1) ++
          [⟨.endOfInput, "", ⟨lines.length + 1, 1⟩⟩] ∧
      ∀ line content,
        let tokens := Token.ofLine line 1 content
        (tokens.Pairwise fun a b => a.position.column < b.position.column) ∧
          (∀ token ∈ tokens, token.position.line = line ∧ 0 < token.position.column ∧
            token.text.toList <+: content.drop (token.position.column - 1)) ∧
          (∀ token, token ∈ tokens ↔ Token.StandsIn line content token) ∧
          (∀ i c, content[i]? = some c → (∃ token ∈ tokens, token.Covers (i + 1)) ∨
            Text.isSeparator c ∨ '#' ∈ content.take i) ∧
          ∃ front, tokens = front ++ [⟨.endOfLine, "", ⟨line, Token.finalColumn content⟩⟩] ∧
            ∀ token ∈ front, token.kind ≠ .endOfLine ∧ token.kind ≠ .endOfInput := by
  intro lines
  refine ⟨fun _ => Text.hasLines_iff, ?_, fun line content => ?_⟩
  · rw [tokenize, Reading.ofText_eq, Reading.tokensOfLines_eq_flatMap]
    rfl
  · intro tokens
    refine ⟨Token.pairwise_ofLine line 1 content, fun token hmem => ?_,
      fun _ => Token.mem_ofLine_iff, fun i c hc => ?_, Token.ofLine_eq_concat line content⟩
    · have htoken := Token.mem_ofLine_iff.mp hmem
      exact ⟨htoken.line_eq, htoken.column_pos, htoken.text_prefix⟩
    · rw [Nat.add_comm]
      exact Token.covered_of_getElem? line 1 hc

end CollisionRules
