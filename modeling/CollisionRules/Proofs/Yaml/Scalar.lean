import CollisionRules.Proofs.Yaml.Library
import CollisionRules.Yaml.Quoting
import CollisionRules.Yaml.Scalar
import Mathlib.Data.List.Basic
import Mathlib.Data.List.TakeWhile

namespace CollisionRules.Yaml

/-- A line holds no separator of lines or of paragraphs. -/
theorem isSeparatorBreak_of_isLineChar {c : Char} (hc : isLineChar c = true) :
    isSeparatorBreak c = false := by
  rw [isLineChar, Bool.and_eq_true, Bool.not_eq_true'] at hc
  exact hc.2

/-- On a line the only gaps are spaces. -/
theorem isGap_of_isLineChar {c : Char} (hc : isLineChar c = true) : isGap c = (c == ' ') := by
  have hne (d : Char) (hd : isLineChar d = false) : (c == d) = false := by
    rw [beq_eq_false_iff_ne]
    rintro rfl
    rw [hc] at hd
    contradiction
  have hseparators : (c == '\u2028') = false ∧ (c == '\u2029') = false :=
    ⟨hne _ (by decide), hne _ (by decide)⟩
  simp only [isGap, isBlank, isBreak, hne '\t' (by decide), hne '\n' (by decide),
    hne '\r' (by decide), hne '\u0085' (by decide), hseparators, Bool.or_false]

theorem isBreak_of_isLineChar {c : Char} (hc : isLineChar c = true) : isBreak c = false := by
  by_cases hspace : c = ' '
  · subst c
    rfl
  · have hgap := isGap_of_isLineChar hc
    rw [beq_false_of_ne hspace, isGap, Bool.or_eq_false_iff] at hgap
    exact hgap.2

namespace Cursor

theorem skip_skip (cursor : Cursor) (m n : Nat) : (cursor.skip m).skip n = cursor.skip (m + n) := by
  simp [skip, Nat.add_assoc]

theorem rest_skip {cursor : Cursor} {front tail : List Char} (hrest : cursor.rest = front ++ tail) :
    (cursor.skip front.length).rest = tail := by
  simp [skip, hrest]

/-- An indicator of a document stands at the left margin. -/
theorem atDocumentIndicator_of_column {cursor : Cursor} (hcolumn : cursor.column ≠ 0) :
    cursor.atDocumentIndicator = false := by
  simp [atDocumentIndicator, atIndicator, hcolumn]

/-- An indicator of a document begins with a dash or a dot. -/
theorem atDocumentIndicator_of_cons {cursor : Cursor} {c : Char} {rest : List Char}
    (hrest : cursor.rest = c :: rest) (hdash : c ≠ '-') (hdot : c ≠ '.') :
    cursor.atDocumentIndicator = false := by
  simp [atDocumentIndicator, atIndicator, hrest, hdash, hdot]

end Cursor

/-- Nothing, or something that begins with neither a blank nor a line break. -/
def NoGapAhead (text : List Char) : Prop :=
  ∀ c, text.head? = some c → isGap c = false

theorem noGapAhead_cons {c : Char} (hc : isGap c = false) (tail : List Char) :
    NoGapAhead (c :: tail) := by
  intro d hd
  obtain rfl : c = d := by simpa using hd
  exact hc

theorem gapAhead_of_append {front tail : List Char} (hgap : gapAhead (front ++ tail) = true) :
    gapAhead front = true := by
  cases front with
  | nil => rfl
  | cons c rest => exact hgap

namespace Fold

variable {margin : Option Nat} {fold : Fold} {cursor : Cursor} {tail : List Char}

/-- Where no gap is ahead, none is folded. -/
theorem scan_of_noGapAhead (hrest : NoGapAhead cursor.rest) (budget : Nat) :
    scan margin budget fold cursor = some (fold, cursor) := by
  cases budget with
  | zero => rfl
  | succ budget =>
    unfold scan
    split
    · rfl
    · rename_i c rest hcons
      have hgap := hrest c (by rw [hcons]; rfl)
      obtain ⟨hblank, hbreak⟩ := Bool.or_eq_false_iff.mp hgap
      simp [hblank, hbreak]

/-- Spaces are read as they are, and count for nothing behind a line break. -/
theorem scan_spaces {n budget : Nat} (hrest : cursor.rest = List.replicate n ' ' ++ tail)
    (htail : NoGapAhead tail) (hbudget : n ≤ budget) :
    scan margin budget fold cursor =
      some (if fold.broken then fold
        else { fold with blanks := fold.blanks ++ List.replicate n ' ' }, cursor.skip n) := by
  induction n generalizing budget fold cursor with
  | zero =>
    rw [scan_of_noGapAhead (by simpa [hrest] using htail)]
    simp [Cursor.skip]
  | succ n ih =>
    obtain ⟨budget, rfl⟩ : ∃ more, budget = more + 1 := ⟨budget - 1, by omega⟩
    have hnext : (cursor.skip 1).rest = List.replicate n ' ' ++ tail := by
      simp [Cursor.skip, hrest, List.replicate_succ]
    have hspace : isBlank ' ' = true := rfl
    unfold scan
    rw [hrest, List.replicate_succ, List.cons_append]
    simp only [hspace, if_true]
    cases hbroken : fold.broken with
    | true =>
      simp only [if_true]
      rw [if_neg (by simp), ih hnext (by omega), hbroken, Cursor.skip_skip, Nat.add_comm]
      rfl
    | false =>
      simp only [Bool.false_eq_true, if_false]
      rw [ih hnext (by omega), Cursor.skip_skip, Nat.add_comm]
      simp

/-- One line break, and the spaces that the next line begins with. -/
theorem scan_lineBreak {n budget : Nat}
    (hrest : cursor.rest = '\n' :: (List.replicate n ' ' ++ tail))
    (htail : NoGapAhead tail) (hbudget : n < budget) :
    scan margin budget .none cursor =
      some (⟨[], true, some '\n', []⟩, ⟨tail, cursor.offset + 1 + n, cursor.line + 1, n⟩) := by
  obtain ⟨budget, rfl⟩ : ∃ more, budget = more + 1 := ⟨budget - 1, by omega⟩
  have hbreak : cursor.skipBreak =
      ⟨List.replicate n ' ' ++ tail, cursor.offset + 1, cursor.line + 1, 0⟩ := by
    simp [Cursor.skipBreak, hrest]
  have hread : cursor.breakAsRead = '\n' := by simp [Cursor.breakAsRead, hrest]
  have hkind : isBlank '\n' = false ∧ isBreak '\n' = true := ⟨rfl, rfl⟩
  unfold scan
  rw [hrest]
  simp only [hkind, Bool.false_eq_true, if_false, if_true, hbreak, hread]
  rw [scan_spaces rfl htail (by omega)]
  simp [addBreak, none, Cursor.skip]

end Fold

/-- A run without gaps is read up to where it ends, if no colon in it has a gap behind it. -/
theorem plainRun_append {run more tail : List Char} (hrun : ∀ c ∈ run, isGap c = false)
    (hunbroken : isUnbroken (run ++ more) = true) (hstop : plainRun false (more ++ tail) = some []) :
    plainRun false (run ++ (more ++ tail)) = some run := by
  induction run with
  | nil => exact hstop
  | cons c rest ih =>
    have hc := hrun c List.mem_cons_self
    rw [List.cons_append, isUnbroken, Bool.and_eq_true, Bool.and_eq_true, Bool.not_eq_true',
      Bool.not_eq_true'] at hunbroken
    obtain ⟨⟨hcolon, -⟩, hrest⟩ := hunbroken
    have hgap : (c == ':' && gapAhead (rest ++ (more ++ tail))) = false := by
      cases hc : c == ':' with
      | false => rfl
      | true =>
        rw [hc, Bool.true_and, ← Bool.not_eq_true] at hcolon
        rw [Bool.true_and, ← Bool.not_eq_true, ← List.append_assoc]
        exact fun hgap => hcolon (gapAhead_of_append hgap)
    have hnext := ih (fun d hd => hrun d (List.mem_cons_of_mem _ hd)) hrest
    rw [List.cons_append, plainRun]
    simp [hc, hgap, hnext]

/-- How a plain scalar ends when its characters have been read: at a colon, or at a line break with
    less than `margin` spaces behind it. Gives the cursor behind it, and whether that is on a new
    line. -/
inductive PlainEnds (margin : Nat) (cursor : Cursor) : Cursor → Bool → Prop
  | colon {tail : List Char} (hrest : cursor.rest = ':' :: tail) (htail : gapAhead tail = true) :
      PlainEnds margin cursor cursor false
  | lineBreak {n : Nat} {tail : List Char}
      (hrest : cursor.rest = '\n' :: (List.replicate n ' ' ++ tail)) (htail : NoGapAhead tail)
      (hn : n < margin) :
      PlainEnds margin cursor ⟨tail, cursor.offset + 1 + n, cursor.line + 1, n⟩ true

/-- A plain scalar that ends here is not continued. -/
theorem PlainEnds.plainRun {margin : Nat} {cursor final : Cursor} {broken : Bool}
    (hends : PlainEnds margin cursor final broken) : plainRun false cursor.rest = some [] := by
  cases hends with
  | colon hrest htail => simp [hrest, Yaml.plainRun, htail]
  | lineBreak hrest =>
    rw [hrest]
    rfl

/-- A plain scalar without spaces. -/
theorem scanPlain_run {margin budget : Nat} {cursor final : Cursor} {broken : Bool}
    {run tail : List Char} (hrest : cursor.rest = run ++ tail)
    (hdocument : cursor.atDocumentIndicator = false) (hhash : cursor.rest.head? ≠ some '#')
    (hrun : ∀ c ∈ run, isGap c = false) (hunbroken : isUnbroken run = true)
    (hends : PlainEnds margin (cursor.skip run.length) final broken) :
    scanPlain false margin (budget + 1) cursor = some (run, final, broken) := by
  have hskip := Cursor.rest_skip hrest
  have hread : plainRun false cursor.rest = some run := by
    have hstop := hends.plainRun
    rw [hskip] at hstop
    rw [← List.append_nil run] at hunbroken
    rw [hrest]
    exact plainRun_append hrun hunbroken hstop
  unfold scanPlain
  rw [hdocument, beq_false_of_ne hhash, hread]
  simp only [Bool.or_self, Bool.false_eq_true, if_false, Option.bind_eq_bind, Option.bind_some]
  cases hends with
  | colon hcolon htail =>
    have hgap : gapAhead (cursor.skip run.length).rest = false := by
      rw [hcolon]
      rfl
    simp [hgap]
  | lineBreak hbreak htail hn =>
    have hgap : gapAhead (cursor.skip run.length).rest = true := by
      rw [hbreak]
      rfl
    have hempty : (cursor.skip run.length).rest.isEmpty = false := by
      rw [hbreak]
      rfl
    have hscan : Fold.scan (some margin) (cursor.skip run.length).rest.length .none
        (cursor.skip run.length) = _ :=
      Fold.scan_lineBreak hbreak htail (by
        simp only [hbreak, List.length_cons, List.length_append, List.length_replicate]
        omega)
    simp [hgap, hempty, hscan, hn]

/-- A run that a plain scalar, or a part of one behind spaces, may begin with. -/
structure IsRun (run : List Char) : Prop where
  ne_nil : run ≠ []
  noGap : ∀ c ∈ run, isGap c = false
  noComment : run.head? ≠ some '#'

/-- A run begins with no gap. -/
theorem IsRun.noGapAhead {run : List Char} (hrun : IsRun run) (tail : List Char) :
    NoGapAhead (run ++ tail) := by
  obtain ⟨c, rest, rfl⟩ := List.exists_cons_of_ne_nil hrun.ne_nil
  intro d hd
  obtain rfl : c = d := by simpa using hd
  exact hrun.noGap c List.mem_cons_self

/-- A text that is read back as it is when it is written plain: runs with spaces between them. -/
inductive PlainText : List Char → Prop
  | run {run : List Char} (hrun : IsRun run) (hunbroken : isUnbroken run = true) : PlainText run
  | more {run text : List Char} {n : Nat} (hrun : IsRun run) (htext : PlainText text)
      (hunbroken : isUnbroken (run ++ (List.replicate (n + 1) ' ' ++ text)) = true) :
      PlainText (run ++ (List.replicate (n + 1) ' ' ++ text))

theorem isUnbroken_of_append {front back : List Char}
    (hunbroken : isUnbroken (front ++ back) = true) :
    isUnbroken back = true := by
  induction front with
  | nil => exact hunbroken
  | cons c rest ih =>
    rw [List.cons_append, isUnbroken, Bool.and_eq_true] at hunbroken
    exact ih hunbroken.2

/-- A space is followed by no comment within a plain scalar. -/
theorem head?_ne_of_isUnbroken {text : List Char} (hunbroken : isUnbroken (' ' :: text) = true) :
    text.head? ≠ some '#' := by
  rintro hhash
  simp [isUnbroken, hhash, isGap, isBlank] at hunbroken

/-- The longest front of which a predicate holds, and what is behind it. -/
theorem exists_front {α : Type} (p : α → Bool) (list : List α) :
    ∃ front back, list = front ++ back ∧ (∀ a ∈ front, p a = true) ∧
      ∀ a, back.head? = some a → p a = false := by
  refine ⟨list.takeWhile p, list.dropWhile p, List.takeWhile_append_dropWhile.symm,
    fun a ha => List.mem_takeWhile_imp ha, fun a ha => ?_⟩
  have hnot := List.head?_dropWhile_not p list
  rw [ha] at hnot
  exact hnot

/-- A text of one line that begins and ends in other characters than spaces is such a text. -/
theorem PlainText.of_isUnbroken {text : List Char} (hline : ∀ c ∈ text, isLineChar c = true)
    (hne : text ≠ []) (hspace : text.head? ≠ some ' ') (hhash : text.head? ≠ some '#')
    (hlast : text.getLast? ≠ some ' ') (hunbroken : isUnbroken text = true) : PlainText text := by
  induction hlength : text.length using Nat.strong_induction_on generalizing text with
  | _ length ih =>
    obtain ⟨run, more, rfl, hrun, hmore⟩ := exists_front (· != ' ') text
    obtain ⟨spaces, rest, rfl, hspaces, hrest⟩ := exists_front (· == ' ') more
    have hrunNe : run ≠ [] := by
      rintro rfl
      obtain ⟨c, others, hcons⟩ := List.exists_cons_of_ne_nil hne
      rw [List.nil_append] at hcons
      have hc := hmore c (by rw [hcons]; rfl)
      rw [List.nil_append, hcons] at hspace
      simp_all
    have hisRun : IsRun run := by
      refine ⟨hrunNe, fun c hc => ?_, ?_⟩
      · rw [isGap_of_isLineChar (hline c (List.mem_append_left _ hc))]
        simpa using hrun c hc
      · rwa [List.head?_append, Option.or_of_isSome (by simpa using hrunNe)] at hhash
    rcases eq_or_ne rest [] with rfl | hrestNe
    · rcases List.eq_nil_or_concat' spaces with rfl | ⟨others, last, rfl⟩
      · simp only [List.append_nil] at hunbroken ⊢
        exact .run hisRun hunbroken
      · obtain rfl : last = ' ' := by simpa using hspaces last (by simp)
        simp at hlast
    · obtain ⟨n, rfl⟩ : ∃ n, spaces = List.replicate (n + 1) ' ' := by
        have hreplicate : spaces = List.replicate spaces.length ' ' :=
          List.eq_replicate_iff.mpr ⟨rfl, fun c hc => by simpa using hspaces c hc⟩
        obtain _ | ⟨c, others⟩ := spaces
        · obtain ⟨c, others, rfl⟩ := List.exists_cons_of_ne_nil hrestNe
          have hc := hmore c rfl
          rw [bne, hrest c rfl] at hc
          exact absurd hc (by decide)
        · exact ⟨others.length, hreplicate⟩
      have hbehind : isUnbroken (' ' :: rest) = true := by
        have hsplit : run ++ (List.replicate (n + 1) ' ' ++ rest) =
            (run ++ List.replicate n ' ') ++ (' ' :: rest) := by
          simp [List.replicate_succ']
        rw [hsplit] at hunbroken
        exact isUnbroken_of_append hunbroken
      have hrestUnbroken : isUnbroken rest = true := by
        rw [← List.singleton_append] at hbehind
        exact isUnbroken_of_append hbehind
      have htext : PlainText rest := by
        refine ih rest.length ?_ (fun c hc => hline c (by simp [hc])) hrestNe ?_
          (head?_ne_of_isUnbroken hbehind) ?_ hrestUnbroken rfl
        · simp only [← hlength, List.length_append, List.length_replicate]
          omega
        · intro hhead
          have hc := hrest ' ' hhead
          simp at hc
        · simpa [List.getLast?_append, hrestNe] using hlast
      exact .more hisRun htext hunbroken

namespace PlainText

variable {text tail : List Char} {margin budget : Nat} {cursor final : Cursor} {broken : Bool}

/-- A plain text is a run of characters without a gap, and then the rest of it. -/
theorem exists_isRun (htext : PlainText text) : ∃ run more, IsRun run ∧ text = run ++ more := by
  cases htext with
  | run hrun => exact ⟨_, [], hrun, (List.append_nil _).symm⟩
  | more hrun => exact ⟨_, _, hrun, rfl⟩

theorem noGapAhead (htext : PlainText text) (tail : List Char) : NoGapAhead (text ++ tail) := by
  obtain ⟨run, more, hrun, rfl⟩ := htext.exists_isRun
  rw [List.append_assoc]
  exact hrun.noGapAhead _

theorem noComment (htext : PlainText text) (tail : List Char) :
    (text ++ tail).head? ≠ some '#' := by
  obtain ⟨run, more, hrun, rfl⟩ := htext.exists_isRun
  have hne := hrun.ne_nil
  have hhash := hrun.noComment
  cases run with
  | nil => contradiction
  | cons c rest => simpa using hhash

theorem ne_nil (htext : PlainText text) : text ≠ [] := by
  obtain ⟨run, more, hrun, rfl⟩ := htext.exists_isRun
  simp [hrun.ne_nil]

/-- A plain scalar is read as it is written, run by run. -/
theorem scanPlain (htext : PlainText text) (hrest : cursor.rest = text ++ tail)
    (hdocument : cursor.atDocumentIndicator = false) (hmargin : margin ≤ cursor.column)
    (hends : PlainEnds margin (cursor.skip text.length) final broken)
    (hbudget : text.length < budget) :
    Yaml.scanPlain false margin budget cursor = some (text, final, broken) := by
  induction htext generalizing cursor budget with
  | @run run hrun hunbroken =>
    obtain ⟨budget, rfl⟩ : ∃ more, budget = more + 1 := ⟨budget - 1, by omega⟩
    have hhash := (PlainText.run hrun hunbroken).noComment tail
    exact scanPlain_run hrest hdocument (hrest ▸ hhash) hrun.noGap hunbroken hends
  | @more run text n hrun htext hunbroken ih =>
    obtain ⟨budget, rfl⟩ : ∃ more, budget = more + 1 := ⟨budget - 1, by omega⟩
    have hhash := (PlainText.more hrun htext hunbroken).noComment tail
    rw [← hrest] at hhash
    have hsplit : cursor.rest = run ++ ((List.replicate (n + 1) ' ' ++ text) ++ tail) := by
      rw [hrest, List.append_assoc]
    have hread : plainRun false cursor.rest = some run := by
      rw [hsplit]
      exact plainRun_append hrun.noGap hunbroken rfl
    have hskip : (cursor.skip run.length).rest = List.replicate (n + 1) ' ' ++ (text ++ tail) := by
      rw [Cursor.rest_skip hsplit, List.append_assoc]
    have hgap : gapAhead (cursor.skip run.length).rest = true := by
      rw [hskip]
      rfl
    have hempty : (cursor.skip run.length).rest.isEmpty = false := by
      rw [hskip]
      rfl
    have hscan : Fold.scan (some margin) (cursor.skip run.length).rest.length .none
        (cursor.skip run.length) = _ :=
      Fold.scan_spaces hskip (htext.noGapAhead tail) (by simp [hskip])
    have hnext : ((cursor.skip run.length).skip (n + 1)).rest = text ++ tail := by
      have hlength := Cursor.rest_skip hskip
      rwa [List.length_replicate] at hlength
    have hcolumn : ((cursor.skip run.length).skip (n + 1)).column =
        cursor.column + run.length + (n + 1) := rfl
    have hlast : ((cursor.skip run.length).skip (n + 1)).skip text.length =
        cursor.skip (run ++ (List.replicate (n + 1) ' ' ++ text)).length := by
      simp [Cursor.skip_skip, Nat.add_assoc]
    rw [← hlast] at hends
    have hrec : Yaml.scanPlain false margin budget ((cursor.skip run.length).skip (n + 1)) =
        some (text, final, broken) :=
      ih hnext (Cursor.atDocumentIndicator_of_column (by omega)) (by omega) hends
        (by simp at hbudget; omega)
    have hmore : ¬ ((cursor.skip run.length).skip (n + 1)).column < margin := by omega
    have htextEmpty : text.isEmpty = false := by simpa using htext.ne_nil
    unfold Yaml.scanPlain
    rw [hdocument, beq_false_of_ne hhash, hread]
    simp only [Bool.or_self, Bool.false_eq_true, if_false, Option.bind_eq_bind, Option.bind_some,
      hgap, hempty, hscan, Bool.not_true, hrec, htextEmpty, Bool.not_false, Bool.true_and, hmore,
      decide_false]
    simp [Fold.text, Fold.none]

end PlainText

/-- What is written between quotes for a character other than a space is read as that character,
    whatever follows. -/
structure ReadsAs (double : Bool) (c : Char) (written : List Char) : Prop where
  noGapAhead : ∀ tail, NoGapAhead (written ++ tail)
  read : ∀ {budget : Nat} {cursor : Cursor} {tail : List Char}, cursor.column ≠ 0 →
    cursor.rest = written ++ tail →
      scanQuoted double (budget + 1) cursor =
        (scanQuoted double budget (cursor.skip written.length)).map fun read =>
          (c :: read.1, read.2)

/-- The quote that a scalar begins and ends in. -/
def quoteMark (double : Bool) : Char :=
  if double then '\"' else '\''

section Quoted

variable {double : Bool} {budget : Nat} {cursor : Cursor} {tail : List Char}

/-- The mark that a quoted scalar began with closes it. -/
theorem scanQuoted_close (hcolumn : cursor.column ≠ 0)
    (hrest : cursor.rest = quoteMark double :: tail)
    (htail : tail.head? ≠ some '\'') :
    scanQuoted double (budget + 1) cursor = some ([], cursor.skip 1) := by
  unfold scanQuoted
  rw [Cursor.atDocumentIndicator_of_column hcolumn, hrest]
  cases double <;> simp [quoteMark, isGap, isBlank, isBreak, htail]

/-- Spaces between quotes are read as they are. -/
theorem scanQuoted_spaces {n : Nat} (hcolumn : cursor.column ≠ 0)
    (hrest : cursor.rest = List.replicate (n + 1) ' ' ++ tail) (htail : NoGapAhead tail) :
    scanQuoted double (budget + 1) cursor =
      (scanQuoted double budget (cursor.skip (n + 1))).map fun read =>
        (List.replicate (n + 1) ' ' ++ read.1, read.2) := by
  have hscan : Fold.scan none cursor.rest.length .none cursor = _ :=
    Fold.scan_spaces hrest htail (by simp [hrest])
  have hcons : cursor.rest = ' ' :: (List.replicate n ' ' ++ tail) := by
    rw [hrest, List.replicate_succ, List.cons_append]
  have hgap : isGap ' ' = true := rfl
  rw [scanQuoted, Cursor.atDocumentIndicator_of_column hcolumn]
  simp only [Bool.false_eq_true, if_false]
  split
  · rename_i hnil
    rw [hcons] at hnil
    contradiction
  · rename_i c rest hc
    obtain rfl : ' ' = c := (List.cons.inj (hcons.symm.trans hc)).1
    simp only [hgap, if_true, hscan]
    simp [Fold.text, Fold.none]

theorem quoteMark_noGapAhead (tail : List Char) : NoGapAhead (quoteMark double :: tail) := by
  intro c hc
  obtain rfl : quoteMark double = c := by simpa using hc
  cases double <;> rfl

/-- A quoted scalar is read as the text that was written, if each of its characters is. -/
theorem scanQuoted_flatMap {write : Char → List Char} {text : List Char}
    (hspace : write ' ' = [' ']) (hwrite : ∀ c ∈ text, c ≠ ' ' → ReadsAs double c (write c))
    (hcolumn : cursor.column ≠ 0)
    (hrest : cursor.rest = text.flatMap write ++ quoteMark double :: tail)
    (htail : tail.head? ≠ some '\'') (hbudget : text.length < budget) :
    scanQuoted double budget cursor =
      some (text, cursor.skip ((text.flatMap write).length + 1)) := by
  induction hlength : text.length using Nat.strong_induction_on
    generalizing text cursor budget with
  | _ length ih =>
    obtain ⟨budget, rfl⟩ : ∃ more, budget = more + 1 := ⟨budget - 1, by omega⟩
    obtain ⟨spaces, rest, rfl, hspaces, hhead⟩ := exists_front (· == ' ') text
    have hreplicate : spaces = List.replicate spaces.length ' ' :=
      List.eq_replicate_iff.mpr ⟨rfl, fun c hc => by simpa using hspaces c hc⟩
    have hwritten : spaces.flatMap write = spaces := by
      rw [hreplicate, List.flatMap_replicate, hspace, List.flatten_replicate_singleton]
    rw [List.flatMap_append, hwritten, List.append_assoc] at hrest
    have hnext : NoGapAhead (rest.flatMap write ++ quoteMark double :: tail) := by
      cases rest with
      | nil => exact quoteMark_noGapAhead tail
      | cons c others =>
        have hc : c ≠ ' ' := by simpa using hhead c rfl
        rw [List.flatMap_cons, List.append_assoc]
        exact (hwrite c (by simp) hc).noGapAhead _
    cases hcount : spaces.length with
    | succ n =>
      rw [hreplicate, hcount] at hrest
      have hskip := Cursor.rest_skip hrest
      rw [List.length_replicate] at hskip
      have hrec : scanQuoted double budget (cursor.skip (n + 1)) =
          some (rest, (cursor.skip (n + 1)).skip ((rest.flatMap write).length + 1)) :=
        ih rest.length (by simp [← hlength, hcount]) (fun c hc => hwrite c (by simp [hc]))
          (Nat.succ_ne_zero _) hskip (by simp [hcount] at hbudget; omega) rfl
      rw [scanQuoted_spaces hcolumn hrest hnext, hrec, Option.map_some, Cursor.skip_skip,
        List.flatMap_append, hwritten, ← hcount, ← hreplicate, List.length_append, Nat.add_assoc]
    | zero =>
      obtain rfl : spaces = [] := List.length_eq_zero_iff.mp hcount
      cases rest with
      | nil => exact scanQuoted_close hcolumn hrest htail
      | cons c others =>
        have hc : c ≠ ' ' := by simpa using hhead c rfl
        have hread := hwrite c (by simp) hc
        rw [List.nil_append, List.flatMap_cons, List.append_assoc] at hrest
        have hcolumn' : (cursor.skip (write c).length).column ≠ 0 := by
          simp [Cursor.skip, hcolumn]
        have hrec : scanQuoted double budget (cursor.skip (write c).length) =
            some (others, (cursor.skip (write c).length).skip
              ((others.flatMap write).length + 1)) :=
          ih others.length (by simp [← hlength]) (fun d hd => hwrite d (by simp [hd])) hcolumn'
            (Cursor.rest_skip hrest) (by simp at hbudget; omega) rfl
        rw [hread.read hcolumn hrest, hrec, Option.map_some, Cursor.skip_skip, List.nil_append,
          List.flatMap_cons, List.length_append, Nat.add_assoc]

end Quoted

end CollisionRules.Yaml
