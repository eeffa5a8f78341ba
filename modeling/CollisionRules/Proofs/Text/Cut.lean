import CollisionRules.Text.Lines
import Mathlib.Data.List.DropRight
import Mathlib.Data.List.TakeWhile

namespace CollisionRules.Text

variable {α : Type}

/-- What a predicate holds of, and then what begins with something it does not hold of. -/
theorem takeWhile_append_of_head? {p : α → Bool} {front rest : List α} (hfront : ∀ a ∈ front, p a)
    (hrest : ∀ a, rest.head? = some a → p a = false) :
    (front ++ rest).takeWhile p = front ∧ (front ++ rest).dropWhile p = rest := by
  rw [List.takeWhile_append_of_pos hfront, List.dropWhile_append_of_pos hfront]
  cases rest with
  | nil => simp
  | cons a others => simp [hrest a rfl]

theorem cut_cons_of_ends (ends : α → Bool) {a : α} (hends : ends a = true) (rest : List α) :
    cut ends (a :: rest) = ([] :: (cut ends rest).1, (cut ends rest).2) := by
  simp [cut, hends]

theorem cut_cons_of_nil (ends : α → Bool) {a : α} (hends : ends a = false) {rest : List α}
    (hrest : (cut ends rest).1 = []) : cut ends (a :: rest) = ([], a :: (cut ends rest).2) := by
  obtain ⟨remainder, hcut⟩ : ∃ remainder, cut ends rest = ([], remainder) := ⟨_, Prod.ext hrest rfl⟩
  simp [cut, hends, hcut]

theorem cut_cons_of_cons (ends : α → Bool) {a : α} (hends : ends a = false) {rest : List α}
    {piece : List α} {pieces : List (List α)} (hrest : (cut ends rest).1 = piece :: pieces) :
    cut ends (a :: rest) = ((a :: piece) :: pieces, (cut ends rest).2) := by
  obtain ⟨remainder, hcut⟩ : ∃ remainder, cut ends rest = (piece :: pieces, remainder) :=
    ⟨_, Prod.ext hrest rfl⟩
  simp [cut, hends, hcut]

/-- A sequence in two parts: the first is cut, and what remains of it is cut together
    with the second. -/
theorem cut_append (ends : α → Bool) (front back : List α) :
    cut ends (front ++ back) =
      ((cut ends front).1 ++ (cut ends ((cut ends front).2 ++ back)).1,
        (cut ends ((cut ends front).2 ++ back)).2) := by
  induction front with
  | nil => simp [cut]
  | cons a rest ih =>
    rw [List.cons_append]
    cases hends : ends a with
    | true => simp [cut_cons_of_ends ends hends, ih]
    | false =>
      cases hrest : (cut ends rest).1 with
      | nil =>
        have hback : cut ends (rest ++ back) = cut ends ((cut ends rest).2 ++ back) := by
          rw [ih, hrest, List.nil_append]
        rw [cut_cons_of_nil ends hends hrest, List.cons_append]
        simp [cut, hends, hback]
      | cons piece pieces =>
        have hfront : (cut ends (rest ++ back)).1 =
            piece :: (pieces ++ (cut ends ((cut ends rest).2 ++ back)).1) := by
          rw [ih, hrest, List.cons_append]
        rw [cut_cons_of_cons ends hends hrest, cut_cons_of_cons ends hends hfront, ih]
        rfl

/-- Pieces with the mark after each, and then a remainder. -/
def joined (mark : α) (pieces : List (List α)) (remainder : List α) : List α :=
  pieces.flatMap (fun piece => piece ++ [mark]) ++ remainder

theorem joined_cons (mark : α) (piece : List α) (pieces : List (List α)) (remainder : List α) :
    joined mark (piece :: pieces) remainder = piece ++ mark :: joined mark pieces remainder := by
  simp [joined]

/-- A sequence of pieces ends in the mark when nothing remains after the last piece. -/
theorem getLast?_joined_eq_mark_iff {mark : α} {pieces : List (List α)} {remainder : List α}
    (hremainder : mark ∉ remainder) :
    (joined mark pieces remainder).getLast? = some mark ↔ pieces ≠ [] ∧ remainder = [] := by
  rcases List.eq_nil_or_concat' remainder with rfl | ⟨front, last, rfl⟩
  · rcases List.eq_nil_or_concat' pieces with rfl | ⟨others, piece, rfl⟩
    · simp [joined]
    · simp [joined]
  · have hne : last ≠ mark := by
      rintro rfl
      exact hremainder (by simp)
    simp [joined, hne]

/-- The sequence up to and including its last mark is all of it but the remainder. -/
theorem rdropWhile_joined [BEq α] [LawfulBEq α] {mark : α} (pieces : List (List α))
    {remainder : List α} (hremainder : mark ∉ remainder) :
    (joined mark pieces remainder).rdropWhile (· != mark) = joined mark pieces [] := by
  induction remainder using List.reverseRecOn with
  | nil =>
    rcases List.eq_nil_or_concat' pieces with rfl | ⟨others, piece, rfl⟩
    · rfl
    · have hsplit : joined mark (others ++ [piece]) [] =
          (joined mark others [] ++ piece) ++ [mark] := by simp [joined]
      rw [hsplit, List.rdropWhile_concat_neg _ _ _ (by simp)]
  | append_singleton front last ih =>
    have hne : last ≠ mark := by
      rintro rfl
      exact hremainder (by simp)
    have hsplit : joined mark pieces (front ++ [last]) = joined mark pieces front ++ [last] := by
      simp [joined]
    rw [hsplit, List.rdropWhile_concat_pos _ _ _ (by simpa using hne)]
    exact ih fun hmem => hremainder (by simp [hmem])

/-- There is one mark for each piece. -/
theorem count_joined [BEq α] [LawfulBEq α] {mark : α} {pieces : List (List α)} {remainder : List α}
    (hpieces : ∀ piece ∈ pieces, mark ∉ piece) (hremainder : mark ∉ remainder) :
    (joined mark pieces remainder).count mark = pieces.length := by
  induction pieces with
  | nil => simpa [joined, List.count_eq_zero] using hremainder
  | cons piece rest ih =>
    have hpiece : piece.count mark = 0 :=
      List.count_eq_zero.mpr (hpieces piece List.mem_cons_self)
    have hrest := ih fun other hother => hpieces other (List.mem_cons_of_mem _ hother)
    rw [joined_cons, List.count_append, List.count_cons_self, hpiece, hrest, List.length_cons]
    omega

section Mark

variable [BEq α] [LawfulBEq α] {mark : α}

/-- Nothing is cut off a sequence without the mark. -/
theorem cut_of_not_mem {sequence : List α} (hmark : mark ∉ sequence) :
    cut (· == mark) sequence = ([], sequence) := by
  induction sequence with
  | nil => rfl
  | cons a rest ih =>
    obtain ⟨hne, hrest⟩ := List.ne_and_not_mem_of_not_mem_cons hmark
    have hcut := ih hrest
    rw [cut_cons_of_nil (· == mark) (beq_false_of_ne hne.symm) (by rw [hcut]), hcut]

/-- The first mark ends the first piece, and the rest is cut by itself. -/
theorem cut_append_mark {piece : List α} (hpiece : mark ∉ piece) (rest : List α) :
    cut (· == mark) (piece ++ mark :: rest) =
      (piece :: (cut (· == mark) rest).1, (cut (· == mark) rest).2) := by
  induction piece with
  | nil => exact cut_cons_of_ends (· == mark) (beq_self_eq_true mark) rest
  | cons a others ih =>
    obtain ⟨hne, hothers⟩ := List.ne_and_not_mem_of_not_mem_cons hpiece
    have hcut := ih hothers
    rw [List.cons_append, cut_cons_of_cons (· == mark) (beq_false_of_ne hne.symm) (by rw [hcut]), hcut]

/-- Pieces that are free of the mark are found again. -/
theorem cut_joined {pieces : List (List α)} {remainder : List α}
    (hpieces : ∀ piece ∈ pieces, mark ∉ piece) (hremainder : mark ∉ remainder) :
    cut (· == mark) (joined mark pieces remainder) = (pieces, remainder) := by
  induction pieces with
  | nil => exact cut_of_not_mem hremainder
  | cons piece others ih =>
    have hcut := ih fun other hother => hpieces other (List.mem_cons_of_mem _ hother)
    rw [joined_cons, cut_append_mark (hpieces piece List.mem_cons_self), hcut]

/-- Nothing is lost by cutting, and the pieces and the remainder are free of the mark. -/
theorem cut_spec (mark : α) (sequence : List α) :
    joined mark (cut (· == mark) sequence).1 (cut (· == mark) sequence).2 = sequence ∧
      (∀ piece ∈ (cut (· == mark) sequence).1, mark ∉ piece) ∧
      mark ∉ (cut (· == mark) sequence).2 := by
  induction sequence with
  | nil => simp [cut, joined]
  | cons a rest ih =>
    obtain ⟨hjoined, hpieces, hremainder⟩ := ih
    by_cases ha : a = mark
    · subst a
      rw [cut_cons_of_ends (· == mark) (beq_self_eq_true mark), joined_cons, hjoined]
      exact ⟨rfl, by simpa using hpieces, hremainder⟩
    · have hends : (a == mark) = false := beq_false_of_ne ha
      cases hrest : (cut (· == mark) rest).1 with
      | nil =>
        rw [hrest] at hjoined
        rw [cut_cons_of_nil (· == mark) hends hrest]
        refine ⟨?_, by simp, by simp [Ne.symm ha, hremainder]⟩
        simpa [joined] using hjoined
      | cons piece pieces =>
        rw [hrest] at hjoined hpieces
        rw [cut_cons_of_cons (· == mark) hends hrest, joined_cons, List.cons_append, ← joined_cons,
          hjoined]
        refine ⟨rfl, ?_, hremainder⟩
        intro other hother
        rcases List.mem_cons.mp hother with rfl | hother
        · simpa [Ne.symm ha] using hpieces piece List.mem_cons_self
        · exact hpieces other (List.mem_cons_of_mem _ hother)

/-- Nothing remains of a sequence that is empty or ends in the mark. -/
theorem cut_remainder_eq_nil {sequence : List α}
    (hsequence : sequence = [] ∨ sequence.getLast? = some mark) :
    (cut (· == mark) sequence).2 = [] := by
  obtain ⟨hjoined, _, hremainder⟩ := cut_spec mark sequence
  rcases hsequence with rfl | hlast
  · rfl
  · rw [← hjoined] at hlast
    exact ((getLast?_joined_eq_mark_iff hremainder).mp hlast).2

end Mark

/-- The sequence without a final mark, when it has one. -/
theorem dropFinal_concat [BEq α] [LawfulBEq α] (mark : α) (sequence : List α) :
    dropFinal mark (sequence ++ [mark]) = sequence := by
  simp [dropFinal]

theorem dropFinal_of_getLast?_ne [BEq α] [LawfulBEq α] {mark : α} {sequence : List α}
    (hlast : sequence.getLast? ≠ some mark) : dropFinal mark sequence = sequence := by
  simp [dropFinal, hlast]

/-- The lines of a text that is empty or ends in a line feed are not touched by what is put
    behind it. -/
theorem lines_append {front : List Char} (hfront : front = [] ∨ front.getLast? = some '\n')
    (back : List Char) : lines (front ++ back) = lines front ++ lines back := by
  have hremainder := cut_remainder_eq_nil hfront
  simp [lines, cut_append, hremainder]

/-- Pieces that each end in a line feed are the lines of their text. -/
theorem lines_joined {pieces : List (List Char)}
    (hpieces : ∀ piece ∈ pieces, '\n' ∉ piece ∧ piece.getLast? ≠ some '\r') :
    lines (joined '\n' pieces []) = pieces := by
  have hcut := cut_joined (fun piece hpiece => (hpieces piece hpiece).1) (List.not_mem_nil (a := '\n'))
  have hkept : ∀ piece ∈ pieces, dropFinal '\r' piece = piece :=
    fun piece hpiece => if_neg (by simpa using (hpieces piece hpiece).2)
  simp [lines, hcut, List.map_congr_left hkept]

end CollisionRules.Text
