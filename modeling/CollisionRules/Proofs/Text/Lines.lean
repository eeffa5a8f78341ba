import CollisionRules.Proofs.Text.Cut

namespace CollisionRules.Text

/-- A text that is made up of physical lines, each with its end: a line feed, or a carriage return
    and a line feed, which take a carriage return that stands before them away from the line. The
    last line may stand without an end, unless it is empty, and then keeps what it has. -/
inductive HasLines : List Char → List (List Char) → Prop
  | nil : HasLines [] []
  | unended {line : List Char} (hne : line ≠ []) (hfeed : '\n' ∉ line) : HasLines line [line]
  | feed {line text : List Char} {lines : List (List Char)} (hfeed : '\n' ∉ line)
      (hreturn : line.getLast? ≠ some '\r') (hrest : HasLines text lines) :
      HasLines (line ++ '\n' :: text) (line :: lines)
  | returnFeed {line text : List Char} {lines : List (List Char)} (hfeed : '\n' ∉ line)
      (hrest : HasLines text lines) : HasLines (line ++ '\r' :: '\n' :: text) (line :: lines)

/-- A line feed ends the first line, whatever follows it. -/
theorem lines_append_feed {piece : List Char} (hpiece : '\n' ∉ piece) (text : List Char) :
    lines (piece ++ '\n' :: text) = dropFinal '\r' piece :: lines text := by
  simp [lines, cut_append_mark hpiece]

/-- A text without a line feed is one line, or none if it is empty. -/
theorem lines_of_not_mem {text : List Char} (hfeed : '\n' ∉ text) :
    lines text = if text.isEmpty then [] else [text] := by
  simp [lines, cut_of_not_mem hfeed]

/-- No text has lines other than those that it is cut into. -/
theorem HasLines.eq_lines {text : List Char} {found : List (List Char)}
    (hlines : HasLines text found) : found = lines text := by
  induction hlines with
  | nil => rfl
  | @unended line hne hfeed =>
    rw [lines_of_not_mem hfeed, if_neg (by simpa using hne)]
  | @feed line text rest hfeed hreturn hrest ih =>
    rw [lines_append_feed hfeed, dropFinal_of_getLast?_ne hreturn, ih]
  | @returnFeed line text rest hfeed hrest ih =>
    have hpiece : '\n' ∉ line ++ ['\r'] := by simpa using hfeed
    have hsplit : line ++ '\r' :: '\n' :: text = (line ++ ['\r']) ++ '\n' :: text := by simp
    rw [hsplit, lines_append_feed hpiece, dropFinal_concat, ih]

/-- Pieces that each end in a line feed, and a remainder, have the lines that they are cut into. -/
theorem hasLines_joined {pieces : List (List Char)} {remainder : List Char}
    (hpieces : ∀ piece ∈ pieces, '\n' ∉ piece) (hremainder : '\n' ∉ remainder) :
    HasLines (joined '\n' pieces remainder) (lines (joined '\n' pieces remainder)) := by
  induction pieces with
  | nil =>
    rw [joined, List.flatMap_nil, List.nil_append, lines_of_not_mem hremainder]
    cases remainder with
    | nil => exact .nil
    | cons c rest => exact .unended (List.cons_ne_nil c rest) hremainder
  | cons piece others ih =>
    have hpiece := hpieces piece List.mem_cons_self
    have hrest := ih fun other hother => hpieces other (List.mem_cons_of_mem _ hother)
    rw [joined_cons, lines_append_feed hpiece]
    by_cases hreturn : piece.getLast? = some '\r'
    · obtain ⟨line, rfl⟩ := List.getLast?_eq_some_iff.mp hreturn
      have hfeed : '\n' ∉ line := fun hmem => hpiece (List.mem_append_left _ hmem)
      rw [dropFinal_concat, List.append_assoc]
      exact .returnFeed hfeed hrest
    · rw [dropFinal_of_getLast?_ne hreturn]
      exact .feed hpiece hreturn hrest

/-- Every text has the lines that it is cut into. -/
theorem hasLines_lines (text : List Char) : HasLines text (lines text) := by
  obtain ⟨hjoined, hpieces, hremainder⟩ := cut_spec '\n' text
  rw [← hjoined]
  exact hasLines_joined hpieces hremainder

/-- The lines of a text are told by its line feeds and the carriage returns before them. -/
theorem hasLines_iff {text : List Char} {found : List (List Char)} :
    HasLines text found ↔ found = lines text :=
  ⟨HasLines.eq_lines, fun h => h ▸ hasLines_lines text⟩

end CollisionRules.Text
