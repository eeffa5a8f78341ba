import CollisionRules.Token.Stream

namespace CollisionRules

/-- The last token of a line is its end. -/
theorem Token.getLast?_ofLine (line column : Nat) (text : List Char) :
    ∃ final, (Token.ofLine line column text).getLast? = some (.endOfLine ⟨line, final⟩) := by
  fun_induction Token.ofLine line column text with
  | case1 column => exact ⟨column, rfl⟩
  | case2 column => exact ⟨column + 1, rfl⟩
  | case3 column c rest kind _ _ ih =>
    obtain ⟨final, hfinal⟩ := ih
    exact ⟨final, by simp [List.getLast?_cons, hfinal]⟩
  | case4 column c rest _ _ ih => exact ih
  | case5 column c rest _ _ word ih =>
    obtain ⟨final, hfinal⟩ := ih
    exact ⟨final, by simp [List.getLast?_cons, hfinal]⟩

namespace LineSource

/-- The lines of a source before its end or its first failure. -/
def leadingLines : LineSource → List (List Char)
  | .line text :: rest => text :: leadingLines rest
  | .failed _ :: _ | .finished :: _ | [] => []

/-- The failure that a source breaks off with, if it comes before its end. -/
def failure? : LineSource → Option Failure
  | .line _ :: rest => failure? rest
  | .failed failure :: _ => some failure
  | .finished :: _ | [] => none

/-- Lines in front of a source are the first of its lines. -/
theorem leadingLines_append (texts : List (List Char)) (source : LineSource) :
    leadingLines (texts.map .line ++ source) = texts ++ leadingLines source := by
  induction texts with
  | nil => rfl
  | cons text rest ih => exact congrArg (text :: ·) ih

/-- Lines in front of a source do not break it off. -/
theorem failure?_append (texts : List (List Char)) (source : LineSource) :
    failure? (texts.map .line ++ source) = failure? source := by
  induction texts with
  | nil => rfl
  | cons text rest ih => exact ih

/-- A text has its physical lines for leading lines. -/
theorem leadingLines_ofText (text : List Char) : (ofText text).leadingLines = Text.lines text := by
  simpa [ofText, leadingLines] using leadingLines_append (Text.lines text) []

/-- A text does not break off. -/
theorem failure?_ofText (text : List Char) : (ofText text).failure? = none := by
  simpa [ofText, failure?] using failure?_append (Text.lines text) []

end LineSource

namespace Reading

/-- The tokens of lines that follow `linesRead` others. -/
def tokensOfLines (linesRead : Nat) : List (List Char) → List Token
  | [] => []
  | text :: rest => Token.ofLine (linesRead + 1) 1 text ++ tokensOfLines (linesRead + 1) rest

/-- Lines in front of a source give their tokens first, and the source is read on behind them. -/
theorem after_append (linesRead : Nat) (texts : List (List Char)) (source : LineSource) :
    after linesRead (texts.map .line ++ source) =
      ⟨tokensOfLines linesRead texts ++ (after (linesRead + texts.length) source).tokens,
        (after (linesRead + texts.length) source).truncation⟩ := by
  induction texts generalizing linesRead with
  | nil => rfl
  | cons text rest ih =>
    have hcount : linesRead + 1 + rest.length = linesRead + (rest.length + 1) := by omega
    simp only [List.map_cons, List.cons_append, after, ih, tokensOfLines, List.length_cons,
      List.append_assoc, hcount]

/-- A text is read to its end. -/
theorem ofText_eq (text : List Char) :
    ofText text =
      ⟨tokensOfLines 0 (Text.lines text) ++ [.endOfInput (Text.lines text).length], none⟩ := by
  have hafter := after_append 0 (Text.lines text) []
  simpa [ofText, ofSource, LineSource.ofText, after] using hafter

/-- Lines that end in a failure give their tokens and no end of input. -/
theorem ofSource_failed (texts : List (List Char)) (failure : Failure) (later : LineSource) :
    ofSource (texts.map .line ++ .failed failure :: later) =
      ⟨tokensOfLines 0 texts, some ⟨texts.length + 1, failure⟩⟩ := by
  simp [ofSource, after_append, after]

/-- Any source gives the tokens of its leading lines, and then either an end of input or a
    truncation on the line after them. -/
theorem after_eq (linesRead : Nat) (source : LineSource) :
    let count := linesRead + source.leadingLines.length
    after linesRead source =
      ⟨tokensOfLines linesRead source.leadingLines ++
          source.failure?.elim [.endOfInput count] fun _ => [],
        source.failure?.map fun failure => ⟨count + 1, failure⟩⟩ := by
  induction source generalizing linesRead with
  | nil => rfl
  | cons answer rest ih =>
    cases answer with
    | line text =>
      have hcount : linesRead + 1 + (LineSource.leadingLines rest).length =
          linesRead + ((LineSource.leadingLines rest).length + 1) := by omega
      simp only [after, ih, LineSource.leadingLines, LineSource.failure?, tokensOfLines,
        List.length_cons, List.append_assoc, hcount]
    | failed failure => rfl
    | finished => rfl

/-- The last token of several lines is the end of the last one. -/
theorem getLast?_tokensOfLines (linesRead : Nat) {texts : List (List Char)} (htexts : texts ≠ []) :
    ∃ final, (tokensOfLines linesRead texts).getLast? =
      some (.endOfLine ⟨linesRead + texts.length, final⟩) := by
  induction texts generalizing linesRead with
  | nil => contradiction
  | cons text rest ih =>
    by_cases hrest : rest = []
    · subst rest
      obtain ⟨final, hfinal⟩ := Token.getLast?_ofLine (linesRead + 1) 1 text
      exact ⟨final, by simpa [tokensOfLines] using hfinal⟩
    · obtain ⟨final, hfinal⟩ := ih (linesRead + 1) hrest
      have hcount : linesRead + 1 + rest.length = linesRead + (rest.length + 1) := by omega
      refine ⟨final, ?_⟩
      rw [tokensOfLines, List.getLast?_append, hfinal, List.length_cons, hcount]
      rfl

end Reading

end CollisionRules
