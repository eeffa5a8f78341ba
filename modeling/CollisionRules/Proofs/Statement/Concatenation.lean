import CollisionRules.Proofs.Statement.Isolation
import CollisionRules.Proofs.Statement.Relocation

namespace CollisionRules

def Position.down (lines : Nat) (position : Position) : Position :=
  { position with line := position.line + lines }

def Token.down (lines : Nat) (token : Token) : Token :=
  { token with position := token.position.down lines }

def Operand.down (lines : Nat) (operand : Operand) : Operand :=
  { operand with position := operand.position.down lines }

def GroupDeclaration.down (lines : Nat) (declaration : GroupDeclaration) : GroupDeclaration :=
  { declaration with
    members := declaration.members.map (Operand.down lines)
    position := declaration.position.down lines }

def CollisionDeclaration.down (lines : Nat) (declaration : CollisionDeclaration) :
    CollisionDeclaration :=
  { declaration with
    left := declaration.left.down lines
    right := declaration.right.down lines }

/-- The statement as it is read further down in a source. -/
def Statement.down (lines : Nat) : Statement → Statement
  | .empty => .empty
  | .group declaration => .group (declaration.down lines)
  | .collision declaration => .collision (declaration.down lines)

def ParseError.down (lines : Nat) (error : ParseError) : ParseError :=
  { error with position := error.position.down lines }

theorem Token.relocates_down (lines : Nat) : Relocates (Position.down lines) (down lines) :=
  ⟨fun _ => rfl, fun _ _ => rfl, fun _ => rfl⟩

theorem Statement.relocate_down (lines : Nat) :
    relocate (Position.down lines) = Statement.down lines := by
  funext statement
  cases statement <;> rfl

/-- The tokens of a line further down are those of the line, further down. -/
theorem Token.ofLine_add (number lines column : Nat) (text : List Char) :
    ofLine (number + lines) column text = (ofLine number column text).map (down lines) := by
  fun_induction ofLine number column text with
  | case1 column => simp [ofLine, endOfLine, down, Position.down]
  | case2 column c rest hhash => simp [ofLine, hhash, endOfLine, down, Position.down]
  | case3 column c rest kind hnothash hspecial ih =>
    rw [ofLine_special hspecial fun hkind => hnothash hkind, List.map_cons, ← ih]
    rfl
  | case4 column c rest hspecial hseparator ih => simp [ofLine, hspecial, hseparator, ih]
  | case5 column c rest hspecial hseparator word ih =>
    rw [ofLine, hspecial, List.map_cons, ← ih]
    simp [hseparator, down, Position.down, word]

namespace Parser

/-- What a line says as it is read further down in a source. -/
def outcomeDown (lines : Nat) : Except ParseError Statement → Except ParseError Statement
  | .ok statement => .ok (statement.down lines)
  | .error error => .error (error.down lines)

/-- A line says the same wherever it stands. -/
theorem outcome_add (number lines : Nat) (content : List Char) :
    outcome (number + lines) content = outcomeDown lines (outcome number content) := by
  have hline := TokenReader.Commutes.line (Token.relocates_down lines)
    (Token.ofLine number 1 content)
  rw [Statement.relocate_down, ← Token.ofLine_add] at hline
  obtain ⟨read, hok, hread⟩ | ⟨expected, token, others, _, herror, hread⟩ :=
    line_of_outcome number content
  · have hhere := hread []
    rw [List.append_nil] at hhere
    rw [hhere] at hline
    rw [hok, outcome, line, ofTokens, hline]
    rfl
  · have hhere := (hread []).2
    rw [List.append_nil, List.append_nil] at hhere
    rw [hhere] at hline
    rw [herror, outcome, line, ofTokens, hline]
    rfl

/-- Lines further down say the same there. -/
theorem outcomes_add (linesRead lines : Nat) (texts : List (List Char)) :
    outcomes (linesRead + lines) texts = (outcomes linesRead texts).map (outcomeDown lines) := by
  induction texts generalizing linesRead with
  | nil => rfl
  | cons text rest ih =>
    have hcount : linesRead + lines + 1 = linesRead + 1 + lines := by omega
    rw [outcomes_cons, outcomes_cons, hcount, outcome_add, ih, List.map_cons]

/-- The lines of two parts are numbered on from one to the other. -/
theorem outcomes_append (linesRead : Nat) (front back : List (List Char)) :
    outcomes linesRead (front ++ back) =
      outcomes linesRead front ++ outcomes (linesRead + front.length) back := by
  have hcount : linesRead + 1 + front.length = linesRead + front.length + 1 := by omega
  simp only [outcomes, List.zipIdx_append, List.map_append, hcount]

theorem length_outcomes (linesRead : Nat) (texts : List (List Char)) :
    (outcomes linesRead texts).length = texts.length := by
  simp [outcomes]

end Parser

namespace Parsed

/-- What is kept of lines further down is what is kept of them, moved down. -/
theorem ofOutcomes_map_down (lines : Nat) (outcomes : List (Except ParseError Statement)) :
    ofOutcomes (outcomes.map (Parser.outcomeDown lines)) =
      ⟨(ofOutcomes outcomes).statements.map (Statement.down lines),
        (ofOutcomes outcomes).errors.map (ParseError.down lines)⟩ := by
  induction outcomes with
  | nil => rfl
  | cons outcome rest ih =>
    rw [List.map_cons, ofOutcomes_cons, ofOutcomes_cons, ih]
    cases outcome <;> rfl

/-- A text behind one that is empty or ends in a line feed says what it says alone, further
    down. -/
theorem ofText_append {front : List Char} (hfront : front = [] ∨ front.getLast? = some '\n')
    (back : List Char) :
    let count := (Text.lines front).length
    ofText (front ++ back) =
      ⟨(ofText front).statements ++ (ofText back).statements.map (Statement.down count),
        (ofText front).errors ++ (ofText back).errors.map (ParseError.down count)⟩ := by
  intro count
  have hcount : 0 + (Text.lines front).length = 0 + count := rfl
  simp only [ofText_eq_ofOutcomes, Text.lines_append hfront, Parser.outcomes_append, hcount,
    Parser.outcomes_add, ofOutcomes_append, ofOutcomes_map_down]

/-- A text that is empty or ends in a line feed can have another put behind it: the whole
    says what the first says, and then what the second says, as many lines further down as
    the first has. Moreover each physical line of a text has one outcome, which is what the
    line says by itself: a statement if it is accepted, and an error if it is refused. So
    there are as many statements and errors together as there are lines, and the errors are
    of increasing lines. -/
theorem ofText_reads_lines :
    (∀ front back : List Char, front = [] ∨ front.getLast? = some '\n' →
      let count := (Text.lines front).length
      let whole := ofText (front ++ back)
      whole.statements =
          (ofText front).statements ++ (ofText back).statements.map (Statement.down count) ∧
        whole.errors = (ofText front).errors ++ (ofText back).errors.map (ParseError.down count)) ∧
    ∀ text : List Char,
      let parsed := ofText text
      parsed = ofOutcomes (((Text.lines text).zipIdx 1).map fun entry =>
          (Parser.ofTokens (Token.ofLine entry.2 1 entry.1)).line.1) ∧
        parsed.statements.length + parsed.errors.length = (Text.lines text).length ∧
        (parsed.errors.map fun error => error.position.line).Pairwise (· < ·) := by
  refine ⟨fun front back hfront => ?_, fun text => ?_⟩
  · intro count whole
    have hwhole : whole = _ := ofText_append hfront back
    exact ⟨congrArg statements hwhole, congrArg errors hwhole⟩
  · intro parsed
    have hparsed : parsed = ofOutcomes (Parser.outcomes 0 (Text.lines text)) :=
      ofText_eq_ofOutcomes text
    refine ⟨hparsed, ?_, ?_⟩
    · rw [hparsed, length_ofOutcomes, Parser.length_outcomes]
    · rw [hparsed, List.pairwise_map]
      exact pairwise_errors_outcomes 0 (Text.lines text)

/-- The second operand of the first line is missing; the second line is read all the same. -/
theorem ofText_reads_lines_missing_operand :
    let front := ['A', '>', '\n']
    let back := ['B', '~', 'C']
    let whole := ofText (front ++ back)
    front.getLast? = some '\n' ∧
      whole.statements =
        [.collision ⟨⟨.ability, "B", ⟨2, 1⟩⟩, .tilde, ⟨.ability, "C", ⟨2, 3⟩⟩⟩] ∧
      whole.errors = [⟨.literal, .endOfLine, ⟨1, 3⟩⟩] := by
  intro front back whole
  have hlast : front.getLast? = some '\n' := rfl
  have hfront : ofText front = ⟨[], [⟨.literal, .endOfLine, ⟨1, 3⟩⟩]⟩ := by decide +kernel
  have hback : ofText back =
      ⟨[.collision ⟨⟨.ability, "B", ⟨1, 1⟩⟩, .tilde, ⟨.ability, "C", ⟨1, 3⟩⟩⟩], []⟩ := by
    decide +kernel
  obtain ⟨hconcatenation, _⟩ := ofText_reads_lines
  obtain ⟨hstatements, herrors⟩ := hconcatenation front back (.inr hlast)
  rw [hfront, hback] at hstatements herrors
  exact ⟨hlast, hstatements, herrors⟩

end Parsed

end CollisionRules
