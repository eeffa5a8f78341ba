import CollisionRules.Statement.Sequence

namespace CollisionRules

namespace TokenReader

variable {α β : Type}

/-- A reader that does with the tokens before an end of input what it does with them
    alone, and leaves the end of input and all that follows it. -/
def StopsAtEnd (reader : TokenReader α) : Prop :=
  ∀ (front : List Token) (finish : Token) (tail : List Token), finish.kind = .endOfInput →
    reader (front ++ finish :: tail) = ((reader front).1, (reader front).2 ++ finish :: tail)

theorem frontKind_append {finish : Token} (hfinish : finish.kind = .endOfInput)
    (front tail : List Token) : frontKind (front ++ finish :: tail) = frontKind front := by
  cases front with
  | nil => exact hfinish
  | cons token rest => rfl

/-- Skipping a token does not pass an end of input, whatever stands behind it. -/
theorem skip_append {finish : Token} (hfinish : finish.kind = .endOfInput)
    (front tail : List Token) : skip (front ++ finish :: tail) = skip front ++ finish :: tail := by
  cases front with
  | nil => simp [skip, hfinish]
  | cons token rest =>
    by_cases hend : token.kind = .endOfInput
    · simp [skip, hend]
    · simp [skip, hend]

/-- Recovery stops at an end of input, whatever stands behind it. -/
theorem recover_append {finish : Token} (hfinish : finish.kind = .endOfInput)
    (front tail : List Token) :
    recover (front ++ finish :: tail) = recover front ++ finish :: tail := by
  induction front with
  | nil => simp [recover, hfinish]
  | cons token rest ih =>
    rw [List.cons_append, recover, recover]
    split
    · rfl
    · rfl
    · exact ih

/-- How operands are read, without the proof that the loop ends. -/
theorem operands_apply (tokens : List Token) :
    operands tokens =
      match operand tokens with
      | (.error expected, rest) => (.error expected, rest)
      | (.ok first, []) => (.ok [first], [])
      | (.ok first, token :: rest) =>
        if token.kind = .comma then
          match operands rest with
          | (.ok others, final) => (.ok (first :: others), final)
          | (.error expected, final) => (.error expected, final)
        else (.ok [first], token :: rest) := by
  rw [operands]
  split
  · next h => rw [h]
  · next h => rw [h]
  · next h =>
    generalize operand tokens = read at h ⊢
    subst h
    rfl

/-- A group declaration whose keyword stands at `start`. -/
def groupFrom (start : Position) : TokenReader GroupDeclaration := do
  expect .groupKeyword .keyword
  expect .quote .openingQuote
  let name ← literal
  expect .quote .closingQuote
  expect .openBrace .openBrace
  let members ← members
  expect .closeBrace .closeBrace
  return ⟨name.text, members, start⟩

theorem group_eq_bind : group = position >>= groupFrom :=
  rfl

namespace StopsAtEnd

theorem pure (a : α) : StopsAtEnd (pure a : TokenReader α) :=
  fun _ _ _ _ => rfl

theorem fail (expected : Expectation) : StopsAtEnd (fail expected : TokenReader α) :=
  fun _ _ _ _ => rfl

/-- Readers that stop at the end of input may follow one another. -/
theorem bind {reader : TokenReader α} {next : α → TokenReader β} (hreader : StopsAtEnd reader)
    (hnext : ∀ a, StopsAtEnd (next a)) : StopsAtEnd (reader >>= next) := by
  intro front finish tail hfinish
  rw [bind_apply, bind_apply, hreader front finish tail hfinish]
  cases hrun : reader front with
  | mk result rest =>
    cases result with
    | ok a => exact hnext a rest finish tail hfinish
    | error expected => rfl

theorem peek : StopsAtEnd peek := by
  intro front finish tail hfinish
  simp [TokenReader.peek, frontKind_append hfinish]

theorem advance : StopsAtEnd advance := by
  intro front finish tail hfinish
  simp [TokenReader.advance, skip_append hfinish]

theorem accept (kind : TokenKind) : StopsAtEnd (accept kind) := by
  intro front finish tail hfinish
  simp only [TokenReader.accept, frontKind_append hfinish, skip_append hfinish]
  split <;> rfl

theorem expect (kind : TokenKind) (expected : Expectation) : StopsAtEnd (expect kind expected) := by
  intro front finish tail hfinish
  simp only [TokenReader.expect, frontKind_append hfinish, skip_append hfinish]
  split <;> rfl

/-- A literal is no end of input. -/
theorem literal : StopsAtEnd literal := by
  intro front finish tail hfinish
  cases front with
  | nil => simp [TokenReader.literal, hfinish]
  | cons token rest =>
    by_cases hkind : token.kind = .literal
    · simp [TokenReader.literal, hkind]
    · simp [TokenReader.literal, hkind]

/-- An operand ends before the end of input. -/
theorem operand : StopsAtEnd operand :=
  (accept _).bind fun _ => literal.bind fun _ => .pure _

/-- By induction on the tokens before the end: each further operand takes some of them. -/
theorem operands : StopsAtEnd operands := by
  intro front finish tail hfinish
  fun_induction TokenReader.operands front with
  | case1 front expected rest h =>
    have happend := operand front finish tail hfinish
    rw [operands_apply, happend, h]
  | case2 front first h =>
    have happend := operand front finish tail hfinish
    rw [operands_apply, happend, h]
    simp [hfinish]
  | case3 front first token rest h hcomma others final hrest ih =>
    have happend := operand front finish tail hfinish
    rw [operands_apply, happend, h]
    simp [hcomma, ih, hrest]
  | case4 front first token rest h hcomma expected final hrest ih =>
    have happend := operand front finish tail hfinish
    rw [operands_apply, happend, h]
    simp [hcomma, ih, hrest]
  | case5 front first token rest h hcomma =>
    have happend := operand front finish tail hfinish
    rw [operands_apply, happend, h]
    simp [hcomma]

theorem members : StopsAtEnd members := by
  intro front finish tail hfinish
  simp only [TokenReader.members, frontKind_append hfinish, operands front finish tail hfinish]
  split <;> rfl

theorem groupFrom (start : Position) : StopsAtEnd (groupFrom start) :=
  (expect _ _).bind fun _ => (expect _ _).bind fun _ => literal.bind fun _ =>
    (expect _ _).bind fun _ => (expect _ _).bind fun _ => members.bind fun _ =>
      (expect _ _).bind fun _ => .pure _

/-- Where no token is left there is no position to give, but then the keyword is missing
    in any case. -/
theorem group : StopsAtEnd group := by
  intro front finish tail hfinish
  rw [group_eq_bind]
  cases front with
  | nil =>
    have hkeyword : finish.kind ≠ .groupKeyword := by simp [hfinish]
    simp [bind_apply, position, TokenReader.groupFrom, TokenReader.expect, frontKind, hkeyword]
  | cons token rest => exact groupFrom token.position (token :: rest) finish tail hfinish

theorem operator : StopsAtEnd operator := by
  intro front finish tail hfinish
  simp only [TokenReader.operator, frontKind_append hfinish, skip_append hfinish]
  split <;> rfl

theorem collision : StopsAtEnd collision :=
  operand.bind fun _ => operator.bind fun _ => operand.bind fun _ => .pure _

theorem statement : StopsAtEnd statement :=
  peek.bind fun kind => by
    split
    · exact collision.bind fun _ => .pure _
    · exact collision.bind fun _ => .pure _
    · exact group.bind fun _ => .pure _
    · exact .fail _

theorem commentEnd : StopsAtEnd commentEnd :=
  (accept _).bind fun _ => .pure _

theorem lineEnd : StopsAtEnd lineEnd :=
  peek.bind fun kind => by
    split
    · exact advance
    · exact advance.bind fun _ => commentEnd
    · exact .pure _
    · exact .fail _

/-- A line is read up to the end of input at most. -/
theorem line : StopsAtEnd line :=
  peek.bind fun kind => by
    split
    · exact advance.bind fun _ => .pure _
    · exact advance.bind fun _ => commentEnd.bind fun _ => .pure _
    · exact .pure _
    · exact statement.bind fun _ => lineEnd.bind fun _ => .pure _

end StopsAtEnd

end TokenReader

namespace Parser

open TokenReader

/-- An error at the end of a slice is put where its end of input stands. -/
theorem errorAt_append {finish : Token} (hfinish : finish.kind = .endOfInput)
    (position : Position) (expected : Expectation) (rest tail : List Token) :
    errorAt position expected (rest ++ finish :: tail) = errorAt finish.position expected rest := by
  cases rest with
  | nil => simp [errorAt, frontKind, hfinish]
  | cons token rest => simp [errorAt, frontKind]

/-- At the end of input no line is left to read. -/
theorem linesOf_of_end {tokens : List Token} (hfront : frontKind tokens = .endOfInput)
    (position : Position) : linesOf position tokens = (⟨[], []⟩, tokens) := by
  rw [linesOf, dif_pos hfront]

/-- A line that is read well gives its statement, and the rest is read behind it. -/
theorem linesOf_of_ok {tokens rest : List Token} {statement : Statement}
    (hfront : frontKind tokens ≠ .endOfInput)
    (hline : TokenReader.line tokens = (.ok statement, rest)) (position : Position) :
    linesOf position tokens =
      (⟨statement :: (linesOf position rest).1.statements, (linesOf position rest).1.errors⟩,
        (linesOf position rest).2) := by
  rw [linesOf, dif_neg hfront]
  split
  · next heq =>
    rw [hline] at heq
    cases heq
    rfl
  · next heq =>
    rw [hline] at heq
    cases heq

/-- A line that is refused gives its error, and the rest is read behind the recovery from it. -/
theorem linesOf_of_error {tokens rest : List Token} {expected : Expectation}
    (hfront : frontKind tokens ≠ .endOfInput)
    (hline : TokenReader.line tokens = (.error expected, rest)) (position : Position) :
    linesOf position tokens =
      (⟨(linesOf position (recover rest)).1.statements,
        errorAt position expected rest :: (linesOf position (recover rest)).1.errors⟩,
        (linesOf position (recover rest)).2) := by
  rw [linesOf, dif_neg hfront]
  split
  · next heq =>
    rw [hline] at heq
    cases heq
  · next heq =>
    rw [hline] at heq
    cases heq
    rfl

/-- Tokens before an end of input are read as they would be if the end were missing and
    taken to stand where it does. -/
theorem linesOf_append {finish : Token} (hfinish : finish.kind = .endOfInput)
    (position : Position) (front tail : List Token) :
    linesOf position (front ++ finish :: tail) =
      ((linesOf finish.position front).1, (linesOf finish.position front).2 ++ finish :: tail) := by
  fun_induction linesOf finish.position front with
  | case1 front hfront =>
    exact linesOf_of_end (by rw [frontKind_append hfinish, hfront]) position
  | case2 front hfront statement rest hline parsed final hrest ih =>
    have happend := StopsAtEnd.line front finish tail hfinish
    rw [hline] at happend
    rw [linesOf_of_ok (by rwa [frontKind_append hfinish]) happend, ih, hrest]
  | case3 front hfront expected rest hline parsed final hrest ih =>
    have happend := StopsAtEnd.line front finish tail hfinish
    rw [hline] at happend
    rw [linesOf_of_error (by rwa [frontKind_append hfinish]) happend, recover_append hfinish,
      errorAt_append hfinish, ih, hrest]

end Parser

end CollisionRules
