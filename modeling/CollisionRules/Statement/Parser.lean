import CollisionRules.Statement
import CollisionRules.Token.Reader

namespace CollisionRules.TokenReader

/-- `operand := [DOLLAR] LITERAL` -/
def operand : TokenReader Operand := do
  let isGroup ← accept .dollar
  let token ← literal
  return ⟨if isGroup then .group else .ability, token.text, token.position⟩

theorem consumes_operand : Consumes operand :=
  (consumes_accept _).bind fun _ => consumes_literal.bind fun _ => .pure _

theorem advances_operand : Advances operand :=
  (consumes_accept _).bind_advances fun _ => advances_literal.bind fun _ => .pure _

/-- `operand (COMMA operand)*` -/
def operands (tokens : List Token) : Except Expectation (List Operand) × List Token :=
  match _hfirst : operand tokens with
  | (.error expected, rest) => (.error expected, rest)
  | (.ok first, []) => (.ok [first], [])
  | (.ok first, token :: rest) =>
    if token.kind = .comma then
      match operands rest with
      | (.ok others, final) => (.ok (first :: others), final)
      | (.error expected, final) => (.error expected, final)
    else (.ok [first], token :: rest)
termination_by tokens.length
decreasing_by
  exact Nat.lt_of_succ_lt (advances_operand _ _ _ _hfirst)

theorem operands_suffix (tokens : List Token) : (operands tokens).2 <:+ tokens := by
  fun_induction operands tokens with
  | case1 tokens expected rest h => simpa [h] using consumes_operand tokens
  | case2 tokens first h => simp
  | case3 tokens first token rest h _ others final hrest ih =>
    have hfirst := consumes_operand tokens
    rw [h] at hfirst
    rw [hrest] at ih
    exact ih.trans ((List.suffix_cons _ _).trans hfirst)
  | case4 tokens first token rest h _ expected final hrest ih =>
    have hfirst := consumes_operand tokens
    rw [h] at hfirst
    rw [hrest] at ih
    exact ih.trans ((List.suffix_cons _ _).trans hfirst)
  | case5 tokens first token rest h _ => simpa [h] using consumes_operand tokens

/-- `members := nothing | operand (COMMA operand)*`. Nothing is only read before
    a closing brace. -/
def members : TokenReader (List Operand) :=
  fun tokens => if frontKind tokens = .closeBrace then (.ok [], tokens) else operands tokens

/-- `group := KEYWORD QUOTE LITERAL QUOTE OPEN members CLOSE` -/
def group : TokenReader GroupDeclaration := do
  let start ← position
  expect .groupKeyword .keyword
  expect .quote .openingQuote
  let name ← literal
  expect .quote .closingQuote
  expect .openBrace .openBrace
  let members ← members
  expect .closeBrace .closeBrace
  return ⟨name.text, members, start⟩

def operator : TokenReader Operator :=
  fun tokens =>
    match Operator.ofKind? (frontKind tokens) with
    | some operator => (.ok operator, skip tokens)
    | none => (.error .operator, tokens)

/-- `collision := operand operator operand` -/
def collision : TokenReader CollisionDeclaration := do
  let left ← operand
  let operator ← operator
  let right ← operand
  return ⟨left, operator, right⟩

/-- `statement := group | collision` -/
def statement : TokenReader Statement := do
  match ← peek with
  | .literal | .dollar => return .collision (← collision)
  | .groupKeyword => return .group (← group)
  | _ => fail .statement

/-- Takes a comment mark's end of line, if there is one. -/
def commentEnd : TokenReader Unit := do
  discard (accept .endOfLine)

/-- Takes the end of a line that holds a statement. An end of input stays. -/
def lineEnd : TokenReader Unit := do
  match ← peek with
  | .endOfLine => advance
  | .hash => do
    advance
    commentEnd
  | .endOfInput => return ()
  | _ => fail .lineEnd

/-- Takes one line. At the end of input it gives the empty statement and takes
    nothing. -/
def line : TokenReader Statement := do
  match ← peek with
  | .endOfLine => do
    advance
    return .empty
  | .hash => do
    advance
    commentEnd
    return .empty
  | .endOfInput => return .empty
  | _ => do
    let read ← statement
    lineEnd
    return read

/-- The kind of the token in front decides how a line is read. -/
theorem line_apply (tokens : List Token) :
    line tokens =
      (match frontKind tokens with
        | .endOfLine => do
          advance
          return .empty
        | .hash => do
          advance
          commentEnd
          return .empty
        | .endOfInput => return .empty
        | _ => do
          let read ← statement
          lineEnd
          return read : TokenReader Statement) tokens :=
  rfl

/-- What is left once the rest of the current line is thrown away. -/
def recover : List Token → List Token
  | [] => []
  | token :: rest =>
    match token.kind with
    | .endOfLine => rest
    | .endOfInput => token :: rest
    | _ => recover rest

theorem consumes_members : Consumes members := by
  intro tokens
  unfold members
  split
  · exact List.suffix_refl tokens
  · exact operands_suffix tokens

theorem advances_group : Advances group :=
  consumes_position.bind_advances fun _ => (advances_expect _ (by decide)).bind fun _ =>
    (consumes_expect _ _).bind fun _ => consumes_literal.bind fun _ =>
      (consumes_expect _ _).bind fun _ => (consumes_expect _ _).bind fun _ =>
        consumes_members.bind fun _ => (consumes_expect _ _).bind fun _ => .pure _

theorem consumes_group : Consumes group :=
  consumes_position.bind fun _ => (consumes_expect _ _).bind fun _ =>
    (consumes_expect _ _).bind fun _ => consumes_literal.bind fun _ =>
      (consumes_expect _ _).bind fun _ => (consumes_expect _ _).bind fun _ =>
        consumes_members.bind fun _ => (consumes_expect _ _).bind fun _ => .pure _

theorem consumes_operator : Consumes operator := by
  intro tokens
  unfold operator
  split
  · exact skip_suffix tokens
  · exact List.suffix_refl tokens

theorem consumes_collision : Consumes collision :=
  consumes_operand.bind fun _ => consumes_operator.bind fun _ =>
    consumes_operand.bind fun _ => .pure _

theorem advances_collision : Advances collision :=
  advances_operand.bind fun _ => consumes_operator.bind fun _ =>
    consumes_operand.bind fun _ => .pure _

theorem consumes_statement : Consumes statement :=
  consumes_peek.bind fun kind => by
    split
    · exact consumes_collision.bind fun _ => .pure _
    · exact consumes_collision.bind fun _ => .pure _
    · exact consumes_group.bind fun _ => .pure _
    · exact .fail _

theorem advances_statement : Advances statement :=
  consumes_peek.bind_advances fun kind => by
    split
    · exact advances_collision.bind fun _ => .pure _
    · exact advances_collision.bind fun _ => .pure _
    · exact advances_group.bind fun _ => .pure _
    · exact .fail _

theorem consumes_commentEnd : Consumes commentEnd :=
  (consumes_accept _).bind fun _ => .pure _

theorem consumes_lineEnd : Consumes lineEnd :=
  consumes_peek.bind fun kind => by
    split
    · exact consumes_advance
    · exact consumes_advance.bind fun _ => consumes_commentEnd
    · exact .pure _
    · exact .fail _

theorem consumes_line : Consumes line :=
  consumes_peek.bind fun kind => by
    split
    · exact consumes_advance.bind fun _ => .pure _
    · exact consumes_advance.bind fun _ => consumes_commentEnd.bind fun _ => .pure _
    · exact .pure _
    · exact consumes_statement.bind fun _ => consumes_lineEnd.bind fun _ => .pure _

/-- A line that is accepted before the end of input takes at least one token. -/
theorem line_shorter {tokens rest : List Token} {read : Statement}
    (hfront : frontKind tokens ≠ .endOfInput) (h : line tokens = (.ok read, rest)) :
    rest.length < tokens.length := by
  have hskip := skip_shorter hfront
  have hcomment := consumes_commentEnd.bind fun _ => Consumes.pure Statement.empty
  have hstatement := advances_statement.bind fun read => consumes_lineEnd.bind fun _ => .pure read
  rw [line_apply] at h
  generalize frontKind tokens = kind at h hfront
  cases kind with
  | endOfLine =>
    obtain rfl : skip tokens = rest := congrArg Prod.snd h
    exact hskip
  | hash =>
    have hle := (hcomment (skip tokens)).length_le
    rw [show (commentEnd >>= fun _ => pure Statement.empty) (skip tokens) = (.ok read, rest)
      from h] at hle
    exact Nat.lt_of_le_of_lt hle hskip
  | endOfInput => contradiction
  | _ => exact hstatement _ _ _ h

theorem recover_suffix (tokens : List Token) : recover tokens <:+ tokens := by
  induction tokens with
  | nil => exact List.suffix_refl _
  | cons token rest ih =>
    unfold recover
    split
    · exact List.suffix_cons _ _
    · exact List.suffix_refl _
    · exact ih.trans (List.suffix_cons _ _)

theorem recover_shorter {tokens : List Token} (h : frontKind tokens ≠ .endOfInput) :
    (recover tokens).length < tokens.length := by
  cases tokens with
  | nil => exact absurd rfl h
  | cons token rest =>
    have hle := (recover_suffix rest).length_le
    unfold recover
    split
    · simp
    · contradiction
    · simp only [List.length_cons]
      omega

/-- Whatever a refused line leaves, less comes after recovery than stood before
    the line. -/
theorem recover_line_shorter {tokens : List Token} (hfront : frontKind tokens ≠ .endOfInput) :
    (recover (line tokens).2).length < tokens.length := by
  have hle := (recover_suffix (line tokens).2).length_le
  have hline := consumes_line tokens
  rcases Nat.lt_or_ge (line tokens).2.length tokens.length with hlt | hge
  · omega
  · rw [hline.eq_of_length_le hge]
    exact recover_shorter hfront

end CollisionRules.TokenReader
