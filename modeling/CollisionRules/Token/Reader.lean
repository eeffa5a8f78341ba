import CollisionRules.Token

namespace CollisionRules

/-- What the grammar asks for at a point of a line. -/
inductive Expectation where
  | statement
  | keyword
  | openingQuote
  | literal
  | closingQuote
  | openBrace
  | closeBrace
  | operator
  | lineEnd
  deriving DecidableEq, Repr

def Expectation.message : Expectation → String
  | .statement => "expected a collision declaration or group declaration"
  | .keyword => "group declarations must start with the keyword 'group'"
  | .openingQuote => "group names must be specified in quotations, missing opening '\"'"
  | .literal => "expected a string literal"
  | .closingQuote => "group names must be specified in quotations, missing closing '\"'"
  | .openBrace => "group contents must be declared in braces, missing '\x7b'"
  | .closeBrace => "group contents must be declared in braces, missing '\x7d'"
  | .operator =>
    "an operator is required in collision declarations, use one of: >, <, =, ~, x"
  | .lineEnd =>
    "expected a new line, end of file, or comment marker at the end of a complete statement"

/-- Takes tokens off the front and gives a value with the tokens left, or fails with
    what it expected and the tokens from the unexpected one on. Beyond the last
    token stands an end of input, and no reader passes an end of input. -/
def TokenReader (α : Type) : Type :=
  List Token → Except Expectation α × List Token

namespace TokenReader

variable {α β : Type}

/-- Runs one reader, and the next one on what it gives and leaves. A failure ends
    the run. -/
protected def bind (reader : TokenReader α) (next : α → TokenReader β) : TokenReader β :=
  fun tokens =>
    match reader tokens with
    | (.ok a, rest) => next a rest
    | (.error expected, rest) => (.error expected, rest)

instance : Monad TokenReader where
  pure a := fun tokens => (.ok a, tokens)
  bind := TokenReader.bind

def fail (expected : Expectation) : TokenReader α :=
  fun tokens => (.error expected, tokens)

def frontKind : List Token → TokenKind
  | [] => .endOfInput
  | token :: _ => token.kind

/-- The tokens after the one in front. The end of input stays in front. -/
def skip : List Token → List Token
  | [] => []
  | token :: rest => if token.kind = .endOfInput then token :: rest else rest

/-- Gives the kind of the token in front, which stays there. -/
def peek : TokenReader TokenKind :=
  fun tokens => (.ok (frontKind tokens), tokens)

def advance : TokenReader Unit :=
  fun tokens => (.ok (), skip tokens)

/-- Takes the token in front if it has the given kind, and says whether it had. -/
def accept (kind : TokenKind) : TokenReader Bool :=
  fun tokens =>
    if frontKind tokens = kind then (.ok true, skip tokens) else (.ok false, tokens)

/-- Takes a token of the given kind, or fails for want of what was expected. -/
def expect (kind : TokenKind) (expected : Expectation) : TokenReader Unit :=
  fun tokens =>
    if frontKind tokens = kind then (.ok (), skip tokens) else (.error expected, tokens)

def literal : TokenReader Token
  | [] => (.error .literal, [])
  | token :: rest =>
    if token.kind = .literal then (.ok token, rest) else (.error .literal, token :: rest)

/-- Gives the position of the token in front, which stays there. -/
def position : TokenReader Position
  | [] => (.ok ⟨1, 1⟩, [])
  | token :: rest => (.ok token.position, token :: rest)

theorem bind_apply (reader : TokenReader α) (next : α → TokenReader β) (tokens : List Token) :
    (reader >>= next) tokens =
      match reader tokens with
      | (.ok a, rest) => next a rest
      | (.error expected, rest) => (.error expected, rest) :=
  rfl

/-- A reader that leaves an end piece of the tokens it is given. -/
def Consumes (reader : TokenReader α) : Prop :=
  ∀ tokens, (reader tokens).2 <:+ tokens

/-- A reader that takes at least one token whenever it gives a value. -/
def Advances (reader : TokenReader α) : Prop :=
  ∀ tokens a rest, reader tokens = (.ok a, rest) → rest.length < tokens.length

theorem skip_suffix (tokens : List Token) : skip tokens <:+ tokens := by
  cases tokens with
  | nil => exact List.suffix_refl _
  | cons token rest =>
    by_cases hend : token.kind = .endOfInput
    · simp [skip, hend]
    · simp [skip, hend, List.suffix_cons]

theorem skip_shorter {tokens : List Token} (h : frontKind tokens ≠ .endOfInput) :
    (skip tokens).length < tokens.length := by
  cases tokens with
  | nil => exact absurd rfl h
  | cons token rest => simp [skip, show token.kind ≠ .endOfInput from h]

theorem Consumes.pure (a : α) : Consumes (pure a : TokenReader α) :=
  fun tokens => List.suffix_refl tokens

theorem Consumes.fail (expected : Expectation) : Consumes (fail expected : TokenReader α) :=
  fun tokens => List.suffix_refl tokens

theorem Consumes.bind {reader : TokenReader α} {next : α → TokenReader β}
    (hreader : Consumes reader) (hnext : ∀ a, Consumes (next a)) :
    Consumes (reader >>= next) := by
  intro tokens
  rw [bind_apply]
  have h := hreader tokens
  cases hrun : reader tokens with
  | mk result rest =>
    rw [hrun] at h
    cases result with
    | ok a => exact (hnext a rest).trans h
    | error expected => exact h

theorem Advances.fail (expected : Expectation) : Advances (fail expected : TokenReader α) := by
  intro tokens a rest h
  simp [TokenReader.fail] at h

/-- It is enough that the first of two readers takes a token. -/
theorem Advances.bind {reader : TokenReader α} {next : α → TokenReader β}
    (hreader : Advances reader) (hnext : ∀ a, Consumes (next a)) :
    Advances (reader >>= next) := by
  intro tokens b rest h
  rw [bind_apply] at h
  cases hrun : reader tokens with
  | mk result front =>
    rw [hrun] at h
    cases result with
    | error expected => simp at h
    | ok a =>
      have hle := (hnext a front).length_le
      rw [show next a front = (.ok b, rest) from h] at hle
      exact Nat.lt_of_le_of_lt hle (hreader _ _ _ hrun)

/-- It is enough that the second of two readers takes a token. -/
theorem Consumes.bind_advances {reader : TokenReader α} {next : α → TokenReader β}
    (hreader : Consumes reader) (hnext : ∀ a, Advances (next a)) :
    Advances (reader >>= next) := by
  intro tokens b rest h
  rw [bind_apply] at h
  have hle := (hreader tokens).length_le
  cases hrun : reader tokens with
  | mk result front =>
    rw [hrun] at h hle
    cases result with
    | error expected => simp at h
    | ok a => exact Nat.lt_of_lt_of_le (hnext a _ _ _ h) hle

theorem consumes_peek : Consumes peek :=
  fun tokens => List.suffix_refl tokens

theorem consumes_advance : Consumes advance :=
  skip_suffix

theorem consumes_accept (kind : TokenKind) : Consumes (accept kind) := by
  intro tokens
  unfold accept
  split
  · exact skip_suffix tokens
  · exact List.suffix_refl tokens

theorem consumes_expect (kind : TokenKind) (expected : Expectation) :
    Consumes (expect kind expected) := by
  intro tokens
  unfold expect
  split
  · exact skip_suffix tokens
  · exact List.suffix_refl tokens

theorem advances_expect {kind : TokenKind} (expected : Expectation) (h : kind ≠ .endOfInput) :
    Advances (expect kind expected) := by
  intro tokens a rest hrun
  unfold expect at hrun
  split at hrun
  · next hfront =>
    obtain rfl : skip tokens = rest := congrArg Prod.snd hrun
    exact skip_shorter (hfront ▸ h)
  · simp at hrun

theorem consumes_literal : Consumes literal := by
  intro tokens
  unfold literal
  split
  · exact List.suffix_refl _
  · split
    · exact List.suffix_cons _ _
    · exact List.suffix_refl _

theorem advances_literal : Advances literal := by
  intro tokens a rest h
  unfold literal at h
  split at h
  · simp at h
  · split at h <;> simp_all

theorem consumes_position : Consumes position := by
  intro tokens
  cases tokens <;> exact List.suffix_refl _

end TokenReader

end CollisionRules
