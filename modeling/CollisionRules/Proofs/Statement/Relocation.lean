import CollisionRules.Proofs.Statement.EndOfInput

namespace CollisionRules

section Relocate

variable (place : Position → Position)

def Operand.relocate (operand : Operand) : Operand :=
  { operand with position := place operand.position }

def GroupDeclaration.relocate (declaration : GroupDeclaration) : GroupDeclaration :=
  { declaration with
    members := declaration.members.map (Operand.relocate place)
    position := place declaration.position }

def CollisionDeclaration.relocate (declaration : CollisionDeclaration) : CollisionDeclaration :=
  { declaration with
    left := declaration.left.relocate place
    right := declaration.right.relocate place }

/-- The statement with each position in it put where `place` says. -/
def Statement.relocate : Statement → Statement
  | .empty => .empty
  | .group declaration => .group (declaration.relocate place)
  | .collision declaration => .collision (declaration.relocate place)

def ParseError.relocate (error : ParseError) : ParseError :=
  { error with position := place error.position }

def Parsed.relocate (parsed : Parsed) : Parsed where
  statements := parsed.statements.map (Statement.relocate place)
  errors := parsed.errors.map (ParseError.relocate place)

end Relocate

/-- A change of tokens that puts each where `place` says and keeps what is read of it: its
    kind, and the characters of a literal. -/
structure Token.Relocates (place : Position → Position) (change : Token → Token) : Prop where
  kind : ∀ token, (change token).kind = token.kind
  text : ∀ token, token.kind = .literal → (change token).text = token.text
  position : ∀ token, (change token).position = place token.position

variable {place : Position → Position} {change : Token → Token}

namespace TokenReader

variable {α β γ δ : Type}

/-- Moving tokens does not change their kinds. -/
theorem frontKind_map (h : Token.Relocates place change) (tokens : List Token) :
    frontKind (tokens.map change) = frontKind tokens := by
  cases tokens with
  | nil => rfl
  | cons token rest => exact h.kind token

theorem skip_map (h : Token.Relocates place change) (tokens : List Token) :
    skip (tokens.map change) = (skip tokens).map change := by
  cases tokens with
  | nil => rfl
  | cons token rest =>
    by_cases hend : token.kind = .endOfInput
    · simp [skip, h.kind, hend]
    · simp [skip, h.kind, hend]

/-- Recovery goes as far in tokens that have been moved. -/
theorem recover_map (h : Token.Relocates place change) (tokens : List Token) :
    recover (tokens.map change) = (recover tokens).map change := by
  induction tokens with
  | nil => rfl
  | cons token rest ih =>
    rw [List.map_cons, recover, recover, h.kind]
    split
    · rfl
    · rfl
    · exact ih

/-- A second reader that reads changed tokens as the first one reads them unchanged, and
    gives the value moved along. -/
def Commutes (change : Token → Token) (move : α → β) (reader : TokenReader α)
    (second : TokenReader β) : Prop :=
  ∀ tokens : List Token, second (tokens.map change) =
    ((reader tokens).1.map move, (reader tokens).2.map change)

namespace Commutes

theorem pure {move : α → β} {a : α} {b : β} (hmove : b = move a) :
    Commutes change move (pure a : TokenReader α) (pure b) := by
  subst hmove
  exact fun _ => rfl

theorem fail (move : α → β) (expected : Expectation) :
    Commutes change move (fail expected) (fail expected) :=
  fun _ => rfl

/-- Readers that commute with moving may follow one another. -/
theorem bind {move : α → β} {moveNext : γ → δ} {reader : TokenReader α} {second : TokenReader β}
    {next : α → TokenReader γ} {secondNext : β → TokenReader δ}
    (hreader : Commutes change move reader second)
    (hnext : ∀ a, Commutes change moveNext (next a) (secondNext (move a))) :
    Commutes change moveNext (reader >>= next) (second >>= secondNext) := by
  intro tokens
  rw [bind_apply, bind_apply, hreader tokens]
  cases hrun : reader tokens with
  | mk result rest =>
    cases result with
    | ok a => exact hnext a rest
    | error expected => rfl

variable (h : Token.Relocates place change)
include h

theorem peek : Commutes change (fun kind => kind) peek peek := by
  intro tokens
  simp [TokenReader.peek, frontKind_map h, Except.map]

theorem advance : Commutes change (fun done => done) advance advance := by
  intro tokens
  simp [TokenReader.advance, skip_map h, Except.map]

theorem accept (kind : TokenKind) :
    Commutes change (fun accepted => accepted) (accept kind) (accept kind) := by
  intro tokens
  simp only [TokenReader.accept, frontKind_map h, skip_map h]
  split <;> rfl

theorem expect (kind : TokenKind) (expected : Expectation) :
    Commutes change (fun done => done) (expect kind expected) (expect kind expected) := by
  intro tokens
  simp only [TokenReader.expect, frontKind_map h, skip_map h]
  split <;> rfl

/-- What comes after a literal may count on its characters being kept. -/
theorem literal_bind {moveNext : γ → δ} {next : Token → TokenReader γ}
    {secondNext : Token → TokenReader δ}
    (hnext : ∀ token, (change token).text = token.text →
      Commutes change moveNext (next token) (secondNext (change token))) :
    Commutes change moveNext (literal >>= next) (literal >>= secondNext) := by
  intro tokens
  cases tokens with
  | nil => rfl
  | cons token rest =>
    by_cases hkind : token.kind = .literal
    · simpa [bind_apply, literal, h.kind, hkind] using hnext token (h.text token hkind) rest
    · simp [bind_apply, literal, h.kind, hkind, Except.map]

/-- An operand of moved tokens is the moved operand. -/
theorem operand : Commutes change (Operand.relocate place) operand operand :=
  (accept h _).bind fun _ => literal_bind h fun token htext => .pure (by
    rw [htext, h.position]
    rfl)

/-- By induction on the tokens: each further operand takes some of them. -/
theorem operands : Commutes change (List.map (Operand.relocate place)) operands operands := by
  intro tokens
  have hoperand := operand h
  fun_induction TokenReader.operands tokens with
  | case1 tokens expected rest hfirst =>
    rw [operands_apply, hoperand, hfirst]
    rfl
  | case2 tokens first hfirst =>
    rw [operands_apply, hoperand, hfirst]
    rfl
  | case3 tokens first token rest hfirst hcomma others final hrest ih =>
    rw [operands_apply, hoperand, hfirst]
    simp [Except.map, h.kind, hcomma, ih, hrest]
  | case4 tokens first token rest hfirst hcomma expected final hrest ih =>
    rw [operands_apply, hoperand, hfirst]
    simp [Except.map, h.kind, hcomma, ih, hrest]
  | case5 tokens first token rest hfirst hcomma =>
    rw [operands_apply, hoperand, hfirst]
    simp [Except.map, h.kind, hcomma]

theorem members : Commutes change (List.map (Operand.relocate place)) members members := by
  intro tokens
  simp only [TokenReader.members, frontKind_map h, operands h tokens]
  split <;> rfl

/-- A group of moved tokens is the moved group. -/
theorem groupFrom (start : Position) :
    Commutes change (GroupDeclaration.relocate place) (groupFrom start) (groupFrom (place start)) :=
  (expect h _ _).bind fun _ => (expect h _ _).bind fun _ => literal_bind h fun _ htext =>
    (expect h _ _).bind fun _ => (expect h _ _).bind fun _ => (members h).bind fun _ =>
      (expect h _ _).bind fun _ => .pure (by
        rw [htext]
        rfl)

/-- Where no token is left there is no position to put elsewhere, but then the keyword is
    missing in any case. -/
theorem group : Commutes change (GroupDeclaration.relocate place) group group := by
  intro tokens
  rw [group_eq_bind]
  cases tokens with
  | nil => rfl
  | cons token rest =>
    have hgroup := groupFrom h token.position (token :: rest)
    rw [← h.position] at hgroup
    exact hgroup

theorem operator : Commutes change (fun operator => operator) operator operator := by
  intro tokens
  simp only [TokenReader.operator, frontKind_map h, skip_map h]
  split <;> rfl

/-- A collision of moved tokens is the moved collision. -/
theorem collision : Commutes change (CollisionDeclaration.relocate place) collision collision :=
  (operand h).bind fun _ => (operator h).bind fun _ => (operand h).bind fun _ => .pure rfl

/-- A statement of moved tokens is the moved statement. -/
theorem statement : Commutes change (Statement.relocate place) statement statement :=
  (peek h).bind fun kind => by
    cases kind with
    | literal => exact (collision h).bind fun _ => .pure rfl
    | dollar => exact (collision h).bind fun _ => .pure rfl
    | groupKeyword => exact (group h).bind fun _ => .pure rfl
    | _ => exact .fail _ _

theorem commentEnd : Commutes change (fun done => done) commentEnd commentEnd :=
  (accept h _).bind fun _ => .pure rfl

theorem lineEnd : Commutes change (fun done => done) lineEnd lineEnd :=
  (peek h).bind fun kind => by
    cases kind with
    | endOfLine => exact advance h
    | hash => exact (advance h).bind fun _ => commentEnd h
    | endOfInput => exact .pure rfl
    | _ => exact .fail _ _

/-- A line of moved tokens is read as the moved statement, or refused for the same want. -/
theorem line : Commutes change (Statement.relocate place) line line :=
  (peek h).bind fun kind => by
    cases kind with
    | endOfLine => exact (advance h).bind fun _ => .pure rfl
    | hash => exact (advance h).bind fun _ => (commentEnd h).bind fun _ => .pure rfl
    | endOfInput => exact .pure rfl
    | _ => exact (statement h).bind fun _ => (lineEnd h).bind fun _ => .pure rfl

end Commutes

end TokenReader

namespace Parser

open TokenReader

/-- An error among moved tokens is the moved error. -/
theorem errorAt_map (h : Token.Relocates place change) (finish : Position)
    (expected : Expectation) (rest : List Token) :
    errorAt (place finish) expected (rest.map change) =
      (errorAt finish expected rest).relocate place := by
  cases rest with
  | nil => rfl
  | cons token rest =>
    simp [errorAt, frontKind, ParseError.relocate, h.kind, h.position]

/-- Lines put elsewhere are read as they were, accepted or refused. -/
theorem linesOf_map (h : Token.Relocates place change) (finish : Position) (tokens : List Token) :
    linesOf (place finish) (tokens.map change) =
      ((linesOf finish tokens).1.relocate place, (linesOf finish tokens).2.map change) := by
  fun_induction linesOf finish tokens with
  | case1 tokens hfront =>
    exact linesOf_of_end (by rw [frontKind_map h, hfront]) (place finish)
  | case2 tokens hfront statement rest hline parsed final hrest ih =>
    have hmap := Commutes.line h tokens
    rw [hline] at hmap
    rw [linesOf_of_ok (by rwa [frontKind_map h]) hmap, ih, hrest]
    rfl
  | case3 tokens hfront expected rest hline parsed final hrest ih =>
    have hmap := Commutes.line h tokens
    rw [hline] at hmap
    rw [linesOf_of_error (by rwa [frontKind_map h]) hmap, recover_map h, errorAt_map h, ih, hrest]
    rfl

end Parser

/-- Tokens put elsewhere say what they said, put elsewhere likewise. -/
theorem Parsed.ofTokens_map (h : Token.Relocates place change) {tokens : List Token}
    (hfinish : (Parser.ofTokens (tokens.map change)).finish =
      place (Parser.ofTokens tokens).finish) :
    ofTokens (tokens.map change) = (ofTokens tokens).relocate place := by
  have hlines := Parser.linesOf_map h (Parser.ofTokens tokens).finish tokens
  rw [← hfinish] at hlines
  exact congrArg Prod.fst hlines

end CollisionRules
