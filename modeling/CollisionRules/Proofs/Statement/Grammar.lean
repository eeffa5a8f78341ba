import CollisionRules.Statement.Parser

namespace CollisionRules.Grammar

/-- `operand := [DOLLAR] LITERAL` -/
inductive IsOperand : List Token → Operand → Prop where
  | ability {name : Token} (hname : name.kind = .literal) :
    IsOperand [name] ⟨.ability, name.text, name.position⟩
  | group {mark name : Token} (hmark : mark.kind = .dollar) (hname : name.kind = .literal) :
    IsOperand [mark, name] ⟨.group, name.text, name.position⟩

/-- `operand (COMMA operand)*` -/
inductive IsOperands : List Token → List Operand → Prop where
  | single {word : List Token} {operand : Operand} (hoperand : IsOperand word operand) :
    IsOperands word [operand]
  | more {word others : List Token} {comma : Token} {operand : Operand} {rest : List Operand}
    (hoperand : IsOperand word operand) (hcomma : comma.kind = .comma)
    (hothers : IsOperands others rest) :
    IsOperands (word ++ comma :: others) (operand :: rest)

/-- `members := nothing | operand (COMMA operand)*` -/
inductive IsMembers : List Token → List Operand → Prop where
  | none : IsMembers [] []
  | some {word : List Token} {operands : List Operand} (hoperands : IsOperands word operands) :
    IsMembers word operands

/-- `group := KEYWORD QUOTE LITERAL QUOTE OPEN members CLOSE` -/
inductive IsGroup : List Token → GroupDeclaration → Prop where
  | mk {keyword openQuote name closeQuote openBrace closeBrace : Token} {word : List Token}
    {members : List Operand} (hkeyword : keyword.kind = .groupKeyword)
    (hopenQuote : openQuote.kind = .quote) (hname : name.kind = .literal)
    (hcloseQuote : closeQuote.kind = .quote) (hopenBrace : openBrace.kind = .openBrace)
    (hmembers : IsMembers word members) (hcloseBrace : closeBrace.kind = .closeBrace) :
    IsGroup (keyword :: openQuote :: name :: closeQuote :: openBrace :: (word ++ [closeBrace]))
      ⟨name.text, members, keyword.position⟩

/-- The kinds of token that stand for an operator. -/
inductive IsOperator : TokenKind → Operator → Prop where
  | greater : IsOperator .greater .greater
  | less : IsOperator .less .less
  | equal : IsOperator .equal .equal
  | tilde : IsOperator .tilde .tilde
  | cross : IsOperator .cross .cross

/-- `collision := operand operator operand` -/
inductive IsCollision : List Token → CollisionDeclaration → Prop where
  | mk {leftWord rightWord : List Token} {symbol : Token} {left right : Operand}
    {operator : Operator} (hleft : IsOperand leftWord left)
    (hoperator : IsOperator symbol.kind operator) (hright : IsOperand rightWord right) :
    IsCollision (leftWord ++ symbol :: rightWord) ⟨left, operator, right⟩

/-- `statement := group | collision` -/
inductive IsStatement : List Token → Statement → Prop where
  | group {word : List Token} {declaration : GroupDeclaration}
    (hgroup : IsGroup word declaration) : IsStatement word (.group declaration)
  | collision {word : List Token} {declaration : CollisionDeclaration}
    (hcollision : IsCollision word declaration) : IsStatement word (.collision declaration)

/-- `line := (EOL | HASH) | EOI | statement (EOL | EOI | HASH)` -/
inductive IsLine : List Token → Statement → Prop where
  | blank {finish : Token} (hfinish : finish.kind.isTerminator) : IsLine [finish] .empty
  | statement {word : List Token} {finish : Token} {read : Statement}
    (hstatement : IsStatement word read) (hfinish : finish.kind.isTerminator) :
    IsLine (word ++ [finish]) read

/-- Tokens that some line of the grammar begins with. -/
def Viable (consumed : List Token) : Prop :=
  ∃ more read, IsLine (consumed ++ more) read

/-- What is left of `tokens` once the end of a line has been taken off their front: a
    comment mark takes an end of line behind it along, and an end of input stays. -/
inductive Closes : List Token → List Token → Prop where
  | line {finish : Token} {rest : List Token} (hfinish : finish.kind = .endOfLine) :
    Closes (finish :: rest) rest
  | comment {mark finish : Token} {rest : List Token} (hmark : mark.kind = .hash)
    (hfinish : finish.kind = .endOfLine) : Closes (mark :: finish :: rest) rest
  | bareComment {mark : Token} {rest : List Token} (hmark : mark.kind = .hash)
    (hrest : TokenReader.frontKind rest ≠ .endOfLine) : Closes (mark :: rest) rest
  | input {tokens : List Token} (htokens : TokenReader.frontKind tokens = .endOfInput) :
    Closes tokens tokens

theorem IsOperand.inner {word : List Token} {operand : Operand} (hword : IsOperand word operand) :
    ∀ token ∈ word, token.kind.isTerminator = false := by
  cases hword with
  | ability hname => simp [hname, TokenKind.isTerminator]
  | group hmark hname => simp [hmark, hname, TokenKind.isTerminator]

theorem IsOperands.inner {word : List Token} {operands : List Operand}
    (hword : IsOperands word operands) : ∀ token ∈ word, token.kind.isTerminator = false := by
  induction hword with
  | single hoperand => exact hoperand.inner
  | @more word others comma _ _ hoperand hcomma _ ih =>
    intro token htoken
    rcases List.mem_append.mp htoken with hmem | hmem
    · exact hoperand.inner token hmem
    · rcases List.mem_cons.mp hmem with rfl | hmem
      · simp [hcomma, TokenKind.isTerminator]
      · exact ih token hmem

theorem IsMembers.inner {word : List Token} {members : List Operand}
    (hword : IsMembers word members) : ∀ token ∈ word, token.kind.isTerminator = false := by
  cases hword with
  | none => simp
  | some hoperands => exact hoperands.inner

theorem IsGroup.inner {word : List Token} {declaration : GroupDeclaration}
    (hword : IsGroup word declaration) : ∀ token ∈ word, token.kind.isTerminator = false := by
  obtain ⟨hkeyword, hopenQuote, hname, hcloseQuote, hopenBrace, hmembers, hcloseBrace⟩ := hword
  simp only [List.mem_cons, List.mem_append, List.not_mem_nil, or_false]
  rintro token (rfl | rfl | rfl | rfl | rfl | hmem | rfl)
  · simp [hkeyword, TokenKind.isTerminator]
  · simp [hopenQuote, TokenKind.isTerminator]
  · simp [hname, TokenKind.isTerminator]
  · simp [hcloseQuote, TokenKind.isTerminator]
  · simp [hopenBrace, TokenKind.isTerminator]
  · exact hmembers.inner token hmem
  · simp [hcloseBrace, TokenKind.isTerminator]

/-- No token within a collision ends a line. -/
theorem IsCollision.inner {word : List Token} {declaration : CollisionDeclaration}
    (hword : IsCollision word declaration) : ∀ token ∈ word, token.kind.isTerminator = false := by
  obtain ⟨hleft, hoperator, hright⟩ := hword
  intro token htoken
  rcases List.mem_append.mp htoken with hmem | hmem
  · exact hleft.inner token hmem
  · rcases List.mem_cons.mp hmem with rfl | hmem
    · generalize token.kind = kind at hoperator
      cases hoperator <;> rfl
    · exact hright.inner token hmem

/-- No token of a statement could end its line. -/
theorem IsStatement.inner {word : List Token} {read : Statement} (hword : IsStatement word read) :
    ∀ token ∈ word, token.kind.isTerminator = false := by
  cases hword with
  | group hgroup => exact hgroup.inner
  | collision hcollision => exact hcollision.inner

/-- Every statement has a token. -/
theorem IsStatement.ne_nil {word : List Token} {read : Statement} (hword : IsStatement word read) :
    word ≠ [] := by
  cases hword with
  | group hgroup =>
    cases hgroup
    simp
  | collision hcollision =>
    cases hcollision
    simp

theorem IsStatement.ne_empty {word : List Token} {read : Statement}
    (hword : IsStatement word read) : read ≠ .empty := by
  cases hword <;> simp

/-- No statement begins with the end of a line. -/
theorem IsStatement.frontKind_append {word : List Token} {read : Statement}
    (hword : IsStatement word read) (rest : List Token) :
    (TokenReader.frontKind (word ++ rest)).isTerminator = false := by
  obtain ⟨token, others, rfl⟩ := List.exists_cons_of_ne_nil hword.ne_nil
  exact hword.inner token List.mem_cons_self

end CollisionRules.Grammar
