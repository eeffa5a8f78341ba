import CollisionRules.Proofs.Statement.Lookahead

namespace CollisionRules

open Grammar

namespace TokenReader

variable {α β : Type}

/-- A reader that only ever fails behind tokens which some word of a language begins
    with. -/
def FailsWithin (reader : TokenReader α) (language : List Token → α → Prop) : Prop :=
  ∀ {tokens rest : List Token} {expected : Expectation}, reader tokens = (.error expected, rest) →
    ∃ word more a, tokens = word ++ rest ∧ language (word ++ more) a

/-- A token to complete a word with. -/
private def sample (kind : TokenKind) : Token := ⟨kind, "", ⟨1, 1⟩⟩

private theorem isOperand_sample : IsOperand [sample .literal] ⟨.ability, "", ⟨1, 1⟩⟩ :=
  .ability rfl

private theorem isCollision_sample {word : List Token} {left : Operand}
    (hleft : IsOperand word left) :
    IsCollision (word ++ [sample .tilde, sample .literal])
      ⟨left, .tilde, ⟨.ability, "", ⟨1, 1⟩⟩⟩ :=
  .mk hleft .tilde isOperand_sample

theorem literal_eq_error {tokens rest : List Token} {expected : Expectation}
    (h : literal tokens = (.error expected, rest)) : tokens = rest := by
  unfold literal at h
  split at h
  · exact congrArg Prod.snd h
  · split at h
    · cases h
    · exact congrArg Prod.snd h

theorem operator_eq_error {tokens rest : List Token} {expected : Expectation}
    (h : operator tokens = (.error expected, rest)) : tokens = rest := by
  unfold operator at h
  split at h
  · cases h
  · exact congrArg Prod.snd h

/-- A failure behind a literal is one for want of the literal, or comes later. -/
theorem literal_bind_eq_error {next : Token → TokenReader β} {tokens rest : List Token}
    {expected : Expectation} (h : (literal >>= next) tokens = (.error expected, rest)) :
    tokens = rest ∨ ∃ token front, token.kind = .literal ∧ tokens = token :: front ∧
      next token front = (.error expected, rest) := by
  rcases bind_eq_error_iff.mp h with hread | ⟨token, front, hread, hnext⟩
  · exact .inl (literal_eq_error hread)
  · obtain ⟨htoken, rfl⟩ := literal_eq_ok_iff.mp hread
    exact .inr ⟨token, front, htoken, rfl, hnext⟩

/-- A failure behind an expected token is one for want of that token, or comes later. -/
theorem expect_bind_eq_error {kind : TokenKind} (hkind : kind ≠ .endOfInput)
    {wanted expected : Expectation} {next : Unit → TokenReader β} {tokens rest : List Token}
    (h : (expect kind wanted >>= next) tokens = (.error expected, rest)) :
    tokens = rest ∨ ∃ token front, token.kind = kind ∧ tokens = token :: front ∧
      next () front = (.error expected, rest) := by
  rcases bind_eq_error_iff.mp h with hread | ⟨_, front, hread, hnext⟩
  · unfold expect at hread
    split at hread
    · cases hread
    · exact .inl (congrArg Prod.snd hread)
  · obtain ⟨token, htoken, rfl⟩ := (expect_eq_ok_iff hkind).mp hread
    exact .inr ⟨token, front, htoken, rfl, hnext⟩

namespace FailsWithin

/-- An operand is only refused behind tokens that some operand begins with. -/
theorem operand : FailsWithin operand IsOperand := by
  intro tokens rest expected h
  rcases bind_eq_error_iff.mp h with haccept | ⟨isGroup, front, haccept, h⟩
  · unfold accept at haccept
    split at haccept <;> cases haccept
  · rcases literal_bind_eq_error h with rfl | ⟨_, _, _, _, h⟩
    · by_cases hfront : frontKind tokens = .dollar
      · obtain ⟨mark, others, rfl, hmark⟩ := (frontKind_eq_iff (by decide)).mp hfront
        obtain ⟨_, rfl⟩ : true = isGroup ∧ others = front := by
          simpa [accept, hfront, skip, hmark] using haccept
        exact ⟨[mark], [sample .literal], _, rfl, .group hmark rfl⟩
      · obtain ⟨_, rfl⟩ : false = isGroup ∧ tokens = front := by simpa [accept, hfront] using haccept
        exact ⟨[], [sample .literal], _, rfl, .ability rfl⟩
    · cases h

/-- Operands are only refused behind tokens that some operands begin with. -/
theorem operands : FailsWithin operands IsOperands := by
  intro tokens rest expected h
  fun_induction TokenReader.operands tokens with
  | case1 tokens other left hfirst =>
    cases h
    obtain ⟨word, more, first, rfl, hword⟩ := operand hfirst
    exact ⟨word, more, [first], rfl, .single hword⟩
  | case2 => cases h
  | case3 => cases h
  | case4 tokens first comma behind hfirst hcomma other final hothers ih =>
    cases h
    obtain ⟨word, hword, rfl⟩ := operand_eq_ok_iff.mp hfirst
    obtain ⟨inner, more, others, rfl, hinner⟩ := ih hothers
    exact ⟨word ++ comma :: inner, more, first :: others, by simp,
      by simpa using IsOperands.more hword hcomma hinner⟩
  | case5 => cases h

/-- Members of a group are only refused behind tokens that some members begin with. -/
theorem members : FailsWithin members IsMembers := by
  intro tokens rest expected h
  unfold TokenReader.members at h
  split at h
  · cases h
  · obtain ⟨word, more, listed, rfl, hword⟩ := operands h
    exact ⟨word, more, listed, rfl, .some hword⟩

/-- Wherever a group declaration breaks off, the tokens that are still owed complete it. -/
theorem group : FailsWithin group IsGroup := by
  intro tokens rest expected h
  replace h := bind_eq_error_iff.mp h
  rcases h with h | ⟨start, front, hstart, h⟩
  · cases tokens <;> cases h
  have hfront : tokens = front := by
    cases tokens <;> exact congrArg Prod.snd hstart
  subst hfront
  replace h := expect_bind_eq_error (by decide) h
  rcases h with rfl | ⟨keyword, _, hkeyword, rfl, h⟩
  · exact ⟨[], [sample .groupKeyword, sample .quote, sample .literal, sample .quote,
      sample .openBrace, sample .closeBrace], _, rfl, .mk rfl rfl rfl rfl rfl .none rfl⟩
  replace h := expect_bind_eq_error (by decide) h
  rcases h with rfl | ⟨openQuote, _, hopenQuote, rfl, h⟩
  · exact ⟨[keyword], [sample .quote, sample .literal, sample .quote, sample .openBrace,
      sample .closeBrace], _, rfl, .mk hkeyword rfl rfl rfl rfl .none rfl⟩
  replace h := literal_bind_eq_error h
  rcases h with rfl | ⟨name, _, hname, rfl, h⟩
  · exact ⟨[keyword, openQuote], [sample .literal, sample .quote, sample .openBrace,
      sample .closeBrace], _, rfl, .mk hkeyword hopenQuote rfl rfl rfl .none rfl⟩
  replace h := expect_bind_eq_error (by decide) h
  rcases h with rfl | ⟨closeQuote, _, hcloseQuote, rfl, h⟩
  · exact ⟨[keyword, openQuote, name], [sample .quote, sample .openBrace, sample .closeBrace], _,
      rfl, .mk hkeyword hopenQuote hname rfl rfl .none rfl⟩
  replace h := expect_bind_eq_error (by decide) h
  rcases h with rfl | ⟨openBrace, _, hopenBrace, rfl, h⟩
  · exact ⟨[keyword, openQuote, name, closeQuote], [sample .openBrace, sample .closeBrace], _,
      rfl, .mk hkeyword hopenQuote hname hcloseQuote rfl .none rfl⟩
  replace h := bind_eq_error_iff.mp h
  rcases h with hmembers | ⟨listed, _, hmembers, h⟩
  · obtain ⟨word, more, listed, rfl, hword⟩ := members hmembers
    refine ⟨keyword :: openQuote :: name :: closeQuote :: openBrace :: word,
      more ++ [sample .closeBrace], ⟨name.text, listed, keyword.position⟩, by simp, ?_⟩
    simpa using IsGroup.mk hkeyword hopenQuote hname hcloseQuote hopenBrace hword
      (show (sample .closeBrace).kind = .closeBrace from rfl)
  obtain ⟨word, hword, rfl⟩ := isMembers_of_members hmembers
  replace h := expect_bind_eq_error (by decide) h
  rcases h with rfl | ⟨closeBrace, _, hcloseBrace, _, h⟩
  · exact ⟨keyword :: openQuote :: name :: closeQuote :: openBrace :: word, [sample .closeBrace], _,
      by simp, .mk hkeyword hopenQuote hname hcloseQuote hopenBrace hword rfl⟩
  · cases h

/-- A collision is only refused behind tokens that some collision begins with. -/
theorem collision : FailsWithin collision IsCollision := by
  intro tokens rest expected h
  replace h := bind_eq_error_iff.mp h
  rcases h with hleft | ⟨left, _, hleft, h⟩
  · obtain ⟨word, more, left, rfl, hword⟩ := operand hleft
    exact ⟨word, more ++ [sample .tilde, sample .literal], _, rfl,
      by simpa using isCollision_sample hword⟩
  obtain ⟨leftWord, hleftWord, rfl⟩ := operand_eq_ok_iff.mp hleft
  replace h := bind_eq_error_iff.mp h
  rcases h with hoperator | ⟨operator, _, hoperator, h⟩
  · obtain rfl := operator_eq_error hoperator
    exact ⟨leftWord, [sample .tilde, sample .literal], _, rfl, isCollision_sample hleftWord⟩
  obtain ⟨symbol, hsymbol, rfl⟩ := operator_eq_ok_iff.mp hoperator
  replace h := bind_eq_error_iff.mp h
  rcases h with hright | ⟨_, _, _, h⟩
  · obtain ⟨word, more, right, rfl, hword⟩ := operand hright
    exact ⟨leftWord ++ symbol :: word, more, _, by simp,
      by simpa using IsCollision.mk hleftWord hsymbol hword⟩
  · cases h

/-- A statement is only refused behind tokens that some statement begins with. -/
theorem statement : FailsWithin statement IsStatement := by
  intro tokens rest expected h
  have hcollision (h : (TokenReader.collision >>= fun declaration =>
      Pure.pure (Statement.collision declaration)) tokens = (.error expected, rest)) :
      ∃ word more read, tokens = word ++ rest ∧ IsStatement (word ++ more) read := by
    rcases bind_eq_error_iff.mp h with hread | ⟨_, _, _, h⟩
    · obtain ⟨word, more, _, rfl, hword⟩ := collision hread
      exact ⟨word, more, _, rfl, .collision hword⟩
    · cases h
  rw [statement_apply] at h
  generalize frontKind tokens = kind at h
  cases kind with
  | literal => exact hcollision h
  | dollar => exact hcollision h
  | groupKeyword =>
    rcases bind_eq_error_iff.mp h with hread | ⟨_, _, _, h⟩
    · obtain ⟨word, more, _, rfl, hword⟩ := group hread
      exact ⟨word, more, _, rfl, .group hword⟩
    · cases h
  | _ =>
    obtain rfl : tokens = rest := congrArg Prod.snd h
    have hsample := isCollision_sample isOperand_sample
    exact ⟨[], _, _, rfl, .collision hsample⟩

end FailsWithin

/-- The line that a word of the grammar is read as, whatever follows the word. -/
theorem line_of_isLine {word : List Token} {read : Statement} (hword : IsLine word read)
    (rest : List Token) : ∃ left, line (word ++ rest) = (.ok read, left) := by
  cases hword with
  | @blank finish hfinish =>
    have hfront : (frontKind (finish :: rest)).isTerminator := hfinish
    obtain ⟨left, hleft⟩ := closes_iff_isTerminator.mpr hfront
    exact ⟨left, line_eq_ok_iff.mpr (.inl ⟨rfl, hleft⟩)⟩
  | @statement inner finish _ hstatement hfinish =>
    have htail : (frontKind (finish :: rest)).isTerminator := hfinish
    obtain ⟨left, hleft⟩ := closes_iff_isTerminator.mpr htail
    exact ⟨left, line_eq_ok_iff.mpr (.inr ⟨inner, finish :: rest, hstatement, by simp, hleft⟩)⟩

theorem lineEnd_eq_error {tokens rest : List Token} {expected : Expectation}
    (h : lineEnd tokens = (.error expected, rest)) : tokens = rest := by
  rw [lineEnd_apply] at h
  generalize frontKind tokens = kind at h
  cases kind with
  | endOfLine => cases h
  | hash =>
    have hcomment : commentEnd (skip tokens) = (.error expected, rest) := h
    rw [commentEnd_apply] at hcomment
    cases hcomment
  | endOfInput => cases h
  | _ => exact congrArg Prod.snd h

/-- What a refused line has read of its tokens begins some line of the grammar. -/
theorem viable_of_line_eq_error {tokens rest : List Token} {expected : Expectation}
    (h : line tokens = (.error expected, rest)) : ∃ word, tokens = word ++ rest ∧ Viable word := by
  by_cases hfront : (frontKind tokens).isTerminator
  · obtain ⟨left, hleft⟩ := closes_iff_isTerminator.mpr hfront
    rw [line_eq_ok_iff.mpr (.inl ⟨rfl, hleft⟩)] at h
    cases h
  rw [line_of_not_terminator (by simpa using hfront)] at h
  rcases bind_eq_error_iff.mp h with hread | ⟨read, front, hread, hend⟩
  · obtain ⟨word, more, read, rfl, hword⟩ := FailsWithin.statement hread
    have hline := IsLine.statement hword (show (sample .endOfLine).kind.isTerminator from rfl)
    exact ⟨word, rfl, more ++ [sample .endOfLine], read, by simpa using hline⟩
  · obtain ⟨word, hword, rfl⟩ := statement_eq_ok_iff.mp hread
    rcases bind_eq_error_iff.mp hend with hend | ⟨_, _, _, hpure⟩
    · obtain rfl := lineEnd_eq_error hend
      exact ⟨word, rfl, [sample .endOfLine], read, .statement hword rfl⟩
    · cases hpure

/-- The token that a line is refused at goes on with no line of the grammar. -/
theorem not_viable_of_line_eq_error {word rest : List Token} {token : Token}
    {expected : Expectation} (h : line (word ++ token :: rest) = (.error expected, token :: rest)) :
    ¬ Viable (word ++ [token]) := by
  rintro ⟨more, read, hline⟩
  obtain ⟨left, haccepted⟩ := line_of_isLine hline []
  have hrefused := LooksOneAhead.line.settled h (show (token :: more).head? = some token from rfl)
  rw [List.append_nil, List.append_assoc, List.singleton_append, hrefused] at haccepted
  cases haccepted

end TokenReader

namespace Parser

open TokenReader

/-- The tokens ahead of a parser. They end in an end of input, whether or not the tokens
    that it was given do. -/
def ahead (parser : Parser) : List Token :=
  parser.rest ++ [⟨.endOfInput, "", parser.finish⟩]

/-- It makes no difference to a line whether the end of input stands among the tokens. -/
theorem line_ahead (parser : Parser) :
    TokenReader.line parser.ahead = ((TokenReader.line parser.rest).1, parser.line.2.ahead) := by
  rw [ahead, StopsAtEnd.line parser.rest ⟨.endOfInput, "", parser.finish⟩ [] rfl, line]
  cases hline : TokenReader.line parser.rest with
  | mk result rest => cases result <;> rfl

/-- Where the input ends is not changed by reading a line. -/
theorem finish_line (parser : Parser) : parser.line.2.finish = parser.finish := by
  rw [line]
  cases hline : TokenReader.line parser.rest with
  | mk result rest => cases result <;> rfl

/-- The line is accepted by the parser when the tokens ahead of it are, and then both leave
    the same. -/
theorem line_eq_ok_iff {parser : Parser} {statement : Statement} :
    parser.line.1 = .ok statement ↔ ∃ left, TokenReader.line parser.ahead = (.ok statement, left) := by
  rw [line_ahead, line]
  cases hline : TokenReader.line parser.rest with
  | mk result rest => cases result <;> simp

/-- A line is read from the cursor, and moves it to what is left. -/
theorem ahead_of_line_ahead {parser : Parser} {result : Except Expectation Statement}
    {left : List Token} (h : TokenReader.line parser.ahead = (result, left)) :
    parser.line.2.ahead = left := by
  rw [line_ahead] at h
  exact congrArg Prod.snd h

/-- An error names the token in front of what is left. -/
theorem line_eq_error {parser : Parser} {error : ParseError} (h : parser.line.1 = .error error) :
    TokenReader.line parser.ahead = (.error error.expected, parser.line.2.ahead) ∧
      ∃ token rest, parser.line.2.ahead = token :: rest ∧ error.found = token.kind ∧
        error.position = token.position := by
  rw [line_ahead]
  unfold line at h ⊢
  cases hline : TokenReader.line parser.rest with
  | mk result rest =>
    rw [hline] at h
    cases result with
    | ok statement => cases h
    | error expected =>
      cases h
      refine ⟨rfl, ?_⟩
      cases rest with
      | nil => exact ⟨_, _, rfl, rfl, rfl⟩
      | cons token others => exact ⟨_, _, rfl, rfl, rfl⟩

/-- A line gives nothing exactly when its end stands at the cursor. -/
theorem line_eq_empty_iff {parser : Parser} :
    parser.line.1 = .ok .empty ↔ (frontKind parser.ahead).isTerminator := by
  rw [line_eq_ok_iff, ← closes_iff_isTerminator]
  constructor
  · rintro ⟨rest, h⟩
    obtain ⟨_, hcloses⟩ | ⟨word, _, hword, _⟩ := TokenReader.line_eq_ok_iff.mp h
    · exact ⟨rest, hcloses⟩
    · exact absurd rfl hword.ne_empty
  · rintro ⟨rest, hcloses⟩
    exact ⟨rest, TokenReader.line_eq_ok_iff.mpr (.inl ⟨rfl, hcloses⟩)⟩

/-- A blank line leaves what stands behind its end. -/
theorem closes_of_line_eq_empty {parser : Parser} (h : parser.line.1 = .ok .empty) :
    Closes parser.ahead parser.line.2.ahead := by
  obtain ⟨rest, hline⟩ := line_eq_ok_iff.mp h
  rw [ahead_of_line_ahead hline]
  obtain ⟨_, hcloses⟩ | ⟨word, _, hword, _⟩ := TokenReader.line_eq_ok_iff.mp hline
  · exact hcloses
  · exact absurd rfl hword.ne_empty

/-- A line gives a statement exactly when one of the grammar stands at the cursor with an end behind
    it. -/
theorem line_eq_statement_iff {parser : Parser} {statement : Statement}
    (hne : statement ≠ .empty) :
    parser.line.1 = .ok statement ↔
      ∃ word rest, IsStatement word statement ∧ parser.ahead = word ++ rest ∧
        (frontKind rest).isTerminator := by
  rw [line_eq_ok_iff]
  constructor
  · rintro ⟨_, h⟩
    obtain ⟨hempty, _⟩ | ⟨word, rest, hword, hsplit, hcloses⟩ := TokenReader.line_eq_ok_iff.mp h
    · exact absurd hempty hne
    · exact ⟨word, rest, hword, hsplit, closes_iff_isTerminator.mp ⟨_, hcloses⟩⟩
  · rintro ⟨word, rest, hword, hsplit, hfront⟩
    obtain ⟨behind, hcloses⟩ := closes_iff_isTerminator.mpr hfront
    exact ⟨behind, TokenReader.line_eq_ok_iff.mpr (.inr ⟨word, rest, hword, hsplit, hcloses⟩)⟩

/-- A statement leaves what stands behind the end of its line. -/
theorem closes_of_isStatement {parser : Parser} {statement : Statement} {word rest : List Token}
    (hword : IsStatement word statement) (hsplit : parser.ahead = word ++ rest)
    (hfront : (frontKind rest).isTerminator) : Closes rest parser.line.2.ahead := by
  obtain ⟨behind, hcloses⟩ := closes_iff_isTerminator.mpr hfront
  have hline := TokenReader.line_eq_ok_iff.mpr (.inr ⟨word, rest, hword, hsplit, hcloses⟩)
  rwa [ahead_of_line_ahead hline]

/-- An error is of the first token that no line of the grammar goes on with. -/
theorem viable_of_line_eq_error {parser : Parser} {error : ParseError}
    (h : parser.line.1 = .error error) :
    ∃ consumed token rest, parser.ahead = consumed ++ token :: rest ∧
      parser.line.2.ahead = token :: rest ∧ error.found = token.kind ∧
        error.position = token.position ∧ Viable consumed ∧ ¬ Viable (consumed ++ [token]) := by
  obtain ⟨hline, token, rest, hrest, hfound, hposition⟩ := line_eq_error h
  obtain ⟨consumed, hconsumed, hviable⟩ := TokenReader.viable_of_line_eq_error hline
  rw [hrest] at hconsumed hline
  rw [hconsumed] at hline
  exact ⟨consumed, token, rest, hconsumed, hrest, hfound, hposition, hviable,
    not_viable_of_line_eq_error hline⟩

/-- One line is read exactly as the grammar has it. It is blank if the end of a line comes
    first, and it is a statement if a word of that statement and then the end of a line
    come first; the parser then stands behind that end, but never behind an end of
    input. Otherwise the line is refused, and the parser stands at the token that the
    error names: what was read before it begins some line of the grammar, and with that
    token it begins none. The end of input that is put behind the tokens stands at the
    beginning of the line after the last of them, as 32 bits count lines, and of line 1
    if there are none. -/
theorem line_reads_grammar (tokens : List Token) (cursor : Nat) :
    let parser : Parser := { Parser.ofTokens tokens with rest := tokens.drop cursor }
    let lastLine := (tokens.getLast?.map fun token => token.position.line).getD 0
    let finish : Token := ⟨.endOfInput, "", ⟨Position.lineAfter lastLine, 1⟩⟩
    let ahead := tokens.drop cursor ++ [finish]
    let left := parser.line.2.rest ++ [finish]
    (lastLine + 1 < UInt32.size → finish = .endOfInput lastLine) ∧
      (parser.line.1 = .ok .empty ↔ (frontKind ahead).isTerminator) ∧
      (parser.line.1 = .ok .empty → Closes ahead left) ∧
      (∀ statement, statement ≠ .empty → (parser.line.1 = .ok statement ↔
        ∃ word rest, IsStatement word statement ∧ ahead = word ++ rest ∧
          (frontKind rest).isTerminator)) ∧
      (∀ statement word rest, IsStatement word statement → ahead = word ++ rest →
        (frontKind rest).isTerminator → Closes rest left) ∧
      (∀ error, parser.line.1 = .error error → ∃ consumed token rest,
        ahead = consumed ++ token :: rest ∧ left = token :: rest ∧
          error.found = token.kind ∧ error.position = token.position ∧
            Viable consumed ∧ ¬ Viable (consumed ++ [token])) := by
  intro parser lastLine finish ahead left
  have hfinish : (⟨.endOfInput, "", parser.finish⟩ : Token) = finish := by
    simp only [parser, lastLine, finish, ofTokens]
    cases tokens.getLast? <;> rfl
  have hline : lastLine + 1 < UInt32.size → finish = .endOfInput lastLine := fun hlt => by
    simp only [finish, Position.lineAfter_of_lt hlt, Token.endOfInput]
  have hahead : parser.ahead = ahead := by rw [Parser.ahead, hfinish]
  have hleft : parser.line.2.ahead = left := by rw [Parser.ahead, finish_line, hfinish]
  rw [← hahead, ← hleft]
  exact ⟨hline, line_eq_empty_iff, closes_of_line_eq_empty, fun _ hne => line_eq_statement_iff hne,
    fun _ _ _ hword hsplit hfront => closes_of_isStatement hword hsplit hfront,
    fun _ herror => viable_of_line_eq_error herror⟩

/-- The second operand is missing, and another token stands in its place. -/
theorem line_reads_grammar_missing_operand :
    let comma : Token := ⟨.comma, ",", ⟨1, 5⟩⟩
    let consumed : List Token := [⟨.literal, "A", ⟨1, 1⟩⟩, ⟨.greater, ">", ⟨1, 3⟩⟩]
    let parser := Parser.ofTokens (consumed ++ [comma])
    parser.line.1 = .error ⟨.literal, .comma, ⟨1, 5⟩⟩ ∧ Viable consumed ∧
      ¬ Viable (consumed ++ [comma]) := by
  intro comma consumed parser
  have hline : parser.line =
      (.error ⟨.literal, .comma, ⟨1, 5⟩⟩, { parser with rest := [comma] }) := rfl
  have herror : parser.line.1 = .error ⟨.literal, .comma, ⟨1, 5⟩⟩ := congrArg Prod.fst hline
  obtain ⟨_, _, _, _, _, hrefused⟩ := line_reads_grammar (consumed ++ [comma]) 0
  obtain ⟨before, token, rest, hsplit, hleft, _, _, hviable, hnot⟩ := hrefused _ herror
  have hfront : [comma, .endOfInput 1] = token :: rest := hleft
  cases hfront
  have hcut : consumed ++ [comma, .endOfInput 1] = before ++ [comma, .endOfInput 1] := hsplit
  obtain rfl : consumed = before := List.append_cancel_right hcut
  exact ⟨herror, hviable, hnot⟩

end Parser

end CollisionRules
