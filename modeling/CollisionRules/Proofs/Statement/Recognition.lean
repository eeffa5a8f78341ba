import CollisionRules.Proofs.Statement.EndOfInput
import CollisionRules.Proofs.Statement.Grammar

namespace CollisionRules

open Grammar

namespace TokenReader

variable {α β : Type}

/-- Two readers give a value together when the second gives it on what the first leaves. -/
theorem bind_eq_ok_iff {reader : TokenReader α} {next : α → TokenReader β}
    {tokens rest : List Token}
    {b : β} :
    (reader >>= next) tokens = (.ok b, rest) ↔
      ∃ a front, reader tokens = (.ok a, front) ∧ next a front = (.ok b, rest) := by
  rw [bind_apply]
  cases hrun : reader tokens with
  | mk result front =>
    cases result with
    | error expected => simp
    | ok a =>
      constructor
      · intro h
        exact ⟨a, front, rfl, h⟩
      · rintro ⟨_, _, heq, h⟩
        cases heq
        exact h

/-- Two readers fail together when either of them does. -/
theorem bind_eq_error_iff {reader : TokenReader α} {next : α → TokenReader β}
    {tokens rest : List Token} {expected : Expectation} :
    (reader >>= next) tokens = (.error expected, rest) ↔
      reader tokens = (.error expected, rest) ∨
        ∃ a front, reader tokens = (.ok a, front) ∧ next a front = (.error expected, rest) := by
  rw [bind_apply]
  cases hrun : reader tokens with
  | mk result front =>
    cases result with
    | error other => simp
    | ok a =>
      constructor
      · intro h
        exact .inr ⟨a, front, rfl, h⟩
      · rintro (heq | ⟨_, _, heq, h⟩)
        · cases heq
        · cases heq
          exact h

theorem pure_eq_ok_iff {a b : α} {tokens rest : List Token} :
    (pure a : TokenReader α) tokens = (.ok b, rest) ↔ a = b ∧ tokens = rest := by
  simp [pure]

theorem frontKind_eq_iff {kind : TokenKind} (hkind : kind ≠ .endOfInput) {tokens : List Token} :
    frontKind tokens = kind ↔ ∃ token rest, tokens = token :: rest ∧ token.kind = kind := by
  cases tokens with
  | nil => simp [frontKind, hkind.symm]
  | cons token rest => simp [frontKind]

/-- A token of any kind but the end of input is taken. -/
theorem skip_cons {token : Token} (hkind : token.kind ≠ .endOfInput) (rest : List Token) :
    skip (token :: rest) = rest := by
  simp [skip, hkind]

/-- An expected token is taken when it stands in front. -/
theorem expect_eq_ok_iff {kind : TokenKind} (hkind : kind ≠ .endOfInput) {expected : Expectation}
    {tokens rest : List Token} {a : Unit} :
    expect kind expected tokens = (.ok a, rest) ↔
      ∃ token, token.kind = kind ∧ tokens = token :: rest := by
  cases tokens with
  | nil => simp [expect, frontKind, hkind.symm]
  | cons token others =>
    by_cases htoken : token.kind = kind
    · have hskip := skip_cons (htoken ▸ hkind) others
      constructor
      · intro h
        obtain rfl : others = rest := by simpa [expect, frontKind, htoken, hskip] using h
        exact ⟨token, htoken, rfl⟩
      · rintro ⟨_, _, heq⟩
        cases heq
        simp [expect, frontKind, htoken, hskip]
    · constructor
      · intro h
        simp [expect, frontKind, htoken] at h
      · rintro ⟨_, hkind, heq⟩
        cases heq
        exact absurd hkind htoken

/-- A literal is read when it stands in front. -/
theorem literal_eq_ok_iff {tokens rest : List Token} {token : Token} :
    literal tokens = (.ok token, rest) ↔ token.kind = .literal ∧ tokens = token :: rest := by
  cases tokens with
  | nil => simp [literal]
  | cons other others =>
    by_cases hother : other.kind = .literal
    · constructor
      · intro h
        obtain ⟨rfl, rfl⟩ : other = token ∧ others = rest := by simpa [literal, hother] using h
        exact ⟨hother, rfl⟩
      · rintro ⟨_, heq⟩
        cases heq
        simp [literal, hother]
    · constructor
      · intro h
        simp [literal, hother] at h
      · rintro ⟨hkind, heq⟩
        cases heq
        exact absurd hkind hother

/-- A reader behind an expected token goes on behind that token. -/
theorem expect_bind_eq_ok_iff {kind : TokenKind} (hkind : kind ≠ .endOfInput)
    {expected : Expectation} {next : Unit → TokenReader β} {tokens rest : List Token} {b : β} :
    (expect kind expected >>= next) tokens = (.ok b, rest) ↔
      ∃ token front, token.kind = kind ∧ tokens = token :: front ∧ next () front = (.ok b, rest) := by
  simp only [bind_eq_ok_iff, expect_eq_ok_iff hkind]
  constructor
  · rintro ⟨_, front, ⟨token, htoken, rfl⟩, h⟩
    exact ⟨token, front, htoken, rfl, h⟩
  · rintro ⟨token, front, htoken, rfl, h⟩
    exact ⟨(), front, ⟨token, htoken, rfl⟩, h⟩

theorem literal_bind_eq_ok_iff {next : Token → TokenReader β} {tokens rest : List Token} {b : β} :
    (literal >>= next) tokens = (.ok b, rest) ↔
      ∃ token front, token.kind = .literal ∧ tokens = token :: front ∧
        next token front = (.ok b, rest) := by
  simp only [bind_eq_ok_iff, literal_eq_ok_iff, and_assoc]

/-- What is read as an operand is an operand of the grammar, and every one is. -/
theorem operand_eq_ok_iff {tokens rest : List Token} {read : Operand} :
    operand tokens = (.ok read, rest) ↔ ∃ word, IsOperand word read ∧ tokens = word ++ rest := by
  by_cases hfront : frontKind tokens = .dollar
  · obtain ⟨mark, others, rfl, hmark⟩ := (frontKind_eq_iff (by decide)).mp hfront
    have haccept : accept .dollar (mark :: others) = (.ok true, others) := by
      simp [accept, frontKind, hmark, skip]
    simp only [operand, bind_eq_ok_iff, haccept, pure_eq_ok_iff, literal_eq_ok_iff]
    constructor
    · rintro ⟨_, _, heq, name, _, ⟨hname, rfl⟩, rfl, rfl⟩
      cases heq
      exact ⟨_, .group hmark hname, rfl⟩
    · rintro ⟨_, hword | ⟨_, hname⟩, heq⟩
      · cases heq
        simp [hmark] at hword
      · cases heq
        exact ⟨_, _, rfl, _, _, ⟨hname, rfl⟩, rfl, rfl⟩
  · have haccept : accept .dollar tokens = (.ok false, tokens) := by simp [accept, hfront]
    simp only [operand, bind_eq_ok_iff, haccept, pure_eq_ok_iff, literal_eq_ok_iff]
    constructor
    · rintro ⟨_, _, heq, name, _, ⟨hname, rfl⟩, rfl, rfl⟩
      cases heq
      exact ⟨_, .ability hname, rfl⟩
    · rintro ⟨_, hname | ⟨hmark, _⟩, rfl⟩
      · exact ⟨_, _, rfl, _, _, ⟨hname, rfl⟩, rfl, rfl⟩
      · exact absurd hmark hfront

/-- An operand is read off the front of whatever follows it. -/
theorem operand_append {word : List Token} {read : Operand} (hword : IsOperand word read)
    (rest : List Token) : operand (word ++ rest) = (.ok read, rest) :=
  operand_eq_ok_iff.mpr ⟨word, hword, rfl⟩

/-- A list of operands that no comma follows ends where its word does. -/
theorem operands_eq_ok_iff {tokens rest : List Token} {read : List Operand} :
    operands tokens = (.ok read, rest) ↔
      ∃ word, IsOperands word read ∧ tokens = word ++ rest ∧ frontKind rest ≠ .comma := by
  constructor
  · intro h
    fun_induction operands tokens generalizing read rest with
    | case1 => cases h
    | case2 tokens first hfirst =>
      cases h
      obtain ⟨word, hword, rfl⟩ := operand_eq_ok_iff.mp hfirst
      exact ⟨word, .single hword, rfl, by simp [frontKind]⟩
    | case3 tokens first comma others hfirst hcomma members final hmembers ih =>
      cases h
      obtain ⟨word, hword, rfl⟩ := operand_eq_ok_iff.mp hfirst
      obtain ⟨more, hmore, rfl, hfront⟩ := ih hmembers
      exact ⟨_, .more hword hcomma hmore, by simp, hfront⟩
    | case4 => cases h
    | case5 tokens first token others hfirst hcomma =>
      cases h
      obtain ⟨word, hword, rfl⟩ := operand_eq_ok_iff.mp hfirst
      exact ⟨word, .single hword, rfl, hcomma⟩
  · rintro ⟨word, hword, rfl, hfront⟩
    induction hword with
    | single hoperand =>
      rw [operands_apply, operand_append hoperand]
      cases rest with
      | nil => rfl
      | cons token others => simp [show token.kind ≠ .comma from hfront]
    | @more word others comma operand members hoperand hcomma hothers ih =>
      rw [List.append_assoc, operands_apply, operand_append hoperand]
      simp [hcomma, ih]

/-- An operand does not begin with a closing brace. -/
theorem frontKind_of_isOperands {word : List Token} {members : List Operand}
    (hword : IsOperands word members) (rest : List Token) :
    frontKind (word ++ rest) ≠ .closeBrace := by
  have hoperand {first : List Token} {operand : Operand} (hfirst : IsOperand first operand)
      (others : List Token) : frontKind (first ++ others) ≠ .closeBrace := by
    cases hfirst with
    | ability hname => simp [frontKind, hname]
    | group hmark _ => simp [frontKind, hmark]
  cases hword with
  | single hfirst => exact hoperand hfirst rest
  | more hfirst _ _ =>
    rw [List.append_assoc]
    exact hoperand hfirst _

/-- What is read as members is in the grammar, whatever token stops it. -/
theorem isMembers_of_members {tokens rest : List Token} {read : List Operand}
    (h : members tokens = (.ok read, rest)) :
    ∃ word, IsMembers word read ∧ tokens = word ++ rest := by
  unfold members at h
  split at h
  · cases h
    exact ⟨[], .none, rfl⟩
  · obtain ⟨word, hword, rfl, _⟩ := operands_eq_ok_iff.mp h
    exact ⟨word, .some hword, rfl⟩

/-- Members in braces are read up to the closing brace, and only those of the grammar are. -/
theorem members_eq_ok_iff {tokens rest : List Token} {close : Token} {read : List Operand}
    (hclose : close.kind = .closeBrace) :
    members tokens = (.ok read, close :: rest) ↔
      ∃ word, IsMembers word read ∧ tokens = word ++ close :: rest := by
  constructor
  · exact isMembers_of_members
  · rintro ⟨_, hnone | hword, rfl⟩
    · simp [members, frontKind, hclose]
    · rw [members, if_neg (frontKind_of_isOperands hword (close :: rest))]
      exact operands_eq_ok_iff.mpr ⟨_, hword, rfl, by simp [frontKind, hclose]⟩

/-- The operators are the kinds that the grammar names. -/
theorem ofKind?_eq_some_iff {kind : TokenKind} {read : Operator} :
    Operator.ofKind? kind = some read ↔ IsOperator kind read := by
  constructor
  · intro h
    cases kind <;> cases h <;> constructor
  · rintro (_ | _ | _ | _ | _) <;> rfl

theorem operator_eq_ok_iff {tokens rest : List Token} {read : Operator} :
    operator tokens = (.ok read, rest) ↔
      ∃ symbol, IsOperator symbol.kind read ∧ tokens = symbol :: rest := by
  constructor
  · intro h
    unfold operator at h
    split at h
    · next found hfound =>
      cases h
      cases tokens with
      | nil => cases hfound
      | cons symbol others =>
        have hsymbol : IsOperator symbol.kind read := ofKind?_eq_some_iff.mp hfound
        have hend : symbol.kind ≠ .endOfInput := by
          intro hend
          rw [hend] at hsymbol
          cases hsymbol
        exact ⟨symbol, hsymbol, by rw [skip_cons hend]⟩
    · cases h
  · rintro ⟨symbol, hsymbol, rfl⟩
    have hend : symbol.kind ≠ .endOfInput := by
      intro hend
      rw [hend] at hsymbol
      cases hsymbol
    have hfound : Operator.ofKind? (frontKind (symbol :: rest)) = some read :=
      ofKind?_eq_some_iff.mpr hsymbol
    simp [operator, hfound, skip_cons hend]

/-- What is read as a declaration of a group is one of the grammar, and every one is. -/
theorem group_eq_ok_iff {tokens rest : List Token} {read : GroupDeclaration} :
    group tokens = (.ok read, rest) ↔ ∃ word, IsGroup word read ∧ tokens = word ++ rest := by
  constructor
  · intro h
    obtain ⟨start, front, hstart, h⟩ := bind_eq_ok_iff.mp h
    simp (disch := decide) only [expect_bind_eq_ok_iff, literal_bind_eq_ok_iff] at h
    obtain ⟨keyword, _, hkeyword, rfl, openQuote, _, hopenQuote, rfl, name, _, hname, rfl,
      closeQuote, _, hcloseQuote, rfl, openBrace, inner, hopenBrace, rfl, h⟩ := h
    obtain ⟨listed, _, hlisted, h⟩ := bind_eq_ok_iff.mp h
    simp (disch := decide) only [expect_bind_eq_ok_iff, pure_eq_ok_iff] at h
    obtain ⟨closeBrace, _, hcloseBrace, rfl, rfl, rfl⟩ := h
    obtain ⟨word, hword, rfl⟩ := (members_eq_ok_iff hcloseBrace).mp hlisted
    cases tokens with
    | nil => cases hstart
    | cons token others =>
      cases hstart
      exact ⟨_, .mk hkeyword hopenQuote hname hcloseQuote hopenBrace hword hcloseBrace, by simp⟩
  · rintro ⟨_, @⟨keyword, _, _, _, _, closeBrace, word, listed, hkeyword, hopenQuote, hname,
      hcloseQuote, hopenBrace, hword, hcloseBrace⟩, rfl⟩
    have hlisted : members (word ++ closeBrace :: rest) = (.ok listed, closeBrace :: rest) :=
      (members_eq_ok_iff hcloseBrace).mpr ⟨word, hword, rfl⟩
    simp only [List.cons_append, List.append_assoc, List.nil_append]
    refine bind_eq_ok_iff.mpr ⟨keyword.position, _, rfl, ?_⟩
    simp (disch := decide) only [expect_bind_eq_ok_iff, literal_bind_eq_ok_iff]
    refine ⟨_, _, hkeyword, rfl, _, _, hopenQuote, rfl, _, _, hname, rfl, _, _, hcloseQuote, rfl,
      _, _, hopenBrace, rfl, bind_eq_ok_iff.mpr ⟨listed, _, hlisted, ?_⟩⟩
    simp (disch := decide) only [expect_bind_eq_ok_iff]
    exact ⟨_, _, hcloseBrace, rfl, rfl⟩

/-- What is read as a collision is one of the grammar, and every one is. -/
theorem collision_eq_ok_iff {tokens rest : List Token} {read : CollisionDeclaration} :
    collision tokens = (.ok read, rest) ↔ ∃ word, IsCollision word read ∧ tokens = word ++ rest := by
  constructor
  · intro h
    obtain ⟨left, _, hleft, h⟩ := bind_eq_ok_iff.mp h
    obtain ⟨operator, _, hoperator, h⟩ := bind_eq_ok_iff.mp h
    obtain ⟨right, _, hright, h⟩ := bind_eq_ok_iff.mp h
    obtain ⟨rfl, rfl⟩ := pure_eq_ok_iff.mp h
    obtain ⟨leftWord, hleftWord, rfl⟩ := operand_eq_ok_iff.mp hleft
    obtain ⟨symbol, hsymbol, rfl⟩ := operator_eq_ok_iff.mp hoperator
    obtain ⟨rightWord, hrightWord, rfl⟩ := operand_eq_ok_iff.mp hright
    exact ⟨_, .mk hleftWord hsymbol hrightWord, by simp⟩
  · rintro ⟨_, ⟨hleft, hsymbol, hright⟩, rfl⟩
    rw [List.append_assoc]
    refine bind_eq_ok_iff.mpr ⟨_, _, operand_append hleft _, ?_⟩
    refine bind_eq_ok_iff.mpr ⟨_, _, operator_eq_ok_iff.mpr ⟨_, hsymbol, rfl⟩, ?_⟩
    exact bind_eq_ok_iff.mpr ⟨_, _, operand_append hright rest, rfl⟩

/-- Which production a statement is read by is seen from the token in front. -/
theorem statement_apply (tokens : List Token) :
    statement tokens =
      (match frontKind tokens with
        | .literal | .dollar => do return .collision (← collision)
        | .groupKeyword => do return .group (← group)
        | _ => fail .statement : TokenReader Statement) tokens :=
  rfl

/-- A collision begins with an operand, and so with no keyword. -/
theorem frontKind_of_isCollision {word : List Token} {read : CollisionDeclaration}
    (hword : IsCollision word read) (rest : List Token) :
    frontKind (word ++ rest) = .literal ∨ frontKind (word ++ rest) = .dollar := by
  obtain ⟨hleft, _, _⟩ := hword
  cases hleft with
  | ability hname => exact .inl hname
  | group hmark _ => exact .inr hmark

/-- What is read as a statement is one of the grammar, and every one is. -/
theorem statement_eq_ok_iff {tokens rest : List Token} {read : Statement} :
    statement tokens = (.ok read, rest) ↔ ∃ word, IsStatement word read ∧ tokens = word ++ rest := by
  constructor
  · intro h
    have hcollision (h : (collision >>= fun declaration => pure (.collision declaration)) tokens =
        (.ok read, rest)) : ∃ word, IsStatement word read ∧ tokens = word ++ rest := by
      obtain ⟨declaration, _, hread, h⟩ := bind_eq_ok_iff.mp h
      obtain ⟨rfl, rfl⟩ := pure_eq_ok_iff.mp h
      obtain ⟨word, hword, rfl⟩ := collision_eq_ok_iff.mp hread
      exact ⟨word, .collision hword, rfl⟩
    rw [statement_apply] at h
    generalize frontKind tokens = kind at h
    cases kind with
    | literal => exact hcollision h
    | dollar => exact hcollision h
    | groupKeyword =>
      obtain ⟨declaration, _, hread, h⟩ := bind_eq_ok_iff.mp h
      obtain ⟨rfl, rfl⟩ := pure_eq_ok_iff.mp h
      obtain ⟨word, hword, rfl⟩ := group_eq_ok_iff.mp hread
      exact ⟨word, .group hword, rfl⟩
    | _ => cases h
  · rintro ⟨word, hgroup | hcollision, rfl⟩
    · have hread : group (word ++ rest) = (.ok _, rest) := group_eq_ok_iff.mpr ⟨word, hgroup, rfl⟩
      have hfront : frontKind (word ++ rest) = .groupKeyword := by
        obtain ⟨hkeyword, _⟩ := hgroup
        exact hkeyword
      rw [statement_apply, hfront]
      exact bind_eq_ok_iff.mpr ⟨_, _, hread, rfl⟩
    · have hread : collision (word ++ rest) = (.ok _, rest) :=
        collision_eq_ok_iff.mpr ⟨word, hcollision, rfl⟩
      rw [statement_apply]
      rcases frontKind_of_isCollision hcollision rest with hfront | hfront
      · rw [hfront]
        exact bind_eq_ok_iff.mpr ⟨_, _, hread, rfl⟩
      · rw [hfront]
        exact bind_eq_ok_iff.mpr ⟨_, _, hread, rfl⟩

/-- A comment takes the end of its line with it, if that stands there. -/
theorem commentEnd_apply (tokens : List Token) :
    commentEnd tokens =
      (.ok (), if frontKind tokens = .endOfLine then skip tokens else tokens) := by
  change (accept .endOfLine >>= fun _ => pure ()) tokens = _
  rw [bind_apply, accept]
  by_cases hfront : frontKind tokens = .endOfLine
  · simp [hfront, pure]
  · simp [hfront, pure]

theorem lineEnd_apply (tokens : List Token) :
    lineEnd tokens =
      (match frontKind tokens with
        | .endOfLine => advance
        | .hash => advance >>= fun _ => commentEnd
        | .endOfInput => pure ()
        | _ => fail .lineEnd : TokenReader Unit) tokens :=
  rfl

/-- A line ends where the grammar closes it. -/
theorem lineEnd_eq_ok_iff {tokens rest : List Token} {a : Unit} :
    lineEnd tokens = (.ok a, rest) ↔ Closes tokens rest := by
  constructor
  · intro h
    rw [lineEnd_apply] at h
    cases hfront : frontKind tokens with
    | endOfLine =>
      rw [hfront] at h
      obtain ⟨finish, others, rfl, hfinish⟩ := (frontKind_eq_iff (by decide)).mp hfront
      obtain rfl : skip (finish :: others) = rest := congrArg Prod.snd h
      rw [skip_cons (by simp [hfinish])]
      exact .line hfinish
    | hash =>
      rw [hfront] at h
      obtain ⟨mark, others, rfl, hmark⟩ := (frontKind_eq_iff (by decide)).mp hfront
      have hcomment : commentEnd (skip (mark :: others)) = (.ok a, rest) := h
      rw [skip_cons (by simp [hmark]), commentEnd_apply] at hcomment
      by_cases hnext : frontKind others = .endOfLine
      · obtain ⟨finish, behind, rfl, hfinish⟩ := (frontKind_eq_iff (by decide)).mp hnext
        obtain rfl : behind = rest := by
          simpa [hnext, skip, hfinish] using hcomment
        exact .comment hmark hfinish
      · obtain rfl : others = rest := by simpa [hnext] using hcomment
        exact .bareComment hmark hnext
    | endOfInput =>
      rw [hfront] at h
      obtain rfl : tokens = rest := congrArg Prod.snd h
      exact .input hfront
    | _ =>
      rw [hfront] at h
      cases h
  · intro h
    rw [lineEnd_apply]
    cases h with
    | line hfinish => simp [frontKind, hfinish, advance, skip]
    | comment hmark hfinish =>
      simp [frontKind, hmark, bind_apply, advance, commentEnd_apply, skip, hfinish]
    | bareComment hmark hrest =>
      have hfront (others : List Token) : frontKind (_ :: others) = .hash := hmark
      simp [hfront, bind_apply, advance, commentEnd_apply, skip, hmark, hrest]
    | input htokens => simp [htokens, pure]

/-- A line without a statement is its end alone. -/
theorem line_of_terminator {tokens : List Token} (hfront : (frontKind tokens).isTerminator) :
    line tokens = (lineEnd >>= fun _ => pure .empty) tokens := by
  rw [line_apply, bind_apply, lineEnd_apply]
  generalize frontKind tokens = kind at hfront
  cases kind with
  | endOfLine => rfl
  | hash => rfl
  | endOfInput => rfl
  | _ => contradiction

/-- A line that does not begin with its end is a statement and then the end. -/
theorem line_of_not_terminator {tokens : List Token}
    (hfront : (frontKind tokens).isTerminator = false) :
    line tokens = (statement >>= fun read => lineEnd >>= fun _ => pure read) tokens := by
  rw [line_apply]
  generalize frontKind tokens = kind at hfront
  cases kind with
  | endOfLine => contradiction
  | hash => contradiction
  | endOfInput => contradiction
  | _ => rfl

/-- The end of a line begins with one of the kinds that may follow a statement, and each
    of them is an end of line. -/
theorem closes_iff_isTerminator {tokens : List Token} :
    (∃ rest, Closes tokens rest) ↔ (frontKind tokens).isTerminator := by
  constructor
  · rintro ⟨rest, h⟩
    cases h with
    | line hfinish => simp [frontKind, hfinish, TokenKind.isTerminator]
    | comment hmark _ => simp [frontKind, hmark, TokenKind.isTerminator]
    | bareComment hmark _ => simp [frontKind, hmark, TokenKind.isTerminator]
    | input htokens => simp [htokens, TokenKind.isTerminator]
  · intro h
    cases hfront : frontKind tokens with
    | endOfLine =>
      obtain ⟨finish, others, rfl, hfinish⟩ := (frontKind_eq_iff (by decide)).mp hfront
      exact ⟨others, .line hfinish⟩
    | hash =>
      obtain ⟨mark, others, rfl, hmark⟩ := (frontKind_eq_iff (by decide)).mp hfront
      by_cases hnext : frontKind others = .endOfLine
      · obtain ⟨finish, behind, rfl, hfinish⟩ := (frontKind_eq_iff (by decide)).mp hnext
        exact ⟨behind, .comment hmark hfinish⟩
      · exact ⟨others, .bareComment hmark hnext⟩
    | endOfInput => exact ⟨tokens, .input hfront⟩
    | _ =>
      rw [hfront] at h
      contradiction

/-- A line is accepted when it is empty or holds one statement, and is closed behind that. -/
theorem line_eq_ok_iff {tokens rest : List Token} {read : Statement} :
    line tokens = (.ok read, rest) ↔
      (read = .empty ∧ Closes tokens rest) ∨
        ∃ word tail, IsStatement word read ∧ tokens = word ++ tail ∧ Closes tail rest := by
  constructor
  · intro h
    by_cases hfront : (frontKind tokens).isTerminator
    · rw [line_of_terminator hfront] at h
      obtain ⟨_, _, hend, h⟩ := bind_eq_ok_iff.mp h
      obtain ⟨rfl, rfl⟩ := pure_eq_ok_iff.mp h
      exact .inl ⟨rfl, lineEnd_eq_ok_iff.mp hend⟩
    · rw [line_of_not_terminator (by simpa using hfront)] at h
      obtain ⟨_, _, hread, h⟩ := bind_eq_ok_iff.mp h
      obtain ⟨_, _, hend, h⟩ := bind_eq_ok_iff.mp h
      obtain ⟨rfl, rfl⟩ := pure_eq_ok_iff.mp h
      obtain ⟨word, hword, rfl⟩ := statement_eq_ok_iff.mp hread
      exact .inr ⟨word, _, hword, rfl, lineEnd_eq_ok_iff.mp hend⟩
  · rintro (⟨rfl, hend⟩ | ⟨word, tail, hword, rfl, hend⟩)
    · rw [line_of_terminator (closes_iff_isTerminator.mp ⟨rest, hend⟩)]
      exact bind_eq_ok_iff.mpr ⟨(), rest, lineEnd_eq_ok_iff.mpr hend, rfl⟩
    · have hread : statement (word ++ tail) = (.ok read, tail) :=
        statement_eq_ok_iff.mpr ⟨word, hword, rfl⟩
      rw [line_of_not_terminator (hword.frontKind_append tail)]
      refine bind_eq_ok_iff.mpr ⟨read, tail, hread, ?_⟩
      exact bind_eq_ok_iff.mpr ⟨(), rest, lineEnd_eq_ok_iff.mpr hend, rfl⟩

end TokenReader

end CollisionRules
