import CollisionRules.Proofs.Statement.Blame
import CollisionRules.Proofs.Text.Cut
import CollisionRules.Proofs.Token.Tokenization

namespace CollisionRules

open Grammar

namespace Grammar

/-- Tokens part in only one way into such as end no line and a rest that begins with one
    that does. -/
theorem append_inj_of_terminator {word other tail behind : List Token}
    (hword : ∀ token ∈ word, token.kind.isTerminator = false)
    (hother : ∀ token ∈ other, token.kind.isTerminator = false)
    (htail : (TokenReader.frontKind tail).isTerminator)
    (hbehind : (TokenReader.frontKind behind).isTerminator)
    (h : word ++ tail = other ++ behind) : word = other ∧ tail = behind := by
  have hcut : ∀ {front rest : List Token}, (∀ token ∈ front, token.kind.isTerminator = false) →
      (TokenReader.frontKind rest).isTerminator →
      (front ++ rest).takeWhile (fun token => !token.kind.isTerminator) = front := by
    intro front rest hfront hrest
    refine (Text.takeWhile_append_of_head? (by simpa using hfront) fun token htoken => ?_).1
    obtain ⟨others, rfl⟩ := List.head?_eq_some_iff.mp htoken
    have hterminator : token.kind.isTerminator = true := hrest
    simp [hterminator]
  have heq : word = other := by
    rw [← hcut hword htail, h, hcut hother hbehind]
  subst heq
  exact ⟨rfl, List.append_cancel_left h⟩

/-- Only the last token of a line could end it. -/
theorem IsLine.inner {line : List Token} {read : Statement} (hline : IsLine line read) :
    ∀ token ∈ line.dropLast, token.kind.isTerminator = false := by
  cases hline with
  | blank => simp
  | statement hstatement _ =>
    rw [List.dropLast_concat]
    exact hstatement.inner

/-- A line is complete once it has a token that may end it. -/
theorem Viable.isLine {tokens : List Token} (hviable : Viable tokens) {token : Token}
    (hmem : token ∈ tokens) (hend : token.kind.isTerminator) : ∃ read, IsLine tokens read := by
  obtain ⟨more, read, hline⟩ := hviable
  rcases List.eq_nil_or_concat' more with rfl | ⟨more, last, rfl⟩
  · exact ⟨read, by simpa using hline⟩
  · have hinside : token ∈ (tokens ++ (more ++ [last])).dropLast := by
      rw [← List.append_assoc, List.dropLast_concat]
      exact List.mem_append_left _ hmem
    rw [hline.inner token hinside] at hend
    contradiction

/-- The tokens of a physical line in two parts: such as end no line, and then its end,
    which closes the line whatever comes behind. -/
structure IsEnded (inner ending : List Token) : Prop where
  inner : ∀ token ∈ inner, token.kind.isTerminator = false
  closes : ∀ rest left, Closes (ending ++ rest) left ↔ left = rest

/-- An end of line closes its line and takes nothing else. -/
theorem closes_endOfLine_iff {finish : Token} (hfinish : finish.kind = .endOfLine)
    {rest left : List Token} : Closes (finish :: rest) left ↔ left = rest := by
  constructor
  · intro h
    cases h with
    | line => rfl
    | comment hmark => simp [hmark] at hfinish
    | bareComment hmark => simp [hmark] at hfinish
    | input htokens => simp [TokenReader.frontKind, hfinish] at htokens
  · rintro rfl
    exact .line hfinish

/-- A comment mark closes its line along with the end of line behind it. -/
theorem closes_comment_iff {mark finish : Token} (hmark : mark.kind = .hash)
    (hfinish : finish.kind = .endOfLine) {rest left : List Token} :
    Closes (mark :: finish :: rest) left ↔ left = rest := by
  constructor
  · intro h
    cases h with
    | line hline => simp [hmark] at hline
    | comment => rfl
    | bareComment _ hrest => exact absurd hfinish hrest
    | input htokens => simp [TokenReader.frontKind, hmark] at htokens
  · rintro rfl
    exact .comment hmark hfinish

theorem IsEnded.cons {inner ending : List Token} (hended : IsEnded inner ending) {token : Token}
    (htoken : token.kind.isTerminator = false) : IsEnded (token :: inner) ending where
  inner := List.forall_mem_cons.mpr ⟨htoken, hended.inner⟩
  closes := hended.closes

end Grammar

/-- Of the special characters only the comment mark may follow a statement. -/
theorem TokenKind.isTerminator_of_special {c : Char} {kind : TokenKind}
    (hkind : ofSpecial? c = some kind) (hhash : kind ≠ .hash) : kind.isTerminator = false := by
  have hnot := Token.special_kind_not_mem hkind
  cases kind with
  | hash => contradiction
  | endOfLine => simp at hnot
  | endOfInput => simp at hnot
  | _ => rfl

/-- No word ends a statement. -/
theorem Token.isTerminator_wordKind (word : List Char) :
    (wordKind word).isTerminator = false := by
  unfold wordKind
  split <;> rfl

/-- The tokens of a line are those that can stand in a statement, and then those that close it. -/
theorem Token.exists_isEnded (line column : Nat) (text : List Char) :
    ∃ inner ending, ofLine line column text = inner ++ ending ∧ IsEnded inner ending := by
  fun_induction ofLine line column text with
  | case1 column =>
    refine ⟨[], [.endOfLine ⟨line, column⟩], rfl, by simp, fun rest left => ?_⟩
    exact closes_endOfLine_iff rfl
  | case2 column c rest =>
    refine ⟨[], [⟨.hash, "#", ⟨line, column⟩⟩, .endOfLine ⟨line, column + 1⟩], rfl, by simp,
      fun rest left => ?_⟩
    exact closes_comment_iff rfl rfl
  | case3 column c rest kind hnothash hspecial ih =>
    obtain ⟨inner, ending, heq, hended⟩ := ih
    have hkind : kind.isTerminator = false :=
      TokenKind.isTerminator_of_special hspecial fun hhash => hnothash hhash
    exact ⟨_ :: inner, ending, by rw [heq]; rfl, hended.cons hkind⟩
  | case4 column c rest _ _ ih => exact ih
  | case5 column c rest _ _ word ih =>
    obtain ⟨inner, ending, heq, hended⟩ := ih
    exact ⟨_ :: inner, ending, by rw [heq]; rfl, hended.cons (isTerminator_wordKind word)⟩

namespace TokenReader

/-- A line is accepted if its tokens are the word of a statement, or none, before its end,
    and then all that follows it is left. -/
theorem line_append_eq_ok_iff {inner ending rest left : List Token} {read : Statement}
    (hended : IsEnded inner ending) :
    line (inner ++ ending ++ rest) = (.ok read, left) ↔
      left = rest ∧ (inner = [] ∧ read = .empty ∨ IsStatement inner read) := by
  have hfront : (frontKind (ending ++ rest)).isTerminator :=
    closes_iff_isTerminator.mp ⟨rest, (hended.closes rest rest).mpr rfl⟩
  rw [line_eq_ok_iff, List.append_assoc]
  constructor
  · rintro (⟨hempty, hcloses⟩ | ⟨word, tail, hword, heq, hcloses⟩)
    · have hstart := closes_iff_isTerminator.mp ⟨left, hcloses⟩
      obtain ⟨rfl, _⟩ := append_inj_of_terminator hended.inner (by simp) hfront hstart
        (List.nil_append _).symm
      exact ⟨(hended.closes rest left).mp hcloses, .inl ⟨rfl, hempty⟩⟩
    · have htail := closes_iff_isTerminator.mp ⟨left, hcloses⟩
      obtain ⟨rfl, rfl⟩ := append_inj_of_terminator hended.inner hword.inner hfront htail heq
      exact ⟨(hended.closes rest left).mp hcloses, .inr hword⟩
  · rintro ⟨rfl, ⟨rfl, rfl⟩ | hword⟩
    · exact .inl ⟨rfl, (hended.closes left left).mpr rfl⟩
    · exact .inr ⟨inner, ending ++ left, hword, rfl, (hended.closes left left).mpr rfl⟩

/-- Recovery takes the rest of a line with its end, and nothing of the next one. -/
theorem recover_append_endOfLine {front rest : List Token} {finish : Token}
    (hfront : ∀ token ∈ front, token.kind ≠ .endOfLine ∧ token.kind ≠ .endOfInput)
    (hfinish : finish.kind = .endOfLine) : recover (front ++ finish :: rest) = rest := by
  induction front with
  | nil => simp [recover, hfinish]
  | cons token others ih =>
    obtain ⟨hline, hinput⟩ := hfront token List.mem_cons_self
    have hothers := ih fun other hother => hfront other (List.mem_cons_of_mem _ hother)
    rw [List.cons_append, recover]
    split
    · contradiction
    · contradiction
    · exact hothers

/-- A refused line leaves one of its own tokens in front. What follows the line makes no
    difference to that, and is left by recovery. -/
theorem line_ofLine_of_error {number : Nat} {content : List Char} {expected : Expectation}
    {left : List Token} (h : line (Token.ofLine number 1 content) = (.error expected, left)) :
    (∃ token others, left = token :: others ∧ token ∈ Token.ofLine number 1 content) ∧
      ∀ rest, line (Token.ofLine number 1 content ++ rest) = (.error expected, left ++ rest) ∧
        recover (left ++ rest) = rest := by
  obtain ⟨front, hsplit, hfront⟩ := Token.ofLine_eq_concat number content
  rw [hsplit] at h ⊢
  obtain ⟨word, hword, hviable⟩ := viable_of_line_eq_error h
  have hleft : left ≠ [] := by
    -- otherwise the whole line has been read, and it is one of the grammar
    rintro rfl
    rw [List.append_nil] at hword
    rw [← hword] at hviable
    obtain ⟨read, hline⟩ := hviable.isLine (List.mem_append_right _ List.mem_cons_self) rfl
    obtain ⟨behind, haccepted⟩ := line_of_isLine hline []
    rw [List.append_nil, h] at haccepted
    cases haccepted
  refine ⟨?_, fun rest => ⟨?_, ?_⟩⟩
  · obtain ⟨token, others, rfl⟩ := List.exists_cons_of_ne_nil hleft
    exact ⟨token, others, rfl, by simp [hword]⟩
  · rw [hword] at h ⊢
    rw [List.append_assoc]
    exact LooksOneAhead.line.settled h (List.head?_append_of_ne_nil _ hleft)
  · obtain ⟨others, finish, rfl⟩ := (List.eq_nil_or_concat' left).resolve_left hleft
    rw [← List.append_assoc] at hword
    obtain ⟨hbefore, hfinish⟩ := List.append_inj' hword rfl
    obtain rfl := (List.cons.inj hfinish).1
    rw [List.append_assoc, List.singleton_append]
    exact recover_append_endOfLine (fun token hmem => hfront token (by simp [hbefore, hmem])) rfl

/-- A line is never mistaken for the end of input, be it empty. -/
theorem frontKind_ofLine_append (number : Nat) (content : List Char) (rest : List Token) :
    frontKind (Token.ofLine number 1 content ++ rest) ≠ .endOfInput := by
  obtain ⟨token, others, hcons⟩ :=
    List.exists_cons_of_ne_nil (Token.ofLine_ne_nil number 1 content)
  have htoken : Token.StandsIn number content token := Token.mem_ofLine_iff.mp (by simp [hcons])
  rw [hcons]
  exact htoken.kind_ne_endOfInput

end TokenReader

namespace ParseError

/-- An error that blames a token of line `number`, which reads `content`. -/
def IsOfLine (number : Nat) (content : List Char) (error : ParseError) : Prop :=
  ∃ token ∈ Token.ofLine number 1 content,
    token.kind = error.found ∧ token.position = error.position

variable {number : Nat} {content : List Char} {error : ParseError}

/-- An error of a line is on that line. -/
theorem IsOfLine.line_eq (herror : error.IsOfLine number content) :
    error.position.line = number := by
  obtain ⟨token, hmem, _, hposition⟩ := herror
  rw [← hposition]
  exact (Token.mem_ofLine_iff.mp hmem).line_eq

/-- No line is refused for an end of input, for each has its own end before it. -/
theorem IsOfLine.found_ne_endOfInput (herror : error.IsOfLine number content) :
    error.found ≠ .endOfInput := by
  obtain ⟨token, hmem, hkind, _⟩ := herror
  rw [← hkind]
  exact (Token.mem_ofLine_iff.mp hmem).kind_ne_endOfInput

end ParseError

namespace Parser

open TokenReader

/-- What line `number` of a source says if it reads `content`. -/
def outcome (number : Nat) (content : List Char) : Except ParseError Statement :=
  (ofTokens (Token.ofLine number 1 content)).line.1

/-- What lines say that follow `linesRead` others. -/
def outcomes (linesRead : Nat) (texts : List (List Char)) : List (Except ParseError Statement) :=
  (texts.zipIdx (linesRead + 1)).map fun entry => outcome entry.2 entry.1

theorem outcomes_cons (linesRead : Nat) (text : List Char) (rest : List (List Char)) :
    outcomes linesRead (text :: rest) =
      outcome (linesRead + 1) text :: outcomes (linesRead + 1) rest :=
  rfl

/-- A line by itself is accepted when it can be read at the front of its tokens. -/
theorem outcome_eq_ok_iff {number : Nat} {content : List Char} {read : Statement} :
    outcome number content = .ok read ↔
      ∃ left, TokenReader.line (Token.ofLine number 1 content) = (.ok read, left) := by
  rw [outcome, line, ofTokens]
  cases TokenReader.line (Token.ofLine number 1 content) with
  | mk result left => cases result <;> simp

/-- A line is accepted if its tokens before its end are the word of a statement, or none. -/
theorem outcome_eq_ok_iff_isStatement {number : Nat} {content : List Char}
    {inner ending : List Token} {read : Statement}
    (htokens : Token.ofLine number 1 content = inner ++ ending) (hended : IsEnded inner ending) :
    outcome number content = .ok read ↔ inner = [] ∧ read = .empty ∨ IsStatement inner read := by
  have hline (left : List Token) : TokenReader.line (inner ++ ending) = (.ok read, left) ↔
      left = [] ∧ (inner = [] ∧ read = .empty ∨ IsStatement inner read) := by
    rw [← line_append_eq_ok_iff hended, List.append_nil]
  rw [outcome_eq_ok_iff, htokens]
  simp only [hline, exists_eq_left]

/-- A line is accepted whatever follows it, and refused whatever follows it. -/
theorem line_of_outcome (number : Nat) (content : List Char) :
    (∃ read, outcome number content = .ok read ∧
        ∀ rest, TokenReader.line (Token.ofLine number 1 content ++ rest) = (.ok read, rest)) ∨
      ∃ expected token others, token ∈ Token.ofLine number 1 content ∧
        outcome number content = .error ⟨expected, token.kind, token.position⟩ ∧
        ∀ rest, recover (token :: others ++ rest) = rest ∧
          TokenReader.line (Token.ofLine number 1 content ++ rest) =
            (.error expected, token :: others ++ rest) := by
  obtain ⟨inner, ending, htokens, hended⟩ := Token.exists_isEnded number 1 content
  cases hline : TokenReader.line (Token.ofLine number 1 content) with
  | mk result left =>
    cases result with
    | ok read =>
      left
      refine ⟨read, by simp [outcome, line, ofTokens, hline], fun rest => ?_⟩
      rw [htokens, ← List.append_nil (inner ++ ending)] at hline
      obtain ⟨_, hread⟩ := (line_append_eq_ok_iff hended).mp hline
      rw [htokens]
      exact (line_append_eq_ok_iff hended).mpr ⟨rfl, hread⟩
    | error expected =>
      right
      obtain ⟨⟨token, others, rfl, hmem⟩, hrest⟩ := line_ofLine_of_error hline
      refine ⟨expected, token, others, hmem, ?_, fun rest => (hrest rest).symm⟩
      simp [outcome, line, ofTokens, hline, errorAt, frontKind]

/-- The error of a line, if it is refused. -/
def refusal? : Except ParseError Statement → Option ParseError
  | .ok _ => none
  | .error error => some error

@[simp] theorem refusal?_ok (read : Statement) : refusal? (.ok read) = none :=
  rfl

@[simp] theorem refusal?_error (error : ParseError) : refusal? (.error error) = some error :=
  rfl

/-- What is refused is what gave an error. -/
theorem refusal?_eq_some_iff {outcome : Except ParseError Statement} {error : ParseError} :
    refusal? outcome = some error ↔ outcome = .error error := by
  cases outcome <;> simp

theorem toOption_eq_some_iff {outcome : Except ParseError Statement} {statement : Statement} :
    outcome.toOption = some statement ↔ outcome = .ok statement := by
  cases outcome <;> simp [Except.toOption]

/-- What holds of any two lines, one further down than the other, holds of the lines of a
    source in order. -/
theorem pairwise_outcomes {R : Except ParseError Statement → Except ParseError Statement → Prop}
    (hR : ∀ {number later : Nat} {content below : List Char}, number < later →
      R (outcome number content) (outcome later below)) (linesRead : Nat)
    (texts : List (List Char)) : (outcomes linesRead texts).Pairwise R := by
  induction texts generalizing linesRead with
  | nil => exact List.Pairwise.nil
  | cons text rest ih =>
    refine List.pairwise_cons.mpr ⟨fun later hlater => ?_, ih (linesRead + 1)⟩
    obtain ⟨entry, hentry, rfl⟩ := List.mem_map.mp hlater
    exact hR (List.le_snd_of_mem_zipIdx hentry)

/-- A refused line is blamed at a token of its own. -/
theorem isOfLine_of_outcome_eq_error {number : Nat} {content : List Char} {error : ParseError}
    (h : outcome number content = .error error) : error.IsOfLine number content := by
  obtain ⟨read, hok, _⟩ | ⟨expected, token, _, hmem, herror, _⟩ := line_of_outcome number content
  · rw [hok] at h
    cases h
  · rw [herror] at h
    cases h
    exact ⟨token, hmem, rfl, rfl⟩

/-- An outcome that is an error is one of its own line. -/
theorem line_of_outcome_eq_error {number : Nat} {content : List Char} {error : ParseError}
    (h : outcome number content = .error error) : error.position.line = number :=
  (isOfLine_of_outcome_eq_error h).line_eq

end Parser

namespace Parsed

/-- The outcome of a line, put before those of the lines after it. -/
def cons (outcome : Except ParseError Statement) (parsed : Parsed) : Parsed :=
  match outcome with
  | .ok statement => { parsed with statements := statement :: parsed.statements }
  | .error error => { parsed with errors := error :: parsed.errors }

/-- The statements of accepted lines and the errors of refused ones, each in order. -/
def ofOutcomes (outcomes : List (Except ParseError Statement)) : Parsed :=
  outcomes.foldr cons ⟨[], []⟩

theorem ofOutcomes_cons (outcome : Except ParseError Statement)
    (rest : List (Except ParseError Statement)) :
    ofOutcomes (outcome :: rest) = (ofOutcomes rest).cons outcome :=
  rfl

end Parsed

namespace Parser

open TokenReader

/-- One line of a source is one outcome, and the lines after it are read as they would be
    without it. -/
theorem linesOf_ofLine_append (finish : Position) (number : Nat) (content : List Char)
    (rest : List Token) :
    linesOf finish (Token.ofLine number 1 content ++ rest) =
      ((linesOf finish rest).1.cons (outcome number content), (linesOf finish rest).2) := by
  have hfront := frontKind_ofLine_append number content rest
  obtain ⟨read, hok, hline⟩ | ⟨expected, token, others, _, herror, hline⟩ :=
    line_of_outcome number content
  · rw [linesOf_of_ok hfront (hline rest), hok]
    rfl
  · obtain ⟨hrecover, hline⟩ := hline rest
    rw [linesOf_of_error hfront hline, hrecover, herror]
    rfl

/-- The lines of a source are read one by one: the statements and the errors are those of the
    outcomes, and the parser stands at the end of input. -/
theorem linesOf_tokensOfLines (finish : Position) (linesRead : Nat) (texts : List (List Char))
    {rest : List Token} (hrest : frontKind rest = .endOfInput) :
    linesOf finish (Reading.tokensOfLines linesRead texts ++ rest) =
      (Parsed.ofOutcomes (outcomes linesRead texts), rest) := by
  induction texts generalizing linesRead with
  | nil => exact linesOf_of_end hrest finish
  | cons text others ih =>
    rw [Reading.tokensOfLines, List.append_assoc, linesOf_ofLine_append, ih, outcomes_cons,
      Parsed.ofOutcomes_cons]

end Parser

namespace Parsed

/-- Whole lines, with or without an end of input behind them, say what each of them says by
    itself. -/
theorem ofTokens_tokensOfLines (texts : List (List Char)) {rest : List Token}
    (hrest : TokenReader.frontKind rest = .endOfInput) :
    ofTokens (Reading.tokensOfLines 0 texts ++ rest) = ofOutcomes (Parser.outcomes 0 texts) :=
  congrArg Prod.fst (Parser.linesOf_tokensOfLines _ 0 texts hrest)

/-- A text says what its physical lines say, one after the other. -/
theorem ofText_eq_ofOutcomes (text : List Char) :
    ofText text = ofOutcomes (Parser.outcomes 0 (Text.lines text)) := by
  rw [ofText, tokenize, Reading.ofText_eq]
  exact ofTokens_tokensOfLines (Text.lines text) rfl

theorem ofOutcomes_append (front back : List (Except ParseError Statement)) :
    ofOutcomes (front ++ back) =
      ⟨(ofOutcomes front).statements ++ (ofOutcomes back).statements,
        (ofOutcomes front).errors ++ (ofOutcomes back).errors⟩ := by
  induction front with
  | nil => rfl
  | cons outcome rest ih =>
    rw [List.cons_append, ofOutcomes_cons, ofOutcomes_cons, ih]
    cases outcome <;> rfl

/-- The statements that are kept are those of the accepted lines, in order. -/
theorem statements_ofOutcomes (outcomes : List (Except ParseError Statement)) :
    (ofOutcomes outcomes).statements = outcomes.filterMap Except.toOption := by
  induction outcomes with
  | nil => rfl
  | cons outcome rest ih =>
    rw [ofOutcomes_cons]
    cases outcome with
    | ok statement => exact congrArg (statement :: ·) ih
    | error error => exact ih

/-- The errors that are kept are those of the refused lines, in order. -/
theorem errors_ofOutcomes (outcomes : List (Except ParseError Statement)) :
    (ofOutcomes outcomes).errors = outcomes.filterMap Parser.refusal? := by
  induction outcomes with
  | nil => rfl
  | cons outcome rest ih =>
    rw [ofOutcomes_cons]
    cases outcome with
    | ok statement => exact ih
    | error error => exact congrArg (error :: ·) ih

/-- Every line has one outcome. -/
theorem length_ofOutcomes (outcomes : List (Except ParseError Statement)) :
    (ofOutcomes outcomes).statements.length + (ofOutcomes outcomes).errors.length =
      outcomes.length := by
  induction outcomes with
  | nil => rfl
  | cons outcome rest ih =>
    rw [ofOutcomes_cons, List.length_cons]
    cases outcome with
    | ok statement =>
      simp only [cons, List.length_cons]
      omega
    | error error =>
      simp only [cons, List.length_cons]
      omega

/-- No two errors are of the same line, and they stand in the order of their lines. -/
theorem pairwise_errors_outcomes (linesRead : Nat) (texts : List (List Char)) :
    (ofOutcomes (Parser.outcomes linesRead texts)).errors.Pairwise fun a b =>
      a.position.line < b.position.line := by
  rw [errors_ofOutcomes, List.pairwise_filterMap]
  refine Parser.pairwise_outcomes (fun hlt error herror other hother => ?_) linesRead texts
  rw [Parser.line_of_outcome_eq_error (Parser.refusal?_eq_some_iff.mp herror),
    Parser.line_of_outcome_eq_error (Parser.refusal?_eq_some_iff.mp hother)]
  exact hlt

end Parsed

end CollisionRules
