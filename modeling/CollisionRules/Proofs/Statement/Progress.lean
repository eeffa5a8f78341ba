import CollisionRules.Proofs.Statement.Isolation

namespace CollisionRules

namespace TokenReader

variable {α : Type}

/-- What begins with an end of input, or is nothing at all, is left as it is. -/
theorem StopsAtEnd.append {reader : TokenReader α} (hreader : StopsAtEnd reader)
    {ending : List Token} (hending : frontKind ending = .endOfInput) (front : List Token) :
    reader (front ++ ending) = ((reader front).1, (reader front).2 ++ ending) := by
  cases ending with
  | nil => simp
  | cons finish tail => exact hreader front finish tail hending

/-- Where no end of input is among the tokens, they are in front until all are taken. -/
theorem eq_nil_of_frontKind {front : List Token}
    (hfront : ∀ token ∈ front, token.kind ≠ .endOfInput) (h : frontKind front = .endOfInput) :
    front = [] := by
  cases front with
  | nil => rfl
  | cons token rest => exact absurd h (hfront token List.mem_cons_self)

end TokenReader

namespace Parser

open TokenReader

/-- The end of input is in front. -/
def AtEnd (parser : Parser) : Prop :=
  frontKind parser.rest = .endOfInput

/-- One turn of the loop over the lines: a line is read, and if it is refused the rest of it
    is thrown away. -/
def turn (parser : Parser) : Except ParseError Statement × Parser :=
  match parser.line with
  | (.ok statement, next) => (.ok statement, next)
  | (.error error, next) => (.error error, { next with rest := recover next.rest })

def afterTurns (parser : Parser) : Nat → Parser
  | 0 => parser
  | count + 1 => parser.turn.2.afterTurns count

/-- What the first `count` turns give. -/
def outcomesOfTurns (parser : Parser) (count : Nat) : List (Except ParseError Statement) :=
  (List.range count).map fun k => (parser.afterTurns k).turn.1

theorem outcomesOfTurns_succ (parser : Parser) (count : Nat) :
    parser.outcomesOfTurns (count + 1) =
      parser.turn.1 :: parser.turn.2.outcomesOfTurns count := by
  rw [outcomesOfTurns, List.range_succ_eq_map, List.map_cons, List.map_map]
  rfl

/-- A turn leaves an end piece of the tokens. -/
theorem turn_suffix (parser : Parser) : parser.turn.2.rest <:+ parser.rest := by
  have hline := consumes_line parser.rest
  unfold turn line
  cases hrun : TokenReader.line parser.rest with
  | mk result rest =>
    rw [hrun] at hline
    cases result with
    | ok read => exact hline
    | error expected => exact (recover_suffix rest).trans hline

/-- A turn that does not start at the end of input takes a token. -/
theorem turn_shorter {parser : Parser} (hfront : ¬ parser.AtEnd) :
    parser.turn.2.rest.length < parser.rest.length := by
  have hrecover := recover_line_shorter hfront
  unfold turn line
  cases hrun : TokenReader.line parser.rest with
  | mk result rest =>
    rw [hrun] at hrecover
    cases result with
    | ok read => exact line_shorter hfront hrun
    | error expected => exact hrecover

/-- At the end there is nothing to parse, and the parser stays as it is. -/
theorem lines_of_atEnd {parser : Parser} (hend : parser.AtEnd) :
    parser.lines = (⟨[], []⟩, parser) := by
  rw [lines, linesOf_of_end hend]

/-- Before the end a turn is made, and the rest is parsed after it. -/
theorem lines_of_not_atEnd {parser : Parser} (hfront : ¬ parser.AtEnd) :
    parser.lines = (parser.turn.2.lines.1.cons parser.turn.1, parser.turn.2.lines.2) := by
  unfold lines turn line
  cases hrun : TokenReader.line parser.rest with
  | mk result rest =>
    cases result with
    | ok read => rw [linesOf_of_ok hfront hrun]; rfl
    | error expected => rw [linesOf_of_error hfront hrun]; rfl

/-- Reading all lines is a number of turns, none of which but the last leads to the end of
    input. By induction on the number of tokens left, of which each turn takes some. -/
theorem exists_turns (parser : Parser) :
    ∃ count, (∀ k < count, ¬ (parser.afterTurns k).AtEnd) ∧ (parser.afterTurns count).AtEnd ∧
      parser.lines = (Parsed.ofOutcomes (parser.outcomesOfTurns count), parser.afterTurns count) := by
  induction hlength : parser.rest.length using Nat.strong_induction_on generalizing parser with
  | h length ih =>
    by_cases hend : parser.AtEnd
    · exact ⟨0, fun k hk => absurd hk (Nat.not_lt_zero k), hend, lines_of_atEnd hend⟩
    · obtain ⟨count, hbefore, hstop, hlines⟩ :=
        ih _ (hlength ▸ turn_shorter hend) parser.turn.2 rfl
      refine ⟨count + 1, fun k hk => ?_, hstop, ?_⟩
      · cases k with
        | zero => exact hend
        | succ k => exact hbefore k (Nat.lt_of_succ_lt_succ hk)
      · rw [lines_of_not_atEnd hend, hlines, outcomesOfTurns_succ]
        rfl

theorem afterTurns_succ (parser : Parser) (count : Nat) :
    parser.afterTurns (count + 1) = (parser.afterTurns count).turn.2 := by
  induction count generalizing parser with
  | zero => rfl
  | succ count ih => exact ih parser.turn.2

/-- However many turns are made, an end piece of the tokens is left. -/
theorem afterTurns_suffix (parser : Parser) (count : Nat) :
    (parser.afterTurns count).rest <:+ parser.rest := by
  induction count with
  | zero => exact List.suffix_refl _
  | succ count ih =>
    rw [afterTurns_succ]
    exact (turn_suffix _).trans ih

/-- What a parser can be asked for: one line, or all lines that are left. -/
inductive Call where
  | line
  | lines
  deriving DecidableEq, Repr

inductive Answer where
  | line (outcome : Except ParseError Statement)
  | lines (parsed : Parsed)
  deriving DecidableEq, Repr

def answer (parser : Parser) : Call → Answer × Parser
  | .line => (.line parser.line.1, parser.line.2)
  | .lines => (.lines parser.lines.1, parser.lines.2)

/-- The answers to calls that are made one after the other. -/
def answers (parser : Parser) : List Call → List Answer
  | [] => []
  | call :: rest => (parser.answer call).1 :: (parser.answer call).2.answers rest

def after (parser : Parser) (calls : List Call) : Parser :=
  calls.foldl (fun parser call => (parser.answer call).2) parser

/-- No call puts a token back. -/
theorem answer_suffix (parser : Parser) (call : Call) :
    (parser.answer call).2.rest <:+ parser.rest := by
  cases call with
  | line =>
    have hline := consumes_line parser.rest
    unfold answer line
    cases hrun : TokenReader.line parser.rest with
    | mk result rest =>
      rw [hrun] at hline
      cases result <;> exact hline
  | lines =>
    obtain ⟨count, _, _, hlines⟩ := parser.exists_turns
    rw [answer, hlines]
    exact parser.afterTurns_suffix count

/-- No calls put a token back, however many there are. -/
theorem after_suffix (parser : Parser) (calls : List Call) :
    (parser.after calls).rest <:+ parser.rest := by
  induction calls generalizing parser with
  | nil => exact List.suffix_refl _
  | cons call rest ih => exact (ih _).trans (parser.answer_suffix call)

/-- At the end of input no call moves a parser. -/
theorem after_of_atEnd {parser : Parser} (hend : parser.AtEnd) (calls : List Call) :
    parser.after calls = parser := by
  have hline : parser.line = (.ok .empty, parser) := by
    unfold line
    rw [line_apply, show frontKind parser.rest = .endOfInput from hend]
    rfl
  induction calls with
  | nil => rfl
  | cons call rest ih =>
    have hcall : (parser.answer call).2 = parser := by
      cases call with
      | line => rw [answer, hline]
      | lines => rw [answer, lines_of_atEnd hend]
    rw [after, List.foldl_cons, hcall]
    exact ih

/-- No call changes where the input ends. -/
theorem finish_answer (parser : Parser) (call : Call) :
    (parser.answer call).2.finish = parser.finish := by
  cases call with
  | line =>
    unfold answer line
    cases TokenReader.line parser.rest with
    | mk result rest => cases result <;> rfl
  | lines => rfl

/-- Where a parser takes the end of input to stand if its tokens go on with `ending`. -/
def finishOf (finish : Position) (ending : List Token) : Position :=
  (ending.head?.map Token.position).getD finish

/-- The parser with `ending` behind its tokens. -/
def followedBy (parser : Parser) (ending : List Token) (finish : Position) : Parser :=
  ⟨parser.rest ++ ending, finish⟩

section Ending

variable {ending : List Token} (hending : frontKind ending = .endOfInput) {finish : Position}
include hending

/-- An error names the end of input that stands in the slice, if one does. -/
theorem errorAt_followedBy (expected : Expectation) (rest : List Token) :
    errorAt finish expected (rest ++ ending) = errorAt (finishOf finish ending) expected rest := by
  cases ending with
  | nil => simp [finishOf]
  | cons token tail => exact errorAt_append hending finish expected rest tail

theorem linesOf_followedBy (front : List Token) :
    linesOf finish (front ++ ending) =
      ((linesOf (finishOf finish ending) front).1,
        (linesOf (finishOf finish ending) front).2 ++ ending) := by
  cases ending with
  | nil => simp [finishOf]
  | cons token tail => exact linesOf_append hending finish front tail

variable {parser : Parser} (hfinish : parser.finish = finishOf finish ending)
include hfinish

/-- Whatever stands behind the end of input is left there, and changes no outcome. -/
theorem lines_followedBy :
    (parser.followedBy ending finish).lines =
      (parser.lines.1, parser.lines.2.followedBy ending finish) := by
  simp only [lines, followedBy, linesOf_followedBy hending, hfinish]

/-- The tokens before an end of input are read as they are alone. -/
theorem answer_followedBy (call : Call) :
    (parser.followedBy ending finish).answer call =
      ((parser.answer call).1, (parser.answer call).2.followedBy ending finish) := by
  cases call with
  | line =>
    have hline := StopsAtEnd.line.append hending parser.rest
    simp only [answer, line, followedBy, hline]
    cases TokenReader.line parser.rest with
    | mk result rest =>
      cases result with
      | ok read => rfl
      | error expected => simp only [errorAt_followedBy hending, hfinish]
  | lines => simp only [answer, lines_followedBy hending hfinish]

/-- No call is answered otherwise for what stands behind the end of input. -/
theorem answers_followedBy (calls : List Call) :
    (parser.followedBy ending finish).answers calls = parser.answers calls := by
  induction calls generalizing parser with
  | nil => rfl
  | cons call rest ih =>
    have hnext := (parser.finish_answer call).trans hfinish
    simp only [answers, answer_followedBy hending hfinish, ih hnext]

/-- Calls leave a parser with the same tokens behind its end of input. -/
theorem after_followedBy (calls : List Call) :
    (parser.followedBy ending finish).after calls =
      (parser.after calls).followedBy ending finish := by
  induction calls generalizing parser with
  | nil => rfl
  | cons call rest ih =>
    have hnext := (parser.finish_answer call).trans hfinish
    simp only [after, List.foldl_cons, answer_followedBy hending hfinish]
    exact ih hnext

end Ending

/-- All lines of tokens without an end of input take them all. -/
theorem lines_rest_eq_nil {parser : Parser}
    (hrest : ∀ token ∈ parser.rest, token.kind ≠ .endOfInput) : parser.lines.2.rest = [] := by
  have hsuffix : parser.lines.2.rest <:+ parser.rest := parser.answer_suffix .lines
  obtain ⟨count, _, hend, hlines⟩ := parser.exists_turns
  rw [hlines] at hsuffix ⊢
  exact eq_nil_of_frontKind (fun token htoken => hrest token (hsuffix.subset htoken)) hend

/-- How many of `tokens` are behind a parser over them. -/
def cursor (tokens : List Token) (parser : Parser) : Nat :=
  tokens.length - parser.rest.length

/-- The index of the first end of input among `tokens`, or their number if there is none. -/
def endIndex (tokens : List Token) : Nat :=
  tokens.findIdx (·.kind = .endOfInput)

/-- Every slice is its tokens before the first end of input, and what follows from there. -/
theorem exists_ending (tokens : List Token) :
    ∃ front ending, tokens = front ++ ending ∧ front.length = endIndex tokens ∧
      (∀ token ∈ front, token.kind ≠ .endOfInput) ∧ frontKind ending = .endOfInput := by
  induction tokens with
  | nil => exact ⟨[], [], rfl, rfl, by simp, rfl⟩
  | cons token rest ih =>
    by_cases hkind : token.kind = .endOfInput
    · exact ⟨[], token :: rest, rfl, by simp [endIndex, List.findIdx_cons, hkind], by simp, hkind⟩
    · obtain ⟨front, ending, rfl, hlength, hfront, hending⟩ := ih
      refine ⟨token :: front, ending, rfl, ?_, List.forall_mem_cons.mpr ⟨hkind, hfront⟩, hending⟩
      rw [List.length_cons, hlength]
      simp [endIndex, List.findIdx_cons, hkind]

/-- A parser over `tokens` that makes progress. -/
structure Progresses (tokens : List Token) (parser : Parser) : Prop where
  /-- What is left are the tokens from the cursor on. -/
  rest : parser.rest = tokens.drop (parser.cursor tokens)
  /-- The cursor is not past the first end of input. -/
  inside : parser.cursor tokens ≤ endIndex tokens
  /-- Reading all lines that are left is a number of turns. Each of them starts before the end of
      input and moves the cursor forward, the last of them leads to the end of input, and what
      they give is given, in order. -/
  turns : ∃ count,
    (∀ k < count, ¬ (parser.afterTurns k).AtEnd ∧
      (parser.afterTurns k).cursor tokens < (parser.afterTurns (k + 1)).cursor tokens) ∧
    (parser.afterTurns count).AtEnd ∧
    parser.lines = (Parsed.ofOutcomes (parser.outcomesOfTurns count), parser.afterTurns count)
  /-- Every statement and every error has cost a token. -/
  count : parser.cursor tokens + parser.lines.1.statements.length +
    parser.lines.1.errors.length ≤ parser.lines.2.cursor tokens
  /-- The lines end at the first end of input, which is left in front. -/
  stops : parser.lines.2.cursor tokens = endIndex tokens ∧
    parser.lines.2.rest = tokens.drop (endIndex tokens)
  /-- There no call moves the cursor. -/
  stays : ∀ calls, parser.lines.2.after calls = parser.lines.2
  /-- There no line is left. -/
  finished : parser.lines.2.lines = (⟨[], []⟩, parser.lines.2)

variable {tokens : List Token} {parser : Parser}

/-- A turn moves the cursor forward. -/
theorem cursor_lt_turn (hsuffix : parser.rest <:+ tokens) (hfront : ¬ parser.AtEnd) :
    parser.cursor tokens < parser.turn.2.cursor tokens := by
  have hle := hsuffix.length_le
  have hshorter := turn_shorter hfront
  unfold cursor
  omega

/-- As many turns as move the cursor forward have taken as many tokens. -/
theorem cursor_add_le_afterTurns {count : Nat}
    (hcount : ∀ k < count,
      (parser.afterTurns k).cursor tokens < (parser.afterTurns (k + 1)).cursor tokens) :
    parser.cursor tokens + count ≤ (parser.afterTurns count).cursor tokens := by
  induction count with
  | zero => exact Nat.le_refl _
  | succ count ih =>
    have hbefore := ih fun k hk => hcount k (Nat.lt_succ_of_lt hk)
    have hlast := hcount count (Nat.lt_succ_self count)
    omega

/-- What any parser does that has not passed the first end of input. -/
theorem progresses_of_rest {front ending left : List Token} (htokens : tokens = front ++ ending)
    (hlength : front.length = endIndex tokens)
    (hfront : ∀ token ∈ front, token.kind ≠ .endOfInput) (hending : frontKind ending = .endOfInput)
    (hleft : left <:+ front) (hrest : parser.rest = left ++ ending) :
    parser.Progresses tokens := by
  have hsuffix : parser.rest <:+ tokens := by
    obtain ⟨taken, rfl⟩ := hleft
    exact ⟨taken, by rw [hrest, htokens, List.append_assoc]⟩
  obtain ⟨count, hbefore, hend, hlines⟩ := parser.exists_turns
  have hforward : ∀ k < count,
      (parser.afterTurns k).cursor tokens < (parser.afterTurns (k + 1)).cursor tokens := by
    intro k hk
    rw [afterTurns_succ]
    exact cursor_lt_turn ((parser.afterTurns_suffix k).trans hsuffix) (hbefore k hk)
  have hfinal : parser.lines.2.AtEnd := by
    rw [hlines]
    exact hend
  have hlast : parser.lines.2.rest = ending := by
    let alone : Parser := ⟨left, finishOf parser.finish ending⟩
    have halone : parser = alone.followedBy ending parser.finish :=
      congrArg (Parser.mk · parser.finish) hrest
    have hnothing : alone.lines.2.rest = [] :=
      lines_rest_eq_nil fun token htoken => hfront token (hleft.subset htoken)
    have hfinish : alone.finish = finishOf parser.finish ending := rfl
    rw [halone, lines_followedBy hending hfinish, followedBy, hnothing]
    rfl
  have hsize := congrArg List.length htokens
  rw [List.length_append] at hsize
  exact {
    rest := List.suffix_iff_eq_drop.mp hsuffix
    inside := by
      have hparser := congrArg List.length hrest
      rw [List.length_append] at hparser
      unfold cursor
      omega
    turns := ⟨count, fun k hk => ⟨hbefore k hk, hforward k hk⟩, hend, hlines⟩
    count := by
      have hle := cursor_add_le_afterTurns hforward
      rw [Nat.add_assoc, hlines, Parsed.length_ofOutcomes]
      simpa [outcomesOfTurns] using hle
    stops := by
      refine ⟨?_, ?_⟩
      · rw [cursor, hlast]
        omega
      · rw [hlast, ← hlength, htokens, List.drop_left]
    stays := after_of_atEnd hfinal
    finished := lines_of_atEnd hfinal }

/-- Parsers make progress, whatever tokens they are given and whatever they have been asked for
    before; and tokens behind an end of input change no answer of any call. -/
theorem parsers_make_progress (tokens : List Token) (calls : List Call) :
    ((ofTokens tokens).after calls).Progresses tokens ∧
      ∀ (front : List Token) (finish : Token) (tail other : List Token),
        finish.kind = .endOfInput → tokens = front ++ finish :: tail →
          (ofTokens (front ++ finish :: other)).answers calls =
            (ofTokens tokens).answers calls := by
  constructor
  · obtain ⟨front, ending, htokens, hlength, hfront, hending⟩ := exists_ending tokens
    let finish := (ofTokens tokens).finish
    let alone : Parser := ⟨front, finishOf finish ending⟩
    have halone : ofTokens tokens = alone.followedBy ending finish :=
      congrArg (Parser.mk · finish) htokens
    have hfinish : alone.finish = finishOf finish ending := rfl
    have hafter := after_followedBy hending hfinish calls
    rw [← halone] at hafter
    exact progresses_of_rest htokens hlength hfront hending (alone.after_suffix calls)
      (congrArg Parser.rest hafter)
  · rintro front finish tail other hkind rfl
    -- with either tail the parser answers as it does over the tokens before, taken to end there
    let alone : Parser := ⟨front, finish.position⟩
    have halone (tail : List Token) :
        (ofTokens (front ++ finish :: tail)).answers calls = alone.answers calls := by
      have hending : frontKind (finish :: tail) = .endOfInput := hkind
      have hfinish : alone.finish =
        finishOf (ofTokens (front ++ finish :: tail)).finish (finish :: tail) := rfl
      exact answers_followedBy hending hfinish calls
    rw [halone, halone]

/-- The first call is refused in the middle of a line, and one of the comments has no end of
    line. -/
theorem parsers_make_progress_mid_line :
    let front : List Token :=
      [⟨.literal, "A", ⟨1, 1⟩⟩, ⟨.comma, ",", ⟨1, 2⟩⟩, .endOfLine ⟨1, 3⟩, ⟨.hash, "#", ⟨2, 1⟩⟩,
        ⟨.literal, "B", ⟨2, 2⟩⟩, ⟨.tilde, "~", ⟨2, 3⟩⟩, ⟨.literal, "C", ⟨2, 4⟩⟩]
    let finish := Token.endOfInput 2
    let tail : List Token := [⟨.comma, ",", ⟨7, 1⟩⟩, .endOfInput 7]
    let tokens := front ++ finish :: tail
    let parser := (ofTokens tokens).after [.line]
    finish.kind = .endOfInput ∧ parser.cursor tokens = 1 ∧
      parser.lines.1.errors = [⟨.statement, .comma, ⟨1, 2⟩⟩] ∧
      parser.lines.1.statements.length = 2 ∧ parser.lines.2.rest = finish :: tail ∧
      parser.lines.2.lines = (⟨[], []⟩, parser.lines.2) ∧
      (ofTokens (front ++ [finish])).answers [.line, .lines, .line, .lines] =
        (ofTokens tokens).answers [.line, .lines, .line, .lines] := by
  intro front finish tail tokens parser
  obtain ⟨hprogress, -⟩ := parsers_make_progress tokens [.line]
  obtain ⟨-, hsame⟩ := parsers_make_progress tokens [.line, .lines, .line, .lines]
  exact ⟨rfl, by decide +kernel, by decide +kernel, by decide +kernel, hprogress.stops.2,
    hprogress.finished, hsame front finish tail [] rfl rfl⟩

end Parser

end CollisionRules
