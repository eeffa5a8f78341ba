import CollisionRules.Proofs.Token.Cursor

namespace CollisionRules

namespace LineSource

/-- The lines of a source before its end, its failures left out. -/
def lines : LineSource → List (List Char)
  | .line text :: rest => text :: lines rest
  | .failed _ :: rest => lines rest
  | .finished :: _ | [] => []

/-- The failures of a source before its end. -/
def failures : LineSource → List Failure
  | .line _ :: rest => failures rest
  | .failed failure :: rest => failure :: failures rest
  | .finished :: _ | [] => []

/-- What a source would still answer once it has said that it is finished. -/
def unasked : LineSource → LineSource
  | .line _ :: rest | .failed _ :: rest => unasked rest
  | .finished :: rest => rest
  | [] => []

/-- The first failure of a source is the one that it breaks off with. -/
theorem head?_failures (source : LineSource) : source.failures.head? = source.failure? := by
  induction source with
  | nil => rfl
  | cons answer rest ih =>
    cases answer with
    | line text => exact ih
    | failed failure => rfl
    | finished => rfl

/-- A source without failures is read to its end. -/
theorem leadingLines_eq_lines {source : LineSource} (hnone : source.failures = []) :
    source.leadingLines = source.lines := by
  induction source with
  | nil => rfl
  | cons answer rest ih =>
    cases answer with
    | line text => exact congrArg (text :: ·) (ih hnone)
    | failed failure => cases hnone
    | finished => rfl

end LineSource

namespace TokenStream

/-- What a stream answers before the end of input, after `linesRead` lines: the tokens of each
    line, one after the other, and each failure in its place. -/
def answersOf (linesRead : Nat) : LineSource → List (Except Failure Token)
  | .line text :: rest =>
    (Token.ofLine (linesRead + 1) 1 text).map .ok ++ answersOf (linesRead + 1) rest
  | .failed failure :: rest => .error failure :: answersOf linesRead rest
  | .finished :: _ | [] => []

/-- The failure that stands in the place of a token, if one does. -/
def failure? : Except Failure Token → Option Failure
  | .ok _ => none
  | .error failure => some failure

/-- The tokens among some answers. -/
def tokensIn (answers : List (Except Failure Token)) : List Token :=
  answers.filterMap Except.toOption

theorem tokensIn_map_ok (tokens : List Token) : tokensIn (tokens.map .ok) = tokens := by
  simp [tokensIn, List.filterMap_map, Function.comp_def, Except.toOption]

theorem tokensIn_append (answers others : List (Except Failure Token)) :
    tokensIn (answers ++ others) = tokensIn answers ++ tokensIn others :=
  List.filterMap_append

theorem filterMap_failure?_map_ok (tokens : List Token) :
    (tokens.map Except.ok).filterMap failure? = [] := by
  simp [List.filterMap_map, Function.comp_def, failure?]

/-- The failures among the answers are those of the source. -/
theorem filterMap_failure?_answersOf (linesRead : Nat) (source : LineSource) :
    (answersOf linesRead source).filterMap failure? = source.failures := by
  induction source generalizing linesRead with
  | nil => rfl
  | cons answer rest ih =>
    cases answer with
    | line text =>
      rw [answersOf, List.filterMap_append, filterMap_failure?_map_ok, ih, List.nil_append]
      rfl
    | failed failure => exact congrArg (failure :: ·) (ih linesRead)
    | finished => rfl

/-- The tokens among the answers are those of the lines. -/
theorem tokensIn_answersOf (linesRead : Nat) (source : LineSource) :
    tokensIn (answersOf linesRead source) = Reading.tokensOfLines linesRead source.lines := by
  induction source generalizing linesRead with
  | nil => rfl
  | cons answer rest ih =>
    cases answer with
    | line text => rw [answersOf, tokensIn_append, tokensIn_map_ok, ih]; rfl
    | failed failure => exact ih linesRead
    | finished => rfl

/-- Lines alone give their tokens. -/
theorem answersOf_map_line (linesRead : Nat) (texts : List (List Char)) :
    answersOf linesRead (texts.map .line) = (Reading.tokensOfLines linesRead texts).map .ok := by
  induction texts generalizing linesRead with
  | nil => rfl
  | cons text rest ih =>
    rw [List.map_cons, answersOf, ih, Reading.tokensOfLines, List.map_append]

theorem lines_map_line (texts : List (List Char)) :
    LineSource.lines (texts.map .line) = texts := by
  induction texts with
  | nil => rfl
  | cons text rest ih => exact congrArg (text :: ·) ih

/-- Before its first failure a source gives the tokens of its leading lines. -/
theorem answersOf_eq_append (linesRead : Nat) (source : LineSource) :
    ∃ later, later.head? = source.failure?.map .error ∧
      answersOf linesRead source =
        (Reading.tokensOfLines linesRead source.leadingLines).map .ok ++ later := by
  induction source generalizing linesRead with
  | nil => exact ⟨[], rfl, rfl⟩
  | cons answer rest ih =>
    cases answer with
    | line text =>
      obtain ⟨later, hlater, hanswers⟩ := ih (linesRead + 1)
      refine ⟨later, hlater, ?_⟩
      rw [answersOf, hanswers, ← List.append_assoc, ← List.map_append]
      rfl
    | failed failure => exact ⟨answersOf linesRead (.failed failure :: rest), rfl, rfl⟩
    | finished => exact ⟨[], rfl, rfl⟩

/-- What comes before a failure are the tokens of whole lines. -/
theorem tokensIn_before_failure {linesRead : Nat} {source : LineSource} {count : Nat}
    {failure : Failure} (h : (answersOf linesRead source)[count]? = some (.error failure)) :
    ∃ k, tokensIn ((answersOf linesRead source).take count) =
      Reading.tokensOfLines linesRead (source.lines.take k) := by
  induction source generalizing linesRead count with
  | nil => cases h
  | cons answer rest ih =>
    cases answer with
    | line text =>
      let ofText : List (Except Failure Token) := (Token.ofLine (linesRead + 1) 1 text).map .ok
      have hpast : ofText.length ≤ count := by
        -- an answer before that is a token of this line
        by_contra hinside
        rw [answersOf, List.getElem?_append_left (Nat.lt_of_not_le hinside)] at h
        simp [ofText] at h
      rw [answersOf, List.getElem?_append_right hpast] at h
      obtain ⟨k, hk⟩ := ih h
      refine ⟨k + 1, ?_⟩
      rw [answersOf, List.take_append, List.take_of_length_le hpast, tokensIn_append,
        tokensIn_map_ok, hk]
      rfl
    | failed other =>
      cases count with
      | zero => exact ⟨0, rfl⟩
      | succ count => exact ih h
    | finished => cases h

/-- The answers of a stream before its end of input. -/
def remaining (stream : TokenStream) : List (Except Failure Token) :=
  stream.pending.map .ok ++
    if stream.drained then [] else answersOf stream.linesRead stream.source

/-- The number of lines that a stream will have read at its end of input. -/
def lineTotal (stream : TokenStream) : Nat :=
  stream.linesRead + if stream.drained then 0 else stream.source.lines.length

/-- What the source of a stream will not be asked for. -/
def unasked (stream : TokenStream) : LineSource :=
  if stream.drained then stream.source else stream.source.unasked

/-- The next token of an open line is the first answer of a stream that has it open. -/
theorem nextOf_of_remaining_cons (stream : TokenStream) (line : OpenLine)
    {answer : Except Failure Token} {later : List (Except Failure Token)}
    (h : remaining { stream with openLine? := some line } = answer :: later) :
    (stream.nextOf line).1 = answer ∧ (stream.nextOf line).2.remaining = later := by
  have htokens : pending { stream with openLine? := some line } = _ :=
    line.tokens_eq_next stream.linesRead
  rw [remaining, htokens, List.map_cons, List.cons_append] at h
  exact List.cons.inj h

/-- An answer before the end of input. -/
theorem next_of_remaining_cons {stream : TokenStream} {answer : Except Failure Token}
    {later : List (Except Failure Token)} (h : stream.remaining = answer :: later) :
    stream.next.1 = answer ∧ stream.next.2.remaining = later ∧
      stream.next.2.lineTotal = stream.lineTotal ∧ stream.next.2.unasked = stream.unasked ∧
      stream.next.2.drained = stream.drained := by
  obtain ⟨openLine?, source, linesRead, drained⟩ := stream
  cases openLine? with
  | some line =>
    obtain ⟨hanswer, hlater⟩ :=
      nextOf_of_remaining_cons ⟨some line, source, linesRead, drained⟩ line h
    exact ⟨hanswer, hlater, rfl, rfl, rfl⟩
  | none =>
    cases drained with
    | true => cases h
    | false =>
      cases source with
      | nil => cases h
      | cons first rest =>
        cases first with
        | finished => cases h
        | failed failure =>
          obtain ⟨rfl, rfl⟩ := List.cons.inj h
          exact ⟨rfl, rfl, rfl, rfl, rfl⟩
        | line text =>
          -- the line that is opened has all the answers that the source had in its place
          obtain ⟨hanswer, hlater⟩ := nextOf_of_remaining_cons
            ⟨some (.ofText text), rest, linesRead + 1, false⟩ (.ofText text) h
          refine ⟨hanswer, hlater, ?_, rfl, rfl⟩
          simp only [lineTotal, next, nextOf, LineSource.lines, Bool.false_eq_true, if_false,
            List.length_cons]
          omega

/-- An answer at the end of input. -/
theorem next_of_remaining_nil {stream : TokenStream} (h : stream.remaining = []) :
    stream.next.1 = .ok (.endOfInput stream.lineTotal) ∧ stream.next.2.remaining = [] ∧
      stream.next.2.lineTotal = stream.lineTotal ∧ stream.next.2.unasked = stream.unasked ∧
      stream.next.2.drained := by
  obtain ⟨hpending, hanswers⟩ := List.append_eq_nil_iff.mp h
  obtain ⟨openLine?, source, linesRead, drained⟩ := stream
  obtain rfl := pending_eq_nil_iff.mp (List.map_eq_nil_iff.mp hpending)
  cases drained with
  | true => exact ⟨rfl, rfl, rfl, rfl, rfl⟩
  | false =>
    cases source with
    | nil => exact ⟨rfl, rfl, rfl, rfl, rfl⟩
    | cons first rest =>
      cases first with
      | finished => exact ⟨rfl, rfl, rfl, rfl, rfl⟩
      | failed failure => cases hanswers
      | line text =>
        have htokens := (List.append_eq_nil_iff.mp hanswers).1
        exact absurd (List.map_eq_nil_iff.mp htokens) (Token.ofLine_ne_nil _ _ _)

/-- A stream after `count` answers. -/
def after (stream : TokenStream) : Nat → TokenStream
  | 0 => stream
  | count + 1 => stream.next.2.after count

/-- The answers before the end of input are given in order, and then the end of input again
    and again. -/
theorem take_eq (stream : TokenStream) (count : Nat) :
    stream.take count =
      stream.remaining.take count ++
        List.replicate (count - stream.remaining.length) (.ok (.endOfInput stream.lineTotal)) := by
  induction count generalizing stream with
  | zero => simp [take]
  | succ count ih =>
    cases hremaining : stream.remaining with
    | nil =>
      obtain ⟨hanswer, hlater, htotal, -, -⟩ := next_of_remaining_nil hremaining
      simp [take, ih, hanswer, hlater, htotal, List.replicate_succ]
    | cons answer later =>
      obtain ⟨hanswer, hlater, htotal, -, -⟩ := next_of_remaining_cons hremaining
      simp [take, ih, hanswer, hlater, htotal]

/-- What answers leave of a stream. -/
theorem after_spec (stream : TokenStream) (count : Nat) :
    (stream.after count).remaining = stream.remaining.drop count ∧
      (stream.after count).lineTotal = stream.lineTotal ∧
      (stream.after count).unasked = stream.unasked ∧
      ((stream.after count).drained ↔ stream.drained ∨ stream.remaining.length < count) := by
  induction count generalizing stream with
  | zero => simp [after]
  | succ count ih =>
    obtain ⟨hlater, htotal, hunasked, hdrained⟩ := ih stream.next.2
    cases hremaining : stream.remaining with
    | nil =>
      obtain ⟨-, hnext, hnextTotal, hnextUnasked, hnextDrained⟩ := next_of_remaining_nil hremaining
      refine ⟨?_, htotal.trans hnextTotal, hunasked.trans hnextUnasked, ?_⟩
      · rw [after, hlater, hnext, List.drop_nil, List.drop_nil]
      · simp [after, hdrained, hnextDrained]
    | cons answer later =>
      obtain ⟨-, hnext, hnextTotal, hnextUnasked, hnextDrained⟩ :=
        next_of_remaining_cons hremaining
      refine ⟨?_, htotal.trans hnextTotal, hunasked.trans hnextUnasked, ?_⟩
      · rw [after, hlater, hnext, List.drop_succ_cons]
      · simp [after, hdrained, hnextDrained, hnext]

/-- Once its source has said that it is finished, and its last line is used up, a stream
    does not change. -/
theorem after_of_drained {stream : TokenStream} (hdrained : stream.drained)
    (hremaining : stream.remaining = []) (count : Nat) : stream.after count = stream := by
  have hpending : stream.pending = [] :=
    List.map_eq_nil_iff.mp (List.append_eq_nil_iff.mp hremaining).1
  have hnext : stream.next.2 = stream := by
    unfold next
    rw [pending_eq_nil_iff.mp hpending]
    exact congrArg Prod.snd (if_pos hdrained)
  induction count with
  | zero => rfl
  | succ count ih => rw [after, hnext, ih]

/-- No line has an end of input. -/
theorem kind_ne_of_mem_tokensOfLines {linesRead : Nat} {texts : List (List Char)} {token : Token}
    (h : token ∈ Reading.tokensOfLines linesRead texts) : token.kind ≠ .endOfInput := by
  induction texts generalizing linesRead with
  | nil => cases h
  | cons text rest ih =>
    obtain hline | hrest := List.mem_append.mp h
    · exact (Token.mem_ofLine_iff.mp hline).kind_ne_endOfInput
    · exact ih hrest

/-- A stream answers with what its lines and failures come to, and then with the end of input. -/
theorem take_ofSource (source : LineSource) (count : Nat) :
    (ofSource source).take count =
      (answersOf 0 source).take count ++ List.replicate (count - (answersOf 0 source).length)
        (.ok (.endOfInput source.lines.length)) := by
  have htake := take_eq (ofSource source) count
  simpa [remaining, pending, lineTotal, ofSource] using htake

/-- The tokens before the first failure, or before the end of input, and what comes then. -/
theorem take_leadingLines (source : LineSource) :
    let tokens := Reading.tokensOfLines 0 source.leadingLines
    (ofSource source).take (tokens.length + 1) =
      tokens.map .ok ++
        [source.failure?.elim (.ok (.endOfInput source.lines.length)) .error] := by
  intro tokens
  obtain ⟨later, hlater, hanswers⟩ := answersOf_eq_append 0 source
  rw [take_ofSource, hanswers]
  cases hfailure : source.failure? with
  | none =>
    obtain rfl : later = [] := by simpa [hfailure] using hlater
    simp [tokens, List.take_of_length_le]
  | some failure =>
    obtain ⟨others, rfl⟩ := List.head?_eq_some_iff.mp (hlater.trans (by rw [hfailure]; rfl))
    simp [tokens, List.take_append, List.take_of_length_le]

/-- The tokens of a stream are those of its lines alone, as far as they are asked for. -/
theorem map_tokensIn_take (source : LineSource) (count : Nat) :
    let tokens := tokensIn ((ofSource source).take count)
    tokens.map .ok = (ofSource (source.lines.map .line)).take tokens.length := by
  intro tokens
  let answers := answersOf 0 source
  let finish := Token.endOfInput source.lines.length
  have htokens : tokens =
      tokensIn (answers.take count) ++ List.replicate (count - answers.length) finish := by
    simp only [tokens, take_ofSource, tokensIn_append, answers]
    rw [← List.map_replicate, tokensIn_map_ok]
  have hall : tokensIn answers = Reading.tokensOfLines 0 source.lines := tokensIn_answersOf 0 source
  rw [take_ofSource, answersOf_map_line, lines_map_line, ← hall, htokens]
  rcases Nat.le_total count answers.length with hinside | hpast
  · -- only some answers have been given, and their tokens come first among all
    have hfirst : tokensIn (answers.take count) <+: tokensIn answers :=
      (List.take_prefix count answers).filterMap _
    have hsome := List.prefix_iff_eq_take.mp hfirst
    rw [Nat.sub_eq_zero_of_le hinside, List.replicate_zero, List.append_nil, ← List.map_take, ← hsome,
      List.length_map, Nat.sub_eq_zero_of_le hfirst.length_le, List.replicate_zero, List.append_nil]
  · rw [List.take_of_length_le hpast, List.length_append, List.length_replicate, List.map_append,
      List.map_replicate, List.take_of_length_le (by simp), List.length_map, Nat.add_sub_cancel_left]

/-- A line source whose stream is not disturbed by its failures. -/
structure IsUndisturbed (source : LineSource) : Prop where
  /-- Each line gives its tokens and each failure is given in its place, in order; then the end of
      input is given, on the line after the last one, again and again. -/
  answers : ∀ count, (ofSource source).take count =
    (answersOf 0 source).take count ++ List.replicate (count - (answersOf 0 source).length)
      (.ok (.endOfInput source.lines.length))
  /-- Each failure is given once. -/
  failures : ∀ count, (answersOf 0 source).length ≤ count →
    ((ofSource source).take count).filterMap failure? = source.failures
  /-- The tokens before a failure are those of whole lines: there are none, or the last one is the
      end of a line. -/
  between : ∀ count failure, ((ofSource source).after count).next.1 = .error failure →
    (∃ k, tokensIn ((ofSource source).take count) =
      Reading.tokensOfLines 0 (source.lines.take k)) ∧
    ∀ token, (tokensIn ((ofSource source).take count)).getLast? = some token →
      token.kind = .endOfLine
  /-- The tokens are those of the lines alone. -/
  tokens : ∀ count, (tokensIn ((ofSource source).take count)).map .ok =
    (ofSource (source.lines.map .line)).take (tokensIn ((ofSource source).take count)).length
  /-- The source says that it is finished when the end of input is first asked for. -/
  drains : ∀ count, ((ofSource source).after count).drained ↔ (answersOf 0 source).length < count
  /-- From then on the end of input is given without a change, and the source is asked no more. -/
  stays : ∀ count, ((ofSource source).after count).drained → ∀ more,
    ((ofSource source).after count).after more = (ofSource source).after count ∧
      ((ofSource source).after count).take more =
        List.replicate more (.ok (.endOfInput source.lines.length)) ∧
      (((ofSource source).after count).after more).source = source.unasked
  /-- Without a failure all tokens are read, up to the end of input. -/
  whole : source.failures = [] →
    ∃ tokens, Reading.ofSource source = ⟨tokens ++ [.endOfInput source.lines.length], none⟩ ∧
      (∀ token ∈ tokens, token.kind ≠ .endOfInput) ∧
      (ofSource source).take (tokens.length + 1) =
        (tokens ++ [.endOfInput source.lines.length]).map .ok
  /-- Otherwise the tokens before the first failure are read, and that failure. -/
  broken : ∀ failure others, source.failures = failure :: others →
    ∃ tokens line, Reading.ofSource source = ⟨tokens, some ⟨line, failure⟩⟩ ∧
      (∀ token ∈ tokens, token.kind ≠ .endOfInput) ∧
      (ofSource source).take (tokens.length + 1) = tokens.map .ok ++ [.error failure]

/-- A source has said that it is finished once an answer behind the last of its own was asked for.
    -/
theorem drained_after_iff (source : LineSource) (count : Nat) :
    ((ofSource source).after count).drained ↔ (answersOf 0 source).length < count := by
  obtain ⟨-, -, -, hdrained⟩ := (ofSource source).after_spec count
  have hremaining : (ofSource source).remaining = answersOf 0 source := rfl
  rw [hdrained, hremaining]
  simp [ofSource]

/-- A failure is given behind the tokens of whole lines. -/
theorem between_lines {source : LineSource} {count : Nat} {failure : Failure}
    (h : ((ofSource source).after count).next.1 = .error failure) :
    ∃ k, tokensIn ((ofSource source).take count) =
      Reading.tokensOfLines 0 (source.lines.take k) := by
  obtain ⟨hremaining, -, -, -⟩ := (ofSource source).after_spec count
  cases hlater : ((ofSource source).after count).remaining with
  | nil =>
    rw [(next_of_remaining_nil hlater).1] at h
    cases h
  | cons answer later =>
    obtain rfl := (next_of_remaining_cons hlater).1.symm.trans h
    have hget : (answersOf 0 source)[count]? = some (.error failure) := by
      rw [← List.head?_drop, show (answersOf 0 source).drop count = _ from hremaining.symm, hlater]
      rfl
    obtain ⟨hcount, -⟩ := List.getElem?_eq_some_iff.mp hget
    rw [take_ofSource, Nat.sub_eq_zero_of_le (Nat.le_of_lt hcount), List.replicate_zero,
      List.append_nil]
    exact tokensIn_before_failure hget

/-- The last token of lines is the end of one. -/
theorem kind_of_getLast?_tokensOfLines {linesRead : Nat} {texts : List (List Char)}
    {token : Token} (h : (Reading.tokensOfLines linesRead texts).getLast? = some token) :
    token.kind = .endOfLine := by
  by_cases htexts : texts = []
  · subst texts
    cases h
  · obtain ⟨final, hfinal⟩ := Reading.getLast?_tokensOfLines linesRead htexts
    obtain rfl := Option.some.inj (hfinal.symm.trans h)
    rfl

/-- Once the source has said that it is finished nothing changes any more. -/
theorem stays_drained {source : LineSource} {count : Nat}
    (h : ((ofSource source).after count).drained) (more : Nat) :
    let drained := (ofSource source).after count
    drained.after more = drained ∧
      drained.take more = List.replicate more (.ok (.endOfInput source.lines.length)) ∧
      (drained.after more).source = source.unasked := by
  intro drained
  obtain ⟨hremaining, htotal, hunasked, -⟩ := (ofSource source).after_spec count
  have hpast : (answersOf 0 source).length ≤ count :=
    Nat.le_of_lt ((drained_after_iff source count).mp h)
  have hnil : drained.remaining = [] := hremaining.trans (List.drop_of_length_le hpast)
  have hafter := after_of_drained h hnil more
  refine ⟨hafter, ?_, ?_⟩
  · rw [take_eq, hnil, List.take_nil, List.nil_append, List.length_nil, Nat.sub_zero, htotal]
    simp [lineTotal, ofSource]
  · have hsource : drained.unasked = drained.source := if_pos h
    rw [hafter, ← hsource]
    exact hunasked

/-- Failures of a line source do not disturb its stream. -/
theorem failures_do_not_disturb (source : LineSource) : IsUndisturbed source where
  answers := take_ofSource source
  failures count hcount := by
    rw [take_ofSource, List.take_of_length_le hcount, List.filterMap_append,
      filterMap_failure?_answersOf, ← List.map_replicate, filterMap_failure?_map_ok,
      List.append_nil]
  between count failure h := by
    obtain ⟨k, hk⟩ := between_lines h
    refine ⟨⟨k, hk⟩, fun token htoken => ?_⟩
    rw [hk] at htoken
    exact kind_of_getLast?_tokensOfLines htoken
  tokens := map_tokensIn_take source
  drains := drained_after_iff source
  stays _ h more := stays_drained h more
  whole hnone := by
    have hfailure : source.failure? = none := by
      rw [← source.head?_failures, hnone]
      rfl
    refine ⟨Reading.tokensOfLines 0 source.lines, ?_, fun _ => kind_ne_of_mem_tokensOfLines, ?_⟩
    · rw [Reading.ofSource, Reading.after_eq, hfailure, LineSource.leadingLines_eq_lines hnone]
      simp
    · rw [← LineSource.leadingLines_eq_lines hnone, take_leadingLines, hfailure,
        LineSource.leadingLines_eq_lines hnone]
      simp
  broken failure others hsome := by
    have hfailure : source.failure? = some failure := by
      rw [← source.head?_failures, hsome]
      rfl
    refine ⟨Reading.tokensOfLines 0 source.leadingLines, source.leadingLines.length + 1, ?_,
      fun _ => kind_ne_of_mem_tokensOfLines, ?_⟩
    · rw [Reading.ofSource, Reading.after_eq, hfailure]
      simp
    · rw [take_leadingLines, hfailure]
      rfl

/-- One failure comes before any line, one right behind a comment and one behind the last line,
    and the source would go on after its end. -/
theorem failures_do_not_disturb_comment :
    let source : LineSource :=
      [.failed .notFound, .line "A # b".toList, .failed .isDirectory, .line "C\nD".toList,
        .failed .notUtf8, .finished, .line "E".toList]
    let stream := ofSource source
    let alone := ofSource [.line "A # b".toList, .line "C\nD".toList]
    source.failures = [.notFound, .isDirectory, .notUtf8] ∧
      (stream.take 9).filterMap failure? = source.failures ∧
      (stream.after 4).next.1 = .error .isDirectory ∧
      ((tokensIn (stream.take 4)).map (·.kind) = [.literal, .hash, .endOfLine] ∧
        ∀ token, (tokensIn (stream.take 4)).getLast? = some token → token.kind = .endOfLine) ∧
      (tokensIn (stream.take 11)).map .ok = alone.take 8 ∧
      (stream.after 10).drained ∧ ((stream.after 10).after 5).source = [.line "E".toList] ∧
      ∃ tokens line, Reading.ofSource source = ⟨tokens, some ⟨line, .notFound⟩⟩ ∧
        (∀ token ∈ tokens, token.kind ≠ .endOfInput) ∧
        stream.take (tokens.length + 1) = tokens.map .ok ++ [.error .notFound] := by
  intro source stream alone
  have hundisturbed := failures_do_not_disturb source
  have hfailure : (stream.after 4).next.1 = .error .isDirectory := by decide +kernel
  have hdrained : (stream.after 10).drained := by decide +kernel
  have hlength : (tokensIn (stream.take 11)).length = 8 := by decide +kernel
  refine ⟨rfl, hundisturbed.failures 9 (by decide +kernel), hfailure,
    ⟨by decide +kernel, (hundisturbed.between 4 _ hfailure).2⟩, ?_, hdrained,
    (hundisturbed.stays 10 hdrained 5).2.2, hundisturbed.broken _ _ rfl⟩
  have htokens : (tokensIn (stream.take 11)).map .ok =
      alone.take (tokensIn (stream.take 11)).length := hundisturbed.tokens 11
  rwa [hlength] at htokens

end TokenStream

end CollisionRules
