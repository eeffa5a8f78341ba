import CollisionRules.Load
import CollisionRules.Proofs.Source.Arrival
import CollisionRules.Proofs.Statement.Isolation
import CollisionRules.Proofs.Token.Lines

namespace CollisionRules

variable {H : Type}

/-- What a log shows of an event: its level, its message and its fields. -/
def Event.entry (event : Event) : Level × String × List (String × FieldValue) :=
  (event.level, event.message, event.fields)

/-- A report shows the same whether or not the source was read to its end. -/
theorem Event.entry_finished_truncated (report : LoadReport) (truncated : Bool) :
    (Event.finished { report with truncated := truncated }).entry =
      (Event.finished report).entry :=
  rfl

/-- The end of input after whole lines makes no difference to what is parsed. -/
theorem Parsed.ofTokens_tokensOfLines_endOfInput (texts : List (List Char)) :
    Parsed.ofTokens (Reading.tokensOfLines 0 texts ++ [.endOfInput texts.length]) =
      Parsed.ofTokens (Reading.tokensOfLines 0 texts) := by
  have hnone : TokenReader.frontKind [] = .endOfInput := rfl
  have hwithout := Parsed.ofTokens_tokensOfLines texts hnone
  rw [List.append_nil] at hwithout
  rw [hwithout]
  exact Parsed.ofTokens_tokensOfLines texts rfl

/-- A stream that breaks off gives the tokens of its complete lines. -/
theorem Reading.ofStream_failed {arrived : List ReadEvent} {bytes : List UInt8}
    (harrived : FileAccess.bytesOf arrived = .ok bytes) {failure : Failure}
    (hkind : failure.kind ≠ .interrupted) (later : List ReadEvent) :
    let texts := Text.lines (Text.Utf8.decodeLossy (completeLines bytes))
    texts.length = bytes.count 0x0A ∧
      Reading.ofStream (arrived ++ .failed failure :: later) =
        ⟨Reading.tokensOfLines 0 texts, some ⟨bytes.count 0x0A + 1, failure⟩⟩ := by
  intro texts
  have hlength : texts.length = bytes.count 0x0A := by
    simpa [LineSource.ofText] using LineSource.length_ofText_completeLines bytes
  refine ⟨hlength, ?_⟩
  rw [Reading.ofStream, LineSource.ofStream_failed harrived hkind, ← hlength]
  exact Reading.ofSource_failed texts failure _

namespace Load

/-- A reading that breaks off loads as one that is read to its end and parses to the
    same, but that its report is marked and its log has one more entry. -/
theorem ofReading_truncated [ToString H] (lookup : String → Option H) (config : LoadConfig)
    {tokens wholeTokens : List Token}
    (hparsed : Parsed.ofTokens wholeTokens = Parsed.ofTokens tokens) (truncation : Truncation) :
    let broken := ofReading lookup config ⟨tokens, some truncation⟩
    let whole := ofReading lookup config ⟨wholeTokens, none⟩
    broken.operations = whole.operations ∧
      broken.result = { whole.result with truncated := true } ∧
      ∃ before after,
        whole.events.map Event.entry = before ++ after ∧
          broken.events.map Event.entry =
            before ++ (Event.truncated truncation).entry :: after := by
  intro broken whole
  have hresult : broken.result = { whole.result with truncated := true } := by
    simp only [broken, whole, ofReading, report, hparsed, Option.isSome_some]
  refine ⟨by simp only [broken, whole, ofReading, hparsed], hresult, ?_⟩
  let parsed := Parsed.ofTokens tokens
  let pass := Resolution.ofStatements lookup config.verbose parsed.statements
  let said := parsed.errors.map .rejected ++ pass.events
  refine ⟨(openingEvents config).map Event.entry,
    (said ++ [Event.finished whole.result]).map Event.entry, ?_, ?_⟩
  · simp [said, pass, parsed, whole, ofReading, hparsed]
  · have hfinished : (Event.finished broken.result).entry = (Event.finished whole.result).entry := by
      rw [hresult, Event.entry_finished_truncated]
    have hevents : broken.events =
        openingEvents config ++ .truncated truncation :: (said ++ [.finished broken.result]) := by
      simp [said, pass, parsed, broken, ofReading]
    simp only [hevents, List.map_append, List.map_cons, List.map_nil, hfinished]

/-- Of a stream that breaks off after `bytes`, the complete lines count and nothing else.
    Its tokens are those of the text of these lines without the end of input. A load
    of it asks the same of the rules as a load of that text, and its report and its
    log are the same too, but that the report is marked and the log has one more
    warning, which names the line after the complete ones. -/
theorem truncated_stream_keeps_complete_lines [BEq H] [ToString H] (lookup : String → Option H)
    (config : LoadConfig) (store : RuleStore H) {arrived : List ReadEvent} {bytes : List UInt8}
    (harrived : FileAccess.bytesOf arrived = .ok bytes) {failure : Failure}
    (hkind : failure.kind ≠ .interrupted) (later : List ReadEvent) :
    let events := arrived ++ .failed failure :: later
    let text := Text.Utf8.decodeLossy (completeLines bytes)
    let tokens := (tokenize text).dropLast
    let whole := ofText lookup config text
    let broken := ofStream lookup config events
    tokenize text = tokens ++ [.endOfInput (bytes.count 0x0A)] ∧
      Reading.ofStream events = ⟨tokens, some ⟨bytes.count 0x0A + 1, failure⟩⟩ ∧
      (tokens = [] ∨ ∃ token, tokens.getLast? = some token ∧ token.kind = .endOfLine) ∧
      broken.operations = whole.operations ∧
      store.applyAll broken.operations = store.applyAll whole.operations ∧
      broken.result = { whole.result with truncated := true } ∧
      ∃ before after,
        whole.events.map Event.entry = before ++ after ∧
          broken.events.map Event.entry = before ++
            (.warn, "failed to read collision source, token stream truncated",
              [("line", .number (bytes.count 0x0A + 1)), ("error", .text failure.message)]) ::
              after := by
  intro events text tokens whole broken
  obtain ⟨hlength, hstream⟩ := Reading.ofStream_failed harrived hkind later
  have htext := Reading.ofText_eq text
  have htokenize : tokenize text =
      Reading.tokensOfLines 0 (Text.lines text) ++ [.endOfInput (bytes.count 0x0A)] := by
    rw [tokenize, htext, hlength]
  have htokens : tokens = Reading.tokensOfLines 0 (Text.lines text) := by
    simp [tokens, htokenize]
  have hlast : tokens = [] ∨
      ∃ token, tokens.getLast? = some token ∧ token.kind = .endOfLine := by
    rw [htokens]
    by_cases htexts : Text.lines text = []
    · left
      rw [htexts]
      rfl
    · right
      obtain ⟨final, hfinal⟩ := Reading.getLast?_tokensOfLines 0 htexts
      exact ⟨_, hfinal, rfl⟩
  -- the end of input is all that the text has more, and the parser puts one where none is
  have hparsed := Parsed.ofTokens_tokensOfLines_endOfInput (Text.lines text)
  obtain ⟨hoperations, hresult, hlog⟩ :=
    ofReading_truncated lookup config hparsed ⟨bytes.count 0x0A + 1, failure⟩
  rw [← htext, ← hstream] at hoperations hresult hlog
  rw [← htokens] at hstream
  exact ⟨by rw [htokenize, htokens], hstream, hlast, hoperations,
    congrArg store.applyAll hoperations, hresult, hlog⟩

/-- The stream breaks off in the middle of a character, which arrives later. -/
theorem truncated_stream_cut_character :
    let arrived := [.bytes [0x41, 0x7E], .failed ⟨.interrupted, "again"⟩,
      .bytes [0x42, 0x0D, 0x0A, 0x41, 0x7E, 0xC3]]
    let bytes := [0x41, 0x7E, 0x42, 0x0D, 0x0A, 0x41, 0x7E, 0xC3]
    let failure : Failure := ⟨.brokenPipe, "gone"⟩
    let events := arrived ++ .failed failure :: [.bytes [0xA9, 0x0A]]
    let lookup := (AbilityTable.ofList ["A", "B", "é"]).get?
    let whole := ofText lookup .default ['A', '~', 'B', '\r', '\n']
    let broken := ofStream lookup .default events
    FileAccess.bytesOf arrived = .ok bytes ∧ failure.kind ≠ .interrupted ∧
      (Reading.ofStream events).truncation = some ⟨2, failure⟩ ∧
      broken.operations = whole.operations ∧
      broken.result = { whole.result with truncated := true } := by
  intro arrived bytes failure events lookup whole broken
  have harrived : FileAccess.bytesOf arrived = .ok bytes := rfl
  have hkind : failure.kind ≠ .interrupted := by decide
  obtain ⟨_, hreading, _, hoperations, _, hresult, _⟩ :=
    truncated_stream_keeps_complete_lines lookup .default .empty harrived hkind
      [.bytes [0xA9, 0x0A]]
  exact ⟨harrived, hkind, congrArg Reading.truncation hreading, hoperations, hresult⟩

end Load

end CollisionRules
