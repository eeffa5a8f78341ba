import CollisionRules.Proofs.Load.Account
import CollisionRules.Proofs.Source.Arrival

namespace CollisionRules

variable {H : Type}

/-- What is parsed of a reading. -/
def Reading.parsed (reading : Reading) : Parsed :=
  Parsed.ofTokens reading.tokens

namespace LineSource

/-- The accepted lines of a source mention nothing by an empty name. -/
theorem ne_empty_of_mem_accepted {source : LineSource} {statement : Statement}
    (hmem : statement ∈ source.accepted) : ∀ name ∈ statement.names, name ≠ "" := by
  rw [accepted, outcomes, ← Parsed.statements_ofOutcomes] at hmem
  rintro name hname rfl
  exact (Parsed.isName_of_mem_outcomes hmem "" hname).nonempty rfl

/-- Every error of a source is of one of its leading lines. -/
theorem exists_isOfLine_of_mem_refused {source : LineSource} {error : ParseError}
    (hmem : error ∈ source.refused) :
    ∃ content, (content, error.position.line) ∈ source.leadingLines.zipIdx 1 ∧
      error.IsOfLine error.position.line content := by
  obtain ⟨outcome, houtcome, hrefusal⟩ := List.mem_filterMap.mp hmem
  obtain ⟨⟨content, number⟩, hentry, rfl⟩ := List.mem_map.mp houtcome
  have herror := Parser.isOfLine_of_outcome_eq_error (Parser.refusal?_eq_some_iff.mp hrefusal)
  rw [herror.line_eq]
  exact ⟨content, hentry, herror⟩

end LineSource

namespace Load

/-- A load that meets nothing but whole lines: `texts` are the lines of its source that were read
    completely. -/
structure MeetsWholeLines [ToString H] (lookup : String → Option H) (config : LoadConfig)
    (texts : List (List Char)) (reading : Reading) (load : Load H LoadReport) : Prop where
  /-- No statement declares a group without a name or has an operand without one. -/
  named : ∀ statement ∈ reading.parsed.statements, ∀ name ∈ statement.names, name ≠ ""
  /-- At no point of the pass is the empty name bound. -/
  unbound : ∀ k, "" ∉ (Resolution.ofStatements lookup config.verbose
    (reading.parsed.statements.take k)).groups.names
  notNameless : ∀ line, .nameless line ∉ load.events
  found : ∀ error ∈ reading.parsed.errors, error.found ≠ .endOfInput
  /-- Every error blames a token of a line that was read completely, where it stands. -/
  blamed : ∀ error ∈ reading.parsed.errors, ∃ content,
    (content, error.position.line) ∈ texts.zipIdx 1 ∧
      error.IsOfLine error.position.line content
  /-- What the load warns of: the source, if it breaks off, the refused lines, and the operands
      that name nothing known, each in order. -/
  warned : load.events.filter Event.isWarning =
    reading.truncation.toList.map .truncated ++ reading.parsed.errors.map .rejected ++
      (Resolution.unknownOperands lookup reading.parsed.statements).map .unresolved
  warnings : load.result.warnings =
    (Resolution.unknownOperands lookup reading.parsed.statements).length

theorem meetsWholeLines_ofSource [ToString H] (lookup : String → Option H) (config : LoadConfig)
    (source : LineSource) :
    MeetsWholeLines lookup config source.leadingLines (.ofSource source)
      (ofReading lookup config (.ofSource source)) := by
  have hparsed : (Reading.ofSource source).parsed = ⟨source.accepted, source.refused⟩ :=
    source.ofTokens_ofSource
  have hnames : Resolution.NamesItsGroups source.accepted := fun declaration hmem =>
    LineSource.ne_empty_of_mem_accepted hmem declaration.name List.mem_cons_self
  have hunknown := Resolution.filter_isWarning_eventsOf lookup config.verbose hnames
  have haccount := isAccountedFor_ofReading lookup config source
  have hwarned := haccount.warned
  rw [hunknown] at hwarned
  constructor
  case named =>
    rw [hparsed]
    exact fun statement hmem => LineSource.ne_empty_of_mem_accepted hmem
  case unbound =>
    rw [hparsed]
    exact Resolution.empty_not_mem_names lookup config.verbose hnames
  case notNameless =>
    -- it would be among the warnings, and they are all told
    intro line hmem
    have hwarning : Event.nameless line ∈
        (ofReading lookup config (.ofSource source)).events.filter Event.isWarning :=
      List.mem_filter.mpr ⟨hmem, rfl⟩
    rw [hwarned] at hwarning
    simp at hwarning
  case found =>
    rw [hparsed]
    intro error hmem
    obtain ⟨_, _, herror⟩ := LineSource.exists_isOfLine_of_mem_refused hmem
    exact herror.found_ne_endOfInput
  case blamed =>
    rw [hparsed]
    exact fun error hmem => LineSource.exists_isOfLine_of_mem_refused hmem
  case warned =>
    rw [hwarned, hparsed, LineSource.ofSource_truncation]
  case warnings =>
    rw [haccount.warnings, List.countP_eq_length_filter, hunknown, List.length_map, hparsed]

/-- Every load meets nothing but whole lines, whether it is of a text, which is read to its end, or
    of a byte stream, whatever failures that has. Tokens without an end of line and groups without a
    name can be put together by hand, but no source gives them. -/
theorem loads_meet_whole_lines [ToString H] (lookup : String → Option H) (config : LoadConfig) :
    (∀ text, MeetsWholeLines lookup config (Text.lines text) (.ofText text)
        (ofText lookup config text)) ∧
      ∀ events, MeetsWholeLines lookup config
        (Text.lines (Text.Utf8.decodeLossy (wholeLineBytes events))) (.ofStream events)
        (ofStream lookup config events) := by
  constructor
  · intro text
    rw [← LineSource.leadingLines_ofText]
    exact meetsWholeLines_ofSource lookup config (.ofText text)
  · intro events
    rw [← LineSource.leadingLines_ofStream]
    exact meetsWholeLines_ofSource lookup config (.ofStream events)

/-- The line that ends too early is blamed at its own end, and nothing is said of the one that the
    stream breaks off in. -/
example :
    (Reading.ofStream [.bytes (Text.Utf8.encode "group \"\" \x7bA\x7d\nA >\n> B".toList),
        .failed ⟨.brokenPipe, "gone"⟩]).parsed =
      ⟨[], [⟨.literal, .quote, ⟨1, 8⟩⟩, ⟨.literal, .endOfLine, ⟨2, 4⟩⟩]⟩ := by
  decide +kernel

end Load

end CollisionRules
