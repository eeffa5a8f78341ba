import CollisionRules.Load
import CollisionRules.Proofs.Resolution.Account
import CollisionRules.Proofs.Source.Arrival
import CollisionRules.Proofs.Text.Lines

namespace CollisionRules

variable {H : Type}

namespace LineSource

/-- What the lines of a source say, each by itself. -/
def outcomes (source : LineSource) : List (Except ParseError Statement) :=
  Parser.outcomes 0 source.leadingLines

/-- The statements of the accepted lines, in order. -/
def accepted (source : LineSource) : List Statement :=
  source.outcomes.filterMap Except.toOption

/-- The errors of the refused lines, in order. -/
def refused (source : LineSource) : List ParseError :=
  source.outcomes.filterMap Parser.refusal?

/-- The numbers of the refused lines, in order. -/
def refusedLines (source : LineSource) : List Nat :=
  ((source.leadingLines.zipIdx 1).filter fun entry =>
    (Parser.refusal? (Parser.outcome entry.2 entry.1)).isSome).map Prod.snd

/-- Where and why a source breaks off, if it does. -/
def truncation? (source : LineSource) : Option Truncation :=
  source.failure?.map fun failure => ⟨source.leadingLines.length + 1, failure⟩

/-- A reading is truncated where its source breaks off. -/
theorem ofSource_truncation (source : LineSource) :
    (Reading.ofSource source).truncation = source.truncation? := by
  rw [Reading.ofSource, Reading.after_eq]
  simp [truncation?]

/-- A source says what its lines say up to its end or its first failure. -/
theorem ofTokens_ofSource (source : LineSource) :
    Parsed.ofTokens (Reading.ofSource source).tokens = ⟨source.accepted, source.refused⟩ := by
  have hend : TokenReader.frontKind (source.failure?.elim
      [Token.endOfInput (0 + source.leadingLines.length)] fun _ => []) = .endOfInput := by
    cases source.failure? <;> rfl
  have hparsed : Parsed.ofTokens (Reading.ofSource source).tokens =
      Parsed.ofOutcomes source.outcomes := by
    rw [Reading.ofSource, Reading.after_eq]
    exact Parsed.ofTokens_tokensOfLines source.leadingLines hend
  rw [hparsed, accepted, refused, ← Parsed.statements_ofOutcomes, ← Parsed.errors_ofOutcomes]

/-- Each refused line has one error, of its own number. -/
theorem map_line_refused (source : LineSource) :
    source.refused.map (·.position.line) = source.refusedLines := by
  rw [refused, outcomes, Parser.outcomes, refusedLines, Nat.zero_add, List.filterMap_map]
  induction source.leadingLines.zipIdx 1 with
  | nil => rfl
  | cons entry rest ih =>
    cases houtcome : Parser.outcome entry.2 entry.1 with
    | ok read => simpa [houtcome] using ih
    | error error => simpa [houtcome, Parser.line_of_outcome_eq_error houtcome] using ih

/-- No line is refused twice, and they are refused in order. -/
theorem pairwise_refusedLines (source : LineSource) : source.refusedLines.Pairwise (· < ·) := by
  rw [← map_line_refused, refused, outcomes, ← Parsed.errors_ofOutcomes, List.pairwise_map]
  exact Parsed.pairwise_errors_outcomes 0 source.leadingLines

/-- What accepted statements mention stands on lines that never go back. -/
theorem pairwise_accepted (source : LineSource) :
    ((source.accepted.flatMap Statement.positions).map Position.line).Pairwise (· ≤ ·) := by
  rw [accepted, outcomes, ← Parsed.statements_ofOutcomes]
  exact Parsed.pairwise_positions_outcomes 0 source.leadingLines

/-- Every refused line is warned of once, at its own line. -/
theorem warnAt_refused (source : LineSource) :
    Event.WarnAt (source.refused.map .rejected) source.refusedLines := by
  rw [← map_line_refused]
  exact Event.warnAt_map (fun _ => rfl) (fun _ => rfl) source.refused

end LineSource

namespace Load

/-- A load that accounts for itself: its log and its report are those of the source. -/
structure IsAccountedFor [ToString H] (lookup : String → Option H) (config : LoadConfig)
    (source : LineSource) (load : Load H LoadReport) : Prop where
  /-- What is said, in order: the clearing, if there is one; the beginning; one truncation, if the
      source breaks off; the refused lines; what is said of the accepted statements, in their
      order; and the end, with the report. -/
  log : load.events =
    (if config.clearExisting then [.clearing] else []) ++ [.beginning] ++
      source.truncation?.toList.map .truncated ++ source.refused.map .rejected ++
      Resolution.eventsOf lookup config.verbose source.accepted ++ [.finished load.result]
  /-- What is asked of the rules, in order: the clearing, if there is one, and then what the
      accepted statements ask for, in their order. -/
  operations : load.operations =
    (if config.clearExisting then [.clear] else []) ++
      (List.range source.accepted.length).flatMap (Resolution.operationsAt lookup source.accepted)
  /-- What of the log is a warning: the truncation, the refused lines, and what is warned of the
      statements. The rest is information. -/
  warned : load.events.filter Event.isWarning =
    source.truncation?.toList.map .truncated ++ source.refused.map .rejected ++
      (Resolution.eventsOf lookup config.verbose source.accepted).filter Event.isWarning
  /-- Each refused line has one warning, and the lines of these strictly increase. -/
  refusals : Event.WarnAt (source.refused.map .rejected) source.refusedLines ∧
    source.refusedLines.Pairwise (· < ·)
  /-- Each warning of a statement names a line, and the lines of these never decrease. -/
  resolutions : ∃ lines,
    Event.WarnAt (Resolution.eventsOf lookup config.verbose source.accepted) lines ∧
      lines.Pairwise (· ≤ ·)
  /-- The end shows what is reported. -/
  finished : (Event.finished load.result).fields =
    [("statements", .number load.result.statements),
      ("registered", .number load.result.registrations),
      ("removed", .number load.result.removals),
      ("syntax_errors", .number load.result.rejectedLines),
      ("warnings", .number load.result.warnings)]
  truncated : load.result.truncated = source.truncation?.isSome
  rejectedLines : load.result.rejectedLines = source.refusedLines.length
  warnings : load.result.warnings =
    (Resolution.eventsOf lookup config.verbose source.accepted).countP Event.isWarning
  statements : load.result.statements = source.accepted.countP (!·.isEmpty)
  groupsBound : load.result.groupsBound = source.accepted.countP (·.group?.isSome)
  /-- Changes are counted as they are asked for, whatever they do to a store. -/
  registrations : load.result.registrations = load.operations.countP (·.isRegistration)
  removals : load.result.removals = load.operations.countP (·.isDeletion)
  isClean_iff : load.result.isClean ↔ ∀ event ∈ load.events, event.isWarning = false

/-- A load of a source, told by its lines: what is accepted is resolved, and the rest is counted. -/
theorem ofReading_ofSource [ToString H] (lookup : String → Option H) (config : LoadConfig)
    (source : LineSource) :
    let pass := Resolution.ofStatements lookup config.verbose source.accepted
    let report := { pass.report with
      rejectedLines := source.refused.length
      truncated := source.truncation?.isSome }
    ofReading lookup config (.ofSource source) =
      { result := report
        operations := openingOperations config ++ pass.operations
        events := openingEvents config ++ source.truncation?.toList.map .truncated ++
          source.refused.map .rejected ++ pass.events ++ [.finished report] } := by
  simp only [ofReading, report, LineSource.ofTokens_ofSource, LineSource.ofSource_truncation]

theorem filter_isWarning_openingEvents (config : LoadConfig) :
    (openingEvents config).filter Event.isWarning = [] := by
  unfold openingEvents
  split <;> rfl

theorem countP_openingOperations (config : LoadConfig) :
    (openingOperations config : List (RuleOperation H)).countP (·.isRegistration) = 0 ∧
      (openingOperations config : List (RuleOperation H)).countP (·.isDeletion) = 0 := by
  unfold openingOperations
  split <;> exact ⟨rfl, rfl⟩

/-- The warnings of a load: whether its source breaks off, which lines are refused, and what
    is warned of the statements. -/
theorem filter_isWarning_ofReading [ToString H] (lookup : String → Option H) (config : LoadConfig)
    (source : LineSource) :
    (ofReading lookup config (.ofSource source)).events.filter Event.isWarning =
      source.truncation?.toList.map .truncated ++ source.refused.map .rejected ++
        (Resolution.eventsOf lookup config.verbose source.accepted).filter Event.isWarning := by
  have hfinished (report : LoadReport) : [Event.finished report].filter Event.isWarning = [] := rfl
  have htruncated (truncations : List Truncation) :
      (truncations.map Event.truncated).filter Event.isWarning = truncations.map .truncated :=
    Event.filter_isWarning_map (fun _ => rfl) truncations
  have hrejected (errors : List ParseError) :
      (errors.map Event.rejected).filter Event.isWarning = errors.map .rejected :=
    Event.filter_isWarning_map (fun _ => rfl) errors
  simp only [ofReading_ofSource, List.filter_append, filter_isWarning_openingEvents, hfinished,
    htruncated, hrejected, Resolution.ofStatements_events, List.nil_append, List.append_nil]

/-- A load accounts for itself whatever source it reads. -/
theorem isAccountedFor_ofReading [ToString H] (lookup : String → Option H) (config : LoadConfig)
    (source : LineSource) :
    IsAccountedFor lookup config source (ofReading lookup config (.ofSource source)) := by
  obtain ⟨htallies, hwarns⟩ :=
    Resolution.ofStatements_balances lookup config.verbose source.accepted
  have hmet := Resolution.hasMet_ofStatements lookup config.verbose source.accepted
  have hsaid := Resolution.ofStatements_events lookup config.verbose source.accepted
  have hwarned := filter_isWarning_ofReading lookup config source
  obtain ⟨lines, hlines, hsublist⟩ := hwarns.lines
  have hwarnings := hwarns.warnings
  rw [hsaid] at hlines hwarnings
  obtain ⟨hregistrations, hremovals⟩ := countP_openingOperations (H := H) config
  rw [ofReading_ofSource] at hwarned ⊢
  exact {
    log := by simp [openingEvents, hsaid]
    operations := by simp [openingOperations, hmet.operations]
    warned := hwarned
    refusals := ⟨source.warnAt_refused, source.pairwise_refusedLines⟩
    resolutions := ⟨lines, hlines, source.pairwise_accepted.sublist hsublist⟩
    finished := rfl
    truncated := rfl
    rejectedLines := by simp [← source.map_line_refused]
    warnings := hwarnings
    statements := htallies.statements
    groupsBound := htallies.groupsBound
    registrations := by simp [List.countP_append, hregistrations, htallies.registrations]
    removals := by simp [List.countP_append, hremovals, htallies.removals]
    isClean_iff := by
      -- clean is each of the three parts of the warnings being empty
      simp only [← Bool.not_eq_true, ← List.filter_eq_nil_iff, hwarned]
      simp [LoadReport.isClean, hwarnings, List.countP_eq_zero, and_comm, and_left_comm]
  }

/-- Every load accounts for itself, whether of a text or of a byte stream. What it accounts for are
    the physical lines of the text, which does not break off, or of the bytes that the stream has
    brought, as far as they were read in whole lines, and what it broke off with. -/
theorem loads_are_accounted_for [ToString H] (lookup : String → Option H) (config : LoadConfig) :
    (∀ text,
      Text.HasLines text (LineSource.ofText text).leadingLines ∧
        (LineSource.ofText text).failure? = none ∧
        IsAccountedFor lookup config (.ofText text) (ofText lookup config text)) ∧
      ∀ events,
        Text.HasLines (Text.Utf8.decodeLossy (wholeLineBytes events))
            (LineSource.ofStream events).leadingLines ∧
          (LineSource.ofStream events).failure? = events.findSome? ReadEvent.breakOff? ∧
          IsAccountedFor lookup config (.ofStream events) (ofStream lookup config events) := by
  refine ⟨fun text => ⟨?_, LineSource.failure?_ofText text, ?_⟩,
    fun events => ⟨?_, LineSource.failure?_ofStream events, ?_⟩⟩
  · exact Text.hasLines_iff.mpr (LineSource.leadingLines_ofText text)
  · exact isAccountedFor_ofReading lookup config (.ofText text)
  · exact Text.hasLines_iff.mpr (LineSource.leadingLines_ofStream events)
  · exact isAccountedFor_ofReading lookup config (.ofStream events)

end Load

end CollisionRules
