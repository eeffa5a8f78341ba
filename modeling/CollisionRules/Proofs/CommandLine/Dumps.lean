import CollisionRules.CommandLine.LogFilter
import CollisionRules.CommandLine.Run
import CollisionRules.Proofs.CommandLine.Arguments
import CollisionRules.Proofs.Load.Registry
import CollisionRules.Yaml.Block
import Mathlib.Control.Monad.Basic

namespace CollisionRules.CommandLine

/-- Dumps make no difference to the host of a run. -/
theorem openHost_eq [Yaml.Library] {m : Type → Type} [Monad m] [FileAccess m]
    {options dumping : Options}
    (h : Options.AgreeButDumps options dumping) :
    openHost (m := m) dumping = openHost options := by
  simp only [openHost, settingsPath, abilities, force, h.value?, h.file?, h.flags .verbose rfl,
    h.flags .clear rfl]

/-- The dumps that options ask for, as they are printed of a text. -/
def dumpLines (options : Options) (text : List Char) : List String :=
  (if options.flags .tokens then tokenDump text else []) ++
    if options.flags .statements then statementDump (.ofText text) else []

/-- Dumps that are asked for besides come between those that are printed anyway. -/
theorem dumpLines_sublist {options dumping : Options}
    (h : Options.AgreeButDumps options dumping) (text : List Char) :
    (dumpLines options text).Sublist (dumpLines dumping text) := by
  have hpart : ∀ flag (lines : List String),
      (if options.flags flag then lines else []).Sublist
        (if dumping.flags flag then lines else []) := by
    intro flag lines
    by_cases hflag : options.flags flag
    · simp [hflag, h.dumps flag hflag]
    · simp [hflag]
  exact (hpart .tokens _).append (hpart .statements _)

/-- A dump of some kind is asked for. -/
def Options.asksForDump (options : Options) : Bool :=
  options.flags .tokens || options.flags .statements

/-- What shows of a run: its exit code, what it prints, and the last of its messages. -/
structure Outcome.Shows (outcome : Outcome) (exitCode : Nat) (output : List String)
    (last : String) : Prop where
  exitCode : outcome.exitCode = exitCode
  output : outcome.output = output
  last : outcome.messages.getLast? = some last

theorem shows_failed (output log : List String) (message : String) :
    (failed output log message).Shows 1 output (errorLine message) :=
  ⟨rfl, rfl, List.getLast?_concat⟩

variable {options : Options} {tree : FileTree} {source : Path}

theorem dumpIf_run (asked : Bool) (make : Path → Except Failure (List Char) → Dump)
    (source : Path) (tree : FileTree) :
    dumpIf (m := StateM FileTree) asked make source tree =
      (if asked then make source (FileAccess.textOf (tree.openFile source)) else .none, tree) := by
  cases asked <;> rfl

/-- The dumps of a file, given what each of the two comes to. -/
theorem dump_run {tokens statements : Dump}
    (htokens : dumpIf (m := StateM FileTree) (options.flags .tokens) .tokens source tree =
      (tokens, tree))
    (hstatements : dumpIf (m := StateM FileTree) (options.flags .statements) .statements source
      tree = (statements, tree)) :
    dump (m := StateM FileTree) options source tree =
      (if tokens.error?.isSome then tokens
        else ⟨tokens.output ++ statements.output, tokens.events ++ statements.events,
          statements.error?⟩, tree) := by
  simp only [dump, bind, StateT.bind, htokens]
  cases tokens.error? with
  | none =>
    simp only [StateT.bind, hstatements]
    rfl
  | some error => rfl

/-- The dumps of a file that is text. -/
theorem dump_of_text (options : Options) {text : List Char}
    (htext : FileAccess.textOf (tree.openFile source) = .ok text) :
    ∃ events, dump (m := StateM FileTree) options source tree =
      (⟨dumpLines options text, events, .none⟩, tree) := by
  rw [dump_run (dumpIf_run _ _ _ _) (dumpIf_run _ _ _ _), htext, dumpLines]
  cases options.flags .tokens <;> cases options.flags .statements <;> exact ⟨_, rfl⟩

/-- The dumps of a file that is not: the first one fails. -/
theorem dump_of_error (options : Options) {failure : Failure}
    (htext : FileAccess.textOf (tree.openFile source) = .error failure) :
    dump (m := StateM FileTree) options source tree =
      (if options.asksForDump then ⟨[], [], some (.unreadable source failure)⟩ else .none,
        tree) := by
  rw [dump_run (dumpIf_run _ _ _ _) (dumpIf_run _ _ _ _), htext, Options.asksForDump]
  cases options.flags .tokens <;> cases options.flags .statements <;> rfl

/-- The rules that a host prints once it has loaded a stream. -/
def ruleLines (host : Host) (stream : List ReadEvent) : List String :=
  let load := Load.ofStream host.abilities.get? host.config stream
  (host.rules.applyAll load.operations).rules.map Rule.render

/-- The report of loading a stream, as it is printed. -/
def reportLine (host : Host) (stream : List ReadEvent) : String :=
  (Load.ofStream host.abilities.get? host.config stream).result.render

section LoadAndPrint

variable {host : Host} {filter : Event → Bool} {opening : List Event} {dumped : Dump}

theorem loadAndPrint_of_dump_error {error : Error}
    (hdump : dump (m := StateM FileTree) options host.config.source tree = (dumped, tree))
    (herror : dumped.error? = some error) :
    loadAndPrint (m := StateM FileTree) options filter host opening tree =
      (failed dumped.output (logLines filter (opening ++ dumped.events)) error.render, tree) := by
  simp only [loadAndPrint, bind, StateT.bind, hdump, herror]
  rfl

/-- A run whose dumps are printed goes on with the load of the file. -/
theorem loadAndPrint_of_dump
    (hdump : dump (m := StateM FileTree) options host.config.source tree = (dumped, tree))
    (herror : dumped.error? = none) :
    loadAndPrint (m := StateM FileTree) options filter host opening tree =
      (let step := host.loadOpened (tree.openFile host.config.source)
        let log := logLines filter (opening ++ dumped.events ++ step.events)
        match step.result with
        | .error error => failed dumped.output log error.render
        | .ok report =>
          ⟨0, dumped.output ++ step.host.rules.rules.map Rule.render, log ++ [report.render]⟩,
        tree) := by
  have hload : host.load (m := StateM FileTree) tree =
      (host.loadOpened (tree.openFile host.config.source), tree) := rfl
  simp only [loadAndPrint, bind, StateT.bind, hdump, herror, hload]
  cases (host.loadOpened (tree.openFile host.config.source)).result <;> rfl

/-- A run leaves the files alone once it has its host. -/
theorem loadAndPrint_files (options : Options) (filter : Event → Bool) (host : Host)
    (opening : List Event) (tree : FileTree) :
    (loadAndPrint (m := StateM FileTree) options filter host opening tree).2 = tree := by
  obtain ⟨dumped, hdump⟩ : ∃ dumped,
      dump (m := StateM FileTree) options host.config.source tree = (dumped, tree) :=
    ⟨_, dump_run (dumpIf_run _ _ _ _) (dumpIf_run _ _ _ _)⟩
  cases herror : dumped.error? with
  | none => rw [loadAndPrint_of_dump hdump herror]
  | some error => rw [loadAndPrint_of_dump_error hdump herror]

/-- A file that does not open stops a run at its first dump or else at the load. -/
theorem loadAndPrint_of_unopened {failure : Failure}
    (hopen : tree.openFile host.config.source = .error failure) :
    (loadAndPrint (m := StateM FileTree) options filter host opening tree).1.Shows 1 []
      (errorLine (Error.unreadable host.config.source failure).render) := by
  have htext : FileAccess.textOf (tree.openFile host.config.source) = .error failure := by
    rw [hopen]
    rfl
  have hdump := dump_of_error options htext
  by_cases hasks : options.asksForDump
  · rw [if_pos hasks] at hdump
    rw [loadAndPrint_of_dump_error hdump rfl]
    exact shows_failed ..
  · rw [if_neg hasks] at hdump
    rw [loadAndPrint_of_dump hdump rfl, hopen]
    exact shows_failed ..

/-- A file that opens and is text is loaded and its rules are printed, behind the dumps. -/
theorem loadAndPrint_of_text {stream : List ReadEvent} {text : List Char}
    (hopen : tree.openFile host.config.source = .ok stream)
    (htext : FileAccess.textOf (.ok stream) = .ok text) :
    (loadAndPrint (m := StateM FileTree) options filter host opening tree).1.Shows 0
      (dumpLines options text ++ ruleLines host stream) (reportLine host stream) := by
  obtain ⟨events, hdump⟩ := dump_of_text options (hopen ▸ htext)
  rw [loadAndPrint_of_dump hdump rfl, hopen, Host.loadOpened_ok]
  exact ⟨rfl, rfl, List.getLast?_concat⟩

/-- A file that opens and is no text is loaded, and its rules are printed, only where no dump
    is asked for. -/
theorem loadAndPrint_of_no_text {stream : List ReadEvent} {failure : Failure}
    (hopen : tree.openFile host.config.source = .ok stream)
    (htext : FileAccess.textOf (.ok stream) = .error failure) :
    let outcome := (loadAndPrint (m := StateM FileTree) options filter host opening tree).1
    if options.asksForDump then
      outcome.Shows 1 [] (errorLine (Error.unreadable host.config.source failure).render)
    else outcome.Shows 0 (ruleLines host stream) (reportLine host stream) := by
  have hdump := dump_of_error options (hopen ▸ htext)
  by_cases hasks : options.asksForDump
  · rw [if_pos hasks] at hdump ⊢
    rw [loadAndPrint_of_dump_error hdump rfl]
    exact shows_failed ..
  · rw [if_neg hasks] at hdump ⊢
    rw [loadAndPrint_of_dump hdump rfl, hopen, Host.loadOpened_ok]
    exact ⟨rfl, rfl, List.getLast?_concat⟩

end LoadAndPrint

/-- What a run has to load: its host, and the stream of its rule file; or the error that it
    fails with before. -/
def openRules [Yaml.Library] (options : Options) (tree : FileTree) :
    Except Error (Host × List ReadEvent) :=
  match openHost (m := StateM FileTree) options tree with
  | ((.error error, _), _) => .error error
  | ((.ok host, _), later) =>
    match later.openFile host.config.source with
    | .ok stream => .ok (host, stream)
    | .error failure => .error (.unreadable host.config.source failure)

/-- What a run has to load was opened by its host. -/
theorem openRules_eq_ok [Yaml.Library] {host : Host} {stream : List ReadEvent}
    (hopen : openRules options tree = .ok (host, stream)) :
    ∃ events later, openHost (m := StateM FileTree) options tree = ((.ok host, events), later) ∧
      later.openFile host.config.source = .ok stream := by
  unfold openRules at hopen
  split at hopen
  · cases hopen
  · next opened events later hhost =>
    split at hopen
    · next found hfile =>
      cases hopen
      exact ⟨events, later, hhost, hfile⟩
    · cases hopen

section Run

variable {arguments : List String} (wanted? : Option String)
  (haccepted : Options.ofArguments arguments = .ok options)
  (hhelp : options.flags .help = false) (hversion : options.flags .version = false)

include haccepted hhelp hversion

/-- A run without a host says why and ends. -/
theorem run_of_host_error [Yaml.Library] [LogReader] {error : Error} {events : List Event}
    {later : FileTree}
    (hhost : openHost (m := StateM FileTree) options tree = ((.error error, events), later)) :
    run (m := StateM FileTree) arguments wanted? tree =
      (failed [] (logLines (filterOf options wanted?) events) error.render, later) := by
  simp only [run, haccepted, runOptions, hhelp, hversion, Bool.false_eq_true, if_false, bind,
    StateT.bind, hhost]
  rfl

/-- A run with a host goes on to load and to print. -/
theorem run_of_host [Yaml.Library] [LogReader] {host : Host} {events : List Event}
    {later : FileTree}
    (hhost : openHost (m := StateM FileTree) options tree = ((.ok host, events), later)) :
    run (m := StateM FileTree) arguments wanted? tree =
      loadAndPrint (m := StateM FileTree) options (filterOf options wanted?) host events later := by
  simp only [run, haccepted, runOptions, hhelp, hversion, Bool.false_eq_true, if_false, bind,
    StateT.bind, hhost]

/-- A run that does not get to its rule file, or cannot open it, prints nothing. -/
theorem run_of_unopened [Yaml.Library] [LogReader] {error : Error}
    (hopen : openRules options tree = .error error) :
    (run (m := StateM FileTree) arguments wanted? tree).1.Shows 1 [] (errorLine error.render) := by
  unfold openRules at hopen
  split at hopen
  · next unopened events later hhost =>
    obtain rfl : unopened = error := by simpa using hopen
    rw [run_of_host_error wanted? haccepted hhelp hversion hhost]
    exact shows_failed ..
  · next host events later hhost =>
    split at hopen
    · cases hopen
    · next failure hfile =>
      obtain rfl := Except.error.inj hopen
      rw [run_of_host wanted? haccepted hhelp hversion hhost]
      exact loadAndPrint_of_unopened hfile

/-- A run whose rule file is text prints its dumps and then its rules. -/
theorem run_of_text [Yaml.Library] [LogReader] {host : Host} {stream : List ReadEvent}
    {text : List Char}
    (hopen : openRules options tree = .ok (host, stream))
    (htext : FileAccess.textOf (.ok stream) = .ok text) :
    (run (m := StateM FileTree) arguments wanted? tree).1.Shows 0
      (dumpLines options text ++ ruleLines host stream) (reportLine host stream) := by
  obtain ⟨events, later, hhost, hfile⟩ := openRules_eq_ok hopen
  rw [run_of_host wanted? haccepted hhelp hversion hhost]
  exact loadAndPrint_of_text hfile htext

/-- A run whose rule file is no text fails if it is asked for a dump, and prints its rules
    otherwise. -/
theorem run_of_no_text [Yaml.Library] [LogReader] {host : Host} {stream : List ReadEvent}
    {failure : Failure}
    (hopen : openRules options tree = .ok (host, stream))
    (htext : FileAccess.textOf (.ok stream) = .error failure) :
    let outcome := (run (m := StateM FileTree) arguments wanted? tree).1
    if options.asksForDump then
      outcome.Shows 1 [] (errorLine (Error.unreadable host.config.source failure).render)
    else outcome.Shows 0 (ruleLines host stream) (reportLine host stream) := by
  obtain ⟨events, later, hhost, hfile⟩ := openRules_eq_ok hopen
  rw [run_of_host wanted? haccepted hhelp hversion hhost]
  exact loadAndPrint_of_no_text hfile htext

/-- A run makes no change of the files but those that its host takes. -/
theorem run_files [Yaml.Library] [LogReader] :
    (run (m := StateM FileTree) arguments wanted? tree).2 =
    (openHost (m := StateM FileTree) options tree).2 := by
  cases hhost : openHost (m := StateM FileTree) options tree with
  | mk opened later =>
    obtain ⟨opened, events⟩ := opened
    cases opened with
    | error error => rw [run_of_host_error wanted? haccepted hhelp hversion hhost]
    | ok host => rw [run_of_host wanted? haccepted hhelp hversion hhost, loadAndPrint_files]

end Run

/-- Asking for dumps besides changes neither the exit code of a run, nor the rules that it prints
    behind the dumps, nor its last message, if the rule file does not open or is text. A file
    that opens and is no text is loaded, and its rules are printed, as long as no dump is asked
    for; with a dump the run fails and prints nothing. -/
theorem dumps_only_add_to_text [Yaml.Library] [LogReader] {arguments more : List String}
    {options : Options}
    (haccepted : Options.ofArguments arguments = .ok options)
    (hhelp : options.flags .help = false) (hversion : options.flags .version = false)
    (hmore : AsksForDumps arguments more) (wanted? : Option String) (tree : FileTree) :
    ∃ dumping, Options.ofArguments more = .ok dumping ∧
      let plain := run (m := StateM FileTree) arguments wanted? tree
      let dumped := run (m := StateM FileTree) more wanted? tree
      dumped.2 = plain.2 ∧
        match openRules options tree with
        | .error error =>
          plain.1.Shows 1 [] (errorLine error.render) ∧
            dumped.1.Shows 1 [] (errorLine error.render)
        | .ok (host, stream) =>
          match FileAccess.textOf (.ok stream) with
          | .ok text =>
            plain.1.Shows 0 (dumpLines options text ++ ruleLines host stream)
                (reportLine host stream) ∧
              dumped.1.Shows 0 (dumpLines dumping text ++ ruleLines host stream)
                (reportLine host stream) ∧
              (dumpLines options text).Sublist (dumpLines dumping text)
          | .error failure =>
            let unreadable := errorLine (Error.unreadable host.config.source failure).render
            (if options.asksForDump then plain.1.Shows 1 [] unreadable
              else plain.1.Shows 0 (ruleLines host stream) (reportLine host stream)) ∧
              if dumping.asksForDump then dumped.1.Shows 1 [] unreadable
              else dumped.1.Shows 0 (ruleLines host stream) (reportLine host stream) := by
  obtain ⟨dumping, hadded, hagree⟩ :=
    (Options.AgreeButDumps.refl Options.none).addArguments hmore haccepted
  have hhelp' := (hagree.flags .help rfl).trans hhelp
  have hversion' := (hagree.flags .version rfl).trans hversion
  have hhost : openHost (m := StateM FileTree) dumping = openHost options := openHost_eq hagree
  have hsame : openRules dumping tree = openRules options tree := by
    rw [openRules, hhost, openRules]
  refine ⟨dumping, hadded, ?_, ?_⟩
  · rw [run_files wanted? hadded hhelp' hversion', hhost,
      run_files wanted? haccepted hhelp hversion]
  · split
    · next error hopen =>
      exact ⟨run_of_unopened wanted? haccepted hhelp hversion hopen,
        run_of_unopened wanted? hadded hhelp' hversion' (hsame.trans hopen)⟩
    · next host stream hopen =>
      split
      · next text htext =>
        exact ⟨run_of_text wanted? haccepted hhelp hversion hopen htext,
          run_of_text wanted? hadded hhelp' hversion' (hsame.trans hopen) htext,
          dumpLines_sublist hagree text⟩
      · next failure htext =>
        exact ⟨run_of_no_text wanted? haccepted hhelp hversion hopen htext,
          run_of_no_text wanted? hadded hhelp' hversion' (hsame.trans hopen) htext⟩

/-- Both dumps are asked for, one before and one behind the rule file. -/
theorem dumps_only_add_to_commented_rule :
    let arguments := ["-q", "rules"]
    let more := ["--tokens", "-q", "rules", "--ast"]
    let options := { Options.none.setFlag .quiet with file? := some ⟨"rules"⟩ }
    let text := "AirBlast > FireBlast # é\n".toList
    let tree := (FileTree.empty []).put ["rules"] (.file (Text.Utf8.encode text))
    let plain := (run (m := StateM FileTree) arguments none tree).1
    let dumped := (run (m := StateM FileTree) more none tree).1
    Options.ofArguments arguments = .ok options ∧ options.flags .help = false ∧
      options.flags .version = false ∧ AsksForDumps arguments more ∧
      plain.exitCode = 0 ∧ dumped.exitCode = 0 ∧
      dumped.output = tokenDump text ++ statementDump (.ofText text) ++ plain.output ∧
      dumped.messages.getLast? = plain.messages.getLast? := by
  intro arguments more options text tree plain dumped
  have haccepted : Options.ofArguments arguments = .ok options := rfl
  have hmore : AsksForDumps arguments more := by
    have hquiet : Argument.ofText "-q" = .flag .quiet := rfl
    have hfile : Argument.ofText "rules" = .file := by decide
    exact .dump rfl rfl (.other (by simp [hquiet]) (.other (by simp [hfile]) (.dump rfl rfl .nil)))
  let host := force options (.new Roster.coreTable .default)
  have hopen : openRules options tree = .ok (host, [.bytes (Text.Utf8.encode text)]) := by
    have hhost : openHost (m := StateM FileTree) options tree = ((.ok host, []), tree) := rfl
    have hopened : tree.openFile ⟨"rules"⟩ = .ok [.bytes (Text.Utf8.encode text)] := by
      decide +kernel
    have hsource : host.config.source = ⟨"rules"⟩ := rfl
    rw [openRules, hhost]
    simp only [hsource, hopened]
  have htext : FileAccess.textOf (.ok [.bytes (Text.Utf8.encode text)]) = .ok text := by
    decide +kernel
  obtain ⟨dumping, hadded, -, h⟩ := dumps_only_add_to_text haccepted rfl rfl hmore none tree
  simp only [hopen, htext] at h
  obtain ⟨hplain, hdumped, -⟩ := h
  have hlines : dumpLines dumping text = tokenDump text ++ statementDump (.ofText text) := by
    have hflags : ∀ flag, (Options.ofArguments more).toOption.map (·.flags flag) =
        some (dumping.flags flag) := fun flag => by rw [hadded]; rfl
    have htokens : true = dumping.flags .tokens := Option.some.inj (hflags .tokens)
    have hstatements : true = dumping.flags .statements := Option.some.inj (hflags .statements)
    simp [dumpLines, ← htokens, ← hstatements]
  refine ⟨haccepted, rfl, rfl, hmore, hplain.exitCode, hdumped.exitCode, ?_, ?_⟩
  · rw [hdumped.output, hplain.output, hlines]
    rfl
  · rw [hdumped.last, hplain.last]

/-- A byte of a comment that is not UTF-8 costs nothing, until a dump is asked for. -/
theorem dump_stops_load_of_ill_formed_comment :
    let arguments := ["rules"]
    let more := ["--tokens", "rules"]
    let bytes := Text.Utf8.encode "AirBlast > FireBlast # ".toList ++ [0xFF, 0x0A]
    let tree := (FileTree.empty []).put ["rules"] (.file bytes)
    let plain := (run (m := StateM FileTree) arguments none tree).1
    let dumped := (run (m := StateM FileTree) more none tree).1
    AsksForDumps arguments more ∧
      (plain.exitCode = 0 ∧ plain.output = ["AirBlast > FireBlast"]) ∧
      dumped.exitCode = 1 ∧ dumped.output = [] := by
  intro arguments more bytes tree plain dumped
  have hfile : Argument.ofText "rules" = .file := by decide
  exact ⟨.dump rfl rfl (.other (by simp [hfile]) .nil), by decide +kernel, by decide +kernel⟩

end CollisionRules.CommandLine
