import CollisionRules.Proofs.Resolution.Products
import CollisionRules.Proofs.Statement.Names

namespace CollisionRules

variable {H : Type}

namespace Event

def isWarning (event : Event) : Bool :=
  event.level == .warn

/-- The line of the source that an event names. -/
def line? (event : Event) : Option Nat :=
  event.fields.findSome? fun
    | ("line", .number line) => some line
    | _ => none

/-- The warnings among some events name these lines, in this order. -/
def WarnAt (events : List Event) (lines : List Nat) : Prop :=
  (events.filter isWarning).map line? = lines.map some

theorem filter_isWarning_map {α : Type} {event : α → Event}
    (hwarning : ∀ a, (event a).isWarning) (values : List α) :
    (values.map event).filter isWarning = values.map event :=
  List.filter_eq_self.mpr (List.forall_mem_map.mpr fun a _ => hwarning a)

/-- Events that all warn, each of its own line, warn of those lines in order. -/
theorem warnAt_map {α : Type} {event : α → Event} {line : α → Nat}
    (hwarning : ∀ a, (event a).isWarning) (hline : ∀ a, (event a).line? = some (line a))
    (values : List α) : WarnAt (values.map event) (values.map line) := by
  rw [WarnAt, filter_isWarning_map hwarning, List.map_map, List.map_map]
  exact List.map_congr_left fun a _ => hline a

/-- Events that do not warn warn of no line. -/
theorem warnAt_nil {events : List Event} (hevents : ∀ event ∈ events, event.isWarning = false) :
    WarnAt events [] := by
  have hnone : events.filter isWarning = [] := by simpa using hevents
  rw [WarnAt, hnone]
  rfl

/-- Warnings one behind the other are of lines one behind the other. -/
theorem WarnAt.append {events later : List Event} {lines more : List Nat}
    (hevents : WarnAt events lines) (hlater : WarnAt later more) :
    WarnAt (events ++ later) (lines ++ more) := by
  simp only [WarnAt, List.filter_append, List.map_append] at *
  rw [hevents, hlater]

/-- There are as many warnings as lines that are warned of. -/
theorem WarnAt.countP {events : List Event} {lines : List Nat} (hevents : WarnAt events lines) :
    events.countP isWarning = lines.length := by
  simpa [List.countP_eq_length_filter] using congrArg List.length hevents

end Event

namespace RuleOperation

def isRegistration : RuleOperation H → Bool
  | .register _ => true
  | .eraseBetween _ _ | .clear => false

def isDeletion : RuleOperation H → Bool
  | .eraseBetween _ _ => true
  | .register _ | .clear => false

end RuleOperation

namespace Resolution

/-- No change is a warning. -/
theorem not_isWarning_changeEvent [ToString H] (effect : Effect) (pair : H × H) :
    (changeEvent effect pair).isWarning = false := by
  cases effect <;> rfl

/-- An operand of statement `k` names nothing known there: no ability that is looked up,
    or no group declared before `k`. -/
def isUnknownAt (lookup : String → Option H) (statements : List Statement) (k : Nat)
    (operand : Operand) : Bool :=
  match operand.kind with
  | .ability => (lookup (Ability.canonicalName operand.name)).isNone
  | .group => (latestGroup? statements operand.name k).isNone

/-- One warning for each operand of statement `k` that names nothing known there. -/
def warningsAt (lookup : String → Option H) (statements : List Statement) (k : Nat)
    (operands : List Operand) : List Event :=
  (operands.filter (isUnknownAt lookup statements k)).map .unresolved

/-- What is said of statement `k`. A nameless group is warned of, and its operands are
    not looked at. Of the others the operands that name nothing known are warned of, in
    order, and a verbose pass then says what it has bound or changed. -/
def eventsAt [ToString H] (lookup : String → Option H) (verbose : Bool)
    (statements : List Statement) (k : Nat) : List Event :=
  match statements[k]? with
  | some (.group declaration) =>
    let line := declaration.position.line
    if declaration.name = "" then [.nameless line]
    else
      warningsAt lookup statements k declaration.members ++
        if verbose then
          [.bound declaration.name (declaredValue lookup statements (k, declaration)).length line]
        else []
  | some (.collision declaration) =>
    warningsAt lookup statements k [declaration.left, declaration.right] ++
      if verbose then
        (valueAt lookup statements k declaration.left ×ˢ
          valueAt lookup statements k declaration.right).map
            (changeEvent declaration.operator.effect)
      else []
  | _ => []

/-- What is said of the statements of a program, in their order. -/
def eventsOf [ToString H] (lookup : String → Option H) (verbose : Bool)
    (statements : List Statement) : List Event :=
  (List.range statements.length).flatMap (eventsAt lookup verbose statements)

namespace HasMet

variable {lookup : String → Option H} {statements : List Statement} {k : Nat}
  {pass : Resolution H}

/-- The table of a pass knows an operand exactly if it is known by position. -/
theorem evaluate_isNone (hmet : HasMet lookup statements k pass) (operand : Operand) :
    (evaluate lookup pass.groups operand).isNone = isUnknownAt lookup statements k operand := by
  cases hkind : operand.kind with
  | ability => simp [evaluate, isUnknownAt, hkind, Ability.resolve]
  | group => simp [evaluate, isUnknownAt, hkind, hmet.groups]

theorem unresolved_eq (hmet : HasMet lookup statements k pass) (operands : List Operand) :
    unresolved lookup pass.groups operands =
      operands.filter (isUnknownAt lookup statements k) := by
  simp only [unresolved, hmet.evaluate_isNone]

/-- A statement adds what is said of it at its place. -/
theorem events_apply [ToString H] (hmet : HasMet lookup statements k pass) (verbose : Bool)
    {statement : Statement} (hget : statements[k]? = some statement) :
    (pass.apply lookup verbose statement).events =
      pass.events ++ eventsAt lookup verbose statements k := by
  cases statement with
  | empty => simp [Resolution.apply, eventsAt, hget]
  | group declaration =>
    by_cases hname : declaration.name = ""
    · simp [Resolution.apply, declare, eventsAt, hget, hname]
    · simp [Resolution.apply, declare, eventsAt, hget, hname, warningsAt, declaredValue,
        hmet.unresolved_eq, hmet.members_eq]
  | collision declaration =>
    have hleft := hmet.members_eq [declaration.left]
    have hright := hmet.members_eq [declaration.right]
    simp only [List.flatMap_singleton] at hleft hright
    simp only [Resolution.apply, collide, hleft, hright, hmet.unresolved_eq, eventsAt, hget,
      warningsAt, List.append_assoc]
    rfl

end HasMet

/-- At its end a pass has met all the statements of its program. -/
theorem hasMet_ofStatements [ToString H] (lookup : String → Option H) (verbose : Bool)
    (statements : List Statement) :
    HasMet lookup statements statements.length (ofStatements lookup verbose statements) := by
  simpa using HasMet.applyAll_take lookup verbose statements (Nat.le_refl _)

/-- A pass says what is said of its statements, in their order. -/
theorem ofStatements_events [ToString H] (lookup : String → Option H) (verbose : Bool)
    (statements : List Statement) :
    (ofStatements lookup verbose statements).events = eventsOf lookup verbose statements := by
  have hprefix : ∀ k ≤ statements.length,
      (ofStatements lookup verbose (statements.take k)).events =
        (List.range k).flatMap (eventsAt lookup verbose statements) := by
    intro k hk
    induction k with
    | zero => rfl
    | succ k ih =>
      have hlt : k < statements.length := hk
      have hmet := HasMet.applyAll_take lookup verbose statements (Nat.le_of_lt hlt)
      rw [ofStatements_take_succ lookup verbose hlt,
        hmet.events_apply verbose (List.getElem?_eq_getElem hlt), ih (Nat.le_of_lt hlt)]
      simp [List.range_succ]
  simpa [eventsOf] using hprefix statements.length (Nat.le_refl _)

/-- The counts of a pass that has met the statements `met`, warnings apart, are those of what
    it has met and of what it has asked for. -/
structure Tallies (met : List Statement) (pass : Resolution H) : Prop where
  statements : pass.report.statements = met.countP (!·.isEmpty)
  groupsBound : pass.report.groupsBound = met.countP (·.group?.isSome)
  registrations : pass.report.registrations = pass.operations.countP (·.isRegistration)
  removals : pass.report.removals = pass.operations.countP (·.isDeletion)

/-- A pass that has met the statements `met` counts its warnings. Each of them names a line,
    and these are lines of statements it has met, in their order. -/
structure Warns (met : List Statement) (pass : Resolution H) : Prop where
  warnings : pass.report.warnings = pass.events.countP (·.isWarning)
  lines : ∃ lines, Event.WarnAt pass.events lines ∧
    lines.Sublist ((met.flatMap Statement.positions).map Position.line)

variable {met : List Statement} {pass : Resolution H}

theorem tallies_start : Tallies [] (start : Resolution H) where
  statements := rfl
  groupsBound := rfl
  registrations := rfl
  removals := rfl

theorem warns_start : Warns [] (start : Resolution H) where
  warnings := rfl
  lines := ⟨[], rfl, List.Sublist.refl _⟩

/-- Applying an effect to some pairs counts them among the changes of its kind, and alters
    no other count. -/
theorem countChanges_eq (effect : Effect) (pairs : List (H × H)) (report : LoadReport) :
    countChanges effect pairs.length report =
      { report with
        registrations :=
          report.registrations + (pairs.map (change effect)).countP (·.isRegistration)
        removals := report.removals + (pairs.map (change effect)).countP (·.isDeletion) } := by
  cases effect with
  | erase =>
    simp [countChanges, change, RuleOperation.isRegistration, RuleOperation.isDeletion,
      Function.comp_def]
  | register removeFirst removeSecond =>
    simp [countChanges, change, RuleOperation.isRegistration, RuleOperation.isDeletion,
      Function.comp_def]

/-- Every statement is tallied as what it is. -/
theorem Tallies.apply [ToString H] (hpass : Tallies met pass) (lookup : String → Option H)
    (verbose : Bool) (statement : Statement) :
    Tallies (met ++ [statement]) (pass.apply lookup verbose statement) := by
  cases statement with
  | empty =>
    constructor <;>
      simp [Resolution.apply, Statement.isEmpty, Statement.group?, hpass.statements,
        hpass.groupsBound, hpass.registrations, hpass.removals]
  | group declaration =>
    by_cases hname : declaration.name = "" <;> constructor <;>
      simp [Resolution.apply, declare, hname, Statement.isEmpty, Statement.group?,
        hpass.statements, hpass.groupsBound, hpass.registrations, hpass.removals]
  | collision declaration =>
    constructor <;>
      simp [Resolution.apply, collide, countChanges_eq, Statement.isEmpty, Statement.group?,
        hpass.statements, hpass.groupsBound, hpass.registrations, hpass.removals]

/-- A statement keeps the warnings in step, if it has one more of them counted for each line
    that what it makes the pass say warns of, and these are lines of its own. -/
theorem Warns.say (hpass : Warns met pass) {statement : Statement} {next : Resolution H}
    {said : List Event} {lines : List Nat} (hevents : next.events = pass.events ++ said)
    (hsaid : Event.WarnAt said lines)
    (hlines : lines.Sublist (statement.positions.map Position.line))
    (hwarnings : next.report.warnings = pass.report.warnings + lines.length) :
    Warns (met ++ [statement]) next where
  warnings := by rw [hwarnings, hevents, List.countP_append, hpass.warnings, hsaid.countP]
  lines := by
    obtain ⟨before, hbefore, hsublist⟩ := hpass.lines
    refine ⟨before ++ lines, ?_, ?_⟩
    · rw [hevents]
      exact hbefore.append hsaid
    · simpa using hsublist.append hlines

/-- What is said of operands that name nothing known are warnings, and nothing that a verbose
    pass adds is one. -/
theorem filter_isWarning_unresolved_append (unknown : List Operand) (verbose : Bool)
    {added : List Event} (hadded : ∀ event ∈ added, event.isWarning = false) :
    (unknown.map Event.unresolved ++ if verbose then added else []).filter (·.isWarning) =
      unknown.map .unresolved := by
  have hverbose : (if verbose then added else []).filter (·.isWarning) = [] := by
    split
    · simpa using hadded
    · rfl
  rw [List.filter_append, hverbose, Event.filter_isWarning_map fun _ => rfl, List.append_nil]

/-- The warnings of operands that name nothing known are each at the operand's own line. -/
theorem warnAt_unresolved_append (lookup : String → Option H) (groups : GroupTable H)
    (operands : List Operand) (verbose : Bool) {added : List Event}
    (hadded : ∀ event ∈ added, event.isWarning = false) :
    let unknown := unresolved lookup groups operands
    Event.WarnAt (unknown.map .unresolved ++ if verbose then added else [])
        (unknown.map (·.position.line)) ∧
      (unknown.map (·.position.line)).Sublist (operands.map (·.position.line)) := by
  intro unknown
  refine ⟨?_, List.filter_sublist.map _⟩
  rw [Event.WarnAt, filter_isWarning_unresolved_append unknown verbose hadded, List.map_map,
    List.map_map]
  rfl

/-- A declaration of a group warns at its own line alone. -/
theorem Warns.declare (hpass : Warns met pass) (lookup : String → Option H) (verbose : Bool)
    (declaration : GroupDeclaration) :
    Warns (met ++ [.group declaration]) (pass.declare lookup verbose declaration) := by
  by_cases hname : declaration.name = ""
  · have hsaid : Event.WarnAt [.nameless declaration.position.line]
        [declaration.position.line] := rfl
    refine hpass.say ?_ hsaid ?_ ?_
    · simp [Resolution.declare, hname]
    · simp [Statement.positions]
    · simp [Resolution.declare, hname]
  · have hadded : ∀ event ∈ [Event.bound declaration.name
        (members lookup pass.groups declaration.members).length declaration.position.line],
        event.isWarning = false := by
      intro event hevent
      obtain rfl := List.mem_singleton.mp hevent
      rfl
    obtain ⟨hsaid, hlines⟩ :=
      warnAt_unresolved_append lookup pass.groups declaration.members verbose hadded
    refine hpass.say ?_ hsaid ?_ ?_
    · simp [Resolution.declare, hname]
    · simpa [Statement.positions, Function.comp_def] using hlines.cons declaration.position.line
    · simp [Resolution.declare, hname]

/-- A collision warns at the lines of its operands alone. -/
theorem Warns.collide [ToString H] (hpass : Warns met pass) (lookup : String → Option H)
    (verbose : Bool) (declaration : CollisionDeclaration) :
    Warns (met ++ [.collision declaration]) (pass.collide lookup verbose declaration) := by
  have hadded : ∀ event ∈ (pairs (members lookup pass.groups [declaration.left])
      (members lookup pass.groups [declaration.right])).map
        (changeEvent declaration.operator.effect), event.isWarning = false := by
    intro event hevent
    obtain ⟨pair, _, rfl⟩ := List.mem_map.mp hevent
    exact not_isWarning_changeEvent _ pair
  obtain ⟨hsaid, hlines⟩ := warnAt_unresolved_append lookup pass.groups
    [declaration.left, declaration.right] verbose hadded
  refine hpass.say ?_ hsaid ?_ ?_
  · simp [Resolution.collide]
  · simpa [Statement.positions] using hlines
  · simp [Resolution.collide, countChanges_eq]

/-- Every statement warns at lines that it stands on. -/
theorem Warns.apply [ToString H] (hpass : Warns met pass) (lookup : String → Option H)
    (verbose : Bool) (statement : Statement) :
    Warns (met ++ [statement]) (pass.apply lookup verbose statement) := by
  cases statement with
  | empty =>
    exact hpass.say (List.append_nil _).symm (Event.warnAt_nil (by simp)) (List.nil_sublist _) rfl
  | group declaration => exact hpass.declare lookup verbose declaration
  | collision declaration => exact hpass.collide lookup verbose declaration

/-- Any number of statements. -/
theorem applyAll_balances [ToString H] (htallies : Tallies met pass) (hwarns : Warns met pass)
    (lookup : String → Option H) (verbose : Bool) (statements : List Statement) :
    Tallies (met ++ statements) (pass.applyAll lookup verbose statements) ∧
      Warns (met ++ statements) (pass.applyAll lookup verbose statements) := by
  induction statements generalizing met pass with
  | nil => simpa [applyAll] using And.intro htallies hwarns
  | cons statement rest ih =>
    simpa [applyAll] using
      ih (htallies.apply lookup verbose statement) (hwarns.apply lookup verbose statement)

/-- Whatever a program says, a pass over it has its counts right. -/
theorem ofStatements_balances [ToString H] (lookup : String → Option H) (verbose : Bool)
    (statements : List Statement) :
    Tallies statements (ofStatements lookup verbose statements) ∧
      Warns statements (ofStatements lookup verbose statements) :=
  applyAll_balances tallies_start warns_start lookup verbose statements

/-- Every group that a program declares has a name. -/
def NamesItsGroups (statements : List Statement) : Prop :=
  ∀ declaration, .group declaration ∈ statements → declaration.name ≠ ""

/-- The operands of statement `k` that a pass looks at and that name nothing known there. -/
def unknownAt (lookup : String → Option H) (statements : List Statement) (k : Nat) :
    List Operand :=
  (statements[k]?.elim [] Statement.operands).filter (isUnknownAt lookup statements k)

/-- The operands of a program that a pass looks at and that name nothing known where they
    stand, in their order. -/
def unknownOperands (lookup : String → Option H) (statements : List Statement) : List Operand :=
  (List.range statements.length).flatMap (unknownAt lookup statements)

/-- Where every group has a name, operands that name nothing known are all that is warned of. -/
theorem filter_isWarning_eventsAt [ToString H] (lookup : String → Option H) (verbose : Bool)
    {statements : List Statement} (hnames : NamesItsGroups statements) (k : Nat) :
    (eventsAt lookup verbose statements k).filter (·.isWarning) =
      (unknownAt lookup statements k).map .unresolved := by
  unfold eventsAt unknownAt
  split
  · next declaration hget =>
    have hname := hnames declaration (List.mem_of_getElem? hget)
    simp only [hget, Option.elim_some, Statement.operands, if_neg hname, warningsAt]
    exact filter_isWarning_unresolved_append _ verbose (by simp [Event.isWarning, Event.level])
  · next declaration hget =>
    simp only [hget, Option.elim_some, Statement.operands, warningsAt]
    refine filter_isWarning_unresolved_append _ verbose fun event hevent => ?_
    obtain ⟨pair, _, rfl⟩ := List.mem_map.mp hevent
    exact not_isWarning_changeEvent _ pair
  · next hgroup hcollision =>
    cases hget : statements[k]? with
    | none => rfl
    | some statement =>
      cases statement with
      | empty => rfl
      | group declaration => exact absurd hget (hgroup declaration)
      | collision declaration => exact absurd hget (hcollision declaration)

/-- A program that names its groups is warned of for its operands only, each time one that is
    looked at names nothing known. -/
theorem filter_isWarning_eventsOf [ToString H] (lookup : String → Option H) (verbose : Bool)
    {statements : List Statement} (hnames : NamesItsGroups statements) :
    (eventsOf lookup verbose statements).filter (·.isWarning) =
      (unknownOperands lookup statements).map .unresolved := by
  rw [eventsOf, unknownOperands, List.filter_flatMap, List.map_flatMap]
  exact List.flatMap_congr fun k _ => filter_isWarning_eventsAt lookup verbose hnames k

/-- A pass over a program that names its groups never binds the empty name. -/
theorem empty_not_mem_names [ToString H] (lookup : String → Option H) (verbose : Bool)
    {statements : List Statement} (hnames : NamesItsGroups statements) (k : Nat) :
    "" ∉ (ofStatements lookup verbose (statements.take k)).groups.names := by
  intro hbound
  have hmet := hasMet_ofStatements lookup verbose (statements.take k)
  rw [GroupTable.mem_names_iff, hmet.groups, Option.isSome_map, latestGroup?_isSome_iff] at hbound
  obtain ⟨_, declaration, _, hget, hname⟩ := hbound
  exact hnames declaration (List.mem_of_mem_take (List.mem_of_getElem? hget)) hname

end Resolution

end CollisionRules
