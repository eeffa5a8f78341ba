import CollisionRules.Proofs.Load.Truncated
import CollisionRules.Proofs.Resolution.Rewording
import CollisionRules.Proofs.Statement.Relocation
import CollisionRules.Proofs.Token.Layout
import Mathlib.Data.List.Forall2

namespace CollisionRules

variable {H : Type}

theorem Token.relocates_leftmost : Relocates Position.leftmost leftmost where
  kind _ := rfl
  text _ hkind := if_pos hkind
  position _ := rfl

/-- Where tokens stand in their lines decides nothing but the columns of what is parsed. -/
theorem Parsed.ofTokens_map_leftmost (tokens : List Token) :
    ofTokens (tokens.map Token.leftmost) = (ofTokens tokens).relocate Position.leftmost := by
  refine ofTokens_map Token.relocates_leftmost ?_
  -- a missing end of input is taken to stand at the left margin in any case
  cases hlast : tokens.getLast? with
  | none => simp [Parser.ofTokens, Position.leftmost, hlast]
  | some token => simp [Parser.ofTokens, Position.leftmost, Token.leftmost, hlast]

namespace Event

/-- The event as it is of a source moved to the left margin. -/
def leftmost : Event → Event
  | .rejected error => .rejected (error.relocate Position.leftmost)
  | .unresolved operand => .unresolved (operand.relocate Position.leftmost)
  | event => event

/-- Two events that a log shows alike, unless they are of refused lines, which it may show with
    different columns. -/
inductive SameButColumn : Event → Event → Prop where
  | shown {event other : Event} (hentry : event.entry = other.entry) : SameButColumn event other
  | rejected (expected : Expectation) (found : TokenKind) (line column otherColumn : Nat) :
    SameButColumn (.rejected ⟨expected, found, ⟨line, column⟩⟩)
      (.rejected ⟨expected, found, ⟨line, otherColumn⟩⟩)

/-- Only of a refused line does a log show the column. -/
theorem entry_leftmost {event : Event} (h : ∀ error, event ≠ .rejected error) :
    event.leftmost.entry = event.entry := by
  cases event with
  | rejected error => exact absurd rfl (h error)
  | unresolved operand =>
    obtain ⟨kind, name, position⟩ := operand
    cases kind <;> rfl
  | _ => rfl

theorem leftmost_eq_rejected {event : Event} {error : ParseError}
    (h : event.leftmost = .rejected error) :
    ∃ source, event = .rejected source ∧ source.relocate Position.leftmost = error := by
  cases event with
  | rejected source => exact ⟨source, rfl, Event.rejected.inj h⟩
  | _ => cases h

/-- Events that agree in all but columns are alike, for only errors tell a column. -/
theorem SameButColumn.of_leftmost_eq {event other : Event}
    (h : event.leftmost = other.leftmost) : SameButColumn event other := by
  by_cases hrejected : ∃ error, event = .rejected error
  · obtain ⟨⟨expected, found, ⟨line, column⟩⟩, rfl⟩ := hrejected
    obtain ⟨⟨_, _, ⟨_, otherColumn⟩⟩, rfl, herror⟩ := leftmost_eq_rejected h.symm
    cases herror
    exact .rejected expected found line column otherColumn
  · have hother : ¬ ∃ error, other = .rejected error := by
      rintro ⟨error, rfl⟩
      obtain ⟨source, hsource, -⟩ := leftmost_eq_rejected h
      exact hrejected ⟨source, hsource⟩
    refine .shown ?_
    rw [← entry_leftmost (not_exists.mp hrejected), h, entry_leftmost (not_exists.mp hother)]

theorem SameButColumn.of_map_leftmost_eq {events others : List Event}
    (h : events.map leftmost = others.map leftmost) :
    List.Forall₂ SameButColumn events others := by
  rw [← List.forall₂_eq_eq_eq, List.forall₂_map_left_iff, List.forall₂_map_right_iff] at h
  exact h.imp fun _ _ => of_leftmost_eq

end Event

namespace Resolution

variable (lookup : String → Option H) (groups : GroupTable H) (place : Position → Position)

theorem members_relocate (operands : List Operand) :
    members lookup groups (operands.map (Operand.relocate place)) =
      members lookup groups operands := by
  simp [members, List.flatMap_map, evaluate, Operand.relocate]

/-- Which operands name nothing known does not depend on where they stand. -/
theorem unresolved_relocate (operands : List Operand) :
    unresolved lookup groups (operands.map (Operand.relocate place)) =
      (unresolved lookup groups operands).map (Operand.relocate place) :=
  List.filter_map

/-- The pass as it is over statements moved to the left margin. -/
def leftmost (pass : Resolution H) : Resolution H :=
  { pass with events := pass.events.map Event.leftmost }

/-- A pass looks at no column. -/
theorem isUnseen_leftmost :
    IsUnseen lookup lookup (Operand.relocate Position.leftmost) Position.leftmost
      Event.leftmost where
  evaluate _ _ := rfl

/-- Moving statements to the left margin moves what is said of them there, and changes nothing
    else. -/
theorem applyAll_leftmost [ToString H] (verbose : Bool) (pass : Resolution H)
    (statements : List Statement) :
    pass.leftmost.applyAll lookup verbose (statements.map (Statement.relocate Position.leftmost)) =
      (pass.applyAll lookup verbose statements).leftmost := by
  have hreword : Statement.relocate Position.leftmost =
      Statement.reword (Operand.relocate Position.leftmost) Position.leftmost := by
    funext statement
    cases statement <;> rfl
  rw [hreword]
  exact (isUnseen_leftmost lookup).applyAll verbose pass statements

end Resolution

namespace Load

/-- The load as it is of a source moved to the left margin. -/
def leftmost {Result : Type} (load : Load H Result) : Load H Result :=
  { load with events := load.events.map Event.leftmost }

variable [ToString H] (lookup : String → Option H) (config : LoadConfig)

theorem map_leftmost_openingEvents :
    (openingEvents config).map Event.leftmost = openingEvents config := by
  unfold openingEvents
  split <;> rfl

/-- A reading moved to the left margin loads as it does where it is, but for the columns in
    its log. -/
theorem ofReading_leftmost (reading : Reading) :
    ofReading lookup config ⟨reading.tokens.map Token.leftmost, reading.truncation⟩ =
      (ofReading lookup config reading).leftmost := by
  let parsed := Parsed.ofTokens reading.tokens
  have hpass : Resolution.ofStatements lookup config.verbose
        (parsed.statements.map (Statement.relocate Position.leftmost)) =
      (Resolution.ofStatements lookup config.verbose parsed.statements).leftmost :=
    Resolution.applyAll_leftmost lookup config.verbose .start parsed.statements
  have htruncated (truncation : Option Truncation) :
      (truncation.toList.map Event.truncated).map Event.leftmost =
        truncation.toList.map .truncated := by
    cases truncation <;> rfl
  simp only [ofReading, report, Parsed.ofTokens_map_leftmost, Parsed.relocate, parsed, hpass,
    leftmost, Resolution.leftmost, List.map_append, map_leftmost_openingEvents, htruncated,
    List.map_map, List.length_map]
  rfl

/-- Layout and comments carry no meaning. Two texts whose tokens are of the same kinds, one
    after the other, and whose literals have the same characters ask the same of the rules
    and so leave the same rules, and their reports are the same. What is said of them is the
    same too, but that their refused lines may be shown with different columns. -/
theorem layout_carries_no_meaning [BEq H] (store : RuleStore H) {text other : List Char}
    (hmeaning : (tokenize text).map Token.meaning = (tokenize other).map Token.meaning) :
    let load := ofText lookup config text
    let again := ofText lookup config other
    load.operations = again.operations ∧
      store.applyAll load.operations = store.applyAll again.operations ∧
      load.result = again.result ∧
      List.Forall₂ Event.SameButColumn load.events again.events := by
  intro load again
  have htokens : (tokenize text).map Token.leftmost = (tokenize other).map Token.leftmost :=
    Token.map_leftmost_eq (Token.countLines_tokenize text) (Token.countLines_tokenize other)
      hmeaning
  have htruncation : (Reading.ofText text).truncation = (Reading.ofText other).truncation := by
    rw [Reading.ofText_eq, Reading.ofText_eq]
  have hsame : load.leftmost = again.leftmost := by
    have hload := ofReading_leftmost lookup config (.ofText text)
    have hagain := ofReading_leftmost lookup config (.ofText other)
    unfold tokenize at htokens
    rw [htokens, htruncation, hagain] at hload
    exact hload.symm
  obtain ⟨hresult, hoperations, hevents⟩ := Load.mk.inj hsame
  exact ⟨hoperations, congrArg store.applyAll hoperations, hresult,
    Event.SameButColumn.of_map_leftmost_eq hevents⟩

/-- The second line is refused at an end of line that stands in different columns. -/
theorem layout_carries_no_meaning_columns :
    let text := "GROUP \"G\" \x7bA , B\x7d # both\n  $G >\nA ~ C".toList
    let other := "group\"G\"\x7bA,B\x7d#\n$G>\n\tA~C\r\n".toList
    let lookup := (AbilityTable.ofList ["A", "B"]).get?
    let load := ofText lookup .default text
    let again := ofText lookup .default other
    (tokenize text).map Token.meaning = (tokenize other).map Token.meaning ∧
      (Parsed.ofText text).errors = [⟨.literal, .endOfLine, ⟨2, 7⟩⟩] ∧
      (Parsed.ofText other).errors = [⟨.literal, .endOfLine, ⟨2, 4⟩⟩] ∧
      load.operations = again.operations ∧ load.result = again.result ∧
      List.Forall₂ Event.SameButColumn load.events again.events := by
  intro text other lookup load again
  have hmeaning : (tokenize text).map Token.meaning = (tokenize other).map Token.meaning := by
    decide +kernel
  obtain ⟨hoperations, _, hresult, hevents⟩ :=
    layout_carries_no_meaning lookup .default .empty hmeaning
  exact ⟨hmeaning, by decide +kernel, by decide +kernel, hoperations, hresult, hevents⟩

end Load

end CollisionRules
