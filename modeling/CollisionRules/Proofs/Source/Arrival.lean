import CollisionRules.File.Access
import CollisionRules.Proofs.Text.Lossy
import CollisionRules.Proofs.Token.Lines

namespace CollisionRules

open Text Text.Utf8

/-- The bytes up to and including the last line feed. -/
def completeLines (bytes : List UInt8) : List UInt8 :=
  bytes.rdropWhile (· != 0x0A)

namespace ReadEvent

/-- A failure that a stream breaks off with. An interrupted read is tried again. -/
def breaksOff : ReadEvent → Bool
  | .bytes _ => false
  | .failed failure => failure.kind != .interrupted

/-- The failure that a stream breaks off with at an event, if it does. -/
def breakOff? : ReadEvent → Option Failure
  | .bytes _ => none
  | .failed failure => if failure.kind = .interrupted then none else some failure

/-- The bytes that an event brings. -/
def content : ReadEvent → List UInt8
  | .bytes chunk => chunk
  | .failed _ => []

end ReadEvent

/-- The bytes that arrive by the event that a stream breaks off with, or by its end. -/
def arrivedBytes (events : List ReadEvent) : List UInt8 :=
  (events.takeWhile (!·.breaksOff)).flatMap ReadEvent.content

/-- The bytes of a stream that are read in whole lines: all that arrives, or what arrives up
    to the last line feed if the stream then breaks off. -/
def wholeLineBytes (events : List ReadEvent) : List UInt8 :=
  if events.any ReadEvent.breaksOff then completeLines (arrivedBytes events)
  else arrivedBytes events

/-- A stream that does not break off delivers what its events bring. -/
theorem bytesOf_eq_ok {events : List ReadEvent}
    (hevents : ∀ event ∈ events, event.breaksOff = false) :
    FileAccess.bytesOf events = .ok (events.flatMap ReadEvent.content) := by
  induction events with
  | nil => rfl
  | cons event rest ih =>
    have hrest := ih fun other hother => hevents other (List.mem_cons_of_mem _ hother)
    cases event with
    | bytes chunk => simp [FileAccess.bytesOf, hrest, Except.map, ReadEvent.content]
    | failed failure =>
      have hkind : failure.kind = .interrupted := by
        simpa [ReadEvent.breaksOff] using hevents _ List.mem_cons_self
      simp [FileAccess.bytesOf, hkind, hrest, ReadEvent.content]

/-- What has arrived by the event that a stream breaks off with, and that event. -/
theorem exists_failure_of_breaksOff {events : List ReadEvent}
    (hbroken : events.any ReadEvent.breaksOff) :
    ∃ arrived failure later, events = arrived ++ .failed failure :: later ∧
      failure.kind ≠ .interrupted ∧ FileAccess.bytesOf arrived = .ok (arrivedBytes events) := by
  have hfront : ∀ event ∈ events.takeWhile (!·.breaksOff), event.breaksOff = false := by
    intro event hevent
    simpa using List.mem_takeWhile_imp hevent
  have hsplit := List.takeWhile_append_dropWhile (p := (!·.breaksOff)) (l := events)
  cases hrest : events.dropWhile (!·.breaksOff) with
  | nil =>
    obtain ⟨event, hmem, hbreaks⟩ := List.any_eq_true.mp hbroken
    rw [hrest, List.append_nil] at hsplit
    rw [← hsplit] at hmem
    rw [hfront event hmem] at hbreaks
    contradiction
  | cons event later =>
    have hnot := List.head?_dropWhile_not (!·.breaksOff) events
    rw [hrest] at hnot
    cases event with
    | bytes chunk => simp [ReadEvent.breaksOff] at hnot
    | failed failure =>
      rw [hrest] at hsplit
      exact ⟨_, failure, later, hsplit.symm, by simpa [ReadEvent.breaksOff] using hnot,
        bytesOf_eq_ok hfront⟩

namespace LineSource

/-- The answer that a whole line of bytes gives. -/
def lineOf (line : List UInt8) : LineAnswer :=
  .line (decodeLossy (dropFinal 0x0D line))

theorem ofOpenLine_bytes (openLine chunk : List UInt8) (later : List ReadEvent) :
    ofOpenLine openLine (.bytes chunk :: later) =
      (cut (· == 0x0A) (openLine ++ chunk)).1.map lineOf ++
        ofOpenLine (cut (· == 0x0A) (openLine ++ chunk)).2 later :=
  rfl

private theorem map_eq_ok_iff {ε α β : Type} {x : Except ε α} {f : α → β} {b : β} :
    x.map f = .ok b ↔ ∃ a, x = .ok a ∧ f a = b := by
  cases x <;> simp [Except.map]

/-- A stream whose first events deliver `bytes` gives the whole lines of the bytes it
    has, and goes on with the open line. -/
theorem ofOpenLine_append {arrived : List ReadEvent} {bytes : List UInt8}
    (harrived : FileAccess.bytesOf arrived = .ok bytes) {openLine : List UInt8}
    (hopen : 0x0A ∉ openLine) (later : List ReadEvent) :
    ofOpenLine openLine (arrived ++ later) =
      (cut (· == 0x0A) (openLine ++ bytes)).1.map lineOf ++
        ofOpenLine (cut (· == 0x0A) (openLine ++ bytes)).2 later := by
  induction arrived generalizing openLine bytes with
  | nil =>
    obtain rfl : [] = bytes := by simpa [FileAccess.bytesOf] using harrived
    rw [List.append_nil, cut_of_not_mem hopen]
    rfl
  | cons event rest ih =>
    cases event with
    | bytes chunk =>
      obtain ⟨more, hmore, rfl⟩ := map_eq_ok_iff.mp harrived
      have hremainder := (cut_spec 0x0A (openLine ++ chunk)).2.2
      rw [List.cons_append, ofOpenLine_bytes, ih hmore hremainder, ← List.append_assoc openLine,
        cut_append _ (openLine ++ chunk), List.map_append, List.append_assoc]
    | failed failure =>
      by_cases hkind : failure.kind = .interrupted
      · rw [FileAccess.bytesOf, if_pos hkind] at harrived
        rw [List.cons_append, ofOpenLine, if_pos hkind, ih harrived hopen]
      · simp [FileAccess.bytesOf, hkind] at harrived

/-- The lines of a text that bytes decode to. -/
theorem ofText_decodeLossy (bytes : List UInt8) :
    ofText (decodeLossy bytes) =
      (cut (· == 0x0A) bytes).1.map lineOf ++ ofOpenLine (cut (· == 0x0A) bytes).2 [] := by
  rw [ofText, lines_decodeLossy, List.map_append, List.map_map, ofOpenLine]
  split <;> rfl

/-- A stream that is only ever interrupted has the lines of its text. -/
theorem ofStream_eq_ofText {events : List ReadEvent} {bytes : List UInt8}
    (hevents : FileAccess.bytesOf events = .ok bytes) :
    ofStream events = ofText (decodeLossy bytes) := by
  have harrived := ofOpenLine_append hevents (show 0x0A ∉ [] by simp) []
  rw [ofText_decodeLossy]
  simpa [ofStream] using harrived

/-- The complete lines hold nothing but the whole lines. -/
theorem ofText_completeLines (bytes : List UInt8) :
    ofText (decodeLossy (completeLines bytes)) = (cut (· == 0x0A) bytes).1.map lineOf := by
  obtain ⟨hjoined, hpieces, hremainder⟩ := cut_spec 0x0A bytes
  have hcomplete : completeLines bytes = joined 0x0A (cut (· == 0x0A) bytes).1 [] := by
    conv_lhs => rw [completeLines, ← hjoined, rdropWhile_joined _ hremainder]
  rw [ofText_decodeLossy, hcomplete, cut_joined hpieces (by simp), ofOpenLine]
  simp

/-- A stream that breaks off has the complete lines before the failure. -/
theorem ofStream_failed {arrived : List ReadEvent} {bytes : List UInt8}
    (harrived : FileAccess.bytesOf arrived = .ok bytes) {failure : Failure}
    (hkind : failure.kind ≠ .interrupted) (later : List ReadEvent) :
    ofStream (arrived ++ .failed failure :: later) =
      ofText (decodeLossy (completeLines bytes)) ++ .failed failure :: ofStream later := by
  have happend := ofOpenLine_append harrived (show 0x0A ∉ [] by simp) (.failed failure :: later)
  rw [ofText_completeLines]
  simpa [ofStream, ofOpenLine, hkind] using happend

/-- However a stream goes, its lines before its end or its first failure are those of the
    bytes that are read in whole lines. -/
theorem leadingLines_ofStream (events : List ReadEvent) :
    (ofStream events).leadingLines = Text.lines (decodeLossy (wholeLineBytes events)) := by
  by_cases hbroken : events.any ReadEvent.breaksOff
  · obtain ⟨arrived, failure, later, hevents, hkind, harrived⟩ :=
      exists_failure_of_breaksOff hbroken
    rw [wholeLineBytes, if_pos hbroken]
    conv_lhs => rw [hevents, ofStream_failed harrived hkind, ofText, leadingLines_append]
    exact List.append_nil _
  · have hunbroken : ∀ event ∈ events, event.breaksOff = false := by simpa using hbroken
    have harrived : arrivedBytes events = events.flatMap ReadEvent.content := by
      rw [arrivedBytes, List.takeWhile_eq_self_iff.mpr (by simpa using hunbroken)]
    rw [wholeLineBytes, if_neg hbroken, harrived, ofStream_eq_ofText (bytesOf_eq_ok hunbroken),
      leadingLines_ofText]

/-- What is open when a stream breaks off does not change what it breaks off with. -/
theorem failure?_ofOpenLine (openLine : List UInt8) (events : List ReadEvent) :
    (ofOpenLine openLine events).failure? = events.findSome? ReadEvent.breakOff? := by
  induction events generalizing openLine with
  | nil =>
    rw [ofOpenLine]
    split <;> rfl
  | cons event rest ih =>
    cases event with
    | bytes chunk =>
      have hlines (pieces : List (List UInt8)) :
          pieces.map lineOf = (pieces.map (decodeLossy ∘ dropFinal 0x0D)).map .line := by
        rw [List.map_map]
        rfl
      rw [ofOpenLine_bytes, hlines, failure?_append, ih]
      rfl
    | failed failure =>
      by_cases hkind : failure.kind = .interrupted
      · simp [ofOpenLine, ReadEvent.breakOff?, hkind, ih]
      · simp [ofOpenLine, ReadEvent.breakOff?, hkind, failure?]

/-- A stream breaks off with its first failure that is not an interruption. -/
theorem failure?_ofStream (events : List ReadEvent) :
    (ofStream events).failure? = events.findSome? ReadEvent.breakOff? :=
  failure?_ofOpenLine [] events

/-- There are as many complete lines as line feeds. -/
theorem length_ofText_completeLines (bytes : List UInt8) :
    (ofText (decodeLossy (completeLines bytes))).length = bytes.count 0x0A := by
  obtain ⟨hjoined, hpieces, hremainder⟩ := cut_spec 0x0A bytes
  rw [ofText_completeLines, List.length_map]
  conv_rhs => rw [← hjoined, count_joined hpieces hremainder]

end LineSource

end CollisionRules
