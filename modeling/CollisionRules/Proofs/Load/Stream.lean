import CollisionRules.Load
import CollisionRules.Proofs.Source.Arrival
import CollisionRules.Proofs.Token.Lines

namespace CollisionRules.Load

variable {H : Type}

/-- However the bytes of a stream are cut into events, and however often a read is
    interrupted in between, the stream is read token by token as its text is, and
    without a truncation. A load of it is that of the text in what it asks of the
    rules, in its report and in its events, and so is the load of a file that holds
    the same bytes. -/
theorem stream_agrees_with_text [BEq H] [ToString H] (lookup : String → Option H)
    (config : LoadConfig) (store : RuleStore H) {events : List ReadEvent} {bytes : List UInt8}
    (hevents : FileAccess.bytesOf events = .ok bytes) :
    let text := Text.Utf8.decodeLossy bytes
    let load := ofText lookup config text
    TokenStream.ofSource (.ofStream events) = .ofSource (.ofText text) ∧
      Reading.ofStream events = ⟨tokenize text, none⟩ ∧
      ofStream lookup config events = load ∧
      store.applyAll (ofStream lookup config events).operations =
        store.applyAll load.operations ∧
      ∀ tree : FileTree, tree.find config.source = .ok (.file bytes) →
        ofOpened lookup config (tree.openFile config.source) =
          { load with result := .ok load.result } := by
  intro text load
  have hread : ∀ {given : List ReadEvent}, FileAccess.bytesOf given = .ok bytes →
      Reading.ofStream given = Reading.ofText text := by
    intro given hgiven
    rw [Reading.ofStream, LineSource.ofStream_eq_ofText hgiven]
    rfl
  have hload : ∀ {given : List ReadEvent}, FileAccess.bytesOf given = .ok bytes →
      ofStream lookup config given = load := by
    intro given hgiven
    rw [ofStream, hread hgiven]
    rfl
  refine ⟨?_, ?_, hload hevents, by rw [hload hevents], fun tree hfile => ?_⟩
  · rw [LineSource.ofStream_eq_ofText hevents]
  · rw [hread hevents, tokenize, Reading.ofText_eq]
  · have hopen : tree.openFile config.source = .ok [.bytes bytes] := by
      simp [FileTree.openFile, hfile]
    have hbytes : FileAccess.bytesOf [.bytes bytes] = .ok bytes := by
      simp [FileAccess.bytesOf, Except.map]
    rw [hopen, ofOpened, hload hbytes]

/-- A character is cut in two, a carriage return is parted from its line feed, and the
    last line ends in the middle of a character. -/
theorem stream_agrees_with_text_cut_character :
    let events := [.bytes [0x41, 0x7E, 0xC3], .failed ⟨.interrupted, "again"⟩, .bytes [0xA9, 0x0D],
      .bytes [0x0A, 0x42, 0xE2, 0x82]]
    let bytes := [0x41, 0x7E, 0xC3, 0xA9, 0x0D, 0x0A, 0x42, 0xE2, 0x82]
    let config : LoadConfig := ⟨true, true, ⟨"rules"⟩⟩
    let tree := (FileTree.empty []).put ["rules"] (.file bytes)
    let lookup := (AbilityTable.ofList ["A", "é"]).get?
    let load := ofText lookup config (Text.Utf8.decodeLossy bytes)
    FileAccess.bytesOf events = .ok bytes ∧ tree.find ⟨"rules"⟩ = .ok (.file bytes) ∧
      ofStream lookup config events = load ∧
      ofOpened lookup config (tree.openFile ⟨"rules"⟩) = { load with result := .ok load.result } := by
  intro events bytes config tree lookup load
  have hevents : FileAccess.bytesOf events = .ok bytes := rfl
  have hfile : tree.find ⟨"rules"⟩ = .ok (.file bytes) := by decide +kernel
  obtain ⟨_, _, hstream, _, hopened⟩ := stream_agrees_with_text lookup config .empty hevents
  exact ⟨hevents, hfile, hstream, hopened tree hfile⟩

end CollisionRules.Load
