import CollisionRules.Proofs.Text.Cut
import CollisionRules.Text.Utf8
import Mathlib

namespace CollisionRules.Text.Utf8

/-- What holds of each sequence in the course of being read: only bytes outside the
    ASCII range continue it, and the bits read so far make sure that the character
    it ends in is outside that range too. -/
structure Sequence.IsWide (s : Sequence) : Prop where
  low : 0x80 ≤ s.low
  bits : 2 ≤ s.bits ∨ 2 ≤ s.owed ∧ 2 ≤ s.bits * 64 + (s.low - 0x80)

theorem isWide_of_mem_none : ∀ s ∈ (none : Option Sequence), s.IsWide := by
  simp

/-- An ASCII byte is a character by itself. -/
theorem start_of_ascii {byte : UInt8} (hascii : byte.toNat < 0x80) :
    start byte = ([some (Char.ofNat byte.toNat)], none) := by
  simp [start, hascii]

/-- A byte outside the ASCII range is ill-formed by itself, or begins a sequence. -/
theorem start_of_not_ascii {byte : UInt8} (hbyte : 0x80 ≤ byte.toNat) :
    start byte = ([none], none) ∨ ∃ s, start byte = ([], some s) ∧ s.IsWide := by
  have hascii : ¬ byte.toNat < 0x80 := by omega
  unfold start
  dsimp only
  rw [if_neg hascii]
  -- One case for each row of the table of first bytes, in its order.
  split
  · exact .inl rfl
  split
  · exact .inr ⟨_, rfl, by simp, .inl (by dsimp only; omega)⟩
  split
  · exact .inr ⟨_, rfl, by simp, .inr (by decide)⟩
  split
  · exact .inr ⟨_, rfl, by simp, .inl (by decide)⟩
  split
  · exact .inr ⟨_, rfl, by simp, .inr (by dsimp only; omega)⟩
  split
  · exact .inr ⟨_, rfl, by simp, .inr (by decide)⟩
  split
  · exact .inr ⟨_, rfl, by simp, .inr (by dsimp only; omega)⟩
  split
  · exact .inr ⟨_, rfl, by simp, .inl (by decide)⟩
  · exact .inl rfl

/-- A byte in a sequence ends it with a wide character, continues it, or breaks it off
    and is read again as a first byte. -/
theorem step_of_isWide {s : Sequence} (hs : s.IsWide) (byte : UInt8) :
    (∃ bits, 0x80 ≤ bits ∧ step (some s) byte = ([some (Char.ofNat bits)], none)) ∨
      (∃ next, next.IsWide ∧ step (some s) byte = ([], some next)) ∨
      step (some s) byte = (none :: (start byte).1, (start byte).2) := by
  obtain ⟨hlow, hbits⟩ := hs
  unfold step
  dsimp only
  split_ifs with hrange howed
  · left
    refine ⟨_, ?_, rfl⟩
    omega
  · right; left
    simp only [Bool.and_eq_true, decide_eq_true_eq] at hrange
    refine ⟨_, ⟨by simp, .inl ?_⟩, rfl⟩
    dsimp only
    omega
  · exact .inr (.inr rfl)

/-- A byte of the ASCII range breaks off any sequence and stands for itself. -/
theorem step_of_ascii {s : Sequence} (hs : s.IsWide) {byte : UInt8} (hascii : byte.toNat < 0x80) :
    step (some s) byte = ([none, some (Char.ofNat byte.toNat)], none) := by
  have hlow := hs.low
  have hout : ¬ s.low ≤ byte.toNat := by omega
  simp [step, hout, start_of_ascii hascii]

/-- Every sequence that is open after a byte is wide. -/
theorem isWide_of_mem_step {state : Option Sequence} (hstate : ∀ s ∈ state, s.IsWide)
    (byte : UInt8) : ∀ s ∈ (step state byte).2, s.IsWide := by
  have hstart : ∀ s ∈ (start byte).2, s.IsWide := by
    rcases Nat.lt_or_ge byte.toNat 0x80 with hascii | hbyte
    · simp [start_of_ascii hascii]
    · rcases start_of_not_ascii hbyte with h | ⟨s, h, hs⟩
      · simp [h]
      · simpa [h] using hs
  cases state with
  | none => exact hstart
  | some s =>
    rcases step_of_isWide (hstate s rfl) byte with ⟨_, _, h⟩ | ⟨next, hnext, h⟩ | h
    · simp [h]
    · simpa [h] using hnext
    · rw [h]
      exact hstart

/-- The entries of a sequence of bytes that a byte of the ASCII range parts in two. -/
theorem entriesFrom_append_ascii {state : Option Sequence} (hstate : ∀ s ∈ state, s.IsWide)
    (front : List UInt8) {mark : UInt8} (hmark : mark.toNat < 0x80) (back : List UInt8) :
    entriesFrom state (front ++ mark :: back) =
      entriesFrom state front ++ some (Char.ofNat mark.toNat) :: entriesFrom none back := by
  induction front generalizing state with
  | nil =>
    cases state with
    | none => simp [entriesFrom, step, start_of_ascii hmark]
    | some s => simp [entriesFrom, step_of_ascii (hstate s rfl) hmark]
  | cons byte rest ih =>
    have hnext := isWide_of_mem_step hstate byte
    simp [entriesFrom, ih hnext]

section Mark

variable {mark : UInt8} (hpos : 0 < mark.toNat) (hascii : mark.toNat < 0x80)
include hpos hascii

theorem ofNat_ne_of_wide {bits : Nat} (hbits : 0x80 ≤ bits) :
    Char.ofNat mark.toNat ≠ Char.ofNat bits := by
  intro heq
  have hnat := congrArg Char.toNat heq
  rw [Char.toNat_ofNat, Char.toNat_ofNat, if_pos (.inl (by omega))] at hnat
  split at hnat <;> omega

/-- An ASCII character comes from its own byte, where a sequence begins. -/
theorem eq_of_mem_start {byte : UInt8} (hmem : some (Char.ofNat mark.toNat) ∈ (start byte).1) :
    mark = byte := by
  rcases Nat.lt_or_ge byte.toNat 0x80 with hbyte | hbyte
  · have heq : Char.ofNat mark.toNat = Char.ofNat byte.toNat := by
      simpa [start_of_ascii hbyte] using hmem
    have hnat := congrArg Char.toNat heq
    rw [Char.toNat_ofNat, Char.toNat_ofNat, if_pos (.inl (by omega)),
      if_pos (.inl (by omega))] at hnat
    exact UInt8.toNat_inj.mp hnat
  · rcases start_of_not_ascii hbyte with h | ⟨_, h, _⟩ <;> simp [h] at hmem

/-- The same of any byte, for no longer sequence stands for an ASCII character. -/
theorem eq_of_mem_step {state : Option Sequence} (hstate : ∀ s ∈ state, s.IsWide) {byte : UInt8}
    (hmem : some (Char.ofNat mark.toNat) ∈ (step state byte).1) : mark = byte := by
  cases state with
  | none => exact eq_of_mem_start hpos hascii hmem
  | some s =>
    rcases step_of_isWide (hstate s rfl) byte with ⟨bits, hbits, h⟩ | ⟨_, _, h⟩ | h
    · have heq : Char.ofNat mark.toNat = Char.ofNat bits := by simpa [h] using hmem
      exact absurd heq (ofNat_ne_of_wide hpos hascii hbits)
    · simp [h] at hmem
    · exact eq_of_mem_start hpos hascii (by simpa [h] using hmem)

/-- The character of a mark only comes of the mark. -/
theorem mem_of_mem_entriesFrom {state : Option Sequence} (hstate : ∀ s ∈ state, s.IsWide)
    {bytes : List UInt8} (hmem : some (Char.ofNat mark.toNat) ∈ entriesFrom state bytes) :
    mark ∈ bytes := by
  induction bytes generalizing state with
  | nil => cases state <;> simp [entriesFrom] at hmem
  | cons byte rest ih =>
    have hsplit : some (Char.ofNat mark.toNat) ∈ (step state byte).1 ∨
        some (Char.ofNat mark.toNat) ∈ entriesFrom (step state byte).2 rest := by
      simpa [entriesFrom] using hmem
    rcases hsplit with hhere | hlater
    · exact List.mem_cons.mpr (.inl (eq_of_mem_step hpos hascii hstate hhere))
    · exact List.mem_cons_of_mem _ (ih (isWide_of_mem_step hstate byte) hlater)

end Mark

theorem entriesFrom_some_ne_nil (s : Sequence) (bytes : List UInt8) :
    entriesFrom (some s) bytes ≠ [] := by
  induction bytes generalizing s with
  | nil => simp [entriesFrom]
  | cons byte rest ih =>
    simp only [entriesFrom, step]
    split_ifs
    · simp
    · simpa using ih _
    · simp

/-- Only the empty sequence of bytes has no entries. -/
theorem entries_ne_nil {bytes : List UInt8} (hbytes : bytes ≠ []) : entries bytes ≠ [] := by
  cases bytes with
  | nil => contradiction
  | cons byte rest =>
    simp only [entries, entriesFrom, step]
    rcases Nat.lt_or_ge byte.toNat 0x80 with hascii | hbyte
    · simp [start_of_ascii hascii]
    · rcases start_of_not_ascii hbyte with h | ⟨s, h, _⟩
      · simp [h]
      · simpa [h] using entriesFrom_some_ne_nil s rest

end CollisionRules.Text.Utf8

namespace CollisionRules.Text

open Utf8

theorem decodeLossy_eq_nil_iff {bytes : List UInt8} : decodeLossy bytes = [] ↔ bytes = [] := by
  constructor
  · intro h
    by_contra hbytes
    exact entries_ne_nil hbytes (by simpa [decodeLossy] using h)
  · rintro rfl
    rfl

section Mark

variable {mark : UInt8} (hpos : 0 < mark.toNat) (hascii : mark.toNat < 0x80)
include hpos hascii

omit hpos in
/-- A text that a mark parts in two is decoded part by part. -/
theorem decodeLossy_append_mark (front back : List UInt8) :
    decodeLossy (front ++ mark :: back) =
      decodeLossy front ++ Char.ofNat mark.toNat :: decodeLossy back := by
  simp [decodeLossy, entries, entriesFrom_append_ascii isWide_of_mem_none front hascii back]

/-- An ASCII byte that is missing is a character that is missing. -/
theorem not_mem_decodeLossy {bytes : List UInt8} (hmark : mark ∉ bytes) :
    Char.ofNat mark.toNat ∉ decodeLossy bytes := by
  intro hmem
  obtain ⟨entry, hentry, hchar⟩ := List.mem_map.mp hmem
  cases entry with
  | none => exact ofNat_ne_of_wide hpos hascii (show 0x80 ≤ 0xFFFD by omega) hchar.symm
  | some c =>
    obtain rfl : c = Char.ofNat mark.toNat := hchar
    exact hmark (mem_of_mem_entriesFrom hpos hascii isWide_of_mem_none hentry)

omit hpos in
/-- Pieces between ASCII marks are decoded each for itself. -/
theorem joined_decodeLossy (pieces : List (List UInt8)) (remainder : List UInt8) :
    decodeLossy (joined mark pieces remainder) =
      joined (Char.ofNat mark.toNat) (pieces.map decodeLossy) (decodeLossy remainder) := by
  induction pieces with
  | nil => rfl
  | cons piece rest ih =>
    rw [joined_cons, decodeLossy_append_mark hascii, ih, List.map_cons, joined_cons]

/-- Cutting and decoding can be done in either order. -/
theorem cut_decodeLossy (bytes : List UInt8) :
    cut (· == Char.ofNat mark.toNat) (decodeLossy bytes) =
      ((cut (· == mark) bytes).1.map decodeLossy, decodeLossy (cut (· == mark) bytes).2) := by
  obtain ⟨hjoined, hpieces, hremainder⟩ := cut_spec mark bytes
  conv_lhs => rw [← hjoined, joined_decodeLossy hascii]
  apply cut_joined
  · intro text htext
    obtain ⟨piece, hpiece, rfl⟩ := List.mem_map.mp htext
    exact not_mem_decodeLossy hpos hascii (hpieces piece hpiece)
  · exact not_mem_decodeLossy hpos hascii hremainder

/-- The last character is an ASCII one when the last byte is that one. -/
theorem getLast?_decodeLossy_eq_mark_iff (bytes : List UInt8) :
    (decodeLossy bytes).getLast? = some (Char.ofNat mark.toNat) ↔ bytes.getLast? = some mark := by
  obtain ⟨hjoined, _, hremainder⟩ := cut_spec mark bytes
  rw [← hjoined, joined_decodeLossy hascii, getLast?_joined_eq_mark_iff hremainder,
    getLast?_joined_eq_mark_iff (not_mem_decodeLossy hpos hascii hremainder),
    decodeLossy_eq_nil_iff, ne_eq, List.map_eq_nil_iff]

/-- Taking off a final mark and decoding can be done in either order too. -/
theorem dropFinal_decodeLossy (bytes : List UInt8) :
    dropFinal (Char.ofNat mark.toNat) (decodeLossy bytes) = decodeLossy (dropFinal mark bytes) := by
  by_cases hlast : bytes.getLast? = some mark
  · obtain ⟨front, rfl⟩ := List.getLast?_eq_some_iff.mp hlast
    rw [decodeLossy_append_mark hascii, dropFinal_concat]
    exact dropFinal_concat _ _
  · have hdecoded := mt (getLast?_decodeLossy_eq_mark_iff hpos hascii bytes).mp hlast
    rw [dropFinal_of_getLast?_ne hlast, dropFinal_of_getLast?_ne hdecoded]

end Mark

/-- The lines of a decoded text are those of its bytes, each decoded by itself. -/
theorem lines_decodeLossy (bytes : List UInt8) :
    lines (decodeLossy bytes) =
      (cut (· == 0x0A) bytes).1.map (fun line => decodeLossy (dropFinal 0x0D line)) ++
        if (cut (· == 0x0A) bytes).2.isEmpty then []
        else [decodeLossy (cut (· == 0x0A) bytes).2] := by
  have hfeed := cut_decodeLossy (show 0 < (0x0A : UInt8).toNat by decide) (by decide) bytes
  have hreturn := dropFinal_decodeLossy (show 0 < (0x0D : UInt8).toNat by decide) (by decide)
  rw [show Char.ofNat (0x0A : UInt8).toNat = '\n' from rfl] at hfeed
  rw [show Char.ofNat (0x0D : UInt8).toNat = '\r' from rfl] at hreturn
  simp only [lines, hfeed, List.map_map, Function.comp_def, hreturn, List.isEmpty_iff,
    decodeLossy_eq_nil_iff]

end CollisionRules.Text
