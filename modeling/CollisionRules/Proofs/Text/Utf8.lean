import CollisionRules.Text.Utf8
import Mathlib.Tactic.Common

namespace CollisionRules.Text.Utf8

/-- A byte in the range that an open sequence allows is part of its character. -/
theorem entriesFrom_some_cons {s : Sequence} {n : Nat} (hlow : s.low ≤ n) (hhigh : n ≤ s.high)
    (hn : n < 256) (rest : List UInt8) :
    entriesFrom (some s) (UInt8.ofNat n :: rest) =
      if s.owed ≤ 1 then some (Char.ofNat (s.bits * 64 + (n - 0x80))) :: entriesFrom none rest
      else entriesFrom (some ⟨s.bits * 64 + (n - 0x80), s.owed - 1, 0x80, 0xBF⟩) rest := by
  have hbyte : (UInt8.ofNat n).toNat = n := UInt8.toNat_ofNat_of_lt hn
  rw [entriesFrom, step, hbyte]
  by_cases howed : s.owed ≤ 1 <;> simp [hlow, hhigh, howed]

/-- A lead byte opens a sequence. -/
theorem entriesFrom_none_cons {byte : UInt8} {s : Sequence} (hstart : start byte = ([], some s))
    (rest : List UInt8) : entriesFrom none (byte :: rest) = entriesFrom (some s) rest := by
  rw [entriesFrom, step, hstart]
  rfl

theorem start_two {n : Nat} (hlow : 0xC2 ≤ n) (hhigh : n < 0xE0) :
    start (UInt8.ofNat n) = ([], some ⟨n - 0xC0, 1, 0x80, 0xBF⟩) := by
  have hbyte : (UInt8.ofNat n).toNat = n :=
    UInt8.toNat_ofNat_of_lt (show n < 256 by omega)
  grind [start]

/-- The lead byte of three, with the range that keeps its characters from being written shorter and
    leaves the surrogates out. -/
theorem start_three {n : Nat} (hlow : 0xE0 ≤ n) (hhigh : n < 0xF0) :
    start (UInt8.ofNat n) = ([], some ⟨n - 0xE0, 2, if n = 0xE0 then 0xA0 else 0x80,
      if n = 0xED then 0x9F else 0xBF⟩) := by
  have hbyte : (UInt8.ofNat n).toNat = n :=
    UInt8.toNat_ofNat_of_lt (show n < 256 by omega)
  grind [start]

theorem start_four {n : Nat} (hlow : 0xF0 ≤ n) (hhigh : n ≤ 0xF4) :
    start (UInt8.ofNat n) = ([], some ⟨n - 0xF0, 3, if n = 0xF0 then 0x90 else 0x80,
      if n = 0xF4 then 0x8F else 0xBF⟩) := by
  have hbyte : (UInt8.ofNat n).toNat = n :=
    UInt8.toNat_ofNat_of_lt (show n < 256 by omega)
  grind [start]

/-- The bytes of a character give it back, whatever follows them. -/
theorem entriesFrom_utf8EncodeChar (c : Char) (rest : List UInt8) :
    entriesFrom none (String.utf8EncodeChar c ++ rest) = some c :: entriesFrom none rest := by
  have hvalid : c.val.toNat < 0xD800 ∨ 0xDFFF < c.val.toNat ∧ c.val.toNat < 0x110000 := c.valid
  have hback : Char.ofNat c.val.toNat = c := Char.ofNat_toNat c
  unfold String.utf8EncodeChar
  generalize c.val.toNat = v at hvalid hback ⊢
  simp only
  split
  · rename_i hone
    have hbyte : (UInt8.ofNat v).toNat = v :=
      UInt8.toNat_ofNat_of_lt (show v < 256 by omega)
    have hstart : start (UInt8.ofNat v) = ([some (Char.ofNat v)], none) := by grind [start]
    rw [List.singleton_append, entriesFrom, step, hstart, hback]
    rfl
  · split
    · rename_i hone htwo
      have hbits : (v / 64 % 32 + 192 - 0xC0) * 64 + (v % 64 + 128 - 0x80) = v := by omega
      simp only [List.cons_append, List.nil_append]
      rw [entriesFrom_none_cons (start_two (by omega) (by omega)),
        entriesFrom_some_cons (by simp) (by simp; omega) (by omega), if_pos (by simp), hbits, hback]
    · split
      · rename_i hone htwo hthree
        have hbits : ((v / 4096 % 16 + 224 - 0xE0) * 64 + (v / 64 % 64 + 128 - 0x80)) * 64 +
            (v % 64 + 128 - 0x80) = v := by omega
        simp only [List.cons_append, List.nil_append]
        rw [entriesFrom_none_cons (start_three (by omega) (by omega)),
          entriesFrom_some_cons (by grind) (by grind) (by omega), if_neg (by simp),
          entriesFrom_some_cons (by simp) (by simp; omega) (by omega), if_pos (by simp), hbits,
          hback]
      · rename_i hone htwo hthree
        have hbits : (((v / 262144 % 8 + 240 - 0xF0) * 64 + (v / 4096 % 64 + 128 - 0x80)) * 64 +
            (v / 64 % 64 + 128 - 0x80)) * 64 + (v % 64 + 128 - 0x80) = v := by omega
        simp only [List.cons_append, List.nil_append]
        rw [entriesFrom_none_cons (start_four (by omega) (by omega)),
          entriesFrom_some_cons (by grind) (by grind) (by omega), if_neg (by simp),
          entriesFrom_some_cons (by simp) (by simp; omega) (by omega), if_neg (by simp),
          entriesFrom_some_cons (by simp) (by simp; omega) (by omega), if_pos (by simp), hbits,
          hback]

/-- Every character is decoded from its own bytes. -/
theorem entries_encode (text : List Char) : entries (encode text) = text.map some := by
  unfold entries encode
  induction text with
  | nil => rfl
  | cons c rest ih => rw [List.flatMap_cons, entriesFrom_utf8EncodeChar, ih, List.map_cons]

/-- A text that is written is read again. -/
theorem decode?_encode (text : List Char) : decode? (encode text) = some text := by
  rw [decode?, entries_encode]
  induction text with
  | nil => rfl
  | cons c rest ih => rw [List.map_cons, List.mapM_cons, ih]; rfl

/-- Nothing is replaced in what was encoded. -/
theorem decodeLossy_encode (text : List Char) : decodeLossy (encode text) = text := by
  simp [decodeLossy, entries_encode, Function.comp_def]

end CollisionRules.Text.Utf8
