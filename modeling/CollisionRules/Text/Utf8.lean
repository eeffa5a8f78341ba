namespace CollisionRules.Text.Utf8

/-- A sequence that has begun and not ended: the bits read so far, the number of
    bytes owed, and the range that the next byte must fall in. -/
structure Sequence where
  bits : Nat
  owed : Nat
  low : Nat
  high : Nat
  deriving DecidableEq, Repr

/-- What the first byte of a sequence gives: an ASCII byte is a character by
    itself, a lead byte begins a sequence, and any other byte is ill-formed. The
    range of the second byte excludes overlong forms, surrogates, and values
    above U+10FFFF. -/
def start (byte : UInt8) : List (Option Char) × Option Sequence :=
  let n := byte.toNat
  if n < 0x80 then ([some (Char.ofNat n)], none)
  else if n < 0xC2 then ([none], none)
  else if n < 0xE0 then ([], some ⟨n - 0xC0, 1, 0x80, 0xBF⟩)
  else if n = 0xE0 then ([], some ⟨0, 2, 0xA0, 0xBF⟩)
  else if n = 0xED then ([], some ⟨0xD, 2, 0x80, 0x9F⟩)
  else if n < 0xF0 then ([], some ⟨n - 0xE0, 2, 0x80, 0xBF⟩)
  else if n = 0xF0 then ([], some ⟨0, 3, 0x90, 0xBF⟩)
  else if n < 0xF4 then ([], some ⟨n - 0xF0, 3, 0x80, 0xBF⟩)
  else if n = 0xF4 then ([], some ⟨4, 3, 0x80, 0x8F⟩)
  else ([none], none)

/-- One byte: what it completes, and the sequence then open. A byte that cannot
    continue the open sequence ends it as ill-formed and is read again as a first
    byte. -/
def step : Option Sequence → UInt8 → List (Option Char) × Option Sequence
  | none, byte => start byte
  | some s, byte =>
    if s.low ≤ byte.toNat && byte.toNat ≤ s.high then
      let bits := s.bits * 64 + (byte.toNat - 0x80)
      if s.owed ≤ 1 then ([some (Char.ofNat bits)], none)
      else ([], some ⟨bits, s.owed - 1, 0x80, 0xBF⟩)
    else
      let (entries, next) := start byte
      (none :: entries, next)

/-- The entries of the bytes that follow an open sequence, if there is one. -/
def entriesFrom : Option Sequence → List UInt8 → List (Option Char)
  | none, [] => []
  | some _, [] => [none]
  | state, byte :: rest => (step state byte).1 ++ entriesFrom (step state byte).2 rest

/-- One entry for each scalar value, and `none` for each ill-formed part. -/
def entries (bytes : List UInt8) : List (Option Char) :=
  entriesFrom none bytes

/-- The text with U+FFFD in place of each ill-formed part. -/
def decodeLossy (bytes : List UInt8) : List Char :=
  (entries bytes).map (·.getD '\ufffd')

/-- The text, if every part of it is well-formed. -/
def decode? (bytes : List UInt8) : Option (List Char) :=
  (entries bytes).mapM id

def encode (text : List Char) : List UInt8 :=
  text.flatMap String.utf8EncodeChar

end CollisionRules.Text.Utf8
