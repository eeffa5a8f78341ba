namespace CollisionRules.Yaml.Number

/-- The text behind a plus sign, if there is one. What follows the sign must not be
    a sign again. -/
def afterPlus? : List Char → Option (List Char)
  | '+' :: rest => if rest.head?.any ['+', '-'].contains then none else some rest
  | text => some text

/-- The value of a digit, in any base up to 16. -/
def digit? (c : Char) : Option Nat :=
  if '0' ≤ c && c ≤ '9' then some (c.toNat - '0'.toNat)
  else if 'a' ≤ c && c ≤ 'f' then some (c.toNat - 'a'.toNat + 10)
  else if 'A' ≤ c && c ≤ 'F' then some (c.toNat - 'A'.toNat + 10)
  else none

/-- The value of digits in a base. There has to be one. -/
def value? (base : Nat) (digits : List Char) : Option Nat :=
  if digits.isEmpty then none
  else
    digits.foldlM (fun value c => do
      let digit ← digit? c
      if digit < base then return value * base + digit else none) 0

def base? : Char → Option Nat
  | 'x' => some 16
  | 'o' => some 8
  | 'b' => some 2
  | _ => none

/-- Reads as an integer with a mark of its base, and is less than `bound`. -/
def isMarkedBelow (bound : Nat) : List Char → Bool
  | '0' :: mark :: digits => ((base? mark).bind (value? · digits)).any (· < bound)
  | _ => false

/-- Reads as an integer of at most 128 bits with a mark of its base. -/
def isMarkedInteger (text : List Char) : Bool :=
  ((afterPlus? text).any (isMarkedBelow (1 <<< 128))) ||
    match text with
    | '-' :: rest => isMarkedBelow ((1 <<< 127) + 1) rest
    | _ => false

/-- A zero in front of more digits, with or without a sign. -/
def isPadded (text : List Char) : Bool :=
  let digits :=
    match text with
    | '+' :: rest => rest
    | '-' :: rest => rest
    | _ => text
  match digits with
  | '0' :: d :: rest => (d :: rest).all Char.isDigit
  | _ => false

/-- The words for what is not a finite number. -/
def isSpecial (text : List Char) : Bool :=
  (afterPlus? text).any ([".inf", ".Inf", ".INF"].map String.toList).contains ||
    (["-.inf", "-.Inf", "-.INF", ".nan", ".NaN", ".NAN"].map String.toList).contains text

def spanDigits (text : List Char) : List Char × List Char :=
  (text.takeWhile Char.isDigit, text.dropWhile Char.isDigit)

/-- The value of a power of ten: nothing, or an `e` with digits that a sign may
    precede. -/
def exponent? : List Char → Option Int
  | [] => some 0
  | e :: rest =>
    if e == 'e' || e == 'E' then
      match rest with
      | '-' :: digits => (value? 10 digits).map fun n => -(n : Int)
      | '+' :: digits => (value? 10 digits).map Int.ofNat
      | digits => (value? 10 digits).map Int.ofNat
    else none

/-- The least number whose nearest double is infinite. -/
def overflow : Nat := (1 <<< 1024) - (1 <<< 970)

/-- Whether `mantissa` times ten to the power `exponent` is less than the least
    number whose nearest double is infinite. Past four hundred digits on either
    side of the point the power alone decides. -/
def isFinite (mantissa : Nat) (exponent : Int) : Bool :=
  if mantissa = 0 then true
  else
    let digits : Int := (Nat.toDigits 10 mantissa).length
    if 400 < digits + exponent then false
    else if digits + exponent < 0 then true
    else if 0 ≤ exponent then mantissa * Nat.pow 10 exponent.toNat < overflow
    else mantissa < overflow * Nat.pow 10 (-exponent).toNat

/-- Reads as a decimal number without a sign, and a finite one. -/
def isUnsignedDecimal (text : List Char) : Bool :=
  let (whole, rest) := spanDigits text
  let (fraction, rest) :=
    match rest with
    | '.' :: rest => spanDigits rest
    | _ => ([], rest)
  match value? 10 (whole ++ fraction), exponent? rest with
  | some mantissa, some exponent => isFinite mantissa (exponent - fraction.length)
  | _, _ => false

def isDecimal (text : List Char) : Bool :=
  match afterPlus? text with
  | some ('-' :: rest) => isUnsignedDecimal rest
  | some rest => isUnsignedDecimal rest
  | none => false

/-- Reads as a number, or has the look of one. -/
def looksNumeric (text : List Char) : Bool :=
  isMarkedInteger text || isPadded text || isSpecial text || isDecimal text

end CollisionRules.Yaml.Number
