namespace CollisionRules.Text

/-- The ranges of the Unicode property `White_Space`, both ends included, in
    increasing order. -/
def whiteSpaceRanges : List (Nat × Nat) :=
  [(0x09, 0x0D), (0x20, 0x20), (0x85, 0x85), (0xA0, 0xA0), (0x1680, 0x1680),
    (0x2000, 0x200A), (0x2028, 0x2029), (0x202F, 0x202F), (0x205F, 0x205F), (0x3000, 0x3000)]

/-- A character with the Unicode property `White_Space`. -/
def isWhiteSpace (c : Char) : Bool :=
  whiteSpaceRanges.any fun range => range.1 ≤ c.toNat && c.toNat ≤ range.2

/-- White space that never breaks a word: the three no-break spaces and the
    next-line control. -/
def isBinding (c : Char) : Bool :=
  c.toNat == 0x85 || c.toNat == 0xA0 || c.toNat == 0x2007 || c.toNat == 0x202F

/-- The ASCII information separators. They are not white space to Unicode, but
    they part words all the same. -/
def isInformationSeparator (c : Char) : Bool :=
  0x1C ≤ c.toNat && c.toNat ≤ 0x1F

/-- A character that parts two tokens of the rule language and belongs to
    neither. -/
def isSeparator (c : Char) : Bool :=
  isInformationSeparator c || (isWhiteSpace c && !isBinding c)

/-- The text without the white space at either end. -/
def trim (text : List Char) : List Char :=
  ((text.dropWhile isWhiteSpace).reverse.dropWhile isWhiteSpace).reverse

/-- The letters `A` to `Z` in lower case, every other character as it is. -/
def lowerAscii (text : List Char) : List Char :=
  text.map Char.toLower

end CollisionRules.Text
