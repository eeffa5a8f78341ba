import CollisionRules.Text.Blank
import CollisionRules.Token

namespace CollisionRules.Token

open CollisionRules.Text

/-- A character that words are made of. -/
def isWordChar (c : Char) : Bool :=
  !isSeparator c && (TokenKind.ofSpecial? c).isNone

def wordKind (word : List Char) : TokenKind :=
  if lowerAscii word = ['g', 'r', 'o', 'u', 'p'] then .groupKeyword else .literal

/-- The tokens of the rest of line `line`, whose first character stands at `column`.
    The last one is the end of the line. Separators belong to no token, each special
    character is a token by itself, and each longest run of other characters is a
    word. A comment mark ends the line at once; what follows it is never looked at. -/
def ofLine (line column : Nat) : List Char → List Token
  | [] => [.endOfLine ⟨line, column⟩]
  | c :: rest =>
    match TokenKind.ofSpecial? c with
    | some .hash => [⟨.hash, "#", ⟨line, column⟩⟩, .endOfLine ⟨line, column + 1⟩]
    | some kind => ⟨kind, String.singleton c, ⟨line, column⟩⟩ :: ofLine line (column + 1) rest
    | none =>
      if isSeparator c then ofLine line (column + 1) rest
      else
        let word := c :: rest.takeWhile isWordChar
        ⟨wordKind word, String.ofList word, ⟨line, column⟩⟩ ::
          ofLine line (column + word.length) (rest.dropWhile isWordChar)
termination_by text => text.length
decreasing_by
  all_goals
    have := (List.dropWhile_suffix isWordChar (l := rest)).length_le
    simp only [List.length_cons]
    omega

/-- Every line has a token, for it has an end. -/
theorem ofLine_ne_nil (line column : Nat) (text : List Char) : ofLine line column text ≠ [] := by
  fun_induction ofLine line column text <;> simp_all

end CollisionRules.Token
