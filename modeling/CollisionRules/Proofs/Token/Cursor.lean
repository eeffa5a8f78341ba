import CollisionRules.Proofs.Token.Tokenization

namespace CollisionRules

open CollisionRules.Text

/-- Separators in front of a text move its tokens to the right and change nothing else. -/
theorem Token.ofLine_dropWhile (line column : Nat) (text : List Char) :
    ofLine line column text =
      ofLine line (column + (text.takeWhile isSeparator).length) (text.dropWhile isSeparator) := by
  induction text generalizing column with
  | nil => rfl
  | cons c rest ih =>
    cases hseparator : isSeparator c with
    | true =>
      rw [ofLine_separator hseparator, ih, List.takeWhile_cons_of_pos hseparator,
        List.dropWhile_cons_of_pos hseparator, List.length_cons, Nat.add_assoc, Nat.add_comm 1]
    | false => simp [hseparator]

/-- A word is read whole, and the line is read on behind it. -/
theorem Token.ofLine_word {c : Char} (hspecial : TokenKind.ofSpecial? c = none)
    (hseparator : isSeparator c = false) (line column : Nat) (rest : List Char) :
    let word := (c :: rest).takeWhile isWordChar
    ofLine line column (c :: rest) =
      ⟨wordKind word, String.ofList word, ⟨line, column⟩⟩ ::
        ofLine line (column + word.length) ((c :: rest).dropWhile isWordChar) := by
  have hword : isWordChar c = true := by simp [isWordChar, hspecial, hseparator]
  simp [ofLine, hspecial, hseparator, hword]

namespace OpenLine

/-- The tokens that an open line still has: after a comment mark its end alone, and before
    one all that its characters make up. -/
def tokens (number : Nat) (line : OpenLine) : List Token :=
  if line.comment then [.endOfLine ⟨number, line.column⟩]
  else Token.ofLine number line.column line.rest

/-- Where no separator stands in front, the token that is read is the first of those that the
    line has, and it leaves the others. -/
theorem tokens_eq_read (number : Nat) {text : List Char} (column : Nat)
    (hfront : ∀ c, text.head? = some c → isSeparator c = false) :
    Token.ofLine number column text =
      (read number ⟨text, column, false⟩).1 ::
        (read number ⟨text, column, false⟩).2.elim [] (tokens number) := by
  cases text with
  | nil => rw [Token.ofLine]; rfl
  | cons c rest =>
    cases hspecial : TokenKind.ofSpecial? c with
    | none =>
      rw [Token.ofLine_word hspecial (hfront c rfl)]
      simp only [read, hspecial]
      rfl
    | some kind =>
      by_cases hhash : kind = .hash
      · subst kind
        obtain rfl := Token.ofSpecial?_eq_hash hspecial
        rw [Token.ofLine, hspecial]
        rfl
      · have hflag : (kind == TokenKind.hash) = false := beq_false_of_ne hhash
        rw [Token.ofLine_special hspecial hhash]
        simp only [read, hspecial, hflag]
        rfl

/-- The next token is the first of those that a line has, and it leaves the others. The column and
    the comment flag carry over all that a later token needs of what was read. -/
theorem tokens_eq_next (number : Nat) (line : OpenLine) :
    line.tokens number =
      (line.next number).1 :: (line.next number).2.elim [] (tokens number) := by
  obtain ⟨text, column, comment⟩ := line
  cases comment with
  | true => rfl
  | false =>
    have hfront : ∀ c, (text.dropWhile isSeparator).head? = some c → isSeparator c = false := by
      intro c hc
      simpa [hc] using List.head?_dropWhile_not isSeparator text
    exact (Token.ofLine_dropWhile number column text).trans (tokens_eq_read number _ hfront)

end OpenLine

namespace TokenStream

/-- The tokens that are left of the open line, if a line is open. -/
def pending (stream : TokenStream) : List Token :=
  stream.openLine?.elim [] (·.tokens stream.linesRead)

/-- Every open line has a token, for its end is still to come. -/
theorem pending_eq_nil_iff {stream : TokenStream} :
    stream.pending = [] ↔ stream.openLine? = none := by
  cases hline : stream.openLine? with
  | none => simp [pending, hline]
  | some line => simp [pending, hline, line.tokens_eq_next stream.linesRead]

end TokenStream

end CollisionRules
