import CollisionRules.Proofs.Token.Tokenization

namespace CollisionRules

def Position.leftmost (position : Position) : Position :=
  { position with column := 1 }

namespace Token

/-- What a token says wherever it stands. -/
def meaning (token : Token) : TokenKind × Option String :=
  (token.kind, if token.kind = .literal then some token.text else none)

/-- The token at the left margin of its line, with characters only if it is a literal. -/
def leftmost (token : Token) : Token where
  kind := token.kind
  text := if token.kind = .literal then token.text else ""
  position := token.position.leftmost

/-- From `line` on, each token stands on the line that the ends of line before it lead to. -/
def CountLines : Nat → List Token → Prop
  | _, [] => True
  | line, token :: rest =>
    token.position.line = line ∧
      CountLines (if token.kind = .endOfLine then line + 1 else line) rest

theorem CountLines.append_endOfLine {line : Nat} {front rest : List Token} {finish : Token}
    (hfront : ∀ token ∈ front, token.position.line = line ∧ token.kind ≠ .endOfLine)
    (hfinish : finish.position.line = line ∧ finish.kind = .endOfLine)
    (hrest : CountLines (line + 1) rest) : CountLines line (front ++ finish :: rest) := by
  induction front with
  | nil => simpa [CountLines, hfinish] using hrest
  | cons token others ih =>
    obtain ⟨⟨hline, hkind⟩, hothers⟩ := List.forall_mem_cons.mp hfront
    simpa [CountLines, hline, hkind] using ih hothers

theorem CountLines.append_ofLine {line : Nat} (text : List Char) {rest : List Token}
    (hrest : CountLines (line + 1) rest) : CountLines line (ofLine line 1 text ++ rest) := by
  obtain ⟨front, hsplit, hfront⟩ := ofLine_eq_concat line text
  rw [hsplit, List.append_assoc, List.singleton_append]
  refine .append_endOfLine (fun token hmem => ⟨?_, (hfront token hmem).1⟩) ⟨rfl, rfl⟩ hrest
  have htoken : token ∈ ofLine line 1 text := by
    rw [hsplit]
    exact List.mem_append_left _ hmem
  exact (mem_ofLine_iff.mp htoken).line_eq

theorem CountLines.append_tokensOfLines {linesRead : Nat} {texts : List (List Char)}
    {rest : List Token} (hrest : CountLines (linesRead + texts.length + 1) rest) :
    CountLines (linesRead + 1) (Reading.tokensOfLines linesRead texts ++ rest) := by
  induction texts generalizing linesRead with
  | nil => exact hrest
  | cons text others ih =>
    have hcount : linesRead + (others.length + 1) = linesRead + 1 + others.length := by omega
    rw [List.length_cons, hcount] at hrest
    rw [Reading.tokensOfLines, List.append_assoc]
    exact .append_ofLine text (ih hrest)

/-- The tokens of a text count its lines from the first. -/
theorem countLines_tokenize (text : List Char) : CountLines 1 (tokenize text) := by
  have hend : CountLines (0 + (Text.lines text).length + 1)
      [.endOfInput (Text.lines text).length] := by
    simp [CountLines, endOfInput]
  rw [tokenize, Reading.ofText_eq]
  exact .append_tokensOfLines hend

/-- Tokens of the same meaning on the same line differ in their columns alone. -/
theorem leftmost_eq_of_meaning_eq {a b : Token} (hmeaning : a.meaning = b.meaning)
    (hline : a.position.line = b.position.line) : a.leftmost = b.leftmost := by
  obtain ⟨hkind, htext⟩ := Prod.mk.inj hmeaning
  rw [leftmost, leftmost, Position.leftmost, Position.leftmost, hline, hkind]
  rw [hkind] at htext
  by_cases hliteral : b.kind = .literal
  · simp_all
  · simp [hliteral]

/-- Tokens that say the same stand on the same lines, if both count the lines from one on. -/
theorem map_leftmost_eq {line : Nat} {tokens others : List Token}
    (htokens : CountLines line tokens) (hothers : CountLines line others)
    (hmeanings : tokens.map meaning = others.map meaning) :
    tokens.map leftmost = others.map leftmost := by
  induction tokens generalizing line others with
  | nil =>
    obtain rfl : others = [] := by simpa using hmeanings.symm
    rfl
  | cons token rest ih =>
    cases others with
    | nil => simp at hmeanings
    | cons other rest' =>
      obtain ⟨hmeaning, hmeanings⟩ := List.cons.inj hmeanings
      have hkind : token.kind = other.kind := congrArg Prod.fst hmeaning
      obtain ⟨hline, hrest⟩ := htokens
      obtain ⟨hline', hrest'⟩ := hothers
      rw [hkind] at hrest
      rw [List.map_cons, List.map_cons, ih hrest hrest' hmeanings,
        leftmost_eq_of_meaning_eq hmeaning (hline.trans hline'.symm)]

end Token

end CollisionRules
