import CollisionRules.Proofs.Statement.Isolation

namespace CollisionRules

/-- A text that the rule language can read as a name. -/
structure IsName (name : String) : Prop where
  nonempty : name.toList ≠ []
  letters : ∀ c ∈ name.toList, Token.isWordChar c
  notKeyword : Text.lowerAscii name.toList ≠ "group".toList

instance (name : String) : Decidable (IsName name) :=
  decidable_of_iff (name.toList ≠ [] ∧ name.toList.all Token.isWordChar ∧
      Text.lowerAscii name.toList ≠ "group".toList)
    ⟨fun ⟨hnonempty, hletters, hkeyword⟩ => ⟨hnonempty, List.all_eq_true.mp hletters, hkeyword⟩,
      fun hname => ⟨hname.nonempty, List.all_eq_true.mpr hname.letters, hname.notKeyword⟩⟩

namespace IsName

variable {name : String}

/-- A name is read as one literal. -/
theorem wordKind_eq (hname : IsName name) : Token.wordKind name.toList = .literal :=
  if_neg hname.notKeyword

/-- A name holds no character that words are not made of. -/
theorem not_mem (hname : IsName name) {c : Char} (hc : Token.isWordChar c = false) :
    c ∉ name.toList := by
  intro hmem
  have hletter := hname.letters c hmem
  rw [hc] at hletter
  contradiction

end IsName

namespace Token

/-- The literals of a line are names. -/
theorem isName_of_standsIn {line : Nat} {text : List Char} {token : Token}
    (htoken : StandsIn line text token) (hkind : token.kind = .literal) : IsName token.text := by
  cases htoken with
  | special _ _ hspecial =>
    obtain rfl : _ = TokenKind.literal := hkind
    exact absurd (by simp) (special_kind_not_mem hspecial)
  | keyword => cases hkind
  | @literal before word after hrun hword =>
    refine ⟨?_, ?_, ?_⟩
    · simpa using hrun.nonempty
    · simpa using hrun.letters
    · simpa using hword
  | endOfLine => cases hkind

/-- Word characters are one token, if no other one follows them. -/
theorem ofLine_word_append {word : List Char} (hnonempty : word ≠ [])
    (hletters : ∀ c ∈ word, isWordChar c) {rest : List Char}
    (hrest : ∀ c, rest.head? = some c → isWordChar c = false) (line column : Nat) :
    ofLine line column (word ++ rest) =
      ⟨wordKind word, String.ofList word, ⟨line, column⟩⟩ ::
        ofLine line (column + word.length) rest := by
  obtain ⟨c, others, rfl⟩ := List.exists_cons_of_ne_nil hnonempty
  have hc : isWordChar c := hletters c List.mem_cons_self
  have hspecial : TokenKind.ofSpecial? c = none := by
    simp only [isWordChar, Bool.and_eq_true, Option.isNone_iff_eq_none] at hc
    exact hc.2
  have hseparator : Text.isSeparator c = false := by
    simp only [isWordChar, Bool.and_eq_true, Bool.not_eq_true'] at hc
    exact hc.1
  obtain ⟨htake, hdrop⟩ := Text.takeWhile_append_of_head?
    (fun letter hmem => hletters letter (List.mem_cons_of_mem _ hmem)) hrest
  rw [List.cons_append, ofLine, hspecial]
  simp [hseparator, htake, hdrop]

/-- A name is one token, if no other word character follows it. -/
theorem ofLine_name_append {name : String} (hname : IsName name) {rest : List Char}
    (hrest : ∀ c, rest.head? = some c → isWordChar c = false) (line column : Nat) :
    ofLine line column (name.toList ++ rest) =
      ⟨.literal, name, ⟨line, column⟩⟩ :: ofLine line (column + name.length) rest := by
  rw [ofLine_word_append hname.nonempty hname.letters hrest, hname.wordKind_eq,
    String.ofList_toList, String.length_toList]

/-- No word runs on into a text that begins with a character of no word. -/
theorem head?_cons_of_not_isWordChar {first : Char} (hfirst : isWordChar first = false)
    (rest : List Char) : ∀ c, (first :: rest).head? = some c → isWordChar c = false := by
  intro c hc
  obtain rfl : first = c := by simpa using hc
  exact hfirst

end Token

/-- The names of groups and abilities that a statement mentions, in order. -/
def Statement.names : Statement → List String
  | .empty => []
  | .group declaration => declaration.name :: declaration.members.map Operand.name
  | .collision declaration => [declaration.left.name, declaration.right.name]

/-- The operands of a statement that a pass looks at. -/
def Statement.operands : Statement → List Operand
  | .empty => []
  | .group declaration => if declaration.name = "" then [] else declaration.members
  | .collision declaration => [declaration.left, declaration.right]

/-- The places that a statement records, in order. -/
def Statement.positions : Statement → List Position
  | .empty => []
  | .group declaration => declaration.position :: declaration.members.map Operand.position
  | .collision declaration => [declaration.left.position, declaration.right.position]

namespace Grammar

/-- A literal among some tokens reads what `operand` mentions, where it stands. -/
def Mentions (word : List Token) (operand : Operand) : Prop :=
  ∃ token ∈ word, token.kind = .literal ∧ token.text = operand.name ∧
    token.position = operand.position

theorem Mentions.mono {word other : List Token} {operand : Operand}
    (hoperand : Mentions word operand) (hsubset : word ⊆ other) : Mentions other operand := by
  obtain ⟨token, hmem, htoken⟩ := hoperand
  exact ⟨token, hsubset hmem, htoken⟩

/-- An operand is mentioned by the literal that it was read from. -/
theorem IsOperand.mentions {word : List Token} {operand : Operand}
    (hword : IsOperand word operand) : Mentions word operand := by
  cases hword with
  | ability hname => exact ⟨_, List.mem_cons_self, hname, rfl, rfl⟩
  | group _ hname => exact ⟨_, List.mem_cons_of_mem _ List.mem_cons_self, hname, rfl, rfl⟩

theorem IsOperands.mentions {word : List Token} {operands : List Operand}
    (hword : IsOperands word operands) : ∀ operand ∈ operands, Mentions word operand := by
  induction hword with
  | single hoperand =>
    intro operand hmem
    obtain rfl := List.mem_singleton.mp hmem
    exact hoperand.mentions
  | more hoperand _ _ ih =>
    intro operand hmem
    rcases List.mem_cons.mp hmem with rfl | hmem
    · exact hoperand.mentions.mono (List.subset_append_left _ _)
    · refine (ih operand hmem).mono fun token htoken => ?_
      simp [htoken]

theorem IsMembers.mentions {word : List Token} {members : List Operand}
    (hword : IsMembers word members) : ∀ operand ∈ members, Mentions word operand := by
  cases hword with
  | none => simp
  | some hoperands => exact hoperands.mentions

theorem IsGroup.mentions {word : List Token} {declaration : GroupDeclaration}
    (hword : IsGroup word declaration) :
    ∀ operand ∈ declaration.members, Mentions word operand := by
  intro operand hmem
  obtain ⟨_, _, _, _, _, hmembers, _⟩ := hword
  refine (hmembers.mentions operand hmem).mono fun token htoken => ?_
  simp [htoken]

/-- Both sides of a collision are mentioned in it. -/
theorem IsCollision.mentions {word : List Token} {declaration : CollisionDeclaration}
    (hword : IsCollision word declaration) :
    Mentions word declaration.left ∧ Mentions word declaration.right := by
  obtain ⟨hleft, _, hright⟩ := hword
  refine ⟨hleft.mentions.mono (List.subset_append_left _ _), hright.mentions.mono ?_⟩
  intro token htoken
  simp [htoken]

/-- Whatever a statement mentions by name, a literal of its word reads so. -/
theorem IsStatement.names {word : List Token} {read : Statement} (hword : IsStatement word read) :
    ∀ name ∈ read.names, ∃ token ∈ word, token.kind = .literal ∧ token.text = name := by
  have hread {operand : Operand} (hoperand : Mentions word operand) :
      ∃ token ∈ word, token.kind = .literal ∧ token.text = operand.name := by
    obtain ⟨token, hmem, hkind, htext, _⟩ := hoperand
    exact ⟨token, hmem, hkind, htext⟩
  intro name hmem
  cases hword with
  | group hgroup =>
    rcases List.mem_cons.mp hmem with rfl | hmem
    · obtain ⟨_, _, hname, _, _, _, _⟩ := hgroup
      exact ⟨_, by simp, hname, rfl⟩
    · obtain ⟨operand, hoperand, rfl⟩ := List.mem_map.mp hmem
      exact hread (hgroup.mentions operand hoperand)
  | collision hcollision =>
    obtain ⟨hleft, hright⟩ := hcollision.mentions
    rcases List.mem_cons.mp hmem with rfl | hmem
    · exact hread hleft
    · obtain rfl := List.mem_singleton.mp hmem
      exact hread hright

/-- Whatever place a statement records, a token of its word stands there. -/
theorem IsStatement.positions {word : List Token} {read : Statement}
    (hword : IsStatement word read) :
    ∀ position ∈ read.positions, ∃ token ∈ word, token.position = position := by
  have hread {operand : Operand} (hoperand : Mentions word operand) :
      ∃ token ∈ word, token.position = operand.position := by
    obtain ⟨token, hmem, _, _, hposition⟩ := hoperand
    exact ⟨token, hmem, hposition⟩
  intro position hmem
  cases hword with
  | group hgroup =>
    rcases List.mem_cons.mp hmem with rfl | hmem
    · obtain ⟨_, _, _, _, _, _, _⟩ := hgroup
      exact ⟨_, List.mem_cons_self, rfl⟩
    · obtain ⟨operand, hoperand, rfl⟩ := List.mem_map.mp hmem
      exact hread (hgroup.mentions operand hoperand)
  | collision hcollision =>
    obtain ⟨hleft, hright⟩ := hcollision.mentions
    rcases List.mem_cons.mp hmem with rfl | hmem
    · exact hread hleft
    · obtain rfl := List.mem_singleton.mp hmem
      exact hread hright

end Grammar

namespace Parser

/-- What a line says is read off its own tokens. -/
theorem isStatement_of_outcome {number : Nat} {content : List Char} {read : Statement}
    (h : outcome number content = .ok read) :
    read = .empty ∨ ∃ word, Grammar.IsStatement word read ∧
      ∀ token ∈ word, Token.StandsIn number content token := by
  obtain ⟨inner, ending, htokens, hended⟩ := Token.exists_isEnded number 1 content
  rcases (outcome_eq_ok_iff_isStatement htokens hended).mp h with ⟨_, hempty⟩ | hstatement
  · exact .inl hempty
  · refine .inr ⟨inner, hstatement, fun token hmem => Token.mem_ofLine_iff.mp ?_⟩
    rw [htokens]
    exact List.mem_append_left _ hmem

/-- A line mentions nothing but names. -/
theorem isName_of_outcome {number : Nat} {content : List Char} {read : Statement}
    (h : outcome number content = .ok read) : ∀ name ∈ read.names, IsName name := by
  intro name hmem
  obtain rfl | ⟨word, hword, hstands⟩ := isStatement_of_outcome h
  · cases hmem
  · obtain ⟨token, htoken, hkind, rfl⟩ := hword.names name hmem
    exact Token.isName_of_standsIn (hstands token htoken) hkind

/-- A line records no places but its own. -/
theorem line_of_outcome_eq_ok {number : Nat} {content : List Char} {read : Statement}
    (h : outcome number content = .ok read) :
    ∀ position ∈ read.positions, position.line = number := by
  intro position hmem
  obtain rfl | ⟨word, hword, hstands⟩ := isStatement_of_outcome h
  · cases hmem
  · obtain ⟨token, htoken, rfl⟩ := hword.positions position hmem
    exact (hstands token htoken).line_eq

end Parser

namespace Parsed

/-- What is kept of outcomes are the statements among them. -/
theorem mem_statements_ofOutcomes {outcomes : List (Except ParseError Statement)}
    {statement : Statement} :
    statement ∈ (ofOutcomes outcomes).statements ↔ .ok statement ∈ outcomes := by
  rw [statements_ofOutcomes, List.mem_filterMap]
  simp only [Parser.toOption_eq_some_iff, exists_eq_right]

/-- The places that the statements of a source record never go back to an earlier line. -/
theorem pairwise_positions_outcomes (linesRead : Nat) (texts : List (List Char)) :
    (((ofOutcomes (Parser.outcomes linesRead texts)).statements.flatMap
      Statement.positions).map Position.line).Pairwise (· ≤ ·) := by
  rw [List.pairwise_map, List.pairwise_flatMap]
  constructor
  · intro statement hmem
    obtain ⟨entry, _, houtcome⟩ := List.mem_map.mp (mem_statements_ofOutcomes.mp hmem)
    refine List.pairwise_of_forall_mem_list fun first hfirst second hsecond => ?_
    rw [Parser.line_of_outcome_eq_ok houtcome first hfirst,
      Parser.line_of_outcome_eq_ok houtcome second hsecond]
  · rw [statements_ofOutcomes, List.pairwise_filterMap]
    refine Parser.pairwise_outcomes (fun hlt statement hstatement other hother => ?_) linesRead texts
    intro first hfirst second hsecond
    rw [Parser.line_of_outcome_eq_ok (Parser.toOption_eq_some_iff.mp hstatement) first hfirst,
      Parser.line_of_outcome_eq_ok (Parser.toOption_eq_some_iff.mp hother) second hsecond]
    exact Nat.le_of_lt hlt

/-- The lines of a source mention nothing but names. -/
theorem isName_of_mem_outcomes {linesRead : Nat} {texts : List (List Char)} {statement : Statement}
    (hmem : statement ∈ (ofOutcomes (Parser.outcomes linesRead texts)).statements) :
    ∀ name ∈ statement.names, IsName name := by
  obtain ⟨entry, _, houtcome⟩ := List.mem_map.mp (mem_statements_ofOutcomes.mp hmem)
  exact Parser.isName_of_outcome houtcome

/-- Whatever the text, its statements mention nothing but names. -/
theorem isName_of_mem_statements {text : List Char} {statement : Statement}
    (hmem : statement ∈ (ofText text).statements) : ∀ name ∈ statement.names, IsName name := by
  rw [ofText_eq_ofOutcomes] at hmem
  exact isName_of_mem_outcomes hmem

end Parsed

end CollisionRules
