import CollisionRules.Proofs.Statement.Recognition

namespace CollisionRules

namespace TokenReader

variable {α β : Type}

/-- A reader whose answer is settled by the tokens it takes and the one it leaves in
    front. -/
structure LooksOneAhead (reader : TokenReader α) : Prop where
  consumes : Consumes reader
  settled : ∀ {word rest other : List Token} {result : Except Expectation α},
    reader (word ++ rest) = (result, rest) → other.head? = rest.head? →
      reader (word ++ other) = (result, other)

theorem head?_append_eq {rest other : List Token} (hhead : other.head? = rest.head?)
    (word : List Token) : (word ++ other).head? = (word ++ rest).head? := by
  rw [List.head?_append, List.head?_append, hhead]

/-- The kind of the token in front is told by that token alone. -/
theorem frontKind_eq_of_head? {tokens others : List Token} (hhead : others.head? = tokens.head?) :
    frontKind others = frontKind tokens := by
  cases tokens with
  | nil =>
    rw [List.head?_eq_none_iff.mp hhead]
  | cons token rest =>
    obtain ⟨more, rfl⟩ := List.head?_eq_some_iff.mp hhead
    rfl

theorem frontKind_head? (tokens : List Token) :
    frontKind tokens.head?.toList = frontKind tokens := by
  cases tokens <;> rfl

/-- What is skipped in front of some tokens is skipped in front of others that begin alike. -/
theorem skip_one_ahead {word rest other : List Token} (hskip : skip (word ++ rest) = rest)
    (hhead : other.head? = rest.head?) : skip (word ++ other) = other := by
  cases word with
  | nil =>
    cases rest with
    | nil =>
      rw [List.head?_eq_none_iff.mp hhead]
      rfl
    | cons token more =>
      obtain ⟨behind, rfl⟩ := List.head?_eq_some_iff.mp hhead
      by_cases hend : token.kind = .endOfInput
      · simp [skip, hend]
      · simp [skip, hend] at hskip
  | cons token taken =>
    have hend : token.kind ≠ .endOfInput := by
      intro hend
      have hlength := congrArg List.length hskip
      simp only [List.cons_append, skip, if_pos hend, List.length_cons, List.length_append]
        at hlength
      omega
    rw [List.cons_append, skip_cons hend] at hskip ⊢
    obtain rfl : taken = [] := by simpa using hskip
    rfl

namespace LooksOneAhead

/-- It is enough that the token in front settles the answer and whether it is taken. -/
private theorem of_head {reader : TokenReader α} (answer : Option Token → Except Expectation α)
    (takes : Option Token → Bool)
    (hreader : ∀ tokens, reader tokens =
      (answer tokens.head?, if takes tokens.head? then skip tokens else tokens)) :
    LooksOneAhead reader where
  consumes tokens := by
    rw [hreader]
    by_cases htakes : takes tokens.head?
    · simpa [htakes] using skip_suffix tokens
    · simp [htakes]
  settled {word rest other result} h hhead := by
    have hfront := head?_append_eq hhead word
    rw [hreader] at h ⊢
    obtain ⟨rfl, hleft⟩ := Prod.mk.inj h
    rw [hfront]
    by_cases htakes : takes (word ++ rest).head?
    · rw [if_pos htakes] at hleft ⊢
      rw [skip_one_ahead hleft hhead]
    · rw [if_neg htakes] at hleft ⊢
      obtain rfl : word = [] := by simpa using hleft
      rfl

theorem pure (a : α) : LooksOneAhead (pure a : TokenReader α) :=
  of_head (fun _ => .ok a) (fun _ => false) fun _ => rfl

theorem fail (expected : Expectation) : LooksOneAhead (fail expected : TokenReader α) :=
  of_head (fun _ => .error expected) (fun _ => false) fun _ => rfl

theorem peek : LooksOneAhead peek :=
  of_head (fun head => .ok (frontKind head.toList)) (fun _ => false) fun tokens => by
    rw [frontKind_head?]
    rfl

theorem advance : LooksOneAhead advance :=
  of_head (fun _ => .ok ()) (fun _ => true) fun _ => rfl

theorem position : LooksOneAhead position :=
  of_head (fun head => .ok ((head.map Token.position).getD ⟨1, 1⟩)) (fun _ => false) fun tokens => by
    cases tokens <;> rfl

theorem accept (kind : TokenKind) : LooksOneAhead (accept kind) := by
  refine of_head (fun head => .ok (frontKind head.toList == kind))
    (fun head => frontKind head.toList == kind) fun tokens => ?_
  by_cases hkind : frontKind tokens = kind
  · simp [TokenReader.accept, frontKind_head?, hkind]
  · simp [TokenReader.accept, frontKind_head?, hkind]

theorem expect (kind : TokenKind) (expected : Expectation) :
    LooksOneAhead (expect kind expected) := by
  refine of_head (fun head => if frontKind head.toList = kind then .ok () else .error expected)
    (fun head => frontKind head.toList == kind) fun tokens => ?_
  by_cases hkind : frontKind tokens = kind
  · simp [TokenReader.expect, frontKind_head?, hkind]
  · simp [TokenReader.expect, frontKind_head?, hkind]

theorem operator : LooksOneAhead operator := by
  refine of_head
    (fun head => ((Operator.ofKind? (frontKind head.toList)).map .ok).getD (.error .operator))
    (fun head => (Operator.ofKind? (frontKind head.toList)).isSome) fun tokens => ?_
  cases hfound : Operator.ofKind? (frontKind tokens) with
  | none => simp [TokenReader.operator, frontKind_head?, hfound]
  | some found => simp [TokenReader.operator, frontKind_head?, hfound]

theorem literal : LooksOneAhead literal := by
  refine of_head
    (fun head =>
      match head with
      | none => .error .literal
      | some token => if token.kind = .literal then .ok token else .error .literal)
    (fun head => frontKind head.toList == .literal) fun tokens => ?_
  cases tokens with
  | nil => rfl
  | cons token rest =>
    by_cases hkind : token.kind = .literal
    · simp [TokenReader.literal, frontKind, hkind, skip]
    · simp [TokenReader.literal, frontKind, hkind]

/-- The second reader starts where the first one stops, so what it finds in front is what
    the first one has looked at. -/
theorem bind {reader : TokenReader α} {next : α → TokenReader β} (hreader : LooksOneAhead reader)
    (hnext : ∀ a, LooksOneAhead (next a)) : LooksOneAhead (reader >>= next) where
  consumes := hreader.consumes.bind fun a => (hnext a).consumes
  settled {word rest other result} h hhead := by
    rw [bind_apply] at h ⊢
    cases hrun : reader (word ++ rest) with
    | mk answer front =>
      rw [hrun] at h
      cases answer with
      | error expected =>
        obtain ⟨rfl, rfl⟩ := Prod.mk.inj h
        rw [hreader.settled hrun hhead]
      | ok a =>
        have hrunNext : next a front = (result, rest) := h
        have hfront : front <:+ word ++ rest := by simpa [hrun] using hreader.consumes (word ++ rest)
        obtain ⟨behind, rfl⟩ : rest <:+ front := by
          simpa [hrunNext] using (hnext a).consumes front
        obtain ⟨taken, htaken⟩ := hfront
        obtain rfl : taken ++ behind = word := by
          rw [← List.append_assoc] at htaken
          exact List.append_cancel_right htaken
        rw [List.append_assoc] at hrun ⊢
        rw [hreader.settled hrun (head?_append_eq hhead behind)]
        exact (hnext a).settled hrunNext hhead

/-- An operand is read with a look at one token behind it. -/
theorem operand : LooksOneAhead operand :=
  (accept _).bind fun _ => literal.bind fun _ => .pure _

/-- An operand that further ones follow has looked at the comma behind it. -/
private theorem operand_before_comma {word rest behind : List Token} {comma : Token}
    {first : Operand} (hfirst : TokenReader.operand (word ++ rest) = (.ok first, comma :: behind))
    (hrest : rest <:+ behind) (other : List Token) :
    ∃ inner, inner ++ rest = behind ∧
      TokenReader.operand (word ++ other) = (.ok first, comma :: (inner ++ other)) := by
  obtain ⟨inner, rfl⟩ := hrest
  obtain ⟨taken, htaken⟩ : comma :: (inner ++ rest) <:+ word ++ rest := by
    simpa [hfirst] using consumes_operand (word ++ rest)
  obtain rfl : taken ++ comma :: inner = word := by
    rw [← List.cons_append, ← List.append_assoc] at htaken
    exact List.append_cancel_right htaken
  rw [List.append_assoc, List.cons_append] at hfirst ⊢
  exact ⟨inner, rfl, operand.settled hfirst rfl⟩

/-- By induction on the operands read: each is followed by a comma, which has been looked
    at, or by the token that is left. -/
theorem operands : LooksOneAhead operands where
  consumes := operands_suffix
  settled {word rest other result} h hhead := by
    generalize htokens : word ++ rest = tokens at h
    fun_induction TokenReader.operands tokens generalizing word result with
    | case1 tokens expected left hfirst =>
      obtain ⟨rfl, rfl⟩ := Prod.mk.inj h
      subst htokens
      rw [operands_apply, operand.settled hfirst hhead]
    | case2 tokens first hfirst =>
      obtain ⟨rfl, rfl⟩ := Prod.mk.inj h
      obtain rfl := List.head?_eq_none_iff.mp hhead
      subst htokens
      rw [operands_apply, hfirst]
    | case3 tokens first comma behind hfirst hcomma others final hothers ih =>
      obtain ⟨rfl, rfl⟩ := Prod.mk.inj h
      subst htokens
      have hsuffix : final <:+ behind := by simpa [hothers] using operands_suffix behind
      obtain ⟨inner, hinner, hlook⟩ := operand_before_comma hfirst hsuffix other
      rw [operands_apply, hlook]
      simp [hcomma, ih hinner hothers]
    | case4 tokens first comma behind hfirst hcomma expected final hothers ih =>
      obtain ⟨rfl, rfl⟩ := Prod.mk.inj h
      subst htokens
      have hsuffix : final <:+ behind := by simpa [hothers] using operands_suffix behind
      obtain ⟨inner, hinner, hlook⟩ := operand_before_comma hfirst hsuffix other
      rw [operands_apply, hlook]
      simp [hcomma, ih hinner hothers]
    | case5 tokens first token left hfirst hcomma =>
      obtain ⟨rfl, rfl⟩ := Prod.mk.inj h
      obtain ⟨more, rfl⟩ := List.head?_eq_some_iff.mp hhead
      subst htokens
      rw [operands_apply, operand.settled hfirst hhead]
      simp [hcomma]

/-- The members of a group are read with a look at the token behind each. -/
theorem members : LooksOneAhead members where
  consumes := consumes_members
  settled {word rest other result} h hhead := by
    have hfront := frontKind_eq_of_head? (head?_append_eq hhead word)
    unfold TokenReader.members at h ⊢
    rw [hfront]
    by_cases hclose : frontKind (word ++ rest) = .closeBrace
    · rw [if_pos hclose] at h ⊢
      exact (LooksOneAhead.pure []).settled h hhead
    · rw [if_neg hclose] at h ⊢
      exact operands.settled h hhead

theorem group : LooksOneAhead group :=
  position.bind fun _ => (expect _ _).bind fun _ => (expect _ _).bind fun _ =>
    literal.bind fun _ => (expect _ _).bind fun _ => (expect _ _).bind fun _ =>
      members.bind fun _ => (expect _ _).bind fun _ => .pure _

theorem collision : LooksOneAhead collision :=
  operand.bind fun _ => operator.bind fun _ => operand.bind fun _ => .pure _

/-- A statement is read with a look at one token behind it. -/
theorem statement : LooksOneAhead statement :=
  peek.bind fun kind => by
    split
    · exact collision.bind fun _ => .pure _
    · exact collision.bind fun _ => .pure _
    · exact group.bind fun _ => .pure _
    · exact .fail _

theorem commentEnd : LooksOneAhead commentEnd :=
  (accept _).bind fun _ => .pure _

theorem lineEnd : LooksOneAhead lineEnd :=
  peek.bind fun kind => by
    split
    · exact advance
    · exact advance.bind fun _ => commentEnd
    · exact .pure _
    · exact .fail _

/-- A whole line is read with a look at one token behind it. -/
theorem line : LooksOneAhead line :=
  peek.bind fun kind => by
    split
    · exact advance.bind fun _ => .pure _
    · exact advance.bind fun _ => commentEnd.bind fun _ => .pure _
    · exact .pure _
    · exact statement.bind fun _ => lineEnd.bind fun _ => .pure _

end LooksOneAhead

end TokenReader

end CollisionRules
