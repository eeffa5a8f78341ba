import CollisionRules.Load
import CollisionRules.Proofs.Statement.Names
import CollisionRules.Proofs.Text.Cut

namespace CollisionRules

/-- What a rule says when it is read from line `number` as it is shown. -/
def Rule.declaration (rule : Rule Ability) (number : Nat) : CollisionDeclaration where
  left := ⟨.ability, rule.first.name, ⟨number, 1⟩⟩
  operator := rule.operator
  right := ⟨.ability, rule.second.name, ⟨number, rule.first.name.length + 4⟩⟩

/-- The rules of a store as they are shown, each on a line of its own. -/
def RuleStore.text {H : Type} [ToString H] (store : RuleStore H) : List Char :=
  store.rules.flatMap fun rule => rule.render.toList ++ ['\n']

@[simp] theorem Rule.effect_operator {H : Type} (rule : Rule H) :
    rule.operator.effect = .register rule.removeFirst rule.removeSecond := by
  obtain ⟨_, _, removeFirst, removeSecond⟩ := rule
  cases removeFirst <;> cases removeSecond <;> rfl

/-- The symbol of an operator is a token by itself, of a kind that stands for the operator. -/
theorem Operator.exists_kind (operator : Operator) :
    ∃ kind, TokenKind.ofSpecial? operator.symbol = some kind ∧ kind ≠ .hash ∧
      Grammar.IsOperator kind operator := by
  cases operator with
  | greater => exact ⟨.greater, rfl, by decide, .greater⟩
  | less => exact ⟨.less, rfl, by decide, .less⟩
  | equal => exact ⟨.equal, rfl, by decide, .equal⟩
  | tilde => exact ⟨.tilde, rfl, by decide, .tilde⟩
  | cross => exact ⟨.cross, rfl, by decide, .cross⟩

namespace Rule

variable {rule : Rule Ability}

theorem toList_render (rule : Rule Ability) :
    rule.render.toList =
      rule.first.name.toList ++ ' ' :: rule.operator.symbol :: ' ' :: rule.second.name.toList := by
  simp [render, toString]

/-- A rule between abilities with names is read as it is shown. -/
theorem outcome_render (hfirst : IsName rule.first.name) (hsecond : IsName rule.second.name)
    (number : Nat) :
    Parser.outcome number rule.render.toList = .ok (.collision (rule.declaration number)) := by
  obtain ⟨kind, hspecial, hhash, hoperator⟩ := rule.operator.exists_kind
  have hspace : Text.isSeparator ' ' := by decide
  have hparted (rest : List Char) :=
    Token.head?_cons_of_not_isWordChar (Token.isWordChar_of_separator hspace) rest
  let first : Token := ⟨.literal, rule.first.name, ⟨number, 1⟩⟩
  let symbol : Token := ⟨kind, String.singleton rule.operator.symbol,
    ⟨number, 1 + rule.first.name.length + 1⟩⟩
  let second : Token := ⟨.literal, rule.second.name,
    ⟨number, 1 + rule.first.name.length + 1 + 1 + 1⟩⟩
  let finish : Token := .endOfLine
    ⟨number, 1 + rule.first.name.length + 1 + 1 + 1 + rule.second.name.length⟩
  have htokens : Token.ofLine number 1 rule.render.toList = [first, symbol, second] ++ [finish] := by
    rw [toList_render, Token.ofLine_name_append hfirst (hparted _),
      Token.ofLine_separator hspace, Token.ofLine_special hspecial hhash,
      Token.ofLine_separator hspace, ← List.append_nil rule.second.name.toList,
      Token.ofLine_name_append hsecond (by simp), Token.ofLine]
    rfl
  have hstatement : Grammar.IsStatement [first, symbol, second]
      (.collision (rule.declaration number)) := by
    have hcolumn : 1 + rule.first.name.length + 1 + 1 + 1 = rule.first.name.length + 4 := by omega
    have hright : Grammar.IsOperand [second] (rule.declaration number).right := by
      simp only [declaration, ← hcolumn]
      exact .ability rfl
    exact .collision (.mk (.ability rfl) hoperator hright)
  have hended : Grammar.IsEnded [first, symbol, second] [finish] :=
    ⟨hstatement.inner, fun _ _ => Grammar.closes_endOfLine_iff rfl⟩
  exact (Parser.outcome_eq_ok_iff_isStatement htokens hended).mpr (.inr hstatement)

/-- A rule between abilities with names is shown on one line. -/
theorem render_unbroken (hfirst : IsName rule.first.name) (hsecond : IsName rule.second.name) :
    '\n' ∉ rule.render.toList ∧ rule.render.toList.getLast? ≠ some '\r' := by
  have hsymbol : '\n' ≠ rule.operator.symbol := by
    cases rule.operator <;> decide
  rw [toList_render]
  constructor
  · simp [hfirst.not_mem (show Token.isWordChar '\n' = false by decide), hsymbol,
      hsecond.not_mem (show Token.isWordChar '\n' = false by decide)]
  · intro hlast
    obtain ⟨front, last, hsplit⟩ := (List.eq_nil_or_concat' _).resolve_left hsecond.nonempty
    obtain rfl : last = '\r' := by simpa [hsplit, List.getLast?_cons] using hlast
    exact hsecond.not_mem (show Token.isWordChar '\r' = false by decide) (by simp [hsplit])

end Rule

namespace Parsed

theorem ofOutcomes_ok (statements : List Statement) :
    ofOutcomes (statements.map .ok) = ⟨statements, []⟩ := by
  induction statements with
  | nil => rfl
  | cons statement rest ih =>
    rw [List.map_cons, ofOutcomes_cons, ih]
    rfl

/-- The rules of a store are read back in order, each from its own line. -/
theorem ofText_text {store : RuleStore Ability}
    (hnames : ∀ rule ∈ store.rules, IsName rule.first.name ∧ IsName rule.second.name) :
    ofText store.text =
      ⟨(store.rules.zipIdx 1).map fun entry => .collision (entry.1.declaration entry.2), []⟩ := by
  have hlines : Text.lines store.text = store.rules.map fun rule => rule.render.toList := by
    have htext : store.text =
        Text.joined '\n' (store.rules.map fun rule => rule.render.toList) [] := by
      simp [RuleStore.text, Text.joined, List.flatMap_map]
    rw [htext]
    refine Text.lines_joined fun piece hpiece => ?_
    obtain ⟨rule, hrule, rfl⟩ := List.mem_map.mp hpiece
    exact Rule.render_unbroken (hnames rule hrule).1 (hnames rule hrule).2
  have houtcomes : Parser.outcomes 0 (Text.lines store.text) =
      ((store.rules.zipIdx 1).map fun entry => .collision (entry.1.declaration entry.2)).map
        .ok := by
    rw [hlines, Parser.outcomes, List.zipIdx_map, List.map_map, List.map_map]
    refine List.map_congr_left fun entry hentry => ?_
    obtain ⟨hfirst, hsecond⟩ := hnames entry.1 (List.fst_mem_of_mem_zipIdx hentry)
    exact Rule.outcome_render hfirst hsecond entry.2
  rw [ofText_eq_ofOutcomes, houtcomes, ofOutcomes_ok]

end Parsed

end CollisionRules
