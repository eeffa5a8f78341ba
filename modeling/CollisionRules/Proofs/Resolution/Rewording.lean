import CollisionRules.Resolution

namespace CollisionRules

variable {H : Type}

section Reword

variable (change : Operand → Operand) (place : Position → Position)

def GroupDeclaration.reword (declaration : GroupDeclaration) : GroupDeclaration :=
  { declaration with
    members := declaration.members.map change
    position := place declaration.position }

def CollisionDeclaration.reword (declaration : CollisionDeclaration) : CollisionDeclaration :=
  { declaration with left := change declaration.left, right := change declaration.right }

/-- The statement with each operand changed, and with its keyword put where `place` says. -/
def Statement.reword : Statement → Statement
  | .empty => .empty
  | .group declaration => .group (declaration.reword change place)
  | .collision declaration => .collision (declaration.reword change)

@[simp] theorem Statement.reword_id : Statement.reword id id = id := by
  funext statement
  cases statement <;> simp [Statement.reword, GroupDeclaration.reword, CollisionDeclaration.reword]

end Reword

namespace Resolution

/-- The pass with other words for what has been said. -/
def saying (pass : Resolution H) (say : Event → Event) : Resolution H :=
  { pass with events := pass.events.map say }

@[simp] theorem saying_id (pass : Resolution H) : pass.saying id = pass := by
  simp [saying]

/-- A change of operands and places that a pass does not see: what a changed operand stands for by
    `other` is what it stood for by `lookup`, and a place keeps its line. Of what is said it
    changes the words for an operand that names nothing known, as `say` tells. -/
structure IsUnseen (lookup other : String → Option H) (change : Operand → Operand)
    (place : Position → Position) (say : Event → Event) : Prop where
  evaluate : ∀ groups operand,
    evaluate other groups (change operand) = evaluate lookup groups operand
  line : ∀ position, (place position).line = position.line := by intros; rfl
  unresolved : ∀ operand, say (.unresolved operand) = .unresolved (change operand) := by
    intros; rfl
  nameless : ∀ line, say (.nameless line) = .nameless line := by intros; rfl
  bound : ∀ name members line, say (.bound name members line) = .bound name members line := by
    intros; rfl
  registered : ∀ first second removeFirst removeSecond,
    say (.registered first second removeFirst removeSecond) =
      .registered first second removeFirst removeSecond := by intros; rfl
  erased : ∀ first second, say (.erased first second) = .erased first second := by intros; rfl

namespace IsUnseen

variable {lookup other : String → Option H} {change : Operand → Operand}
  {place : Position → Position} {say : Event → Event}
  (h : IsUnseen lookup other change place say)
include h

theorem members (groups : GroupTable H) (operands : List Operand) :
    members other groups (operands.map change) = members lookup groups operands := by
  simp [Resolution.members, List.flatMap_map, h.evaluate]

theorem unresolved_map (groups : GroupTable H) (operands : List Operand) :
    Resolution.unresolved other groups (operands.map change) =
      (Resolution.unresolved lookup groups operands).map change := by
  simp [Resolution.unresolved, List.filter_map, Function.comp_def, h.evaluate]

variable (verbose : Bool) (pass : Resolution H)

theorem declare (declaration : GroupDeclaration) :
    (pass.saying say).declare other verbose (declaration.reword change place) =
      (pass.declare lookup verbose declaration).saying say := by
  by_cases hname : declaration.name.isEmpty
  · simp [Resolution.declare, saying, GroupDeclaration.reword, hname, h.nameless, h.line]
  · cases verbose <;>
      simp [Resolution.declare, saying, GroupDeclaration.reword, hname, h.members, h.bound, h.line,
        h.unresolved_map, h.unresolved]

variable [ToString H]

theorem changeEvent (effect : Effect) (pair : H × H) :
    say (changeEvent effect pair) = Resolution.changeEvent effect pair := by
  cases effect with
  | erase => exact h.erased _ _
  | register removeFirst removeSecond => exact h.registered _ _ _ _

theorem collide (declaration : CollisionDeclaration) :
    (pass.saying say).collide other verbose (declaration.reword change) =
      (pass.collide lookup verbose declaration).saying say := by
  obtain ⟨left, operator, right⟩ := declaration
  have hleft := h.members pass.groups [left]
  have hright := h.members pass.groups [right]
  have hunknown := h.unresolved_map pass.groups [left, right]
  simp only [List.map_cons, List.map_nil] at hleft hright hunknown
  cases verbose <;>
    simp [Resolution.collide, saying, CollisionDeclaration.reword, hleft, hright, hunknown,
      h.unresolved, h.changeEvent, Function.comp_def]

theorem apply (statement : Statement) :
    (pass.saying say).apply other verbose (statement.reword change place) =
      (pass.apply lookup verbose statement).saying say := by
  cases statement with
  | empty => rfl
  | group declaration => exact h.declare verbose pass declaration
  | collision declaration => exact h.collide verbose pass declaration

/-- A program in other words runs as it does in its own. -/
theorem applyAll (statements : List Statement) :
    (pass.saying say).applyAll other verbose (statements.map (Statement.reword change place)) =
      (pass.applyAll lookup verbose statements).saying say := by
  induction statements generalizing pass with
  | nil => rfl
  | cons statement rest ih =>
    have hrest := ih (pass.apply lookup verbose statement)
    rw [← h.apply] at hrest
    exact hrest

theorem ofStatements (statements : List Statement) :
    ofStatements other verbose (statements.map (Statement.reword change place)) =
      (Resolution.ofStatements lookup verbose statements).saying say :=
  h.applyAll verbose .start statements

end IsUnseen

end Resolution

end CollisionRules
