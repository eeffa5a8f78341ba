import CollisionRules.Load
import CollisionRules.Proofs.Statement.Names

namespace CollisionRules

variable {H : Type} {known : H → Prop}

/-- A change of the rules that is about known handles only. -/
def RuleOperation.IsAbout (known : H → Prop) : RuleOperation H → Prop
  | .register rule => known rule.first ∧ known rule.second
  | .eraseBetween a b => known a ∧ known b
  | .clear => True

/-- A store whose rules are between known handles only. -/
def RuleStore.IsAbout (known : H → Prop) (store : RuleStore H) : Prop :=
  ∀ rule ∈ store.rules, known rule.first ∧ known rule.second

/-- A table of groups whose members are known handles only. -/
def GroupTable.IsAbout (known : H → Prop) (table : GroupTable H) : Prop :=
  ∀ name members, table.get? name = some members → ∀ h ∈ members, known h

theorem GroupTable.isAbout_bind {table : GroupTable H} (htable : table.IsAbout known)
    (name : String) {members : List H} (hmembers : ∀ h ∈ members, known h) :
    (table.bind name members).IsAbout known := by
  intro other found hfound
  rw [get?_bind] at hfound
  split at hfound
  · obtain rfl := Option.some.inj hfound
    exact hmembers
  · exact htable other found hfound

namespace RuleStore

theorem isAbout_empty : (empty : RuleStore H).IsAbout known := by
  intro rule hrule
  cases hrule

/-- An operation on known abilities keeps a store about them. -/
theorem isAbout_apply [BEq H] {store : RuleStore H} (hstore : store.IsAbout known)
    {operation : RuleOperation H} (hoperation : operation.IsAbout known) :
    (store.apply operation).IsAbout known := by
  cases operation with
  | register rule =>
    intro other hother
    rcases List.mem_append.mp hother with hmem | hmem
    · exact hstore other hmem
    · obtain rfl := List.mem_singleton.mp hmem
      exact hoperation
  | eraseBetween a b => exact fun rule hrule => hstore rule (List.mem_of_mem_filter hrule)
  | clear => exact isAbout_empty

theorem isAbout_applyAll [BEq H] {store : RuleStore H} (hstore : store.IsAbout known)
    {operations : List (RuleOperation H)}
    (hoperations : ∀ operation ∈ operations, operation.IsAbout known) :
    (store.applyAll operations).IsAbout known := by
  induction operations generalizing store with
  | nil => exact hstore
  | cons operation rest ih =>
    have hfirst := isAbout_apply hstore (hoperations operation List.mem_cons_self)
    exact ih hfirst fun other hother => hoperations other (List.mem_cons_of_mem _ hother)

end RuleStore

namespace Resolution

variable {lookup : String → Option H}

/-- A pass that has met known handles only: in the members of its groups and in the
    changes it asks for. -/
structure IsAbout (known : H → Prop) (pass : Resolution H) : Prop where
  groups : pass.groups.IsAbout known
  operations : ∀ operation ∈ pass.operations, operation.IsAbout known

/-- A name that stands for nothing but a known handle. -/
def StandsForKnown (lookup : String → Option H) (known : H → Prop) (name : String) : Prop :=
  ∀ h, Ability.resolve lookup name = some h → known h

theorem isAbout_start : (start : Resolution H).IsAbout known where
  groups := by simp [start, GroupTable.IsAbout]
  operations := by simp [start]

/-- Operands that stand for known abilities have no other members. -/
theorem IsAbout.members {pass : Resolution H} (hpass : pass.IsAbout known) {operands : List Operand}
    (hoperands : ∀ operand ∈ operands, StandsForKnown lookup known operand.name) :
    ∀ h ∈ members lookup pass.groups operands, known h := by
  intro h hmem
  obtain ⟨operand, hoperand, hmem⟩ := List.mem_flatMap.mp hmem
  unfold evaluate at hmem
  split at hmem
  · cases hresolve : Ability.resolve lookup operand.name with
    | none => simp [hresolve] at hmem
    | some found =>
      obtain rfl : h = found := by simpa [hresolve] using hmem
      exact hoperands operand hoperand h hresolve
  · cases hget : pass.groups.get? operand.name with
    | none => simp [hget] at hmem
    | some bound => exact hpass.groups _ bound hget h (by simpa [hget] using hmem)

theorem isAbout_declare {pass : Resolution H} (hpass : pass.IsAbout known) (verbose : Bool)
    {declaration : GroupDeclaration}
    (hmembers : ∀ operand ∈ declaration.members, StandsForKnown lookup known operand.name) :
    (pass.declare lookup verbose declaration).IsAbout known := by
  unfold declare
  split
  · exact ⟨GroupTable.isAbout_bind hpass.groups "" (by simp), hpass.operations⟩
  · exact ⟨GroupTable.isAbout_bind hpass.groups declaration.name (hpass.members hmembers),
      hpass.operations⟩

theorem isAbout_change {effect : Effect} {pair : H × H} (hfirst : known pair.1)
    (hsecond : known pair.2) : (change effect pair).IsAbout known := by
  cases effect with
  | erase => exact ⟨hfirst, hsecond⟩
  | register => exact ⟨hfirst, hsecond⟩

/-- A collision of known abilities asks for changes of them alone. -/
theorem isAbout_collide [ToString H] {pass : Resolution H} (hpass : pass.IsAbout known)
    (verbose : Bool) {declaration : CollisionDeclaration}
    (hleft : StandsForKnown lookup known declaration.left.name)
    (hright : StandsForKnown lookup known declaration.right.name) :
    (pass.collide lookup verbose declaration).IsAbout known := by
  refine ⟨hpass.groups, fun operation hoperation => ?_⟩
  rcases List.mem_append.mp hoperation with hmem | hmem
  · exact hpass.operations operation hmem
  · obtain ⟨⟨first, second⟩, hpair, rfl⟩ := List.mem_map.mp hmem
    obtain ⟨_, hfirst, hpair⟩ := List.mem_flatMap.mp hpair
    obtain ⟨_, hsecond, hpair⟩ := List.mem_map.mp hpair
    cases hpair
    exact isAbout_change (hpass.members (by simpa using hleft) first hfirst)
      (hpass.members (by simpa using hright) second hsecond)

/-- Each statement keeps a pass to known abilities, if it names no others. -/
theorem isAbout_apply [ToString H] {pass : Resolution H} (hpass : pass.IsAbout known)
    (verbose : Bool) {statement : Statement}
    (hnames : ∀ name ∈ statement.names, StandsForKnown lookup known name) :
    (pass.apply lookup verbose statement).IsAbout known := by
  cases statement with
  | empty => exact hpass
  | group declaration =>
    refine isAbout_declare hpass verbose fun operand hoperand => hnames _ ?_
    exact List.mem_cons_of_mem _ (List.mem_map_of_mem hoperand)
  | collision declaration =>
    refine isAbout_collide hpass verbose (hnames _ List.mem_cons_self) (hnames _ ?_)
    exact List.mem_cons_of_mem _ List.mem_cons_self

/-- A pass asks for nothing but changes between handles that its names stand for. -/
theorem isAbout_applyAll [ToString H] {pass : Resolution H} (hpass : pass.IsAbout known)
    (verbose : Bool) {statements : List Statement}
    (hnames : ∀ statement ∈ statements, ∀ name ∈ statement.names,
      StandsForKnown lookup known name) :
    (pass.applyAll lookup verbose statements).IsAbout known := by
  induction statements generalizing pass with
  | nil => exact hpass
  | cons statement rest ih =>
    have hfirst := isAbout_apply hpass verbose (hnames statement List.mem_cons_self)
    exact ih hfirst fun other hother => hnames other (List.mem_cons_of_mem _ hother)

end Resolution

end CollisionRules
