namespace CollisionRules

/-- The handle of an ability: its index in a table, and its canonical name. -/
structure Ability where
  index : Nat
  name : String
  deriving Repr

namespace Ability

/-- Two handles are of the same ability when their indices agree, whatever their
    names. -/
instance : BEq Ability := ⟨fun a b => a.index == b.index⟩

instance : ReflBEq Ability := ⟨by intro a; exact beq_self_eq_true a.index⟩

instance : EquivBEq Ability where
  symm h := by simpa [BEq.beq, eq_comm] using h
  trans hab hbc := by
    have hab : (_ == _) = true := hab
    have hbc : (_ == _) = true := hbc
    simp only [BEq.beq, decide_eq_true_eq] at hab hbc ⊢
    exact hab.trans hbc

/-- Handles of the same ability hash alike. -/
instance : Hashable Ability := ⟨fun a => hash a.index⟩

instance : ToString Ability := ⟨Ability.name⟩

/-- The handle as it is shown to a developer, with its index. -/
def renderDebug (ability : Ability) : String :=
  s!"AbilityId({ability.index}:{ability.name})"

end Ability

/-- A table of abilities: distinct names, in the order they were entered. -/
structure AbilityTable where
  names : List String
  distinct : names.Nodup

namespace AbilityTable

def empty : AbilityTable := ⟨[], .nil⟩

/-- The largest index of a handle. Every name entered after that many others
    shares it. -/
def lastIndex : Nat := UInt32.size - 1

/-- The handle of the name that `position` others were entered before. -/
def handle (position : Nat) (name : String) : Ability :=
  ⟨min position lastIndex, name⟩

def size (table : AbilityTable) : Nat :=
  table.names.length

def contains (table : AbilityTable) (name : String) : Bool :=
  table.names.contains name

def get? (table : AbilityTable) (name : String) : Option Ability :=
  (table.names.idxOf? name).map fun position => handle position name

/-- The table after a name has been entered. A name is entered once. -/
def insert (table : AbilityTable) (name : String) : AbilityTable :=
  if hname : name ∈ table.names then table
  else
    { names := table.names ++ [name]
      distinct := by
        simp only [List.nodup_append, List.mem_singleton]
        exact ⟨table.distinct, by simp, fun a ha b hb hab => hname (hb ▸ hab ▸ ha)⟩ }

/-- The handle that entering a name gives: that of its entry, or the next one if
    the name has not been entered. -/
def handleOf (table : AbilityTable) (name : String) : Ability :=
  handle (table.names.idxOf name) name

def ofList (names : List String) : AbilityTable :=
  names.foldl insert empty

end AbilityTable

end CollisionRules
