namespace CollisionRules

variable {H : Type}

/-- The bound names, latest first, each with its members. A table lives for one pass
    over a source. -/
structure GroupTable (H : Type) where
  bindings : List (String × List H)
  deriving DecidableEq, Repr

namespace GroupTable

/-- The table without groups. -/
def empty : GroupTable H := ⟨[]⟩

/-- The members bound to a name. -/
def get? (table : GroupTable H) (name : String) : Option (List H) :=
  table.bindings.lookup name

/-- Whether a name is bound. -/
def contains (table : GroupTable H) (name : String) : Bool :=
  (table.get? name).isSome

/-- The bound names, each once. -/
def names (table : GroupTable H) : List String :=
  table.bindings.map Prod.fst

def size (table : GroupTable H) : Nat :=
  table.bindings.length

/-- Binds a name to members in place of any it was bound to. -/
def bind (table : GroupTable H) (name : String) (members : List H) : GroupTable H :=
  ⟨(name, members) :: table.bindings.filter fun binding => binding.1 != name⟩

/-- Deleting other names leaves what is bound to a name alone. -/
private theorem lookup_filter_ne (bindings : List (String × List H)) {name other : String}
    (hne : other ≠ name) :
    (bindings.filter fun binding => binding.1 != name).lookup other = bindings.lookup other := by
  induction bindings with
  | nil => rfl
  | cons binding rest ih =>
    obtain ⟨first, members⟩ := binding
    by_cases hfirst : first = name
    · subst first
      simpa [List.lookup_cons, beq_false_of_ne hne] using ih
    · simp [List.lookup_cons, hfirst, ih]

@[simp] theorem get?_empty (name : String) : (empty : GroupTable H).get? name = none :=
  rfl

/-- A name that was just bound has the new members, and every other name keeps
    its own. -/
theorem get?_bind (table : GroupTable H) (name : String) (members : List H) (other : String) :
    (table.bind name members).get? other =
      if other = name then some members else table.get? other := by
  by_cases hother : other = name
  · simp [bind, get?, hother]
  · simp [bind, get?, List.lookup_cons, beq_false_of_ne hother, hother, lookup_filter_ne]

theorem mem_names_iff (table : GroupTable H) (name : String) :
    name ∈ table.names ↔ (table.get? name).isSome := by
  obtain ⟨bindings⟩ := table
  simp only [names, get?]
  induction bindings with
  | nil => simp
  | cons binding rest ih =>
    obtain ⟨first, members⟩ := binding
    rw [List.map_cons, List.mem_cons, ih]
    by_cases hfirst : name = first
    · simp [hfirst]
    · simp [List.lookup_cons, beq_false_of_ne hfirst, hfirst]

/-- Binding a name keeps the bound names distinct. -/
theorem nodup_names_bind {table : GroupTable H} (hnames : table.names.Nodup) (name : String)
    (members : List H) : (table.bind name members).names.Nodup := by
  have hrest : (table.bindings.filter fun binding => binding.1 != name).map Prod.fst =
      table.names.filter fun other => other != name := by
    simp [names, List.filter_map, Function.comp_def]
  simp only [bind, names, List.map_cons, List.nodup_cons]
  rw [hrest]
  exact ⟨by simp, hnames.filter _⟩

end GroupTable

end CollisionRules
