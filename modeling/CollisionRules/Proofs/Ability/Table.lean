import CollisionRules.Ability
import Mathlib.Data.Finset.Card
import Mathlib.Data.List.Basic

namespace CollisionRules.AbilityTable

/-- A name that is put in goes behind those that are there. -/
theorem names_prefix_insert (table : AbilityTable) (name : String) :
    table.names <+: (table.insert name).names := by
  unfold insert
  split
  · exact List.prefix_refl _
  · exact List.prefix_append _ _

theorem names_prefix_insertAll (table : AbilityTable) (more : List String) :
    table.names <+: (more.foldl insert table).names := by
  induction more generalizing table with
  | nil => exact List.prefix_refl _
  | cons name rest ih => exact (table.names_prefix_insert name).trans (ih (table.insert name))

/-- More names never change the place of the earlier ones. -/
theorem names_prefix_ofList_append (names more : List String) :
    (ofList names).names <+: (ofList (names ++ more)).names := by
  rw [ofList, ofList, List.foldl_append]
  exact names_prefix_insertAll _ more

theorem mem_names_insert {table : AbilityTable} {name other : String} :
    other ∈ (table.insert name).names ↔ other ∈ table.names ∨ other = name := by
  unfold insert
  split
  · next hname => exact ⟨.inl, fun h => h.elim id fun heq => heq ▸ hname⟩
  · simp

theorem mem_names_insertAll {table : AbilityTable} {names : List String} {name : String} :
    name ∈ (names.foldl insert table).names ↔ name ∈ table.names ∨ name ∈ names := by
  induction names generalizing table with
  | nil => simp
  | cons first rest ih =>
    rw [List.foldl_cons, ih, mem_names_insert, List.mem_cons, or_assoc]

/-- A table holds the names that have been entered. -/
theorem mem_names_ofList {names : List String} {name : String} :
    name ∈ (ofList names).names ↔ name ∈ names := by
  rw [ofList, mem_names_insertAll]
  simp [empty]

/-- A table is as large as the number of distinct names that have been entered. -/
theorem size_ofList (names : List String) : (ofList names).size = names.toFinset.card := by
  rw [size, ← List.toFinset_card_of_nodup (ofList names).distinct]
  congr 1
  ext name
  simp [mem_names_ofList]

section Lookup

variable {table : AbilityTable} {name other : String} {ability : Ability}

/-- An ability has the name that it is looked up by. -/
theorem name_of_get? (h : table.get? name = some ability) : ability.name = name := by
  obtain ⟨position, _, rfl⟩ := Option.map_eq_some_iff.mp h
  rfl

/-- A name that has been entered has the handle that entering it again would give. -/
theorem get?_eq_of_mem (h : name ∈ table.names) : table.get? name = some (table.handleOf name) := by
  rw [get?, handleOf, List.idxOf_eq_getD_idxOf?]
  cases hposition : table.names.idxOf? name with
  | none => exact absurd h (List.idxOf?_eq_none_iff.mp hposition)
  | some position => rfl

/-- The names of a table are those that can be looked up. -/
theorem isSome_get?_iff : (table.get? name).isSome ↔ name ∈ table.names := by
  rw [get?, Option.isSome_map, List.isSome_idxOf?]

/-- A name of the table is looked up to its own handle. -/
theorem get?_eq_some_iff :
    table.get? name = some ability ↔ name ∈ table.names ∧ ability = table.handleOf name := by
  constructor
  · intro h
    have hname : name ∈ table.names := isSome_get?_iff.mp (by rw [h]; rfl)
    rw [get?_eq_of_mem hname] at h
    exact ⟨hname, (Option.some.inj h).symm⟩
  · rintro ⟨hname, rfl⟩
    exact get?_eq_of_mem hname

/-- Entering a name gives the handle that it then has. -/
theorem get?_insert_self (table : AbilityTable) (name : String) :
    (table.insert name).get? name = some (table.handleOf name) := by
  unfold insert
  split
  · next hname => exact get?_eq_of_mem hname
  · next hname =>
    have hposition : (table.names ++ [name]).idxOf name = table.names.idxOf name := by
      rw [List.idxOf_append_of_notMem hname, List.idxOf_cons_self, List.idxOf_eq_length hname,
        Nat.add_zero]
    rw [get?_eq_of_mem (by simp), handleOf, hposition]
    rfl

/-- Names that are entered later change no handle. -/
theorem get?_mono {large : AbilityTable} (h : table.names <+: large.names)
    (hability : table.get? name = some ability) : large.get? name = some ability := by
  obtain ⟨later, hlater⟩ := h
  obtain ⟨hname, rfl⟩ := get?_eq_some_iff.mp hability
  have hposition : large.names.idxOf name = table.names.idxOf name := by
    rw [← hlater, List.idxOf_append_of_mem hname]
  refine get?_eq_some_iff.mpr ⟨?_, ?_⟩
  · rw [← hlater]
    exact List.mem_append_left _ hname
  · rw [handleOf, handleOf, hposition]

variable (hsize : table.size ≤ UInt32.size)
include hsize

/-- The index of a name is the number of names before it. -/
theorem handleOf_eq (h : name ∈ table.names) :
    table.handleOf name = ⟨table.names.idxOf name, name⟩ := by
  have hposition := List.idxOf_lt_length_of_mem h
  have hbound : table.names.idxOf name ≤ lastIndex := by
    unfold size at hsize
    unfold lastIndex
    omega
  rw [handleOf, handle, Nat.min_eq_left hbound]

/-- Handles of the same ability are equal, as long as no two names have to share an index. -/
theorem eq_of_beq {a b : Ability} (ha : table.get? name = some a) (hb : table.get? other = some b)
    (hsame : a == b) : a = b := by
  obtain ⟨hname, rfl⟩ := get?_eq_some_iff.mp ha
  obtain ⟨hother, rfl⟩ := get?_eq_some_iff.mp hb
  have hindex : (table.handleOf name).index = (table.handleOf other).index :=
    of_decide_eq_true hsame
  rw [handleOf_eq hsize hname, handleOf_eq hsize hother] at hindex
  rw [(List.idxOf_inj hname).mp hindex]

/-- Each number below the size of a table is the index of one name. -/
theorem lt_size_iff {index : Nat} :
    index < table.size ↔
      ∃ name ability, table.get? name = some ability ∧ ability.index = index := by
  constructor
  · intro hindex
    have hname := List.getElem_mem hindex
    refine ⟨_, _, get?_eq_of_mem hname, ?_⟩
    rw [handleOf_eq hsize hname]
    exact table.distinct.idxOf_getElem index hindex
  · rintro ⟨name, ability, hability, rfl⟩
    obtain ⟨hname, rfl⟩ := get?_eq_some_iff.mp hability
    rw [handleOf_eq hsize hname]
    exact List.idxOf_lt_length_of_mem hname

end Lookup

/-- A name stands behind those that were entered before it was entered first. -/
theorem idxOf_names_ofList {before : List String} {name : String} (hfirst : name ∉ before)
    (later : List String) :
    (ofList (before ++ name :: later)).names.idxOf name = (ofList before).size := by
  have hnew : name ∉ (ofList before).names := fun h => hfirst (mem_names_ofList.mp h)
  have hentered : (ofList (before ++ [name])).names = (ofList before).names ++ [name] := by
    rw [ofList, List.foldl_concat, ← ofList, insert, dif_neg hnew]
  have hprefix := names_prefix_ofList_append (before ++ [name]) later
  rw [hentered, List.append_assoc, List.singleton_append] at hprefix
  obtain ⟨more, hmore⟩ := hprefix
  rw [← hmore, List.idxOf_append_of_mem (by simp), List.idxOf_append_of_notMem hnew,
    List.idxOf_cons_self, Nat.add_zero, size]

/-- What entering a name gives is what looking it up gives from then on, whatever is entered
    in between. -/
theorem get?_ofList_entered (before : List String) (name : String) (between : List String) :
    (ofList (before ++ name :: between)).get? name = some ((ofList before).handleOf name) := by
  have hentered := get?_insert_self (ofList before) name
  have hprefix := names_prefix_ofList_append (before ++ [name]) between
  rw [List.append_assoc, List.singleton_append] at hprefix
  refine get?_mono hprefix ?_
  rwa [ofList, List.foldl_concat, ← ofList]

/-- Entering names numbers them, as long as no more than 2³² of them are distinct. The table is as
    large as there are distinct names, and knows those that have been entered. The handle of a
    name carries it and the number of distinct names entered before it was entered first. So the
    indices are the numbers below the size, and two names have equal handles only if they are
    the same. What entering a name gives is what it stands for from then on, whatever is
    entered after it. -/
theorem entered_names_are_numbered (names : List String)
    (hnames : names.toFinset.card ≤ UInt32.size) :
    let table := ofList names
    table.size = names.toFinset.card ∧
      (∀ name, (table.get? name).isSome ↔ name ∈ names) ∧
      (∀ name ∈ names,
        table.get? name = some ⟨(names.take (names.idxOf name)).toFinset.card, name⟩) ∧
      (∀ index, index < table.size ↔
        ∃ name ability, table.get? name = some ability ∧ ability.index = index) ∧
      (∀ name other a b, table.get? name = some a → table.get? other = some b →
        (a == b ↔ name = other)) ∧
      ∀ before name between later, names = before ++ name :: (between ++ later) →
        (ofList (before ++ name :: between)).get? name = some ((ofList before).handleOf name) := by
  intro table
  have hsize : table.size ≤ UInt32.size := by rwa [size_ofList]
  refine ⟨size_ofList names, fun name => ?_, fun name hname => ?_, fun index => lt_size_iff hsize,
    fun name other a b ha hb => ⟨fun hsame => ?_, fun heq => ?_⟩,
    fun before name between _ _ => get?_ofList_entered before name between⟩
  · rw [isSome_get?_iff, mem_names_ofList]
  · have hmem : name ∈ table.names := mem_names_ofList.mpr hname
    obtain ⟨before, later, hsplit, hfirst⟩ := List.eq_append_cons_of_mem hname
    have hbefore : names.take (names.idxOf name) = before := by
      rw [hsplit, List.idxOf_append_of_notMem hfirst, List.idxOf_cons_self, Nat.add_zero,
        List.take_left]
    have hindex : table.names.idxOf name = (ofList before).size := by
      rw [← idxOf_names_ofList hfirst later, ← hsplit]
    rw [get?_eq_of_mem hmem, handleOf_eq hsize hmem, hindex, hbefore, size_ofList]
  · rw [← name_of_get? ha, eq_of_beq hsize ha hb hsame, name_of_get? hb]
  · subst heq
    rw [Option.some.inj (ha.symm.trans hb)]
    exact beq_self_eq_true b

/-- A name that is entered twice keeps its first index. -/
theorem entered_names_are_numbered_twice :
    let names := ["Nova", "Ember", "Nova", "Blaze"]
    let table := ofList names
    names.toFinset.card ≤ UInt32.size ∧ table.size = 3 ∧
      table.get? "Blaze" = some ⟨2, "Blaze"⟩ ∧ (ofList ["Nova"]).handleOf "Ember" = ⟨1, "Ember"⟩ ∧
      (ofList ["Nova", "Ember", "Nova"]).get? "Ember" = some ⟨1, "Ember"⟩ ∧
      (table.get? "Surge").isSome = false := by
  intro names table
  have hnames : names.toFinset.card ≤ UInt32.size := by decide
  obtain ⟨hsize, hknown, hindices, -, -, hentered⟩ := entered_names_are_numbered names hnames
  have hhandle : (ofList ["Nova"]).handleOf "Ember" = ⟨1, "Ember"⟩ := rfl
  refine ⟨hnames, hsize.trans (by decide), (hindices "Blaze" (by decide)).trans (by rfl), hhandle,
    ?_, ?_⟩
  · rw [← hhandle]
    exact hentered ["Nova"] "Ember" ["Nova"] ["Blaze"] rfl
  · rw [← Bool.not_eq_true, hknown]
    decide

end CollisionRules.AbilityTable
