import CollisionRules.Resolution

namespace CollisionRules.Resolution

variable {H : Type}

/-- The latest declaration of the group `name` among the first `k` statements, and
    its position. -/
def latestGroup? (statements : List Statement) (name : String) :
    Nat → Option (Nat × GroupDeclaration)
  | 0 => none
  | k + 1 =>
    match statements[k]? with
    | some (.group declaration) =>
      if declaration.name = name then some (k, declaration) else latestGroup? statements name k
    | _ => latestGroup? statements name k

/-- Statement `k` is the latest declaration of a name after it, or declares another name
    or none at all and changes nothing. -/
theorem latestGroup?_succ_cases (statements : List Statement) (name : String) (k : Nat) :
    (∃ declaration, statements[k]? = some (.group declaration) ∧ declaration.name = name ∧
        latestGroup? statements name (k + 1) = some (k, declaration)) ∨
      ((∀ declaration, statements[k]? = some (.group declaration) → declaration.name ≠ name) ∧
        latestGroup? statements name (k + 1) = latestGroup? statements name k) := by
  rw [latestGroup?]
  split
  · next declaration hget =>
    by_cases hname : declaration.name = name
    · exact .inl ⟨declaration, hget, hname, if_pos hname⟩
    · refine .inr ⟨fun other hother => ?_, if_neg hname⟩
      obtain rfl : declaration = other := by simpa [hget] using hother
      exact hname
  · next hother => exact .inr ⟨fun declaration hget => absurd hget (hother declaration), rfl⟩

/-- What is found is a declaration of the name, and no later one stands before `k`. -/
theorem latestGroup?_eq_some_iff {statements : List Statement} {name : String} {k j : Nat}
    {declaration : GroupDeclaration} :
    latestGroup? statements name k = some (j, declaration) ↔
      j < k ∧ statements[j]? = some (.group declaration) ∧ declaration.name = name ∧
        ∀ i other, j < i → i < k → statements[i]? = some (.group other) → other.name ≠ name := by
  induction k with
  | zero => simp [latestGroup?]
  | succ k ih =>
    obtain ⟨found, hget, hname, hfound⟩ | ⟨hnot, hskip⟩ :=
      latestGroup?_succ_cases statements name k
    · rw [hfound]
      constructor
      · intro h
        obtain ⟨rfl, rfl⟩ : k = j ∧ found = declaration := by simpa using h
        exact ⟨by omega, hget, hname, fun i _ hlo hhi => by omega⟩
      · rintro ⟨hlt, hgetj, _, hlast⟩
        rcases Nat.lt_succ_iff_lt_or_eq.mp hlt with hbefore | rfl
        · exact absurd hname (hlast k found hbefore (by omega) hget)
        · obtain rfl : found = declaration := by simpa [hget] using hgetj
          rfl
    · rw [hskip, ih]
      constructor
      · rintro ⟨hlt, hget, hname, hlast⟩
        refine ⟨by omega, hget, hname, fun i other hlo hhi hother => ?_⟩
        rcases Nat.lt_succ_iff_lt_or_eq.mp hhi with hbefore | rfl
        · exact hlast i other hlo hbefore hother
        · exact hnot other hother
      · rintro ⟨hlt, hget, hname, hlast⟩
        have hne : j ≠ k := by
          rintro rfl
          exact hnot declaration hget hname
        exact ⟨by omega, hget, hname, fun i other hlo hhi => hlast i other hlo (by omega)⟩

/-- A name is found exactly when one of the first `k` statements declares it. -/
theorem latestGroup?_isSome_iff {statements : List Statement} {name : String} {k : Nat} :
    (latestGroup? statements name k).isSome ↔
      ∃ j declaration, j < k ∧ statements[j]? = some (.group declaration) ∧
        declaration.name = name := by
  constructor
  · intro hsome
    obtain ⟨⟨j, declaration⟩, hfound⟩ := Option.isSome_iff_exists.mp hsome
    obtain ⟨hlt, hget, hname, _⟩ := latestGroup?_eq_some_iff.mp hfound
    exact ⟨j, declaration, hlt, hget, hname⟩
  · rintro ⟨j, declaration, hlt, hget, hname⟩
    induction k with
    | zero => omega
    | succ k ih =>
      obtain ⟨_, _, _, hfound⟩ | ⟨hnot, hskip⟩ := latestGroup?_succ_cases statements name k
      · simp [hfound]
      · rcases Nat.lt_succ_iff_lt_or_eq.mp hlt with hbefore | rfl
        · rw [hskip]
          exact ih hbefore
        · exact absurd hname (hnot declaration hget)

/-- The abilities that an operand stands for in statement `k`. An ability stands for
    the handle that its canonical name is looked up to. A group stands for the
    members of its latest declaration before `k`, each as it stood in that
    declaration, and for nothing if its name is empty or not declared before `k`. -/
def valueAt (lookup : String → Option H) (statements : List Statement) (k : Nat)
    (operand : Operand) : List H :=
  match operand.kind with
  | .ability => (lookup (Ability.canonicalName operand.name)).toList
  | .group =>
    match _hlatest : latestGroup? statements operand.name k with
    | some (j, declaration) =>
      if declaration.name = "" then []
      else declaration.members.flatMap fun member => valueAt lookup statements j member
    | none => []
termination_by k
decreasing_by exact (latestGroup?_eq_some_iff.mp _hlatest).1

/-- The abilities that the group declared by statement `j` is bound to. -/
def declaredValue (lookup : String → Option H) (statements : List Statement)
    (found : Nat × GroupDeclaration) : List H :=
  if found.2.name = "" then [] else found.2.members.flatMap (valueAt lookup statements found.1)

theorem valueAt_of_ability (lookup : String → Option H) (statements : List Statement) (k : Nat)
    {operand : Operand} (hkind : operand.kind = .ability) :
    valueAt lookup statements k operand = (lookup (Ability.canonicalName operand.name)).toList := by
  rw [valueAt, hkind]

theorem valueAt_of_group (lookup : String → Option H) (statements : List Statement) (k : Nat)
    {operand : Operand} (hkind : operand.kind = .group) :
    valueAt lookup statements k operand =
      ((latestGroup? statements operand.name k).map (declaredValue lookup statements)).getD [] := by
  rw [valueAt, hkind]
  dsimp only
  split
  · next j declaration hlatest => simp [hlatest, declaredValue]
  · next hlatest => simp [hlatest]

end CollisionRules.Resolution
