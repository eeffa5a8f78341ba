import CollisionRules.File.Access
import CollisionRules.Proofs.File.Path

namespace CollisionRules

/-- What is read of an entry that is opened. -/
def Entry.stream : Entry → List ReadEvent
  | .file bytes => [.bytes bytes]
  | .directory => [.failed .isDirectory]

namespace FileTree

/-- The place that a path leads to, and what stands there. -/
def reach (tree : FileTree) (path : Path) : Except Failure (Location × Option Entry) :=
  tree.followFrom path (namesOf path)

variable {tree before middle after : FileTree} {path : Path} {location reached : Location}
  {found : Option Entry} {names : List String}

/-- An entry is found where a path can be followed to it. -/
theorem find_eq_ok_iff {entry : Entry} :
    tree.find path = .ok entry ↔ ∃ location, tree.reach path = .ok (location, some entry) := by
  unfold find reach
  split <;> simp_all

/-- A path exists when it can be followed to an entry, be it a file or a directory. -/
theorem fileExists_iff :
    tree.fileExists path = true ↔ ∃ location entry, tree.reach path = .ok (location, some entry) := by
  unfold fileExists
  cases hfind : tree.find path with
  | ok entry =>
    obtain ⟨location, hreach⟩ := find_eq_ok_iff.mp hfind
    simp [hreach]
  | error failure =>
    simp only [Bool.false_eq_true, false_iff, not_exists]
    intro location entry hreach
    have hfound := find_eq_ok_iff.mpr ⟨location, hreach⟩
    rw [hfind] at hfound
    contradiction

/-- An entry that is reached is opened as what it is. -/
theorem openFile_of_reach {entry : Entry} (hreach : tree.reach path = .ok (location, some entry)) :
    tree.openFile path = .ok entry.stream := by
  rw [openFile, find_eq_ok_iff.mpr ⟨location, hreach⟩]
  cases entry <;> rfl

theorem isDirectory_iff :
    tree.isDirectory path = true ↔ ∃ location, tree.reach path = .ok (location, some .directory) := by
  rw [← find_eq_ok_iff, isDirectory]
  split <;> simp_all

/-- What is found is what stands at the place reached. -/
theorem entry?_of_follow (hfollow : tree.follow location names = .ok (reached, found)) :
    tree.entry? reached = found := by
  fun_induction follow tree location names with
  | case1 location =>
    obtain ⟨rfl, rfl⟩ := Prod.mk.inj (Except.ok.inj hfollow)
    rfl
  | case2 | case3 => contradiction
  | case4 location name rest _ _ ih => exact ih hfollow
  | case5 location rest _ _ ih => exact ih hfollow
  | case6 location name rest _ _ _ ih => exact ih hfollow

/-- What is found at the end of a path is what the tree has at the place that was reached. -/
theorem entry?_of_followFrom (hfollow : tree.followFrom path names = .ok (reached, found)) :
    tree.entry? reached = found := by
  unfold followFrom at hfollow
  split at hfollow
  · contradiction
  · exact entry?_of_follow hfollow

/-- A path is followed in two parts, the second from where the first has led. -/
theorem follow_append (tree : FileTree) (location : Location) (front back : List String) :
    tree.follow location (front ++ back) =
      (tree.follow location front).bind fun reached => tree.follow reached.1 back := by
  fun_induction follow tree location front with
  | case1 location => rfl
  | case2 location name rest hentry => simp [follow, hentry, Except.bind]
  | case3 location name rest _ hentry => simp [follow, hentry, Except.bind]
  | case4 location name rest hentry hname ih => rw [List.cons_append, follow, hentry]; simp [hname, ih]
  | case5 location rest hentry hname ih => rw [List.cons_append, follow, hentry]; simp [ih]
  | case6 location name rest hentry hname hup ih =>
    rw [List.cons_append, follow, hentry]; simp [hname, hup, ih]

/-- Fillers in front of other names lead nowhere else. -/
theorem follow_filler_cons (tree : FileTree) (location : Location) {name : String}
    (hname : name = "" ∨ name = ".") (hnames : names ≠ []) :
    tree.follow location (name :: names) = tree.follow location names := by
  obtain ⟨next, others, rfl⟩ := List.exists_cons_of_ne_nil hnames
  cases hentry : tree.entry? location with
  | none => simp only [follow, hentry]
  | some entry =>
    cases entry with
    | file bytes => simp only [follow, hentry]
    | directory =>
      conv_lhs => rw [follow, hentry]
      exact if_pos hname

/-- In front of a name, what leads nowhere can be left out. -/
theorem follow_leading (tree : FileTree) (location : Location) (front : List (List Char))
    {back : List String} (hback : back ≠ []) :
    tree.follow location (front.map String.ofList ++ back) =
      tree.follow location ((Path.leading front).map String.ofList ++ back) := by
  induction front generalizing location with
  | nil => rfl
  | cons piece rest ih =>
    rw [List.map_cons, List.cons_append]
    cases hpiece : Path.isFiller piece with
    | true =>
      have hname : String.ofList piece = "" ∨ String.ofList piece = "." := by
        rcases Bool.or_eq_true_iff.mp hpiece with hempty | hdot
        · exact .inl (by rw [List.isEmpty_iff.mp hempty, String.ofList_nil])
        · exact .inr (congrArg String.ofList (beq_iff_eq.mp hdot))
      rw [Path.leading_cons_of_isFiller hpiece, follow_filler_cons tree location hname (by simp [hback]),
        ih]
    | false =>
      have hleads : Path.leading (piece :: rest) = piece :: Path.leading rest :=
        List.filter_cons_of_pos (by simp [hpiece])
      rw [hleads, List.map_cons, List.cons_append]
      simp only [follow, ih]

/-- A path that is no refused one, read from the same place and along the same pieces that lead
    somewhere as another, leads where the other does. -/
theorem reach_congr {other : Path} {front more : List (List Char)} {back : List (List Char)}
    (hrefusal : refusal? path = refusal? other) (habsolute : path.isAbsolute = other.isAbsolute)
    (hpath : Path.pieces path.text.toList = front ++ back)
    (hother : Path.pieces other.text.toList = more ++ back) (hback : back ≠ [])
    (hleading : Path.leading front = Path.leading more) (tree : FileTree) :
    tree.reach path = tree.reach other := by
  have hnames : back.map String.ofList ≠ [] := by simpa using hback
  unfold reach followFrom namesOf
  rw [hrefusal, habsolute, hpath, hother, List.map_append, List.map_append]
  simp only [follow_leading tree _ front hnames, follow_leading tree _ more hnames, hleading]

/-- What a tree has found behind a path is no refusal of the path. -/
theorem refusal?_eq_none_of_reach (hreach : tree.reach path = .ok (location, found)) :
    refusal? path = none := by
  unfold reach followFrom at hreach
  split at hreach
  · contradiction
  · assumption

/-- A path with text is refused only for a null character in it. -/
theorem refusal?_of_ne_nil (hpath : path.text.toList ≠ []) :
    refusal? path = if '\x00' ∈ path.text.toList then some .nullInPath else none := by
  have hempty : path.text.isEmpty = false := by
    rw [← Bool.not_eq_true, String.isEmpty_iff, ← String.toList_eq_nil_iff]
    exact hpath
  simp [refusal?, hempty]

theorem not_mem_of_refusal? (hrefusal : refusal? path = none) : '\x00' ∉ path.text.toList := by
  intro hmem
  rw [refusal?_of_ne_nil (List.ne_nil_of_mem hmem), if_pos hmem] at hrefusal
  contradiction

/-- A file read from a directory is found where it is when read from the directory of another file
    that can be found there. -/
theorem reach_join_directory {base name child : Path} (hslash : '/' ∉ name.text.toList)
    (hname : Path.isFiller name.text.toList = false)
    (hfile : refusal? (base.join name) = none) (hchild : (base.join child).text.toList ≠ [])
    (tree : FileTree) :
    tree.reach ((base.join name).directory.join child) = tree.reach (base.join child) := by
  cases hrelative : child.isAbsolute with
  | true => rw [Path.join_of_isAbsolute _ hrelative, Path.join_of_isAbsolute _ hrelative]
  | false =>
    obtain ⟨hleading, habsolute, htext⟩ := Path.directory_join base hslash hname
    have hnonempty := Path.toList_directory_ne_nil (base.join name)
    have hnull := not_mem_of_refusal? hfile
    generalize hdirectory : (base.join name).directory = directory at *
    obtain ⟨front, hfront, hfrontLeading⟩ := Path.exists_pieces_join directory hrelative
    obtain ⟨more, hmore, hmoreLeading⟩ := Path.exists_pieces_join base hrelative
    refine reach_congr ?_ ?_ hfront hmore (Path.pieces_ne_nil _) ?_ tree
    · have hbase : '\x00' ∉ base.text.toList := fun hmem => hnull
        ((Path.mem_toList_join base (Path.isAbsolute_of_not_mem hslash) (by decide)).mpr (.inl hmem))
      have hdirectory : '\x00' ∉ directory.text.toList := by
        obtain hdot | hinitial := htext
        · simp [hdot]
        · exact fun hmem => hnull (hinitial.subset hmem)
      have hdirectoryJoin := Path.mem_toList_join directory hrelative (c := '\x00') (by decide)
      have hbaseJoin := Path.mem_toList_join base hrelative (c := '\x00') (by decide)
      rw [refusal?_of_ne_nil (Path.toList_join_ne_nil hnonempty child), refusal?_of_ne_nil hchild]
      simp only [hdirectoryJoin, hbaseJoin, hbase, hdirectory]
    · rw [Path.isAbsolute_join _ hrelative, Path.isAbsolute_join _ hrelative, habsolute]
    · rw [hfrontLeading, hleading, hmoreLeading]

/-- A path that ends in a name leads to a place of that name, or to none. -/
theorem getLast?_of_reach_join {base name : Path} (hslash : '/' ∉ name.text.toList)
    (hname : Path.isFiller name.text.toList = false) (hup : name.text ≠ "..")
    (hreach : tree.reach (base.join name) = .ok (reached, found)) :
    reached.getLast? = some name.text := by
  obtain ⟨initial, hpieces, -⟩ := Path.exists_pieces_join base (Path.isAbsolute_of_not_mem hslash)
  rw [Path.pieces_of_not_mem hslash] at hpieces
  unfold reach followFrom namesOf at hreach
  rw [hpieces, List.map_append, List.map_singleton, String.ofList_toList, follow_append] at hreach
  split at hreach
  · contradiction
  · generalize tree.follow _ (initial.map String.ofList) = followed at hreach
    cases followed with
    | error failure => contradiction
    | ok directory =>
      have hstay : ¬(name.text = "" ∨ name.text = ".") := by
        rintro (hempty | hdot)
        · simp [hempty, Path.isFiller] at hname
        · simp [hdot, Path.isFiller] at hname
      simp only [Except.bind, follow, if_neg hstay, if_neg hup] at hreach
      split at hreach
      · contradiction
      · contradiction
      · obtain ⟨rfl, -⟩ := Prod.mk.inj (Except.ok.inj hreach)
        exact List.getLast?_concat

/-- A place that is reached, and neither empty nor a directory, holds a file. -/
theorem exists_file_of_reach (hplace : (tree.reach path).map Prod.fst = .ok location)
    (hmissing : tree.entry? location ≠ none) (hfile : tree.entry? location ≠ some .directory) :
    ∃ bytes, tree.reach path = .ok (location, some (.file bytes)) := by
  cases hreach : tree.reach path with
  | error failure =>
    rw [hreach] at hplace
    contradiction
  | ok reached =>
    obtain ⟨place, found⟩ := reached
    rw [hreach] at hplace
    obtain rfl : place = location := Except.ok.inj hplace
    rw [entry?_of_followFrom hreach] at hmissing hfile
    match found with
    | none => contradiction
    | some .directory => contradiction
    | some (.file bytes) => exact ⟨bytes, rfl⟩

/-- All that stood in a tree still stands, and paths are read from the same place. -/
structure Extends (before after : FileTree) : Prop where
  entry? : ∀ {location entry}, before.entry? location = some entry →
    after.entry? location = some entry
  workingDirectory : after.workingDirectory = before.workingDirectory

/-- No file stands in a tree that did not stand in the other. -/
def AddsNoFile (before after : FileTree) : Prop :=
  ∀ location bytes, after.entry? location = some (.file bytes) →
    before.entry? location = some (.file bytes)

namespace Extends

theorem refl (tree : FileTree) : tree.Extends tree :=
  ⟨id, rfl⟩

theorem trans (hfirst : before.Extends middle) (hsecond : middle.Extends after) :
    before.Extends after :=
  ⟨fun hentry => hsecond.entry? (hfirst.entry? hentry),
    hsecond.workingDirectory.trans hfirst.workingDirectory⟩

/-- Names lead where they led. What stands there now may be new. -/
theorem follow (hextends : before.Extends after)
    (hfollow : before.follow location names = .ok (reached, found)) :
    after.follow location names = .ok (reached, after.entry? reached) := by
  fun_induction FileTree.follow before location names with
  | case1 location =>
    obtain ⟨rfl, -⟩ := Prod.mk.inj (Except.ok.inj hfollow)
    rfl
  | case2 | case3 => contradiction
  | case4 location name rest hentry hname ih =>
    rw [FileTree.follow, hextends.entry? hentry]
    simpa [hname] using ih hfollow
  | case5 location rest hentry hname ih =>
    rw [FileTree.follow, hextends.entry? hentry]
    simpa [hname] using ih hfollow
  | case6 location name rest hentry hname hup ih =>
    rw [FileTree.follow, hextends.entry? hentry]
    simpa [hname, hup] using ih hfollow

/-- A path that could be followed can still be followed to the same place once entries have been
    added. -/
theorem followFrom (hextends : before.Extends after)
    (hfollow : before.followFrom path names = .ok (reached, found)) :
    after.followFrom path names = .ok (reached, after.entry? reached) := by
  unfold FileTree.followFrom at hfollow ⊢
  split at hfollow
  · contradiction
  · rw [hextends.workingDirectory]
    exact hextends.follow hfollow

/-- What a path led to, it still leads to. -/
theorem reach (hextends : before.Extends after) {entry : Entry}
    (hreach : before.reach path = .ok (location, some entry)) :
    after.reach path = .ok (location, some entry) := by
  have hentry : before.entry? location = some entry := entry?_of_followFrom hreach
  rw [FileTree.reach, hextends.followFrom hreach, hextends.entry? hentry]

theorem fileExists (hextends : before.Extends after) (hexists : before.fileExists path = true) :
    after.fileExists path = true := by
  obtain ⟨location, entry, hreach⟩ := fileExists_iff.mp hexists
  exact fileExists_iff.mpr ⟨location, entry, hextends.reach hreach⟩

theorem isDirectory (hextends : before.Extends after)
    (hdirectory : before.isDirectory path = true) :
    after.isDirectory path = true := by
  obtain ⟨location, hreach⟩ := isDirectory_iff.mp hdirectory
  exact isDirectory_iff.mpr ⟨location, hextends.reach hreach⟩

/-- What could be opened opens to the same. -/
theorem openFile (hextends : before.Extends after) {events : List ReadEvent}
    (hopen : before.openFile path = .ok events) : after.openFile path = .ok events := by
  unfold FileTree.openFile at hopen ⊢
  cases hfind : before.find path with
  | error failure =>
    rw [hfind] at hopen
    contradiction
  | ok entry =>
    obtain ⟨location, hreach⟩ := find_eq_ok_iff.mp hfind
    rw [find_eq_ok_iff.mpr ⟨location, hextends.reach hreach⟩]
    rwa [hfind] at hopen

end Extends

/-- Putting an entry where none is takes nothing away. -/
theorem extends_put (hnone : tree.entry? location = none) (entry : Entry) :
    tree.Extends (tree.put location entry) := by
  refine ⟨fun {other stands} hentry => ?_, rfl⟩
  have hne : other ≠ location := by
    rintro rfl
    rw [hnone] at hentry
    contradiction
  exact (if_neg hne).trans hentry

/-- What is put at a place is found there. -/
theorem entry?_put (tree : FileTree) (location : Location) (entry : Entry) :
    FileTree.entry? (tree.put location entry) location = some entry :=
  if_pos rfl

theorem dropTrailing_eq_self (hlast : names.getLast? ≠ some "") : dropTrailing names = names := by
  refine (List.rdropWhile_eq_self_iff (p := fun name => decide (name = ""))).mpr fun hne => ?_
  rw [List.getLast?_eq_some_getLast hne] at hlast
  simpa using hlast

/-- A file that is written where nothing could be found stands at the end of its path, where
    nothing stood. -/
theorem writeFile_eq_ok {bytes : List UInt8} (hmissing : tree.fileExists path = false)
    (hwrite : tree.writeFile path bytes = .ok after) :
    ∃ location, tree.reach path = .ok (location, none) ∧
      after = tree.put location (.file bytes) := by
  unfold writeFile at hwrite
  simp only at hwrite
  split at hwrite
  · contradiction
  · contradiction
  · rename_i location found hnone hfollow
    split at hwrite
    · contradiction
    · rename_i hlast
      rw [dropTrailing_eq_self hlast] at hfollow
      refine ⟨location, ?_, (Except.ok.inj hwrite).symm⟩
      cases found with
      | none => exact hfollow
      | some entry =>
        rw [fileExists_iff.mpr ⟨location, entry, hfollow⟩] at hmissing
        contradiction

/-- Only empty names are dropped at the end. -/
theorem exists_dropTrailing (names : List String) :
    ∃ count, names = dropTrailing names ++ List.replicate count "" := by
  refine ⟨(names.rtakeWhile (· = "")).length, ?_⟩
  have hempty : names.rtakeWhile (· = "") =
      List.replicate (names.rtakeWhile (· = "")).length "" :=
    List.eq_replicate_iff.mpr ⟨rfl, fun name hname => by simpa using List.mem_rtakeWhile_imp hname⟩
  rw [← hempty]
  exact (List.rdropWhile_append_rtakeWhile ..).symm

/-- Empty names stay where they are, and need a directory there. -/
theorem follow_replicate_iff (count : Nat) :
    tree.follow location (List.replicate count "") = .ok (reached, some .directory) ↔
      reached = location ∧ tree.entry? location = some .directory := by
  induction count with
  | zero => simp [follow, eq_comm]
  | succ count ih =>
    rw [List.replicate_succ, follow]
    cases hentry : tree.entry? location with
    | none => simp
    | some entry =>
      cases entry with
      | file bytes => simp
      | directory => simpa [hentry] using ih

/-- A directory is found behind a path with or without slashes at its end. -/
theorem isDirectory_iff_dropTrailing :
    tree.isDirectory path = true ↔ ∃ location,
      tree.followFrom path (dropTrailing (namesOf path)) = .ok (location, some .directory) := by
  obtain ⟨count, hnames⟩ := exists_dropTrailing (namesOf path)
  have hsplit (start : Location) : tree.follow start (namesOf path) =
      (tree.follow start (dropTrailing (namesOf path))).bind fun reached =>
        tree.follow reached.1 (List.replicate count "") := by
    conv_lhs => rw [hnames]
    exact follow_append ..
  rw [isDirectory_iff]
  refine exists_congr fun location => ?_
  unfold reach followFrom
  cases refusal? path with
  | some failure => simp
  | none =>
    simp only [hsplit]
    cases hfollow : tree.follow _ (dropTrailing (namesOf path)) with
    | error failure => simp [Except.bind]
    | ok reached =>
      obtain ⟨place, found⟩ := reached
      have hfound := entry?_of_follow hfollow
      simp only [Except.bind, follow_replicate_iff, hfound, Except.ok.injEq, Prod.mk.injEq]
      tauto

/-- A directory is made where nothing stood, and stands there. -/
theorem makeDirectory_eq_ok (hmake : tree.makeDirectory path = .ok after) :
    tree.Extends after ∧ tree.AddsNoFile after ∧ after.isDirectory path = true := by
  unfold makeDirectory at hmake
  split at hmake
  · rename_i location hfollow
    obtain rfl := Except.ok.inj hmake
    have hnone := entry?_of_followFrom hfollow
    have hextends := extends_put hnone .directory
    refine ⟨hextends, ?_, ?_⟩
    · intro other bytes hentry
      by_cases hother : other = location
      · subst other
        cases (entry?_put ..).symm.trans hentry
      · exact (if_neg hother).symm.trans hentry
    · have hreached := hextends.followFrom hfollow
      rw [entry?_put] at hreached
      exact isDirectory_iff_dropTrailing.mpr ⟨location, hreached⟩
  · contradiction
  · contradiction

/-- No directory is made where one stands. -/
theorem makeDirectory_of_isDirectory (hdirectory : tree.isDirectory path = true) :
    tree.makeDirectory path = .error .alreadyExists := by
  obtain ⟨location, hfollow⟩ := isDirectory_iff_dropTrailing.mp hdirectory
  rw [makeDirectory, hfollow]

/-- What an attempt to make a directory comes to: it adds directories alone, and if it says so the
    directory is there. The empty path stands for one that need not be made. -/
structure MakesDirectory (path : Path) (before : FileTree)
    (run : Except Failure Unit × FileTree) : Prop where
  grows : before.Extends run.2
  addsNoFile : before.AddsNoFile run.2
  isThere : run.1 = .ok () → path.text.isEmpty = true ∨ run.2.isDirectory path = true

theorem makesDirectory_error (path : Path) (tree : FileTree) (failure : Failure) :
    tree.MakesDirectory path (.error failure, tree) :=
  ⟨.refl tree, fun _ _ => id, nofun⟩

/-- Making a directory may begin with other steps that make directories and no files. -/
theorem MakesDirectory.later {run : Except Failure Unit × FileTree}
    (hrun : middle.MakesDirectory path run) (hextends : before.Extends middle)
    (hadds : before.AddsNoFile middle) : before.MakesDirectory path run :=
  ⟨hextends.trans hrun.grows,
    fun place bytes hentry => hadds place bytes (hrun.addsNoFile place bytes hentry), hrun.isThere⟩

section Run

open FileAccess

theorem bind_run {α β : Type} (action : StateM FileTree α) (next : α → StateM FileTree β)
    (tree : FileTree) : (action >>= next) tree = next (action tree).1 (action tree).2 :=
  rfl

theorem makeDirectory_run (path : Path) (tree : FileTree) :
    FileAccess.makeDirectory (m := StateM FileTree) path tree =
      match tree.makeDirectory path with
      | .ok made => (.ok (), made)
      | .error failure => (.error failure, tree) :=
  rfl

/-- A directory that could not be made is settled by whether one is there all the same. -/
theorem settle_run (path : Path) (failure : Failure) (tree : FileTree) :
    makeDirectoriesWithin.settle (m := StateM FileTree) path failure tree =
      (if tree.isDirectory path then .ok () else .error failure, tree) := by
  unfold makeDirectoriesWithin.settle
  rw [bind_run]
  simp only [FileAccess.isDirectory]
  split <;> rfl

/-- To settle for what is there is to make a directory, or to fail. -/
theorem makesDirectory_settle (path : Path) (failure : Failure) (tree : FileTree) :
    tree.MakesDirectory path
      (makeDirectoriesWithin.settle (m := StateM FileTree) path failure tree) := by
  rw [settle_run]
  refine ⟨.refl tree, fun _ _ => id, fun hok => .inr ?_⟩
  by_contra hnot
  simp [hnot] at hok

/-- A directory that is made is there, and no file is touched. -/
theorem makesDirectory_of_makeDirectory (hmake : tree.makeDirectory path = .ok after) :
    tree.MakesDirectory path (.ok (), after) := by
  obtain ⟨hextends, hadds, hthere⟩ := makeDirectory_eq_ok hmake
  exact ⟨hextends, hadds, fun _ => .inr hthere⟩

/-- Up to any depth, by the directories above: each step adds directories alone. -/
theorem makesDirectory_makeDirectoriesWithin (depth : Nat) (path : Path) (tree : FileTree) :
    tree.MakesDirectory path (makeDirectoriesWithin (m := StateM FileTree) depth path tree) := by
  induction depth generalizing path tree with
  | zero => exact makesDirectory_error path tree .noAncestor
  | succ depth ih =>
    unfold makeDirectoriesWithin
    split
    · rename_i hempty
      exact ⟨.refl tree, fun _ _ => id, fun _ => .inl hempty⟩
    · rw [bind_run, makeDirectory_run]
      cases hmake : tree.makeDirectory path with
      | ok made => exact makesDirectory_of_makeDirectory hmake
      | error failure =>
        simp only
        split
        · exact makesDirectory_settle path failure tree
        · cases path.parent? with
          | none => exact makesDirectory_error path tree .noAncestor
          | some parent =>
            have hparent := ih parent tree
            simp only [bind_run]
            generalize makeDirectoriesWithin (m := StateM FileTree) depth parent tree = run at hparent ⊢
            obtain ⟨result, later⟩ := run
            cases result with
            | error failure => exact ⟨hparent.grows, hparent.addsNoFile, nofun⟩
            | ok _ =>
              refine MakesDirectory.later ?_ hparent.grows hparent.addsNoFile
              simp only [bind_run, makeDirectory_run]
              cases hagain : later.makeDirectory path with
              | ok made => exact makesDirectory_of_makeDirectory hagain
              | error failure => exact makesDirectory_settle path failure later

/-- Making a directory with all that it stands in goes as it should, or fails and takes nothing
    away. -/
theorem makesDirectory_makeDirectories (path : Path) (tree : FileTree) :
    tree.MakesDirectory path (makeDirectories (m := StateM FileTree) path tree) :=
  makesDirectory_makeDirectoriesWithin _ path tree

/-- Nothing is made where a directory is there. -/
theorem makeDirectories_of_isThere
    (hthere : path.text.isEmpty = true ∨ tree.isDirectory path = true) :
    makeDirectories (m := StateM FileTree) path tree = (.ok (), tree) := by
  unfold makeDirectories makeDirectoriesWithin
  split
  · rfl
  · rename_i hempty
    have hdirectory := hthere.resolve_left hempty
    simp only [bind_run, makeDirectory_run, makeDirectory_of_isDirectory hdirectory]
    rw [if_pos (by decide), settle_run, if_pos hdirectory]

end Run

end FileTree

end CollisionRules
