import CollisionRules.File.Path
import CollisionRules.Proofs.Text.Cut

namespace CollisionRules.Path

open Text

/-- The pieces that lead somewhere. -/
def leading (pieces : List (List Char)) : List (List Char) :=
  pieces.filter fun piece => !isFiller piece

theorem leading_append (front back : List (List Char)) :
    leading (front ++ back) = leading front ++ leading back :=
  List.filter_append ..

/-- An empty piece or a dot is passed over in front. -/
theorem leading_cons_of_isFiller {piece : List Char} (hpiece : isFiller piece = true)
    (rest : List (List Char)) : leading (piece :: rest) = leading rest :=
  List.filter_cons_of_neg (by simp [hpiece])

/-- A slash parts the pieces in front of it from those behind it. -/
theorem pieces_append_slash (front back : List Char) :
    pieces (front ++ '/' :: back) = pieces front ++ pieces back := by
  have hremainder := (cut_spec '/' front).2.2
  simp [pieces, cut_append _ front, cut_append_mark hremainder]

theorem pieces_slash_cons (text : List Char) : pieces ('/' :: text) = [] :: pieces text :=
  pieces_append_slash [] text

/-- A text without a slash is one piece. -/
theorem pieces_of_not_mem {text : List Char} (htext : '/' ∉ text) : pieces text = [text] := by
  simp [pieces, cut_of_not_mem htext]

theorem pieces_ne_nil (text : List Char) : pieces text ≠ [] :=
  List.concat_ne_nil _ _

/-- No piece of a path holds a slash. -/
theorem not_mem_of_mem_pieces {text piece : List Char} (hpiece : piece ∈ pieces text) :
    '/' ∉ piece := by
  obtain ⟨-, hwhole, hremainder⟩ := cut_spec '/' text
  rcases List.mem_append.mp hpiece with hpiece | hpiece
  · exact hwhole piece hpiece
  · rwa [List.mem_singleton.mp hpiece]

theorem ofPieces_cons {first : List Char} {rest : List (List Char)} (hrest : rest ≠ []) :
    ofPieces (first :: rest) = first ++ '/' :: ofPieces rest := by
  rw [ofPieces, List.intercalate_cons_of_ne_nil hrest]
  simp [ofPieces]

theorem ofPieces_singleton (piece : List Char) : ofPieces [piece] = piece :=
  List.intercalate_singleton

/-- Pieces without a slash are found again in the text that they make. -/
theorem pieces_ofPieces {list : List (List Char)} (hne : list ≠ [])
    (hlist : ∀ piece ∈ list, '/' ∉ piece) : pieces (ofPieces list) = list := by
  induction list with
  | nil => contradiction
  | cons first rest ih =>
    have hfirst := hlist first List.mem_cons_self
    cases rest with
    | nil => rw [ofPieces_singleton, pieces_of_not_mem hfirst]
    | cons second others =>
      have hrest := ih (by simp) fun piece hpiece => hlist piece (List.mem_cons_of_mem _ hpiece)
      rw [ofPieces_cons (by simp), pieces_append_slash, pieces_of_not_mem hfirst, hrest]
      rfl

/-- A text is made of its pieces. -/
theorem ofPieces_pieces (text : List Char) : ofPieces (pieces text) = text := by
  obtain ⟨hjoined, -, -⟩ := cut_spec '/' text
  have hall (whole : List (List Char)) (remainder : List Char) :
      ofPieces (whole ++ [remainder]) = joined '/' whole remainder := by
    induction whole with
    | nil => exact ofPieces_singleton remainder
    | cons first rest ih =>
      rw [List.cons_append, ofPieces_cons (List.concat_ne_nil _ _), ih, joined_cons]
  exact (hall _ _).trans hjoined

/-- The text of the first pieces is the front of the text of all. -/
theorem ofPieces_isPrefix {front list : List (List Char)} (hfront : front <+: list) :
    ofPieces front <+: ofPieces list := by
  induction front generalizing list with
  | nil => exact List.nil_prefix
  | cons first rest ih =>
    obtain ⟨others, rfl, hrest⟩ : ∃ others, list = first :: others ∧ rest <+: others := by
      obtain ⟨back, rfl⟩ := hfront
      exact ⟨rest ++ back, rfl, List.prefix_append ..⟩
    rcases eq_or_ne rest [] with rfl | hne
    · rcases eq_or_ne others [] with rfl | hothers
      · exact List.prefix_rfl
      · rw [ofPieces_singleton, ofPieces_cons hothers]
        exact List.prefix_append ..
    · have hothers : others ≠ [] := by
        rintro rfl
        exact hne (List.prefix_nil.mp hrest)
      rw [ofPieces_cons hne, ofPieces_cons hothers, List.prefix_append_right_inj,
        List.cons_prefix_cons]
      exact ⟨rfl, ih hrest⟩

/-- Where the text of pieces leads, also if there are none. -/
theorem leading_pieces_ofPieces {list : List (List Char)} (hlist : ∀ piece ∈ list, '/' ∉ piece) :
    leading (pieces (ofPieces list)) = leading list := by
  rcases eq_or_ne list [] with rfl | hne
  · rfl
  · rw [pieces_ofPieces hne hlist]

theorem dropFillers_isPrefix (list : List (List Char)) : dropFillers list <+: list :=
  List.rdropWhile_prefix isFiller list

/-- A last piece that is a name stays. -/
theorem dropFillers_concat {name : List Char} (hname : isFiller name = false)
    (front : List (List Char)) : dropFillers (front ++ [name]) = front ++ [name] :=
  List.rdropWhile_concat_neg isFiller front name (by simp [hname])

/-- What is dropped at the end names no directory. -/
theorem leading_dropFillers (list : List (List Char)) :
    leading (dropFillers list) = leading list := by
  induction list using List.reverseRecOn with
  | nil => rfl
  | append_singleton front piece ih =>
    cases hpiece : isFiller piece with
    | true =>
      have hdrop : dropFillers (front ++ [piece]) = dropFillers front :=
        List.rdropWhile_concat_pos isFiller front piece hpiece
      rw [hdrop, ih, leading_append, leading_cons_of_isFiller hpiece]
      exact (List.append_nil _).symm
    | false => rw [dropFillers_concat hpiece]

/-- The pieces that stay, behind an empty one. -/
theorem dropFillers_nil_cons (list : List (List Char)) :
    dropFillers ([] :: list) = [] ∨
      dropFillers list ≠ [] ∧ dropFillers ([] :: list) = [] :: dropFillers list := by
  induction list using List.reverseRecOn with
  | nil => exact .inl rfl
  | append_singleton front piece ih =>
    rw [← List.cons_append]
    cases hpiece : isFiller piece with
    | true =>
      have hdrop (others : List (List Char)) :
          dropFillers (others ++ [piece]) = dropFillers others :=
        List.rdropWhile_concat_pos isFiller others piece hpiece
      rwa [hdrop, hdrop]
    | false =>
      rw [dropFillers_concat hpiece, dropFillers_concat hpiece]
      exact .inr ⟨List.concat_ne_nil _ _, rfl⟩

variable {path base child name : Path}

theorem isAbsolute_of_eq_cons {c : Char} {rest : List Char} (hpath : path.text.toList = c :: rest) :
    path.isAbsolute = (c == '/') := by
  simp [isAbsolute, hpath]

/-- A path without a slash is relative. -/
theorem isAbsolute_of_not_mem (hpath : '/' ∉ path.text.toList) : path.isAbsolute = false := by
  cases hfirst : path.isAbsolute with
  | false => rfl
  | true => exact absurd (List.mem_of_head? (beq_iff_eq.mp hfirst)) hpath

/-- Whether a path is absolute is told by any beginning of it that is not empty. -/
theorem isAbsolute_of_isPrefix {other : Path} (hne : path.text.toList ≠ [])
    (hfront : path.text.toList <+: other.text.toList) : path.isAbsolute = other.isAbsolute := by
  obtain ⟨back, hback⟩ := hfront
  obtain ⟨c, rest, hpath⟩ := List.exists_cons_of_ne_nil hne
  have hother : other.text.toList = c :: (rest ++ back) := by
    rw [← hback, hpath, List.cons_append]
  rw [isAbsolute_of_eq_cons hpath, isAbsolute_of_eq_cons hother]

/-- The directory of a path is its parent, or the working directory where the parent is empty. -/
theorem directory_of_parent? {parent : List Char}
    (hparent : path.parent? = some ⟨String.ofList parent⟩) :
    path.directory.text.toList = if parent = [] then ['.'] else parent := by
  unfold directory
  rw [hparent]
  by_cases hempty : parent = []
  · simp [hempty]
  · simp [hempty, String.isEmpty_iff, String.ofList_eq_empty_iff]

/-- The parent of a path that ends in a name is what stands before the name, without the fillers. -/
theorem parent?_of_dropFillers {anchor rest : List Char} {front : List (List Char)}
    {last : List Char} (hanchored : anchored path.text.toList = (anchor, rest))
    (hrest : pieces rest = front ++ [last]) (hlast : isFiller last = false) :
    path.parent? = some ⟨String.ofList (anchor ++ ofPieces (dropFillers front))⟩ := by
  have hdrop : dropFillers (pieces rest) = front ++ [last] := by rw [hrest, dropFillers_concat hlast]
  unfold parent?
  rw [hanchored]
  simp only [hdrop]
  split
  · rename_i hnil
    simp at hnil
  · rename_i first others hcons
    rw [← hcons, List.dropLast_concat]

/-- The front that always stays is the root, a `.`, or nothing. -/
theorem anchored_cases (text : List Char) :
    (∃ rest, text = '/' :: rest ∧ anchored text = (['/'], rest)) ∨
      text = ['.'] ∨
      (∃ rest, text = '.' :: '/' :: rest ∧ anchored text = (['.'], '/' :: rest)) ∨
      text.head? ≠ some '/' ∧ anchored text = ([], text) := by
  fun_cases anchored text with
  | case1 rest => exact .inl ⟨rest, rfl, rfl⟩
  | case2 => exact .inr (.inl rfl)
  | case3 rest => exact .inr (.inr (.inl ⟨rest, rfl, rfl⟩))
  | case4 text hroot =>
    refine .inr (.inr (.inr ⟨fun hhead => ?_, rfl⟩))
    obtain ⟨rest, rfl⟩ := List.head?_eq_some_iff.mp hhead
    exact hroot rest rfl

/-- A `.` in front of a slash or of nothing leads nowhere. -/
theorem leading_pieces_dot_cons {text : List Char}
    (htext : text = [] ∨ ∃ rest, text = '/' :: rest) :
    leading (pieces ('.' :: text)) = leading (pieces text) := by
  obtain rfl | ⟨rest, rfl⟩ := htext
  · rfl
  · have hdot : pieces ('.' :: '/' :: rest) = ['.'] :: pieces rest := pieces_append_slash ['.'] rest
    rw [hdot, pieces_slash_cons, leading_cons_of_isFiller rfl, leading_cons_of_isFiller rfl]

/-- Behind a first piece, a text that ends in a name still ends in it. -/
theorem exists_of_cons_eq_concat {first last : List Char} {rest initial : List (List Char)}
    (hpieces : first :: rest = initial ++ [last]) (hne : first ≠ last) :
    ∃ front, initial = first :: front ∧ rest = front ++ [last] := by
  obtain ⟨-, hcons⟩ | ⟨front, hinitial, hrest⟩ := List.cons_eq_append_iff.mp hpieces
  · exact absurd (List.cons.inj hcons).1.symm hne
  · exact ⟨front, hinitial, hrest⟩

/-- A text that ends in a name, without that name and the pieces in front of it that lead nowhere,
    leads where all the pieces in front of the name do. -/
theorem exists_parent {text : List Char} {initial : List (List Char)} {last : List Char}
    (hpieces : pieces text = initial ++ [last]) (hlast : isFiller last = false) :
    ∃ anchor rest front, anchored text = (anchor, rest) ∧ text = anchor ++ rest ∧
      pieces rest = front ++ [last] ∧
      leading (pieces (anchor ++ ofPieces (dropFillers front))) = leading initial ∧
      (anchor = [] → text.head? ≠ some '/') := by
  have hkept (list : List (List Char)) (hlist : ∀ piece ∈ list, '/' ∉ piece) :
      leading (pieces (ofPieces (dropFillers list))) = leading list := by
    rw [leading_pieces_ofPieces fun piece hpiece =>
      hlist piece ((dropFillers_isPrefix list).subset hpiece), leading_dropFillers]
  have hslash : ∀ piece ∈ initial, '/' ∉ piece := fun piece hpiece =>
    not_mem_of_mem_pieces (hpieces ▸ List.mem_append_left _ hpiece)
  have hempty : ([] : List Char) ≠ last := by
    rintro rfl
    contradiction
  have hdot : ['.'] ≠ last := by
    rintro rfl
    contradiction
  obtain ⟨rest, rfl, hanchored⟩ | rfl | ⟨rest, rfl, hanchored⟩ | ⟨hhead, hanchored⟩ :=
    anchored_cases text
  · rw [pieces_slash_cons] at hpieces
    obtain ⟨front, rfl, hrest⟩ := exists_of_cons_eq_concat hpieces hempty
    refine ⟨_, rest, front, hanchored, rfl, hrest, ?_, nofun⟩
    rw [List.singleton_append, pieces_slash_cons, leading_cons_of_isFiller rfl,
      leading_cons_of_isFiller rfl, hkept front fun piece hpiece =>
        hslash piece (List.mem_cons_of_mem _ hpiece)]
  · obtain ⟨front, -, hnil⟩ := exists_of_cons_eq_concat hpieces hdot
    exact absurd hnil.symm (List.concat_ne_nil _ _)
  · have hsplit : pieces ('.' :: '/' :: rest) = ['.'] :: pieces rest :=
      pieces_append_slash ['.'] rest
    rw [hsplit] at hpieces
    obtain ⟨front, rfl, hrest⟩ := exists_of_cons_eq_concat hpieces hdot
    have hbehind : pieces ('/' :: rest) = ([] :: front) ++ [last] := by
      rw [pieces_slash_cons, hrest, List.cons_append]
    refine ⟨_, '/' :: rest, [] :: front, hanchored, rfl, hbehind, ?_, nofun⟩
    have hform : ofPieces (dropFillers ([] :: front)) = [] ∨
        ∃ more, ofPieces (dropFillers ([] :: front)) = '/' :: more := by
      obtain hdrop | ⟨hne, hdrop⟩ := dropFillers_nil_cons front
      · exact .inl (by rw [hdrop]; rfl)
      · exact .inr ⟨_, by rw [hdrop, ofPieces_cons hne]; rfl⟩
    rw [List.singleton_append, leading_pieces_dot_cons hform,
      hkept ([] :: front) fun piece hpiece => not_mem_of_mem_pieces
        (hbehind ▸ List.mem_append_left _ hpiece),
      leading_cons_of_isFiller rfl, leading_cons_of_isFiller rfl]
  · exact ⟨[], text, initial, hanchored, rfl, hpieces, hkept initial hslash, fun _ => hhead⟩

/-- The directory of a path that ends in a name leads where the pieces in front of the name do, and
    is read from the same place. Its text is a `.` or the front of the path's. -/
theorem directory_of_pieces {initial : List (List Char)} {last : List Char}
    (hpieces : pieces path.text.toList = initial ++ [last]) (hlast : isFiller last = false) :
    leading (pieces path.directory.text.toList) = leading initial ∧
      path.directory.isAbsolute = path.isAbsolute ∧
      (path.directory.text.toList = ['.'] ∨ path.directory.text.toList <+: path.text.toList) := by
  obtain ⟨anchor, rest, front, hanchored, htext, hrest, hleading, hhead⟩ :=
    exists_parent hpieces hlast
  have hparent := directory_of_parent? (parent?_of_dropFillers hanchored hrest hlast)
  generalize hbody : anchor ++ ofPieces (dropFillers front) = body at hparent hleading
  have hinitial : body <+: path.text.toList := by
    have hfront : dropFillers front <+: pieces rest :=
      (dropFillers_isPrefix front).trans (hrest ▸ List.prefix_append ..)
    have hofPieces := ofPieces_isPrefix hfront
    rw [ofPieces_pieces] at hofPieces
    rw [htext, ← hbody, List.prefix_append_right_inj]
    exact hofPieces
  by_cases hempty : body = []
  · rw [if_pos hempty] at hparent
    have hanchor : anchor = [] := (List.append_eq_nil_iff.mp (hbody.trans hempty)).1
    refine ⟨?_, ?_, .inl hparent⟩
    · rw [hparent, ← hleading, hempty]
      rfl
    · rw [isAbsolute_of_eq_cons hparent, isAbsolute, beq_false_of_ne (hhead hanchor)]
      rfl
  · rw [if_neg hempty] at hparent
    rw [← hparent] at hempty hinitial hleading
    exact ⟨hleading, isAbsolute_of_isPrefix hempty hinitial, .inr hinitial⟩

/-- Joining puts a slash between two texts, unless the first one is empty or ends in a slash. -/
theorem exists_toList_join (base : Path) (hchild : child.isAbsolute = false) :
    ∃ front, (base.join child).text.toList = front ++ child.text.toList ∧
      (front = [] ∧ base.text.toList = [] ∨
        ∃ body, front = body ++ ['/'] ∧
          (base.text.toList = body ++ ['/'] ∨ base.text.toList = body ∧ body ≠ [])) := by
  unfold join
  rw [hchild]
  simp only [Bool.false_eq_true, if_false]
  split
  · rename_i hends
    refine ⟨base.text.toList, String.toList_append, ?_⟩
    rcases Bool.or_eq_true_iff.mp hends with hempty | hslash
    · exact .inl (by simpa [String.isEmpty_iff] using hempty)
    · obtain ⟨body, hbody⟩ := List.getLast?_eq_some_iff.mp (beq_iff_eq.mp hslash)
      exact .inr ⟨body, hbody, .inl hbody⟩
  · rename_i hends
    have hne : base.text.toList ≠ [] := by
      intro hnil
      simp [String.toList_eq_nil_iff.mp hnil] at hends
    refine ⟨base.text.toList ++ ['/'], by simp, .inr ⟨_, rfl, .inr ⟨rfl, hne⟩⟩⟩

/-- The pieces of a path that is read from a directory: those of the path, behind pieces that lead
    where the directory does. -/
theorem exists_pieces_join (base : Path) (hchild : child.isAbsolute = false) :
    ∃ initial, pieces (base.join child).text.toList = initial ++ pieces child.text.toList ∧
      leading initial = leading (pieces base.text.toList) := by
  obtain ⟨front, hjoin, ⟨rfl, hbase⟩ | ⟨body, rfl, hbase⟩⟩ := exists_toList_join base hchild
  · refine ⟨[], by rw [hjoin]; rfl, ?_⟩
    rw [hbase]
    rfl
  · refine ⟨pieces body, ?_, ?_⟩
    · rw [hjoin, List.append_assoc, List.singleton_append, pieces_append_slash]
    · obtain hbase | ⟨hbase, -⟩ := hbase
      · rw [hbase, pieces_append_slash, leading_append]
        exact (List.append_nil _).symm
      · rw [hbase]

/-- A relative path is as absolute as the base that it is joined to. -/
theorem isAbsolute_join (base : Path) (hchild : child.isAbsolute = false) :
    (base.join child).isAbsolute = base.isAbsolute := by
  obtain ⟨front, hjoin, ⟨rfl, hbase⟩ | ⟨body, rfl, hbase⟩⟩ := exists_toList_join base hchild
  · rw [isAbsolute, hjoin, isAbsolute, hbase]
    exact hchild
  · obtain hbase | ⟨hbase, hne⟩ := hbase
    · refine (isAbsolute_of_isPrefix ?_ ?_).symm
      · simp [hbase]
      · rw [hjoin, hbase]
        exact List.prefix_append ..
    · refine (isAbsolute_of_isPrefix (hbase ▸ hne) ?_).symm
      rw [hjoin, hbase, List.append_assoc]
      exact List.prefix_append ..

/-- Joining brings in no character but a slash. -/
theorem mem_toList_join {c : Char} (base : Path) (hchild : child.isAbsolute = false)
    (hc : c ≠ '/') :
    c ∈ (base.join child).text.toList ↔ c ∈ base.text.toList ∨ c ∈ child.text.toList := by
  obtain ⟨front, hjoin, ⟨rfl, hbase⟩ | ⟨body, rfl, hbase⟩⟩ := exists_toList_join base hchild
  · simp [hjoin, hbase]
  · obtain hbase | ⟨hbase, -⟩ := hbase <;> simp [hjoin, hbase, hc]

/-- An absolute path is not moved by a base. -/
theorem join_of_isAbsolute (base : Path) (hchild : child.isAbsolute = true) :
    base.join child = child := by
  simp [join, hchild]

/-- The directory of a file in a directory leads where the directory does, and is read from the
    same place. -/
theorem directory_join (base : Path) (hslash : '/' ∉ name.text.toList)
    (hname : isFiller name.text.toList = false) :
    leading (pieces (base.join name).directory.text.toList) = leading (pieces base.text.toList) ∧
      (base.join name).directory.isAbsolute = base.isAbsolute ∧
      ((base.join name).directory.text.toList = ['.'] ∨
        (base.join name).directory.text.toList <+: (base.join name).text.toList) := by
  obtain ⟨initial, hpieces, hinitial⟩ := exists_pieces_join base (isAbsolute_of_not_mem hslash)
  rw [pieces_of_not_mem hslash] at hpieces
  obtain ⟨hleading, habsolute, htext⟩ := directory_of_pieces hpieces hname
  exact ⟨hleading.trans hinitial, habsolute.trans (isAbsolute_join base (isAbsolute_of_not_mem hslash)),
    htext⟩

theorem toList_join_ne_nil (hbase : base.text.toList ≠ []) (child : Path) :
    (base.join child).text.toList ≠ [] := by
  cases hchild : child.isAbsolute with
  | true =>
    rw [join_of_isAbsolute base hchild]
    intro hnil
    simp [isAbsolute, hnil] at hchild
  | false =>
    obtain ⟨front, hjoin, ⟨-, hnil⟩ | ⟨body, rfl, -⟩⟩ := exists_toList_join base hchild
    · contradiction
    · simp [hjoin]

/-- No path has an empty directory. -/
theorem toList_directory_ne_nil (path : Path) : path.directory.text.toList ≠ [] := by
  unfold directory
  split
  · split
    · simp
    · rename_i hempty
      simpa [String.isEmpty_iff] using hempty
  · simp

end CollisionRules.Path
