import CollisionRules.Ability.Roster
import CollisionRules.Proofs.Text.Trim

namespace CollisionRules.Roster

/-- A name as a roster can list it. -/
structure IsEntry (name : String) : Prop where
  nonempty : name ≠ ""
  uncommented : '#' ∉ name.toList
  oneLine : '\n' ∉ name.toList
  trimmed : Text.IsTrimmed name.toList

/-- White space within a line. -/
def AreBlanks (text : List Char) : Prop :=
  ∀ c ∈ text, Text.isWhiteSpace c ∧ c ≠ '\n'

/-- Nothing, or a comment up to the end of a line. -/
def IsComment (text : List Char) : Prop :=
  '\n' ∉ text ∧ ∀ c, text.head? = some c → c = '#'

/-- A line around a name, or around none. -/
inductive IsLine : (name? : Option String) → List Char → Prop
  | blank {blanks comment : List Char} (hblanks : AreBlanks blanks) (hcomment : IsComment comment) :
      IsLine none (blanks ++ comment)
  | entry {name : String} {before after comment : List Char} (hbefore : AreBlanks before)
      (hafter : AreBlanks after) (hcomment : IsComment comment) :
      IsLine (some name) (before ++ name.toList ++ after ++ comment)

/-- A text that lists names, in order. The last line need not be ended. -/
inductive Lists : (names : List String) → List Char → Prop
  | final {name? : Option String} {line : List Char} (hline : IsLine name? line) :
      Lists name?.toList line
  | line {name? : Option String} {line ending : List Char} {names : List String} {text : List Char}
      (hline : IsLine name? line) (hending : ending = ['\n'] ∨ ending = ['\r', '\n'])
      (hrest : Lists names text) : Lists (name?.toList ++ names) (line ++ ending ++ text)

/-- The name that a line gives, if it gives one. -/
def nameOn? (line : List Char) : Option String :=
  if (nameOfLine line).isEmpty then none else some (String.ofList (nameOfLine line))

/-- The names of a text are those on its lines, in their order. -/
theorem names_eq_filterMap (text : List Char) :
    names text = (Text.lines text).filterMap nameOn? := by
  rw [names]
  induction Text.lines text with
  | nil => rfl
  | cons line rest ih =>
    simp only [List.map_cons, List.filter_cons, List.filterMap_cons, nameOn?] at ih ⊢
    cases h : (nameOfLine line).isEmpty <;> simp [ih]

section Line

variable {line : List Char} {name : String} {name? : Option String}

/-- What stands before a comment ends where the comment begins. -/
theorem takeWhile_comment {front comment : List Char} (hfront : '#' ∉ front)
    (hcomment : IsComment comment) : (front ++ comment).takeWhile (· != '#') = front := by
  refine (Text.takeWhile_append_of_head? (fun c hc => ?_) fun c hc => ?_).1
  · simpa using fun heq : c = '#' => hfront (heq ▸ hc)
  · simp [hcomment.2 c hc]

theorem AreBlanks.not_mem {blanks : List Char} (hblanks : AreBlanks blanks) : '#' ∉ blanks := by
  intro hmem
  exact absurd (hblanks '#' hmem).1 (by decide)

/-- The name that a line stands around is the one that it gives. -/
theorem IsLine.nameOn?_eq (hline : IsLine name? line) (hname : ∀ name ∈ name?, IsEntry name) :
    nameOn? line = name? := by
  cases hline with
  | blank hblanks hcomment =>
    have hnone := Text.trim_around (fun c hc => (hblanks c hc).1) Text.isTrimmed_nil
      (List.forall_mem_nil _)
    rw [List.append_nil, List.append_nil] at hnone
    rw [nameOn?, nameOfLine, takeWhile_comment hblanks.not_mem hcomment, hnone]
    rfl
  | @entry name before after comment hbefore hafter hcomment =>
    obtain ⟨hnonempty, huncommented, -, htrimmed⟩ := hname name rfl
    have hfront : '#' ∉ before ++ name.toList ++ after := by
      simp [hbefore.not_mem, huncommented, hafter.not_mem]
    have hname := Text.trim_around (fun c hc => (hbefore c hc).1) htrimmed
      fun c hc => (hafter c hc).1
    rw [nameOn?, nameOfLine, takeWhile_comment hfront hcomment, hname, String.ofList_toList,
      if_neg (by simpa using hnonempty)]

/-- A line is made up of the name it gives, white space around it, and a comment. -/
theorem nameOfLine_spec (line : List Char) :
    Text.IsTrimmed (nameOfLine line) ∧ '#' ∉ nameOfLine line ∧
      ∃ before after comment, line = before ++ nameOfLine line ++ after ++ comment ∧
        (∀ c ∈ before, Text.isWhiteSpace c) ∧ (∀ c ∈ after, Text.isWhiteSpace c) ∧
        ∀ c, comment.head? = some c → c = '#' := by
  obtain ⟨htrimmed, before, after, hfront, hbefore, hafter⟩ :=
    Text.trim_spec (line.takeWhile (· != '#'))
  have huncommented : ∀ c ∈ line.takeWhile (· != '#'), c ≠ '#' :=
    fun c hc => by simpa using List.mem_takeWhile_imp hc
  refine ⟨htrimmed, fun hmem => huncommented '#' ?_ rfl, before, after,
    line.dropWhile (· != '#'), ?_, hbefore, hafter, fun c hc => ?_⟩
  · rw [hfront]
    exact List.mem_append_left _ (List.mem_append_right _ hmem)
  · rw [nameOfLine, ← hfront, List.takeWhile_append_dropWhile]
  · have h := List.head?_dropWhile_not (· != '#') line
    rw [hc] at h
    simpa using h

variable (hline : '\n' ∉ line)
include hline

/-- A line stands around the name that it gives. -/
theorem isLine_nameOn? : IsLine (nameOn? line) line := by
  obtain ⟨-, -, before, after, comment, hsplit, hbefore, hafter, hcomment⟩ := nameOfLine_spec line
  rw [hsplit] at hline
  simp only [List.mem_append, not_or] at hline
  obtain ⟨⟨⟨hfront, -⟩, hback⟩, hrest⟩ := hline
  have hblanks : AreBlanks before := fun c hc => ⟨hbefore c hc, fun heq => hfront (heq ▸ hc)⟩
  have hblanks' : AreBlanks after := fun c hc => ⟨hafter c hc, fun heq => hback (heq ▸ hc)⟩
  by_cases hempty : nameOfLine line = []
  · rw [nameOn?, hempty]
    rw [hempty, List.append_nil] at hsplit
    rw [hsplit]
    refine .blank (fun c hc => ?_) ⟨hrest, hcomment⟩
    exact (List.mem_append.mp hc).elim (hblanks c) (hblanks' c)
  · have hentry : nameOn? line = some (String.ofList (nameOfLine line)) :=
      if_neg (by simpa using hempty)
    have hline : IsLine (some (String.ofList (nameOfLine line)))
        (before ++ (String.ofList (nameOfLine line)).toList ++ after ++ comment) :=
      .entry hblanks hblanks' ⟨hrest, hcomment⟩
    rwa [String.toList_ofList, ← hsplit, ← hentry] at hline

/-- What a line names is an entry: it is not empty, is trimmed and holds no comment mark. -/
theorem isEntry_of_nameOn? (hname : nameOn? line = some name) : IsEntry name := by
  rw [nameOn?] at hname
  split at hname
  · cases hname
  · next hempty =>
    obtain rfl := Option.some.inj hname
    obtain ⟨htrimmed, huncommented, before, after, comment, hsplit, -⟩ := nameOfLine_spec line
    refine ⟨?_, ?_, ?_, ?_⟩
    · simpa [String.ext_iff] using hempty
    · rwa [String.toList_ofList]
    · rw [String.toList_ofList]
      intro hmem
      rw [hsplit] at hline
      exact hline (by simp [hmem])
    · rwa [String.toList_ofList]

omit hline in
/-- A carriage return at the end of a line does not change what it names. -/
theorem IsLine.append_return (hline : IsLine name? line) : IsLine name? (line ++ ['\r']) := by
  have hblank {blanks : List Char} (hblanks : AreBlanks blanks) : AreBlanks (blanks ++ ['\r']) := by
    intro c hc
    rcases List.mem_append.mp hc with hc | hc
    · exact hblanks c hc
    · rw [List.mem_singleton.mp hc]
      decide
  have hcommented {comment : List Char} (hcomment : IsComment comment) (hne : comment ≠ []) :
      IsComment (comment ++ ['\r']) := by
    obtain ⟨first, rest, rfl⟩ := List.exists_cons_of_ne_nil hne
    exact ⟨by simpa using hcomment.1, by simpa using hcomment.2⟩
  cases hline with
  | @blank blanks comment hblanks hcomment =>
    by_cases hnone : comment = []
    · subst comment
      simpa using IsLine.blank (hblank hblanks) hcomment
    · rw [List.append_assoc]
      exact .blank hblanks (hcommented hcomment hnone)
  | @entry name before after comment hbefore hafter hcomment =>
    by_cases hnone : comment = []
    · subst comment
      have hline : IsLine (some name) (before ++ name.toList ++ (after ++ ['\r']) ++ []) :=
        .entry hbefore (hblank hafter) hcomment
      simpa using hline
    · rw [List.append_assoc]
      exact .entry hbefore hafter (hcommented hcomment hnone)

/-- A carriage return behind a line makes no difference. -/
theorem nameOn?_dropFinal : nameOn? (Text.dropFinal '\r' line) = nameOn? line := by
  rw [Text.dropFinal]
  split
  · next hlast =>
    obtain ⟨front, rfl⟩ := List.getLast?_eq_some_iff.mp (by simpa using hlast)
    have hfront : '\n' ∉ front := fun hmem => hline (by simp [hmem])
    rw [List.dropLast_concat]
    exact ((isLine_nameOn? hfront).append_return.nameOn?_eq fun name hname =>
      isEntry_of_nameOn? hfront hname).symm
  · rfl

/-- A text of one line has the name on that line, if there is one. -/
theorem names_of_line : names line = (nameOn? line).toList := by
  rw [names_eq_filterMap, Text.lines, Text.cut_of_not_mem hline]
  cases line with
  | nil => rfl
  | cons c rest => cases h : nameOn? (c :: rest) <;> simp [h]

/-- A line with its end gives its name before those of the text behind it. -/
theorem names_append_line {ending : List Char} (hending : ending = ['\n'] ∨ ending = ['\r', '\n'])
    (text : List Char) : names (line ++ ending ++ text) = (nameOn? line).toList ++ names text := by
  have hlines : ∃ content, Text.lines (line ++ ending) = [Text.dropFinal '\r' content] ∧
      nameOn? (Text.dropFinal '\r' content) = nameOn? line := by
    rcases hending with rfl | rfl
    · refine ⟨line, ?_, nameOn?_dropFinal hline⟩
      rw [Text.lines, Text.cut_append_mark hline]
      rfl
    · have hreturn : '\n' ∉ line ++ ['\r'] := by simpa using hline
      refine ⟨line ++ ['\r'], ?_, by rw [Text.dropFinal_concat]⟩
      have hsplit : line ++ ['\r', '\n'] = (line ++ ['\r']) ++ '\n' :: [] := by simp
      rw [hsplit, Text.lines, Text.cut_append_mark hreturn]
      rfl
  have hlast : (line ++ ending).getLast? = some '\n' := by
    rcases hending with rfl | rfl <;> simp
  obtain ⟨content, hlines, hentry⟩ := hlines
  rw [names_eq_filterMap, names_eq_filterMap, Text.lines_append (.inr hlast),
    List.filterMap_append, hlines]
  cases h : nameOn? line <;> simp [hentry, h]

end Line

theorem AreBlanks.oneLine {blanks : List Char} (hblanks : AreBlanks blanks) : '\n' ∉ blanks :=
  fun hmem => (hblanks '\n' hmem).2 rfl

/-- A line that names an entry stands on one line of its text. -/
theorem IsLine.oneLine {name? : Option String} {line : List Char} (hline : IsLine name? line)
    (hname : ∀ name ∈ name?, IsEntry name) : '\n' ∉ line := by
  cases hline with
  | blank hblanks hcomment => simp [hblanks.oneLine, hcomment.1]
  | @entry name before after comment hbefore hafter hcomment =>
    simp [hbefore.oneLine, hafter.oneLine, hcomment.1, (hname name rfl).oneLine]

/-- Only the listed entries are read from a text that lists them. -/
theorem Lists.names_eq {listed : List String} {text : List Char} (h : Lists listed text)
    (hentries : ∀ name ∈ listed, IsEntry name) : names text = listed := by
  induction h with
  | final hline =>
    have hname := fun name hname => hentries name (Option.mem_toList.mpr hname)
    rw [names_of_line (hline.oneLine hname), hline.nameOn?_eq hname]
  | line hline hending _ ih =>
    have hname := fun name hname =>
      hentries name (List.mem_append_left _ (Option.mem_toList.mpr hname))
    rw [names_append_line (hline.oneLine hname) hending, hline.nameOn?_eq hname,
      ih fun name hname => hentries name (List.mem_append_right _ hname)]

/-- A text lists the names that are read off it. By induction on its pieces between line feeds. -/
theorem names_spec (text : List Char) :
    Lists (names text) text ∧ ∀ name ∈ names text, IsEntry name := by
  obtain ⟨hjoined, hpieces, hremainder⟩ := Text.cut_spec '\n' text
  rw [← hjoined]
  generalize (Text.cut (· == '\n') text).1 = pieces at hpieces
  generalize (Text.cut (· == '\n') text).2 = remainder at hremainder
  induction pieces with
  | nil =>
    rw [Text.joined, List.flatMap_nil, List.nil_append, names_of_line hremainder]
    exact ⟨.final (isLine_nameOn? hremainder), fun name hname =>
      isEntry_of_nameOn? hremainder (Option.mem_toList.mp hname)⟩
  | cons piece rest ih =>
    have hpiece := hpieces piece List.mem_cons_self
    obtain ⟨hlists, hentries⟩ := ih fun other hother => hpieces other (List.mem_cons_of_mem _ hother)
    have hsplit : Text.joined '\n' (piece :: rest) remainder =
        piece ++ ['\n'] ++ Text.joined '\n' rest remainder := by simp [Text.joined]
    rw [hsplit, names_append_line hpiece (.inl rfl)]
    refine ⟨.line (isLine_nameOn? hpiece) (.inl rfl) hlists, fun name hname => ?_⟩
    rcases List.mem_append.mp hname with hname | hname
    · exact isEntry_of_nameOn? hpiece (Option.mem_toList.mp hname)
    · exact hentries name hname

/-- Names written one to a line. -/
def written (names : List String) : List Char :=
  names.flatMap fun name => name.toList ++ ['\n']

/-- A written list lists its names. -/
theorem lists_written (names : List String) : Lists names (written names) := by
  induction names with
  | nil => exact .final (.blank (List.forall_mem_nil _) ⟨List.not_mem_nil, by simp⟩)
  | cons name rest ih =>
    have hline : IsLine (some name) ([] ++ name.toList ++ [] ++ []) :=
      .entry (List.forall_mem_nil _) (List.forall_mem_nil _) ⟨List.not_mem_nil, by simp⟩
    simpa [written] using Lists.line hline (.inl rfl) ih

/-- A text gives the names that it lists. They are names that a roster can list: not empty, on one
    line, without a mark of a comment in them and without white space at their ends. Any such
    names are given back, in order and as often as they are listed, whatever white space stands
    around them, whatever comments stand behind them, and wherever lines stand that list none;
    and no text is anything but such a list. So the names of a roster, written one to a line, make
    a roster with the same names, and a table with the same handles. -/
theorem names_are_listed :
    (∀ text, ∀ name ∈ names text, IsEntry name) ∧
      (∀ text listed, names text = listed ↔
        Lists listed text ∧ ∀ name ∈ listed, IsEntry name) ∧
      ∀ text, names (written (names text)) = names text ∧
        table (written (names text)) = table text := by
  have hagain (text : List Char) : names (written (names text)) = names text :=
    (lists_written (names text)).names_eq (names_spec text).2
  refine ⟨fun text => (names_spec text).2, fun text listed => ⟨?_, fun ⟨hlists, hentries⟩ => ?_⟩,
    fun text => ⟨hagain text, ?_⟩⟩
  · rintro rfl
    exact names_spec text
  · exact hlists.names_eq hentries
  · rw [table, table, hagain]

/-- Wide spaces, carriage returns with and without a line feed, a name listed twice, and a last
    line that is not ended. -/
theorem names_are_listed_decorated :
    let text := "# core\r\n\u00a0Ember\u2003# hot\n\rEmber\r\n \nDark Nova#".toList
    let listed := ["Ember", "Ember", "Dark Nova"]
    names text = listed ∧ Lists listed text ∧ IsEntry "Dark Nova" ∧
      names (written listed) = listed ∧ table (written listed) = table text := by
  intro text listed
  have hnames : names text = listed := by decide +kernel
  obtain ⟨hentries, hlisted, hagain⟩ := names_are_listed
  obtain ⟨hwritten, htable⟩ := hagain text
  rw [hnames] at hwritten htable
  exact ⟨hnames, ((hlisted text listed).mp hnames).1,
    hentries text "Dark Nova" (by rw [hnames]; decide), hwritten, htable⟩

end CollisionRules.Roster
