import CollisionRules.Proofs.Statement.RuleText

namespace CollisionRules

/-- The place that a source begins at. -/
def Position.start : Position := ⟨1, 1⟩

/-- The operand wherever it stands. -/
def Operand.unplaced (operand : Operand) : Operand :=
  { operand with position := .start }

def GroupDeclaration.unplaced (declaration : GroupDeclaration) : GroupDeclaration :=
  { declaration with
    members := declaration.members.map Operand.unplaced
    position := .start }

def CollisionDeclaration.unplaced (declaration : CollisionDeclaration) : CollisionDeclaration :=
  { declaration with
    left := declaration.left.unplaced
    right := declaration.right.unplaced }

/-- The statement wherever it stands: two statements say the same if they differ in nothing
    but positions. -/
def Statement.unplaced : Statement → Statement
  | .empty => .empty
  | .group declaration => .group declaration.unplaced
  | .collision declaration => .collision declaration.unplaced

theorem Statement.names_unplaced (statement : Statement) :
    statement.unplaced.names = statement.names := by
  cases statement with
  | empty => rfl
  | group declaration =>
    simp [unplaced, names, GroupDeclaration.unplaced, Operand.unplaced, Function.comp_def]
  | collision declaration => rfl

/-- Statements as they are written, each on a line of its own. -/
def Statement.text (statements : List Statement) : List Char :=
  statements.flatMap fun statement => statement.render.toList ++ ['\n']

namespace Token

/-- The tokens of a text are a word that `reads` accepts, and what follows the text is read
    by itself, unless a word runs on into it. -/
def Spells (number : Nat) (text : List Char) (reads : List Token → Prop) : Prop :=
  ∀ column rest, (∀ c, rest.head? = some c → isWordChar c = false) →
    ∃ word next, ofLine number column (text ++ rest) = word ++ ofLine number next rest ∧ reads word

end Token

open Grammar

variable (number : Nat)

/-- A written operand is read back, if its name can be. -/
theorem Operand.spells_render {operand : Operand} (hname : IsName operand.name) :
    Token.Spells number operand.render.toList fun word =>
      ∃ read, IsOperand word read ∧ read.unplaced = operand.unplaced := by
  intro column rest hrest
  obtain ⟨kind, name, position⟩ := operand
  cases kind with
  | ability =>
    have hword := Token.ofLine_name_append hname hrest number column
    exact ⟨[⟨.literal, name, ⟨number, column⟩⟩], _, hword, _, .ability rfl, rfl⟩
  | group =>
    have hmark : TokenKind.ofSpecial? '$' = some .dollar := rfl
    have hword := Token.ofLine_special hmark (by decide) number column (name.toList ++ rest)
    rw [Token.ofLine_name_append hname hrest] at hword
    have htext : (Operand.mk .group name position).render.toList = '$' :: name.toList := by
      simp [render]
    rw [htext]
    exact ⟨[⟨.dollar, "$", ⟨number, column⟩⟩, ⟨.literal, name, ⟨number, column + 1⟩⟩], _, hword,
      _, .group rfl rfl, rfl⟩

/-- Operands as they are written between braces. -/
def Operand.listText (operands : List Operand) : List Char :=
  (", ".intercalate (operands.map Operand.render)).toList

theorem Operand.listText_cons_cons (first second : Operand) (rest : List Operand) :
    listText (first :: second :: rest) =
      first.render.toList ++ ',' :: ' ' :: listText (second :: rest) := by
  simp [listText]

/-- Written operands are read back with the commas between them. -/
theorem Operand.spells_listText {operands : List Operand} (hoperands : operands ≠ [])
    (hnames : ∀ operand ∈ operands, IsName operand.name) :
    Token.Spells number (listText operands) fun word =>
      ∃ reads, IsOperands word reads ∧ reads.map unplaced = operands.map unplaced := by
  induction operands with
  | nil => contradiction
  | cons first others ih =>
    intro column rest hrest
    have hfirst := spells_render number (hnames first List.mem_cons_self)
    cases others with
    | nil =>
      obtain ⟨word, next, htokens, read, hword, hread⟩ := hfirst column rest hrest
      refine ⟨word, next, ?_, [read], .single hword, by simp [hread]⟩
      simpa [listText] using htokens
    | cons second rest' =>
      have hcomma : TokenKind.ofSpecial? ',' = some .comma := rfl
      obtain ⟨word, next, htokens, read, hword, hread⟩ :=
        hfirst column (',' :: ' ' :: (listText (second :: rest') ++ rest))
          (Token.head?_cons_of_not_isWordChar (by decide) _)
      obtain ⟨later, final, hlater, reads, hothers, hreads⟩ :=
        ih (by simp) (fun operand hmem => hnames operand (List.mem_cons_of_mem _ hmem))
          (next + 1 + 1) rest hrest
      refine ⟨word ++ ⟨.comma, ",", ⟨number, next⟩⟩ :: later, final, ?_, read :: reads,
        .more hword rfl hothers, by simp [hread, hreads]⟩
      rw [listText_cons_cons, List.append_assoc, List.cons_append, List.cons_append, htokens,
        Token.ofLine_special hcomma (by decide), Token.ofLine_separator (by decide), hlater,
        List.append_assoc, List.cons_append]
      rfl

theorem Operand.spells_members {members : List Operand}
    (hnames : ∀ operand ∈ members, IsName operand.name) :
    Token.Spells number (listText members) fun word =>
      ∃ reads, IsMembers word reads ∧ reads.map unplaced = members.map unplaced := by
  intro column rest hrest
  by_cases hmembers : members = []
  · subst hmembers
    exact ⟨[], column, rfl, [], .none, rfl⟩
  · obtain ⟨word, next, htokens, reads, hword, hreads⟩ :=
      spells_listText number hmembers hnames column rest hrest
    exact ⟨word, next, htokens, reads, .some hword, hreads⟩

/-- A written collision is read back, if the names on its sides can be. -/
theorem CollisionDeclaration.spells_render {declaration : CollisionDeclaration}
    (hleft : IsName declaration.left.name) (hright : IsName declaration.right.name) :
    Token.Spells number declaration.render.toList fun word =>
      ∃ read, IsCollision word read ∧ read.unplaced = declaration.unplaced := by
  intro column rest hrest
  obtain ⟨kind, hspecial, hhash, hoperator⟩ := declaration.operator.exists_kind
  have htext : declaration.render.toList ++ rest = declaration.left.render.toList ++
      ' ' :: declaration.operator.symbol :: ' ' :: (declaration.right.render.toList ++ rest) := by
    simp [render]
  obtain ⟨leftWord, next, hleftTokens, left, hleftWord, hleftRead⟩ :=
    Operand.spells_render number hleft column
      (' ' :: declaration.operator.symbol :: ' ' :: (declaration.right.render.toList ++ rest))
      (Token.head?_cons_of_not_isWordChar (by decide) _)
  obtain ⟨rightWord, final, hrightTokens, right, hrightWord, hrightRead⟩ :=
    Operand.spells_render number hright (next + 1 + 1 + 1) rest hrest
  refine ⟨leftWord ++ ⟨kind, String.singleton declaration.operator.symbol, ⟨number, next + 1⟩⟩ ::
    rightWord, final, ?_, ⟨left, declaration.operator, right⟩, .mk hleftWord hoperator hrightWord,
    by simp [unplaced, hleftRead, hrightRead]⟩
  rw [htext, hleftTokens, Token.ofLine_separator (by decide), Token.ofLine_special hspecial hhash,
    Token.ofLine_separator (by decide), hrightTokens, List.append_assoc, List.cons_append]

/-- A written group is read back, if its name and those of its members can be. -/
theorem GroupDeclaration.spells_render {declaration : GroupDeclaration}
    (hname : IsName declaration.name)
    (hmembers : ∀ operand ∈ declaration.members, IsName operand.name) :
    Token.Spells number declaration.render.toList fun word =>
      ∃ read, IsGroup word read ∧ read.unplaced = declaration.unplaced := by
  intro column rest hrest
  let contents := Operand.listText declaration.members ++ '\x7d' :: rest
  have htext : declaration.render.toList ++ rest =
      "group".toList ++ (' ' :: '"' :: (declaration.name.toList ++
        ('"' :: ' ' :: '\x7b' :: contents))) := by
    simp [render, Operand.listText, contents]
  have hkeyword (following : List Char) :=
    Token.ofLine_word_append (show "group".toList ≠ [] by decide)
      (List.all_eq_true.mp (by decide))
      (Token.head?_cons_of_not_isWordChar (show Token.isWordChar ' ' = false by decide) following)
      number column
  have hquote : TokenKind.ofSpecial? '"' = some .quote := rfl
  have hopen : TokenKind.ofSpecial? '\x7b' = some .openBrace := rfl
  have hclose : TokenKind.ofSpecial? '\x7d' = some .closeBrace := rfl
  obtain ⟨word, next, hcontents, members, hword, hread⟩ :=
    Operand.spells_members number hmembers
      (column + "group".toList.length + 1 + 1 + declaration.name.length + 1 + 1 + 1)
      ('\x7d' :: rest) (Token.head?_cons_of_not_isWordChar (by decide) _)
  let keyword : Token := ⟨.groupKeyword, "group", ⟨number, column⟩⟩
  let openQuote : Token := ⟨.quote, "\"", ⟨number, column + "group".toList.length + 1⟩⟩
  let name : Token := ⟨.literal, declaration.name, ⟨number, column + "group".toList.length + 1 + 1⟩⟩
  let closeQuote : Token := ⟨.quote, "\"",
    ⟨number, column + "group".toList.length + 1 + 1 + declaration.name.length⟩⟩
  let openBrace : Token := ⟨.openBrace, "\x7b",
    ⟨number, column + "group".toList.length + 1 + 1 + declaration.name.length + 1 + 1⟩⟩
  let closeBrace : Token := ⟨.closeBrace, "\x7d", ⟨number, next⟩⟩
  refine ⟨keyword :: openQuote :: name :: closeQuote :: openBrace :: (word ++ [closeBrace]),
    next + 1, ?_, ⟨declaration.name, members, ⟨number, column⟩⟩,
    .mk rfl rfl rfl rfl rfl hword rfl, by simp [unplaced, hread]⟩
  rw [htext, hkeyword, Token.ofLine_separator (by decide), Token.ofLine_special hquote (by decide),
    Token.ofLine_name_append hname (Token.head?_cons_of_not_isWordChar (by decide) _),
    Token.ofLine_special hquote (by decide), Token.ofLine_separator (by decide),
    Token.ofLine_special hopen (by decide), hcontents, Token.ofLine_special hclose (by decide)]
  simp only [List.cons_append, List.append_assoc]
  rfl

/-- A statement that mentions nothing but names is read from its text. -/
theorem Statement.outcome_render {statement : Statement}
    (hnames : ∀ name ∈ statement.names, IsName name) (number : Nat) :
    ∃ read, Parser.outcome number statement.render.toList = .ok read ∧
      read.unplaced = statement.unplaced := by
  -- the tokens of the text are the word of the statement, and then comes the end of the line
  have hread {word : List Token} {next : Nat} {read : Statement}
      (htokens : Token.ofLine number 1 (statement.render.toList ++ []) =
        word ++ Token.ofLine number next [])
      (hinner : ∀ token ∈ word, token.kind.isTerminator = false)
      (hword : word = [] ∧ read = .empty ∨ IsStatement word read) :
      Parser.outcome number statement.render.toList = .ok read := by
    rw [List.append_nil, Token.ofLine] at htokens
    have hended : IsEnded word [.endOfLine ⟨number, next⟩] :=
      ⟨hinner, fun _ _ => closes_endOfLine_iff rfl⟩
    exact (Parser.outcome_eq_ok_iff_isStatement htokens hended).mpr hword
  cases statement with
  | empty => exact ⟨.empty, hread (List.nil_append _).symm (by simp) (.inl ⟨rfl, rfl⟩), rfl⟩
  | group declaration =>
    obtain ⟨hname, hmembers⟩ := List.forall_mem_cons.mp hnames
    obtain ⟨word, next, htokens, read, hword, heq⟩ :=
      GroupDeclaration.spells_render number hname
        (fun operand hmem => hmembers _ (List.mem_map_of_mem hmem)) 1 [] (by simp)
    have hstatement : IsStatement word (.group read) := .group hword
    exact ⟨.group read, hread htokens hstatement.inner (.inr hstatement),
      congrArg Statement.group heq⟩
  | collision declaration =>
    obtain ⟨word, next, htokens, read, hword, heq⟩ :=
      CollisionDeclaration.spells_render number (hnames _ List.mem_cons_self)
        (hnames _ (List.mem_cons_of_mem _ List.mem_cons_self)) 1 [] (by simp)
    have hstatement : IsStatement word (.collision read) := .collision hword
    exact ⟨.collision read, hread htokens hstatement.inner (.inr hstatement),
      congrArg Statement.collision heq⟩

theorem Operand.not_mem_render {operand : Operand} (hname : IsName operand.name) {c : Char}
    (hc : Token.isWordChar c = false) (hmark : c ≠ '$') : c ∉ operand.render.toList := by
  obtain ⟨kind, name, position⟩ := operand
  cases kind with
  | ability => exact hname.not_mem hc
  | group => simp [render, hmark, hname.not_mem hc]

theorem Operand.not_mem_listText {operands : List Operand}
    (hnames : ∀ operand ∈ operands, IsName operand.name) {c : Char}
    (hc : Token.isWordChar c = false) (hmarks : c ∉ ['$', ',', ' ']) : c ∉ listText operands := by
  have hmark : c ≠ '$' := fun h => hmarks (by simp [h])
  induction operands with
  | nil => simp [listText]
  | cons first others ih =>
    have hfirst := not_mem_render (hnames first List.mem_cons_self) hc hmark
    have hothers := ih fun operand hmem => hnames operand (List.mem_cons_of_mem _ hmem)
    cases others with
    | nil => simpa [listText] using hfirst
    | cons second rest =>
      rw [listText_cons_cons]
      simp_all

/-- The text of a statement that mentions nothing but names is one line. -/
theorem Statement.not_mem_render {statement : Statement}
    (hnames : ∀ name ∈ statement.names, IsName name) {c : Char} (hc : c = '\n' ∨ c = '\r') :
    c ∉ statement.render.toList := by
  have hletter : Token.isWordChar c = false := by
    rcases hc with rfl | rfl <;> decide
  have hmarks : c ∉ "group \"\x7b\x7d,$ ".toList := by
    rcases hc with rfl | rfl <;> decide
  cases statement with
  | empty => simp [render]
  | group declaration =>
    obtain ⟨hname, hmembers⟩ := List.forall_mem_cons.mp hnames
    have hcontents := Operand.not_mem_listText
      (fun operand hmem => hmembers _ (List.mem_map_of_mem hmem)) hletter (by simp_all)
    have htext : (Statement.group declaration).render.toList = "group \"".toList ++
        declaration.name.toList ++ "\" \x7b".toList ++ Operand.listText declaration.members ++
          ['\x7d'] := by
      simp [render, GroupDeclaration.render, Operand.listText]
    rw [htext]
    simp_all [hname.not_mem hletter]
  | collision declaration =>
    have hleft := Operand.not_mem_render (hnames _ List.mem_cons_self) hletter (by simp_all)
    have hright := Operand.not_mem_render
      (hnames _ (List.mem_cons_of_mem _ List.mem_cons_self)) hletter (by simp_all)
    have hsymbol : c ≠ declaration.operator.symbol := by
      rcases hc with rfl | rfl <;> cases declaration.operator <;> decide
    simp_all [render, CollisionDeclaration.render]

/-- Statements that mention nothing but names are read from their texts, one after the
    other. -/
theorem Parser.outcomes_render {statements : List Statement}
    (hnames : ∀ statement ∈ statements, ∀ name ∈ statement.names, IsName name) (linesRead : Nat) :
    ∃ reads : List Statement,
      outcomes linesRead (statements.map fun statement => statement.render.toList) =
          reads.map .ok ∧
        reads.map Statement.unplaced = statements.map Statement.unplaced := by
  induction statements generalizing linesRead with
  | nil => exact ⟨[], rfl, rfl⟩
  | cons statement rest ih =>
    obtain ⟨hfirst, hrest⟩ := List.forall_mem_cons.mp hnames
    obtain ⟨read, houtcome, hread⟩ := Statement.outcome_render hfirst (linesRead + 1)
    obtain ⟨reads, houtcomes, hreads⟩ := ih hrest (linesRead + 1)
    refine ⟨read :: reads, ?_, by simp [hread, hreads]⟩
    rw [List.map_cons, outcomes_cons, houtcome, houtcomes, List.map_cons]

namespace Parsed

/-- Statements that mention nothing but names are read back from their lines. -/
theorem ofText_statements {statements : List Statement}
    (hnames : ∀ statement ∈ statements, ∀ name ∈ statement.names, IsName name) :
    ∃ reads, ofText (Statement.text statements) = ⟨reads, []⟩ ∧
      reads.map Statement.unplaced = statements.map Statement.unplaced := by
  obtain ⟨reads, houtcomes, hreads⟩ := Parser.outcomes_render hnames 0
  refine ⟨reads, ?_, hreads⟩
  have htext : Statement.text statements =
      Text.joined '\n' (statements.map fun statement => statement.render.toList) [] := by
    simp [Statement.text, Text.joined, List.flatMap_map]
  have hlines : Text.lines (Statement.text statements) =
      statements.map fun statement => statement.render.toList := by
    rw [htext]
    refine Text.lines_joined fun piece hpiece => ?_
    obtain ⟨statement, hmem, rfl⟩ := List.mem_map.mp hpiece
    have hunbroken {c : Char} (hc : c = '\n' ∨ c = '\r') :=
      Statement.not_mem_render (hnames statement hmem) hc
    exact ⟨hunbroken (.inl rfl), fun hlast => hunbroken (.inr rfl) (List.mem_of_getLast? hlast)⟩
  rw [ofText_eq_ofOutcomes, hlines, houtcomes, ofOutcomes_ok]

/-- A statement is read from the line that shows it, and nothing else is, if and only if
    each name it mentions is a name of the rule language: it is not empty, holds no
    separator and no special character, and is not the keyword in any mixture of cases.
    The statements of a text mention no other names, whatever the text; so they can be
    written out, each on a line of its own, and are read again as they were. Where a
    statement stands does not count. -/
theorem render_reads_back :
    (∀ statement : Statement,
      (∃ read, ofText (statement.render.toList ++ ['\n']) = ⟨[read], []⟩ ∧
          read.unplaced = statement.unplaced) ↔
        ∀ name ∈ statement.names, IsName name) ∧
    ∀ text : List Char,
      let statements := (ofText text).statements
      let again := ofText (Statement.text statements)
      (∀ statement ∈ statements, ∀ name ∈ statement.names, IsName name) ∧
        again.errors = [] ∧
        again.statements.map Statement.unplaced = statements.map Statement.unplaced := by
  refine ⟨fun statement => ⟨?_, fun hnames => ?_⟩, fun text => ?_⟩
  · rintro ⟨read, hparsed, hread⟩
    have hmem : read ∈ (ofText (statement.render.toList ++ ['\n'])).statements := by
      rw [hparsed]
      exact List.mem_cons_self
    have hnames := isName_of_mem_statements hmem
    rw [← Statement.names_unplaced, hread, Statement.names_unplaced] at hnames
    exact hnames
  · have hsingle : ∀ other ∈ [statement], ∀ name ∈ other.names, IsName name := by
      simpa using hnames
    obtain ⟨reads, hparsed, hreads⟩ := ofText_statements hsingle
    obtain ⟨read, rfl, hread⟩ := List.map_eq_singleton_iff.mp hreads
    exact ⟨read, by simpa [Statement.text] using hparsed, hread⟩
  · intro statements again
    have hnames : ∀ statement ∈ statements, ∀ name ∈ statement.names, IsName name :=
      fun _ hmem => isName_of_mem_statements hmem
    obtain ⟨reads, hparsed, hreads⟩ := ofText_statements hnames
    refine ⟨hnames, congrArg errors hparsed, ?_⟩
    rw [← hreads]
    exact congrArg (fun parsed => parsed.statements.map Statement.unplaced) hparsed

/-- A next-line control is part of a name. The letter `x` is an operator, which parts a name
    in two. -/
theorem render_reads_back_split_name :
    let whole : Statement := .group
      ⟨"Fire", [⟨.group, "Cold", ⟨7, 3⟩⟩, ⟨.ability, "Air\u0085Blast", ⟨2, 9⟩⟩], ⟨4, 1⟩⟩
    let parted : Statement := .collision
      ⟨⟨.ability, "Explode", ⟨1, 1⟩⟩, .greater, ⟨.ability, "AirBlast", ⟨1, 11⟩⟩⟩
    (∃ read, ofText (whole.render.toList ++ ['\n']) = ⟨[read], []⟩ ∧
        read.unplaced = whole.unplaced) ∧
      ¬ ∃ read, ofText (parted.render.toList ++ ['\n']) = ⟨[read], []⟩ ∧
        read.unplaced = parted.unplaced := by
  intro whole parted
  obtain ⟨hread, -⟩ := render_reads_back
  have hnames : ∀ name ∈ whole.names, IsName name := by decide
  have hparted : ¬ ∀ name ∈ parted.names, IsName name := by decide
  exact ⟨(hread whole).mpr hnames, fun h => hparted ((hread parted).mp h)⟩

end Parsed

end CollisionRules
