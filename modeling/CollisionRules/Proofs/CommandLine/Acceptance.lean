import CollisionRules.CommandLine.Options
import Mathlib.Data.List.Perm.Basic

namespace CollisionRules.CommandLine

/-- Every option begins with a dash, so a rule file is what does not. -/
theorem Argument.ofText_eq_file_iff {text : String} :
    Argument.ofText text = .file ↔ text.toList.head? ≠ some '-' := by
  constructor
  · intro hfile hdash
    have hbranch {p : Prop} [Decidable p] {argument other : Argument} (hargument : argument ≠ .file)
        (hother : other ≠ .file) : (if p then argument else other) ≠ .file := by
      split
      · exact hargument
      · exact hother
    rw [ofText, if_pos hdash] at hfile
    revert hfile
    repeat refine hbranch nofun ?_
    nofun
  · intro hdash
    have hne {option : String} (hoption : option.toList.head? = some '-') : text ≠ option := by
      rintro rfl
      exact hdash hoption
    have hneither {short long : String} (hshort : short.toList.head? = some '-')
        (hlong : long.toList.head? = some '-') : ¬(text = short ∨ text = long) :=
      not_or.mpr ⟨hne hshort, hne hlong⟩
    rw [ofText, if_neg (hneither rfl rfl), if_neg (hneither rfl rfl), if_neg (hneither rfl rfl),
      if_neg (hneither rfl rfl), if_neg (hne rfl), if_neg (hne rfl), if_neg (hne rfl),
      if_neg (hneither rfl rfl), if_neg (hne rfl), if_neg (hne rfl), if_neg hdash]

/-- An option, which takes the argument behind it as its value. -/
def takesValue (text : String) : Bool :=
  match Argument.ofText text with
  | .option _ => true
  | _ => false

/-- The place is that of a value: an option stands right before it, and is no value itself. -/
def isValueAt (arguments : List String) : Nat → Bool
  | 0 => false
  | i + 1 => !isValueAt arguments i && arguments[i]?.any takesValue

/-- What the argument at a place is, if one stands there and is no value. -/
def argumentAt? (arguments : List String) (i : Nat) : Option Argument :=
  if isValueAt arguments i then none else arguments[i]?.map Argument.ofText

/-- Arguments as they have to be. -/
structure AreAcceptable (arguments : List String) : Prop where
  known : ∀ i, argumentAt? arguments i ≠ some .unknown
  oneFile : ∀ i j, argumentAt? arguments i = some .file → argumentAt? arguments j = some .file →
    i = j
  /-- No option comes last. -/
  values : ∀ i option, argumentAt? arguments i = some (.option option) → i + 1 < arguments.length

/-- What is wrong with the argument at a place. -/
inductive IsOffence (arguments : List String) (i : Nat) : UsageError → Prop
  | unknown {text : String} (htext : arguments[i]? = some text)
      (hunknown : argumentAt? arguments i = some .unknown) :
      IsOffence arguments i (.unknownOption text)
  | extra {text : String} {j : Nat} (htext : arguments[i]? = some text)
      (hfile : argumentAt? arguments i = some .file) (hbefore : j < i)
      (hother : argumentAt? arguments j = some .file) : IsOffence arguments i (.extraArgument text)
  | missing {option : ValueOption} (hoption : argumentAt? arguments i = some (.option option))
      (hlast : i + 1 = arguments.length) : IsOffence arguments i (.missingValue option)

/-- The last value that is given for an option. -/
def IsLastValue (arguments : List String) (option : ValueOption) (value : String) : Prop :=
  ∃ i, argumentAt? arguments i = some (.option option) ∧ arguments[i + 1]? = some value ∧
    ∀ j, i < j → argumentAt? arguments j ≠ some (.option option)

/-- What arguments ask for, told by their places. -/
structure Options.AreAskedBy (options : Options) (arguments : List String) : Prop where
  flags : ∀ flag, options.flags flag ↔ ∃ i, argumentAt? arguments i = some (.flag flag)
  value? : ∀ option value, options.value? option = some ⟨value⟩ ↔
    IsLastValue arguments option value
  file? : ∀ text, options.file? = some ⟨text⟩ ↔
    ∃ i, argumentAt? arguments i = some .file ∧ arguments[i]? = some text

section Places

variable {arguments before more : List String} {i : Nat} {argument : Argument}

/-- An argument is what its text says, where it is not taken as the value of the option before it.
    -/
theorem argumentAt?_eq_some_iff :
    argumentAt? arguments i = some argument ↔
      isValueAt arguments i = false ∧
        ∃ text, arguments[i]? = some text ∧ Argument.ofText text = argument := by
  unfold argumentAt?
  split <;> simp_all

theorem lt_length_of_argumentAt? (h : argumentAt? arguments i = some argument) :
    i < arguments.length := by
  obtain ⟨-, text, htext, -⟩ := argumentAt?_eq_some_iff.mp h
  exact (List.getElem?_eq_some_iff.mp htext).1

/-- What follows does not change which of the earlier arguments are values. -/
theorem isValueAt_append_left (h : i ≤ before.length) :
    isValueAt (before ++ more) i = isValueAt before i := by
  induction i with
  | zero => rfl
  | succ i ih =>
    rw [isValueAt, isValueAt, ih (by omega), List.getElem?_append_left (by omega)]

theorem argumentAt?_append_left (h : i < before.length) :
    argumentAt? (before ++ more) i = argumentAt? before i := by
  rw [argumentAt?, argumentAt?, isValueAt_append_left (Nat.le_of_lt h),
    List.getElem?_append_left h]

/-- Arguments that do not end in an option that waits for its value. -/
def IsClosed (before : List String) : Prop :=
  isValueAt before before.length = false

/-- Behind arguments that leave no option waiting for its value, every later one is read as if it
    came first. -/
theorem isValueAt_append_right (hclosed : IsClosed before) (i : Nat) :
    isValueAt (before ++ more) (before.length + i) = isValueAt more i := by
  induction i with
  | zero =>
    rw [Nat.add_zero, isValueAt_append_left (Nat.le_refl _), hclosed]
    rfl
  | succ i ih =>
    rw [← Nat.add_assoc, isValueAt, isValueAt, ih, List.getElem?_append_right (by omega),
      Nat.add_sub_cancel_left]

theorem argumentAt?_append_right (hclosed : IsClosed before) (i : Nat) :
    argumentAt? (before ++ more) (before.length + i) = argumentAt? more i := by
  rw [argumentAt?, argumentAt?, isValueAt_append_right hclosed,
    List.getElem?_append_right (by omega), Nat.add_sub_cancel_left]

/-- The first argument behind closed ones is read for what it says. -/
theorem argumentAt?_append_cons (hclosed : IsClosed before) (text : String) :
    argumentAt? (before ++ text :: more) before.length = some (Argument.ofText text) := by
  have hfirst : argumentAt? (before ++ text :: more) (before.length + 0) =
      argumentAt? (text :: more) 0 := argumentAt?_append_right hclosed 0
  rwa [Nat.add_zero] at hfirst

/-- Closed arguments one behind the other leave nothing waiting either. -/
theorem IsClosed.append (hbefore : IsClosed before) (hmore : IsClosed more) :
    IsClosed (before ++ more) := by
  rw [IsClosed, List.length_append, isValueAt_append_right hbefore]
  exact hmore

/-- An option that does not wait for its value has one. -/
theorem IsClosed.succ_lt_length {option : ValueOption} (hclosed : IsClosed before)
    (h : argumentAt? before i = some (.option option)) : i + 1 < before.length := by
  have hlt := lt_length_of_argumentAt? h
  by_contra hnot
  have hlast : before.length = i + 1 := by omega
  obtain ⟨hplace, text, htext, hargument⟩ := argumentAt?_eq_some_iff.mp h
  rw [IsClosed, hlast, isValueAt, hplace, htext, Option.any_some, takesValue, hargument] at hclosed
  contradiction

end Places

/-- Arguments that belong together: a flag, an option with its value, or a rule file. -/
inductive Phrase where
  | flag (text : String) (flag : Flag) (htext : Argument.ofText text = .flag flag)
  | option (text : String) (option : ValueOption) (htext : Argument.ofText text = .option option)
      (value : String)
  | file (text : String) (htext : Argument.ofText text = .file)

namespace Phrase

def arguments : Phrase → List String
  | .flag text _ _ => [text]
  | .option text _ _ value => [text, value]
  | .file text _ => [text]

/-- What the first argument of a phrase is. -/
def first : Phrase → Argument
  | .flag _ set _ => .flag set
  | .option _ given _ _ => .option given
  | .file _ _ => .file

/-- The option that a phrase gives a value for. -/
def option? : Phrase → Option ValueOption
  | .option _ given _ _ => some given
  | _ => none

theorem isClosed_arguments (phrase : Phrase) : IsClosed phrase.arguments := by
  cases phrase with
  | flag text flag htext => simp [IsClosed, arguments, isValueAt, takesValue, htext]
  | option text option htext value => simp [IsClosed, arguments, isValueAt, takesValue, htext]
  | file text htext => simp [IsClosed, arguments, isValueAt, takesValue, htext]

/-- The other argument of a phrase, if there is one, is a value. -/
theorem argumentAt?_arguments (phrase : Phrase) (i : Nat) :
    argumentAt? phrase.arguments i = if i = 0 then some phrase.first else none := by
  cases phrase with
  | flag text flag htext =>
    cases i <;> simp [argumentAt?, arguments, isValueAt, first, htext]
  | option text option htext value =>
    rcases i with _ | _ | i <;> simp [argumentAt?, arguments, isValueAt, takesValue, first, htext]
  | file text htext =>
    cases i <;> simp [argumentAt?, arguments, isValueAt, first, htext]

end Phrase

/-- Arguments begin with a phrase, unless there are none or something is wrong with the
    first one. -/
theorem phrase_cases (arguments : List String) :
    arguments = [] ∨ (∃ (phrase : Phrase) (rest : List String), arguments = phrase.arguments ++ rest) ∨
      (∃ text option, arguments = [text] ∧ Argument.ofText text = .option option) ∨
      ∃ text rest, arguments = text :: rest ∧ Argument.ofText text = .unknown := by
  cases arguments with
  | nil => exact .inl rfl
  | cons text rest =>
    right
    cases htext : Argument.ofText text with
    | flag flag => exact .inl ⟨.flag text flag htext, rest, rfl⟩
    | option option =>
      cases rest with
      | nil => exact .inr (.inl ⟨text, option, rfl, htext⟩)
      | cons value rest => exact .inl ⟨.option text option htext value, rest, rfl⟩
    | unknown => exact .inr (.inr ⟨text, rest, rfl, htext⟩)
    | file => exact .inl ⟨.file text htext, rest, rfl⟩

namespace Options

/-- The options after a phrase. A second rule file is refused. -/
def addPhrase (options : Options) : Phrase → Except UsageError Options
  | .flag _ flag _ => .ok (options.setFlag flag)
  | .option _ option _ value => .ok (options.setValue option ⟨value⟩)
  | .file text _ =>
    if options.file?.isSome then .error (.extraArgument text)
    else .ok { options with file? := some ⟨text⟩ }

/-- Arguments are worked off phrase by phrase, and the first phrase that is refused ends it. -/
theorem addArguments_phrase (options : Options) (phrase : Phrase) (rest : List String) :
    options.addArguments (phrase.arguments ++ rest) =
      (options.addPhrase phrase).bind (·.addArguments rest) := by
  cases phrase with
  | flag text flag htext =>
    rw [Phrase.arguments, List.singleton_append, addArguments, htext]
    rfl
  | option text option htext value =>
    rw [Phrase.arguments, List.cons_append, List.singleton_append, addArguments, htext]
    rfl
  | file text htext =>
    rw [Phrase.arguments, List.singleton_append, addArguments, htext, addPhrase]
    cases options.file?.isSome <;> rfl

end Options

section Phrases

variable {before : List String} (hclosed : IsClosed before)
include hclosed

/-- A phrase brings one argument that is read as such, its first; its value is none. -/
theorem argumentAt?_append_phrase (phrase : Phrase) (i : Nat) (argument : Argument) :
    argumentAt? (before ++ phrase.arguments) i = some argument ↔
      argumentAt? before i = some argument ∨ i = before.length ∧ phrase.first = argument := by
  rcases Nat.lt_or_ge i before.length with hi | hi
  · have hne : i ≠ before.length := Nat.ne_of_lt hi
    simp [argumentAt?_append_left hi, hne]
  · obtain ⟨k, rfl⟩ := Nat.exists_eq_add_of_le hi
    have hnone : argumentAt? before (before.length + k) ≠ some argument := by
      intro h
      have := lt_length_of_argumentAt? h
      omega
    rw [argumentAt?_append_right hclosed, phrase.argumentAt?_arguments, or_iff_right hnone]
    cases k <;> simp

theorem exists_argumentAt?_append_phrase (phrase : Phrase) (argument : Argument) :
    (∃ i, argumentAt? (before ++ phrase.arguments) i = some argument) ↔
      (∃ i, argumentAt? before i = some argument) ∨ phrase.first = argument := by
  simp only [argumentAt?_append_phrase hclosed, exists_or, exists_eq_left]

/-- A phrase of another kind leaves the value of an option as it was. -/
theorem isLastValue_append_phrase {phrase : Phrase} {option : ValueOption}
    (hother : phrase.first ≠ .option option) {value : String} :
    IsLastValue (before ++ phrase.arguments) option value ↔ IsLastValue before option value := by
  simp only [IsLastValue, ne_eq, argumentAt?_append_phrase hclosed, hother, and_false, or_false]
  refine exists_congr fun i => and_congr_right fun hi => ?_
  rw [List.getElem?_append_left (hclosed.succ_lt_length hi)]

/-- The value that is given last is the one that counts. -/
theorem isLastValue_append_option {text : String} {option : ValueOption}
    (htext : Argument.ofText text = .option option) {value other : String} :
    IsLastValue (before ++ [text, value]) option other ↔ value = other := by
  have hplaces : ∀ i, argumentAt? (before ++ [text, value]) i = some (.option option) ↔
      argumentAt? before i = some (.option option) ∨ i = before.length := fun i => by
    simpa [Phrase.first, Phrase.arguments] using
      argumentAt?_append_phrase hclosed (.option text option htext value) i (.option option)
  constructor
  · rintro ⟨i, hi, hvalue, hlast⟩
    obtain rfl : i = before.length := by
      rcases (hplaces i).mp hi with hi | hi
      · exact absurd ((hplaces before.length).mpr (.inr rfl)) (hlast _ (lt_length_of_argumentAt? hi))
      · exact hi
    simpa using hvalue
  · rintro rfl
    refine ⟨before.length, (hplaces _).mpr (.inr rfl), by simp, fun j hj hoption => ?_⟩
    rcases (hplaces j).mp hoption with hoption | rfl
    · have := lt_length_of_argumentAt? hoption
      omega
    · omega

/-- The file that a phrase names is the only one, as long as no file stands before. -/
theorem isFile_append_phrase (phrase : Phrase) (text : String) :
    (∃ i, argumentAt? (before ++ phrase.arguments) i = some .file ∧
        (before ++ phrase.arguments)[i]? = some text) ↔
      (∃ i, argumentAt? before i = some .file ∧ before[i]? = some text) ∨
        phrase.first = .file ∧ phrase.arguments.head? = some text := by
  simp only [argumentAt?_append_phrase hclosed, or_and_right, exists_or, and_assoc,
    exists_eq_left]
  refine or_congr (exists_congr fun i => and_congr_right fun hi => ?_) (and_congr_right fun _ => ?_)
  · rw [List.getElem?_append_left (lt_length_of_argumentAt? hi)]
  · rw [List.getElem?_append_right (Nat.le_refl _), Nat.sub_self, List.head?_eq_getElem?]

/-- A phrase keeps arguments acceptable, unless it names a second file. -/
theorem AreAcceptable.append_phrase (h : AreAcceptable before) {phrase : Phrase}
    (hnone : phrase.first = .file → ∀ i, argumentAt? before i ≠ some .file) :
    AreAcceptable (before ++ phrase.arguments) := by
  obtain ⟨hknown, honeFile, hvalues⟩ := h
  refine ⟨fun i h' => ?_, fun i j hi hj => ?_, fun i option h' => ?_⟩
  · rcases (argumentAt?_append_phrase hclosed phrase i _).mp h' with hbefore | ⟨-, hfirst⟩
    · exact hknown i hbefore
    · cases phrase <;> cases hfirst
  · rcases (argumentAt?_append_phrase hclosed phrase i _).mp hi with hbefore | ⟨hplace, hfirst⟩ <;>
      rcases (argumentAt?_append_phrase hclosed phrase j _).mp hj with hbefore' | ⟨hplace', hfirst'⟩
    · exact honeFile i j hbefore hbefore'
    · exact absurd hbefore (hnone hfirst' i)
    · exact absurd hbefore' (hnone hfirst j)
    · rw [hplace, hplace']
  · rw [List.length_append]
    rcases (argumentAt?_append_phrase hclosed phrase i _).mp h' with hbefore | ⟨rfl, hfirst⟩
    · exact Nat.lt_add_right _ (hvalues i option hbefore)
    · cases phrase <;> cases hfirst
      simp [Phrase.arguments]

/-- What arguments ask for when a phrase is put behind them. -/
theorem Options.AreAskedBy.addPhrase {options next : Options} (h : options.AreAskedBy before)
    {phrase : Phrase} (hadd : options.addPhrase phrase = .ok next) :
    next.AreAskedBy (before ++ phrase.arguments) := by
  have hflag flag := exists_argumentAt?_append_phrase hclosed phrase (.flag flag)
  have hfile := isFile_append_phrase hclosed phrase
  cases phrase with
  | flag text flag htext =>
    obtain rfl : options.setFlag flag = next := by simpa [Options.addPhrase] using hadd
    refine ⟨fun other => ?_, fun option value => ?_, fun file => ?_⟩
    · rw [hflag, ← h.flags]
      simp only [setFlag, Bool.or_eq_true, decide_eq_true_eq, Phrase.first, Argument.flag.injEq,
        eq_comm (a := other)]
    · rw [isLastValue_append_phrase hclosed (by simp [Phrase.first])]
      exact h.value? option value
    · rw [hfile, or_iff_left (by simp [Phrase.first])]
      exact h.file? file
  | option text option htext value =>
    obtain rfl : options.setValue option ⟨value⟩ = next := by simpa [Options.addPhrase] using hadd
    refine ⟨fun flag => ?_, fun other given => ?_, fun file => ?_⟩
    · rw [hflag, or_iff_left (by simp [Phrase.first])]
      exact h.flags flag
    · by_cases hother : other = option
      · subst other
        rw [Phrase.arguments, isLastValue_append_option hclosed htext]
        simp [setValue]
      · rw [isLastValue_append_phrase hclosed (by simpa [Phrase.first] using Ne.symm hother)]
        simpa [setValue, hother] using h.value? other given
    · rw [hfile, or_iff_left (by simp [Phrase.first])]
      exact h.file? file
  | file text htext =>
    rw [Options.addPhrase] at hadd
    split at hadd
    · cases hadd
    · next hnone =>
      obtain rfl := Except.ok.inj hadd
      refine ⟨fun flag => ?_, fun option value => ?_, fun file => ?_⟩
      · rw [hflag, or_iff_left (by simp [Phrase.first])]
        exact h.flags flag
      · rw [isLastValue_append_phrase hclosed (by simp [Phrase.first])]
        exact h.value? option value
      · rw [hfile, ← h.file?, Option.not_isSome_iff_eq_none.mp hnone]
        simp [Phrase.first, Phrase.arguments]

end Phrases

section Faults

variable {arguments before rest : List String} {i j : Nat} {error other : UsageError}

/-- Arguments are acceptable just when nothing in them offends. -/
theorem areAcceptable_iff :
    AreAcceptable arguments ↔ ∀ i error, ¬ IsOffence arguments i error := by
  constructor
  · rintro ⟨hknown, honeFile, hvalues⟩ i error hoffence
    cases hoffence with
    | unknown htext hunknown => exact hknown i hunknown
    | extra htext hfile hbefore hother => exact Nat.ne_of_lt hbefore (honeFile _ _ hother hfile)
    | missing hoption hlast => exact Nat.ne_of_lt (hvalues i _ hoption) hlast
  · intro hfaultless
    refine ⟨fun i h => ?_, fun i j hi hj => ?_, fun i option h => ?_⟩
    · obtain ⟨-, text, htext, -⟩ := argumentAt?_eq_some_iff.mp h
      exact hfaultless i _ (.unknown htext h)
    · obtain ⟨-, first, hfirst, -⟩ := argumentAt?_eq_some_iff.mp hi
      obtain ⟨-, second, hsecond, -⟩ := argumentAt?_eq_some_iff.mp hj
      rcases Nat.lt_trichotomy i j with hlt | heq | hlt
      · exact absurd (.extra hsecond hj hlt hi) (hfaultless j _)
      · exact heq
      · exact absurd (.extra hfirst hi hlt hj) (hfaultless i _)
    · have hlt := lt_length_of_argumentAt? h
      have hne : i + 1 ≠ arguments.length := fun hlast => hfaultless i _ (.missing h hlast)
      omega

/-- One thing at most is wrong with an argument. -/
theorem IsOffence.unique (h : IsOffence arguments i error) (hother : IsOffence arguments i other) :
    error = other := by
  cases h <;> cases hother <;> simp_all

/-- What is wrong with an argument does not depend on those behind it, unless it comes last. -/
theorem IsOffence.of_append (hi : i < before.length) (hrest : rest ≠ [])
    (h : IsOffence (before ++ rest) i error) : IsOffence before i error := by
  have hleft : ∀ j < before.length, argumentAt? (before ++ rest) j = argumentAt? before j :=
    fun j hj => argumentAt?_append_left hj
  cases h with
  | unknown htext hunknown =>
    rw [List.getElem?_append_left hi] at htext
    rw [hleft i hi] at hunknown
    exact .unknown htext hunknown
  | extra htext hfile hbefore hother =>
    rw [List.getElem?_append_left hi] at htext
    rw [hleft i hi] at hfile
    rw [hleft _ (Nat.lt_trans hbefore hi)] at hother
    exact .extra htext hfile hbefore hother
  | missing hoption hlast =>
    have := List.length_pos_of_ne_nil hrest
    rw [List.length_append] at hlast
    omega

/-- The leftmost thing that is wrong with arguments. -/
def IsLeftmostOffence (arguments : List String) (error : UsageError) : Prop :=
  ∃ i, IsOffence arguments i error ∧ ∀ j < i, ∀ other, ¬ IsOffence arguments j other

/-- There is at most one leftmost offence. -/
theorem IsLeftmostOffence.unique (h : IsLeftmostOffence arguments error)
    (hother : IsLeftmostOffence arguments other) : error = other := by
  obtain ⟨i, hi, hleftmost⟩ := h
  obtain ⟨j, hj, hleftmost'⟩ := hother
  rcases Nat.lt_trichotomy i j with hlt | rfl | hlt
  · exact absurd hi (hleftmost' i hlt error)
  · exact hi.unique hj
  · exact absurd hj (hleftmost j hlt other)

end Faults

namespace Options

/-- What is known of the options after arguments that are complete and have been accepted. -/
structure HaveRead (options : Options) (before : List String) : Prop where
  closed : IsClosed before
  asked : options.AreAskedBy before
  acceptable : AreAcceptable before

variable {options next : Options} {before rest : List String} {phrase : Phrase}
  {error : UsageError}

/-- Nothing has been read of no arguments. -/
theorem haveRead_none : none.HaveRead [] where
  closed := rfl
  asked := by constructor <;> simp [none, argumentAt?, IsLastValue]
  acceptable := by constructor <;> simp [argumentAt?]

/-- Something wrong with the next argument is the leftmost thing that is wrong. -/
theorem HaveRead.isLeftmostOffence (h : options.HaveRead before) (hrest : rest ≠ [])
    (hoffence : IsOffence (before ++ rest) before.length error) :
    IsLeftmostOffence (before ++ rest) error :=
  ⟨before.length, hoffence, fun j hj other hother =>
    areAcceptable_iff.mp h.acceptable j other (hother.of_append hj hrest)⟩

/-- A phrase that is taken is read into the options, and what was read before stays read. -/
theorem HaveRead.addPhrase (h : options.HaveRead before)
    (hadd : options.addPhrase phrase = .ok next) : next.HaveRead (before ++ phrase.arguments) where
  closed := h.closed.append phrase.isClosed_arguments
  asked := h.asked.addPhrase h.closed hadd
  acceptable := by
    refine h.acceptable.append_phrase h.closed fun hfile i hi => ?_
    obtain ⟨-, text, htext, -⟩ := argumentAt?_eq_some_iff.mp hi
    have hsome := (h.asked.file? text).mpr ⟨i, hi, htext⟩
    cases phrase <;> cases hfile
    simp [Options.addPhrase, hsome] at hadd

/-- A phrase that is refused is a second rule file. -/
theorem HaveRead.addPhrase_error (h : options.HaveRead before)
    (hadd : options.addPhrase phrase = .error error) :
    IsLeftmostOffence (before ++ (phrase.arguments ++ rest)) error := by
  cases phrase with
  | flag text flag htext => cases hadd
  | option text option htext value => cases hadd
  | file text htext =>
    rw [Options.addPhrase] at hadd
    split at hadd
    · next hsome =>
      obtain rfl := Except.error.inj hadd
      obtain ⟨file, hfile⟩ := Option.isSome_iff_exists.mp hsome
      obtain ⟨j, hj, -⟩ := (h.asked.file? file.text).mp hfile
      have hlt := lt_length_of_argumentAt? hj
      refine h.isLeftmostOffence (by simp [Phrase.arguments]) (.extra (j := j) ?_ ?_ hlt ?_)
      · simp [Phrase.arguments]
      · rw [Phrase.arguments, List.singleton_append, argumentAt?_append_cons h.closed, htext]
      · rw [argumentAt?_append_left hlt, hj]
    · cases hadd

/-- Arguments are read up to the leftmost thing that is wrong. By induction on how many there
    are, a phrase at a time. -/
theorem HaveRead.addArguments {options : Options} {before : List String}
    (h : options.HaveRead before) (rest : List String) :
    match options.addArguments rest with
    | .ok asked => asked.HaveRead (before ++ rest)
    | .error error => IsLeftmostOffence (before ++ rest) error := by
  rcases phrase_cases rest with
    rfl | ⟨phrase, more, rfl⟩ | ⟨text, option, rfl, htext⟩ | ⟨text, more, rfl, htext⟩
  · simpa [Options.addArguments] using h
  · have hshorter : more.length < (phrase.arguments ++ more).length := by
      cases phrase <;> simp +arith [Phrase.arguments]
    rw [addArguments_phrase]
    cases hadd : options.addPhrase phrase with
    | error error => exact h.addPhrase_error hadd
    | ok next =>
      have hmore := (h.addPhrase hadd).addArguments more
      rwa [List.append_assoc] at hmore
  · rw [Options.addArguments, htext]
    refine h.isLeftmostOffence (by simp) (.missing ?_ (by simp))
    rw [argumentAt?_append_cons h.closed, htext]
  · rw [Options.addArguments, htext]
    refine h.isLeftmostOffence (by simp) (.unknown (by simp) ?_)
    rw [argumentAt?_append_cons h.closed, htext]
termination_by rest.length

/-- The arguments of phrases one after the other. -/
def argumentsOf (phrases : List Phrase) : List String :=
  phrases.flatMap Phrase.arguments

theorem setFlag_comm (options : Options) (flag other : Flag) :
    (options.setFlag flag).setFlag other = (options.setFlag other).setFlag flag := by
  simp only [setFlag, Bool.or_right_comm]

theorem setValue_comm (options : Options) {option other : ValueOption} (hne : option ≠ other)
    (value otherValue : Path) :
    (options.setValue option value).setValue other otherValue =
      (options.setValue other otherValue).setValue option value := by
  simp only [setValue]
  congr 1
  funext third
  by_cases hthird : third = other
  · simp [hthird, hne.symm]
  · simp [hthird]

/-- A rule file may change places with any phrase. A second rule file is refused in either
    order, though not in the same words. -/
theorem addPhrase_file_comm (options : Options) {text : String}
    (htext : Argument.ofText text = .file) (phrase : Phrase) :
    ((options.addPhrase (.file text htext)).bind (·.addPhrase phrase)).toOption =
      ((options.addPhrase phrase).bind (·.addPhrase (.file text htext))).toOption := by
  cases hfile : options.file?.isSome <;> cases phrase <;>
    simp [addPhrase, Except.bind, Except.toOption, setFlag, setValue, hfile]

/-- Two phrases may change places, unless both give a value to the same option. -/
theorem addPhrase_comm (options : Options) {first second : Phrase}
    (hvalues : ∀ option ∈ first.option?, option ∉ second.option?) :
    ((options.addPhrase first).bind (·.addPhrase second)).toOption =
      ((options.addPhrase second).bind (·.addPhrase first)).toOption := by
  cases first with
  | file text htext => exact options.addPhrase_file_comm htext second
  | flag text flag htext =>
    cases second with
    | file text htext => exact (options.addPhrase_file_comm htext _).symm
    | flag text other htext => exact congrArg some (options.setFlag_comm flag other)
    | option text option htext value => rfl
  | option text option htext value =>
    cases second with
    | file text htext => exact (options.addPhrase_file_comm htext _).symm
    | flag text flag htext => rfl
    | option text other htext otherValue =>
      have hne : option ≠ other := by
        rintro rfl
        exact hvalues option rfl rfl
      exact congrArg some (options.setValue_comm hne _ _)

private theorem toOption_bind {ε α β : Type} (x : Except ε α) (f : α → Except ε β) :
    (x.bind f).toOption = x.toOption.bind fun a => (f a).toOption := by
  cases x <;> rfl

/-- Phrases in which no option is given twice may stand in any order. By induction on how they
    change places. -/
theorem toOption_addArguments_perm (options : Options) {phrases permuted : List Phrase}
    (hperm : phrases.Perm permuted) (hvalues : (phrases.filterMap Phrase.option?).Nodup) :
    (options.addArguments (argumentsOf phrases)).toOption =
      (options.addArguments (argumentsOf permuted)).toOption := by
  induction hperm generalizing options with
  | nil => rfl
  | cons phrase _ ih =>
    have hrest := hvalues.sublist ((List.sublist_cons_self _ _).filterMap Phrase.option?)
    simp only [argumentsOf, List.flatMap_cons, addArguments_phrase]
    cases options.addPhrase phrase with
    | error error => rfl
    | ok next => exact ih next hrest
  | swap first second rest =>
    have hpair : ∀ option ∈ first.option?, option ∉ second.option? := by
      intro option hfirst hsecond
      simp [Option.mem_def.mp hfirst, Option.mem_def.mp hsecond] at hvalues
    have hcomm := options.addPhrase_comm hpair
    simp only [argumentsOf, List.flatMap_cons, addArguments_phrase]
    simp only [toOption_bind] at hcomm ⊢
    simp only [← Option.bind_assoc, hcomm]
  | trans hperm _ ih ih' =>
    exact (ih options hvalues).trans (ih' options ((hperm.filterMap _).nodup_iff.mp hvalues))

/-- Arguments are accepted or not, and understood, by their places. They are accepted if those
    that are no values are options that are known, and one rule file at most, and no option that
    takes a value comes last. A flag is set then if it stands anywhere but in the place of a
    value, an option has the last value that is given for it, and the rule file is the argument
    that does not begin with a dash. Those that are refused are reported for the leftmost thing
    that is wrong. Arguments that split into phrases, in which no option is given twice, are
    accepted and understood alike in any order of the phrases. -/
theorem arguments_are_read_by_place (arguments : List String) :
    (∀ text, Argument.ofText text = .file ↔ text.toList.head? ≠ some '-') ∧
      ((∃ options, ofArguments arguments = .ok options) ↔ AreAcceptable arguments) ∧
      (∀ options, ofArguments arguments = .ok options → options.AreAskedBy arguments) ∧
      (∀ error, ofArguments arguments = .error error ↔ IsLeftmostOffence arguments error) ∧
      ∀ phrases permuted : List Phrase, arguments = argumentsOf phrases → phrases.Perm permuted →
        (phrases.filterMap Phrase.option?).Nodup →
          (ofArguments arguments).toOption = (ofArguments (argumentsOf permuted)).toOption := by
  have hread := haveRead_none.addArguments arguments
  rw [List.nil_append] at hread
  refine ⟨fun text => Argument.ofText_eq_file_iff, ⟨?_, fun hacceptable => ?_⟩, fun options hok => ?_,
    fun error => ⟨fun herror => ?_, fun hleftmost => ?_⟩, ?_⟩
  · rintro ⟨options, hok⟩
    rw [← ofArguments, hok] at hread
    exact hread.acceptable
  · cases hresult : ofArguments arguments with
    | ok options => exact ⟨options, rfl⟩
    | error error =>
      rw [← ofArguments, hresult] at hread
      obtain ⟨i, hoffence, -⟩ := hread
      exact absurd hoffence (areAcceptable_iff.mp hacceptable i error)
  · rw [← ofArguments, hok] at hread
    exact hread.asked
  · rw [← ofArguments, herror] at hread
    exact hread
  · cases hresult : ofArguments arguments with
    | ok options =>
      rw [← ofArguments, hresult] at hread
      obtain ⟨i, hoffence, -⟩ := hleftmost
      exact absurd hoffence (areAcceptable_iff.mp hread.acceptable i error)
    | error other =>
      rw [← ofArguments, hresult] at hread
      rw [hread.unique hleftmost]
  · rintro phrases permuted rfl hperm hvalues
    exact none.toOption_addArguments_perm hperm hvalues

/-- Values that look like options, and two things that are wrong, of which the first is told. -/
theorem arguments_are_read_by_place_dashed_values :
    let arguments := ["-c", "-v", "rules", "--clear", "--init", "-c"]
    let permuted := ["--clear", "--init", "-c", "rules", "-c", "-v"]
    let refused := ["-c", "-x", "rules", "more", "--init"]
    AreAcceptable arguments ∧
      (∃ options, ofArguments arguments = .ok options ∧ options.AreAskedBy arguments ∧
        options.value? .config = some ⟨"-v"⟩ ∧ options.flags .verbose = false ∧
        (ofArguments permuted).toOption = some options) ∧
      IsLeftmostOffence refused (.extraArgument "more") := by
  intro arguments permuted refused
  let config : Phrase := .option "-c" .config (by decide) "-v"
  let rules : Phrase := .file "rules" (by decide)
  let clear : Phrase := .flag "--clear" .clear (by decide)
  let init : Phrase := .option "--init" .init (by decide) "-c"
  have hhalves : ([config, rules] ++ [clear, init]).Perm ([clear, init] ++ [config, rules]) :=
    List.perm_append_comm
  have hperm : [config, rules, clear, init].Perm [clear, init, rules, config] :=
    hhalves.trans ((List.Perm.swap rules config []).append_left [clear, init])
  obtain ⟨-, haccepted, hasked, -, hpermuted⟩ := arguments_are_read_by_place arguments
  obtain ⟨-, -, -, hrefused, -⟩ := arguments_are_read_by_place refused
  obtain ⟨options, hoptions⟩ : ∃ options, ofArguments arguments = .ok options := ⟨_, rfl⟩
  have hsame : (ofArguments arguments).toOption = (ofArguments permuted).toOption :=
    hpermuted [config, rules, clear, init] [clear, init, rules, config] rfl hperm (by decide)
  refine ⟨haccepted.mp ⟨options, hoptions⟩,
    ⟨options, hoptions, hasked options hoptions, ?_, ?_, ?_⟩, (hrefused _).mp rfl⟩
  · obtain rfl := Except.ok.inj hoptions
    rfl
  · obtain rfl := Except.ok.inj hoptions
    rfl
  · rw [← hsame, hoptions]
    rfl

end Options

end CollisionRules.CommandLine
