import CollisionRules.CommandLine.Options

namespace CollisionRules.CommandLine

def Flag.isDump : Flag → Bool
  | .tokens | .statements => true
  | _ => false

/-- Arguments `more` are `arguments` with dumps asked for in places where no value stands. -/
inductive AsksForDumps : (arguments more : List String) → Prop
  | nil : AsksForDumps [] []
  | dump {arguments more : List String} {text : String} {flag : Flag}
      (hflag : Argument.ofText text = .flag flag) (hdump : flag.isDump)
      (hrest : AsksForDumps arguments more) : AsksForDumps arguments (text :: more)
  | option {arguments more : List String} {text value : String} {option : ValueOption}
      (hoption : Argument.ofText text = .option option) (hrest : AsksForDumps arguments more) :
      AsksForDumps (text :: value :: arguments) (text :: value :: more)
  | other {arguments more : List String} {text : String}
      (hother : ∀ option, Argument.ofText text ≠ .option option)
      (hrest : AsksForDumps arguments more) : AsksForDumps (text :: arguments) (text :: more)

namespace Options

/-- Options that ask for the same, dumps apart: those that are asked for first are asked for
    again. -/
structure AgreeButDumps (options dumping : Options) : Prop where
  flags : ∀ flag, flag.isDump = false → dumping.flags flag = options.flags flag
  dumps : ∀ flag, options.flags flag → dumping.flags flag
  value? : dumping.value? = options.value?
  file? : dumping.file? = options.file?

namespace AgreeButDumps

variable {options dumping : Options}

theorem refl (options : Options) : AgreeButDumps options options where
  flags _ _ := rfl
  dumps _ hflag := hflag
  value? := rfl
  file? := rfl

theorem setFlag (h : AgreeButDumps options dumping) (flag : Flag) :
    AgreeButDumps (options.setFlag flag) (dumping.setFlag flag) where
  flags other hother := by simp only [Options.setFlag, h.flags other hother]
  dumps other hset := by
    simp only [Options.setFlag, Bool.or_eq_true] at hset ⊢
    exact hset.imp_left (h.dumps other)
  value? := h.value?
  file? := h.file?

/-- A dump that is asked for besides. -/
theorem setFlag_dump (h : AgreeButDumps options dumping) {flag : Flag} (hdump : flag.isDump) :
    AgreeButDumps options (dumping.setFlag flag) where
  flags other hother := by
    have hne : other ≠ flag := by
      rintro rfl
      rw [hdump] at hother
      contradiction
    simp [Options.setFlag, hne, h.flags other hother]
  dumps other hset := by simp [Options.setFlag, h.dumps other hset]
  value? := h.value?
  file? := h.file?

theorem setValue (h : AgreeButDumps options dumping) (option : ValueOption) (value : Path) :
    AgreeButDumps (options.setValue option value) (dumping.setValue option value) where
  flags := h.flags
  dumps := h.dumps
  value? := by simp only [Options.setValue, h.value?]
  file? := h.file?

theorem setFile (h : AgreeButDumps options dumping) (file : Path) :
    AgreeButDumps { options with file? := some file } { dumping with file? := some file } where
  flags := h.flags
  dumps := h.dumps
  value? := h.value?
  file? := rfl

/-- By induction on how the dumps were put among the arguments: one that is accepted in the
    one list is accepted in the other. -/
theorem addArguments {arguments more : List String} (hmore : AsksForDumps arguments more)
    (h : AgreeButDumps options dumping) {asked : Options}
    (haccepted : options.addArguments arguments = .ok asked) :
    ∃ added, dumping.addArguments more = .ok added ∧ AgreeButDumps asked added := by
  induction hmore generalizing options dumping with
  | nil =>
    obtain rfl : options = asked := by simpa [Options.addArguments] using haccepted
    exact ⟨dumping, by rw [Options.addArguments], h⟩
  | dump hflag hdump _ ih =>
    obtain ⟨added, hadded, hagree⟩ := ih (h.setFlag_dump hdump) haccepted
    exact ⟨added, by rw [Options.addArguments, hflag]; exact hadded, hagree⟩
  | option hoption _ ih =>
    rw [Options.addArguments, hoption] at haccepted
    obtain ⟨added, hadded, hagree⟩ := ih (h.setValue _ _) haccepted
    exact ⟨added, by rw [Options.addArguments, hoption]; exact hadded, hagree⟩
  | @other arguments more text hother _ ih =>
    rw [Options.addArguments] at haccepted ⊢
    cases htext : Argument.ofText text with
    | flag flag =>
      rw [htext] at haccepted
      exact ih (h.setFlag flag) haccepted
    | option option => exact absurd htext (hother option)
    | unknown => simp [htext] at haccepted
    | file =>
      simp only [htext] at haccepted ⊢
      rw [h.file?]
      split at haccepted
      · cases haccepted
      · next hnone =>
        rw [if_neg hnone]
        exact ih (h.setFile ⟨text⟩) haccepted

end AgreeButDumps

end Options

end CollisionRules.CommandLine
