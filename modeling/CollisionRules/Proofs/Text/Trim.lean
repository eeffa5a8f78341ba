import CollisionRules.Proofs.Text.Cut
import CollisionRules.Text.Blank

namespace CollisionRules.Text

/-- A text that neither begins nor ends with white space. -/
structure IsTrimmed (text : List Char) : Prop where
  front : ∀ c, text.head? = some c → isWhiteSpace c = false
  back : ∀ c, text.getLast? = some c → isWhiteSpace c = false

theorem isTrimmed_nil : IsTrimmed [] where
  front := by simp
  back := by simp

/-- White space around a trimmed text is what trimming takes away. -/
theorem trim_around {before core after : List Char} (hbefore : ∀ c ∈ before, isWhiteSpace c)
    (hcore : IsTrimmed core) (hafter : ∀ c ∈ after, isWhiteSpace c) :
    trim (before ++ core ++ after) = core := by
  cases core with
  | nil =>
    have hblank : ∀ c ∈ before ++ after, isWhiteSpace c := by
      simpa [or_imp, forall_and] using ⟨hbefore, hafter⟩
    rw [List.append_nil, trim, List.dropWhile_eq_nil_iff.mpr hblank]
    rfl
  | cons c rest =>
    have hfront : (before ++ (c :: rest ++ after)).dropWhile isWhiteSpace = c :: rest ++ after :=
      (takeWhile_append_of_head? hbefore (by simpa using hcore.front)).2
    have hback : (after.reverse ++ (c :: rest).reverse).dropWhile isWhiteSpace =
        (c :: rest).reverse := by
      refine (takeWhile_append_of_head? (by simpa using hafter) ?_).2
      rw [List.head?_reverse]
      exact hcore.back
    rw [List.append_assoc, trim, hfront, List.reverse_append, hback, List.reverse_reverse]

private theorem not_isWhiteSpace_of_head?_dropWhile {text : List Char} {c : Char}
    (hc : (text.dropWhile isWhiteSpace).head? = some c) : isWhiteSpace c = false := by
  have h := List.head?_dropWhile_not isWhiteSpace text
  rwa [hc] at h

/-- What is taken away by trimming is white space on either side. -/
theorem trim_spec (text : List Char) :
    IsTrimmed (trim text) ∧ ∃ before after, text = before ++ trim text ++ after ∧
      (∀ c ∈ before, isWhiteSpace c) ∧ ∀ c ∈ after, isWhiteSpace c := by
  set kept := text.dropWhile isWhiteSpace with hkept
  have htrim : trim text = kept.rdropWhile isWhiteSpace := rfl
  have hsplit : trim text ++ kept.rtakeWhile isWhiteSpace = kept := by
    rw [htrim, List.rdropWhile_append_rtakeWhile]
  refine ⟨⟨fun c hc => ?_, fun c hc => ?_⟩, text.takeWhile isWhiteSpace,
    kept.rtakeWhile isWhiteSpace, ?_, fun c => List.mem_takeWhile_imp,
    fun c => List.mem_rtakeWhile_imp⟩
  · have hhead : kept.head? = some c := by
      rw [← hsplit, List.head?_append, hc]
      rfl
    exact not_isWhiteSpace_of_head?_dropWhile hhead
  · rw [htrim, List.rdropWhile, List.getLast?_reverse] at hc
    exact not_isWhiteSpace_of_head?_dropWhile hc
  · rw [List.append_assoc, hsplit, List.takeWhile_append_dropWhile]

/-- A text that holds anything but white space is not trimmed away. -/
theorem trim_ne_nil {text : List Char} {c : Char} (hmem : c ∈ text)
    (hc : isWhiteSpace c = false) : trim text ≠ [] := by
  intro htrim
  obtain ⟨-, before, after, htext, hbefore, hafter⟩ := trim_spec text
  rw [htrim, List.append_nil] at htext
  rw [htext, List.mem_append] at hmem
  have hwhite : isWhiteSpace c = true := hmem.elim (hbefore c) (hafter c)
  rw [hc] at hwhite
  contradiction

end CollisionRules.Text
