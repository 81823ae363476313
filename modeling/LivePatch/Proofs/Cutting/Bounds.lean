import LivePatch.Proofs.Cutting.Contexts

/-!
# Pieces lie inside of the text

The number of characters that a reading asks for is there: no search of the lexer runs beyond the
end of the text.
-/

namespace LivePatch

namespace Lexer

variable {lineStart : Bool} {c : Char} {ds : List Char} {k : Kind} {n : Nat}

theorem runLength_le (p : Char → Bool) (ds : List Char) : runLength p ds ≤ ds.length :=
  (List.takeWhile_prefix p).length_le

theorem blockCommentReach_le (ds : List Char) : (blockCommentReach ds).length ≤ ds.length := by
  fun_induction blockCommentReach ds <;>
    simp_all only [Reach.after, List.length_cons, List.length_nil] <;> omega

theorem stringReach_le (verbatim : Bool) (ds : List Char) :
    (stringReach verbatim ds).length ≤ ds.length := by
  fun_induction stringReach verbatim ds <;>
    simp_all only [Reach.after, List.length_cons, List.length_nil] <;> omega

theorem characterReach_le (ds : List Char) : (characterReach ds).length ≤ ds.length := by
  fun_induction characterReach ds <;>
    simp_all only [Reach.after, List.length_cons, List.length_nil] <;> omega

theorem interpolatedReach_le (verbatim : Bool) (place : Interpolation) (ds : List Char) :
    (interpolatedReach verbatim place ds).length ≤ ds.length := by
  fun_induction interpolatedReach verbatim place ds <;>
    simp_all only [Reach.after, List.length_cons, List.length_nil] <;> omega

theorem fractionLength_le (ds : List Char) : fractionLength ds ≤ ds.length := by
  unfold fractionLength
  split
  · rename_i d cs
    have := runLength_le isDigitPart (d :: cs)
    simp only [List.length_cons] at this ⊢
    split <;> omega
  · omega

theorem exponentLength_le (ds : List Char) : exponentLength ds ≤ ds.length := by
  match ds with
  | [] | [_] => exact Nat.zero_le _
  | e :: s :: ds =>
    have hrun := runLength_le isDigitPart ds
    have hrun' := runLength_le isDigitPart (s :: ds)
    rw [exponentLength_cons_cons]
    simp only [List.length_cons] at hrun' ⊢
    split_ifs <;> omega

theorem endLength_le (isReal : Bool) (ds : List Char) : endLength isReal ds ≤ ds.length := by
  have hletter := runLength_le isRealSuffix (ds.take 1)
  have hsuffix := runLength_le isIntegerSuffix (ds.take 2)
  rw [List.length_take] at hletter hsuffix
  simp only [endLength, integerSuffixLength]
  split
  · omega
  · rename_i hreal
    have hnone : runLength isRealSuffix (ds.take 1) = 0 := by simp at hreal; omega
    omega

theorem numberReading_more_le (c : Char) (ds : List Char) :
    (numberReading c ds).more ≤ ds.length := by
  by_cases hradix : c = '0' ∧ ds.head?.any isRadix = true
  · obtain ⟨rfl, hhead⟩ := hradix
    cases ds with
    | nil => cases hhead
    | cons d ds =>
      rw [numberReading_radix hhead]
      have hdigits := runLength_le isHexPart ds
      have hsuffix := runLength_le isIntegerSuffix ((ds.drop (runLength isHexPart ds)).take 2)
      simp only [List.length_take, List.length_drop] at hsuffix
      simp only [List.length_cons, integerSuffixLength]
      omega
  · rw [numberReading_decimal fun hc => by simpa [hc] using hradix]
    have hwhole := runLength_le isDigitPart ds
    generalize runLength isDigitPart ds = whole at hwhole
    have hfraction : fractionAfter c (ds.drop whole) ≤ (ds.drop whole).length := by
      unfold fractionAfter
      split
      · exact Nat.zero_le _
      · exact fractionLength_le _
    have hexponent := exponentLength_le (ds.drop (whole + fractionAfter c (ds.drop whole)))
    refine Nat.le_trans (Nat.add_le_add_left (endLength_le _ _) _) ?_
    simp only [List.length_drop] at hfraction hexponent ⊢
    omega

theorem markReading_more_le (c : Char) (ds : List Char) : (markReading c ds).more ≤ ds.length := by
  unfold markReading
  split
  · rename_i text kind hfind
    have hfits := List.find?_some hfind
    simp only [markFits, Bool.and_eq_true] at hfits
    have hlen := (List.isPrefixOf_iff_prefix.mp hfits.1).length_le
    rw [String.length_toList, List.length_cons] at hlen
    show text.length - 1 ≤ ds.length
    omega
  · exact Nat.zero_le _

/-- A piece lies inside of the text. -/
theorem Cuts.le_length (h : Cuts lineStart c ds k n) : n ≤ ds.length := by
  cases h with
  | blank _ _ more | lineComment _ _ _ more | directive _ _ _ more | verbatimName _ _ _ more
  | word _ _ more =>
    rw [more]
    exact runLength_le _ _
  | string _ reach _ => simpa [reach] using stringReach_le false ds
  | character _ reach _ => simpa [reach] using characterReach_le ds
  | @blockComment es m _ body reach _ more =>
    have hm : m ≤ es.length := by simpa [reach] using blockCommentReach_le es
    rw [body, more, List.length_cons]
    omega
  | @verbatim es m _ body reach _ more =>
    have hm : m ≤ es.length := by simpa [reach] using stringReach_le true es
    rw [body, more, List.length_cons]
    omega
  | @interpolated es m _ body reach _ more =>
    have hm : m ≤ es.length := by simpa [reach] using interpolatedReach_le false (.text 0) es
    rw [body, more, List.length_cons]
    omega
  | @verbatimInterpolated d es m _ body reach _ more =>
    have hm : m ≤ es.length := by simpa [reach] using interpolatedReach_le true (.text 0) es
    rw [body, more, List.length_cons, List.length_cons]
    omega
  | number _ reading => simpa [reading] using numberReading_more_le c ds
  | mark _ _ reading => simpa [reading] using markReading_more_le c ds

end Lexer

end LivePatch
