import LivePatch.Proofs.Cutting.Cuts

/-!
# Comments and strings keep their ends

The end of a comment, string or character is found inside of the piece.  So the piece is the same
whatever stands behind it, except that the end of a verbatim string must not be followed by another
quote.  Each lemma follows one of the searches of the lexer through a text that begins with the
same characters.
-/

namespace LivePatch

namespace Lexer

/-- The text `es` begins with the same `n` characters as `ds`.  If the piece is verbatim, no quote
comes behind them. -/
structure Keeps (verbatim : Bool) (n : Nat) (ds es : List Char) : Prop where
  front : es.take n = ds.take n
  next : verbatim = true → (es.drop n).head? ≠ some '"'

variable {verbatim : Bool} {n m : Nat} {c d : Char} {ds es : List Char}

theorem keeps_append {cs rest rest' : List Char} (h : verbatim = true → rest'.head? ≠ some '"') :
    Keeps verbatim cs.length (cs ++ rest) (cs ++ rest') := by
  refine ⟨by simp, ?_⟩
  simpa using h

theorem Keeps.cons (h : Keeps verbatim (1 + m) (c :: ds) es) :
    ∃ es', es = c :: es' ∧ Keeps verbatim m ds es' := by
  obtain ⟨hfront, hnext⟩ := h
  rw [Nat.add_comm] at hfront hnext
  cases es with
  | nil => cases hfront
  | cons e es =>
    obtain ⟨rfl, hrest⟩ := List.cons.inj hfront
    exact ⟨es, rfl, hrest, hnext⟩

theorem Keeps.cons_cons (h : Keeps verbatim (2 + m) (c :: d :: ds) es) :
    ∃ es', es = c :: d :: es' ∧ Keeps verbatim m ds es' := by
  rw [show 2 + m = 1 + (1 + m) by omega] at h
  obtain ⟨es₁, rfl, h₁⟩ := h.cons
  obtain ⟨es₂, rfl, h₂⟩ := h₁.cons
  exact ⟨es₂, rfl, h₂⟩

/-- If the one text does not begin with `d`, then neither does the other. -/
theorem Keeps.ne_cons (h : Keeps verbatim m ds es) (hm : 0 < m) (hd : ∀ cs, ds = d :: cs → False) :
    ∀ cs, es = d :: cs → False := by
  rintro cs rfl
  obtain ⟨m, rfl⟩ : ∃ i, m = i + 1 := ⟨m - 1, by omega⟩
  have hfront := h.front
  cases ds with
  | nil => cases hfront
  | cons e ds =>
    obtain ⟨rfl, -⟩ := List.cons.inj hfront
    exact hd ds rfl

theorem Reach.after_eq {r : Reach} {a : Nat} (h : r.after a = ⟨n, true⟩) :
    ∃ m, r = ⟨m, true⟩ ∧ n = a + m := by
  obtain ⟨m, closed⟩ := r
  simp only [Reach.after, Reach.mk.injEq] at h
  obtain ⟨rfl, rfl⟩ := h
  exact ⟨m, rfl, rfl⟩

theorem blockCommentReach_pos (h : blockCommentReach ds = ⟨n, true⟩) : 0 < n := by
  fun_induction blockCommentReach ds generalizing n with
  | case1 => cases h; decide
  | case2 =>
    obtain ⟨m, -, rfl⟩ := Reach.after_eq h
    omega
  | case3 => cases h

theorem blockCommentReach_of_keeps (h : blockCommentReach ds = ⟨n, true⟩)
    (hk : Keeps false n ds es) : blockCommentReach es = ⟨n, true⟩ := by
  fun_induction blockCommentReach ds generalizing n es with
  | case1 cs =>
    cases h
    obtain ⟨es', rfl, -⟩ := Keeps.cons_cons (m := 0) hk
    rfl
  | case2 c cs hne ih =>
    obtain ⟨m, hm, rfl⟩ := Reach.after_eq h
    obtain ⟨es', rfl, hk'⟩ := hk.cons
    rw [blockCommentReach, ih hm hk']
    · rfl
    · -- A star and a slash would have ended the comment in the other text, too.
      intro es₁ hc
      exact hk'.ne_cons (blockCommentReach_pos hm) (fun ds => hne ds hc) es₁
  | case3 => cases h

/-- A quote ends a string, unless the string is verbatim and another quote follows. -/
theorem stringReach_quote (h : verbatim = true → es.head? ≠ some '"') :
    stringReach verbatim ('"' :: es) = ⟨1, true⟩ := by
  cases es with
  | nil => rfl
  | cons e es =>
    by_cases he : e = '"'
    · subst he
      cases verbatim with
      | false => rfl
      | true => exact absurd rfl (h rfl)
    · rw [stringReach]
      rintro _ heq
      exact he (List.cons.inj heq).1

theorem stringReach_ne_nil (h : stringReach verbatim ds = ⟨n, true⟩) :
    ∃ c cs, ds = c :: cs := by
  cases ds with
  | nil => cases h
  | cons c cs => exact ⟨c, cs, rfl⟩

theorem stringReach_of_keeps (h : stringReach verbatim ds = ⟨n, true⟩)
    (hk : Keeps verbatim n ds es) : stringReach verbatim es = ⟨n, true⟩ := by
  fun_induction stringReach verbatim ds generalizing n es with
  | case1 => cases h
  | case2 cs hv ih =>
    obtain ⟨m, hm, rfl⟩ := Reach.after_eq h
    obtain ⟨es', rfl, hk'⟩ := hk.cons_cons
    rw [stringReach, if_pos hv, ih hm hk']
    rfl
  | case3 cs hv =>
    cases h
    obtain ⟨es', rfl, -⟩ := Keeps.cons (m := 0) hk
    exact stringReach_quote fun hverbatim => absurd hverbatim hv
  | case4 cs hne =>
    cases h
    obtain ⟨es', rfl, hk'⟩ := Keeps.cons (m := 0) hk
    exact stringReach_quote hk'.next
  | case5 c cs hv ih =>
    obtain ⟨m, hm, rfl⟩ := Reach.after_eq h
    obtain ⟨es', rfl, hk'⟩ := hk.cons
    have hrest := ih hm hk'
    obtain ⟨e, es₁, rfl⟩ := stringReach_ne_nil hrest
    rw [stringReach, if_pos hv, hrest]
    rfl
  | case6 c cs hv ih =>
    obtain ⟨m, hm, rfl⟩ := Reach.after_eq h
    obtain ⟨es', rfl, hk'⟩ := hk.cons_cons
    rw [stringReach, if_neg hv, ih hm hk']
    rfl
  | case7 cs hv ih =>
    obtain ⟨m, hm, rfl⟩ := Reach.after_eq h
    obtain ⟨es', rfl, hk'⟩ := hk.cons
    rw [stringReach, if_pos hv, ih hm hk']
    rfl
  | case8 cs hv => cases h
  | case9 c cs hquotes hquote hback hline ih =>
    obtain ⟨m, hm, rfl⟩ := Reach.after_eq h
    obtain ⟨es', rfl, hk'⟩ := hk.cons
    obtain ⟨d, ds', rfl⟩ := stringReach_ne_nil hm
    rw [stringReach, ih hm hk']
    · rfl
    · exact fun _ hc _ => hquote hc
    · exact hquote
    · exact fun _ _ hc _ => hback d ds' hc rfl
    · exact hline

theorem characterReach_ne_nil (h : characterReach ds = ⟨n, true⟩) : ∃ c cs, ds = c :: cs := by
  cases ds with
  | nil => cases h
  | cons c cs => exact ⟨c, cs, rfl⟩

theorem characterReach_of_keeps (h : characterReach ds = ⟨n, true⟩)
    (hk : Keeps false n ds es) : characterReach es = ⟨n, true⟩ := by
  fun_induction characterReach ds generalizing n es with
  | case1 => cases h
  | case2 cs =>
    cases h
    obtain ⟨es', rfl, -⟩ := Keeps.cons (m := 0) hk
    rfl
  | case3 c cs ih =>
    obtain ⟨m, hm, rfl⟩ := Reach.after_eq h
    obtain ⟨es', rfl, hk'⟩ := hk.cons_cons
    rw [characterReach, ih hm hk']
    rfl
  | case4 cs => cases h
  | case5 c cs hquote hback hline ih =>
    obtain ⟨m, hm, rfl⟩ := Reach.after_eq h
    obtain ⟨es', rfl, hk'⟩ := hk.cons
    obtain ⟨d, ds', rfl⟩ := characterReach_ne_nil hm
    rw [characterReach, ih hm hk']
    · rfl
    · exact hquote
    · exact fun _ _ hc _ => hback d ds' hc rfl
    · exact hline

theorem interpolatedReach_ne_nil {place : Interpolation}
    (h : interpolatedReach verbatim place ds = ⟨n, true⟩) : ∃ c cs, ds = c :: cs ∧ 0 < n := by
  fun_induction interpolatedReach verbatim place ds generalizing n with
  | case1 => cases h
  | case3 | case17 => cases h
  | case12 | case13 =>
    cases h
    exact ⟨_, _, rfl, by decide⟩
  | _ =>
    obtain ⟨m, -, rfl⟩ := Reach.after_eq h
    exact ⟨_, _, rfl, by omega⟩

theorem interpolatedReach_quote (h : verbatim = true → es.head? ≠ some '"') :
    interpolatedReach verbatim (.text 0) ('"' :: es) = ⟨1, true⟩ := by
  cases es with
  | nil => rfl
  | cons e es =>
    by_cases he : e = '"'
    · subst he
      cases verbatim with
      | false => rfl
      | true => exact absurd rfl (h rfl)
    · rw [interpolatedReach]
      rintro _ heq
      exact he (List.cons.inj heq).1

theorem interpolatedReach_of_keeps {place : Interpolation}
    (h : interpolatedReach verbatim place ds = ⟨n, true⟩) (hk : Keeps verbatim n ds es) :
    interpolatedReach verbatim place es = ⟨n, true⟩ := by
  fun_induction interpolatedReach verbatim place ds generalizing n es with
  | case1 place => cases h
  | case2 depth cs ih =>
    obtain ⟨m, hm, rfl⟩ := Reach.after_eq h
    obtain ⟨es', rfl, hk'⟩ := hk.cons
    rw [interpolatedReach, ih hm hk']
    rfl
  | case3 depth cs => cases h
  | case4 depth c cs ih =>
    obtain ⟨m, hm, rfl⟩ := Reach.after_eq h
    obtain ⟨es', rfl, hk'⟩ := hk.cons_cons
    rw [interpolatedReach, ih hm hk']
    rfl
  | case5 depth c cs hquote hline hback ih =>
    obtain ⟨m, hm, rfl⟩ := Reach.after_eq h
    obtain ⟨es', rfl, hk'⟩ := hk.cons
    obtain ⟨d, ds', rfl, -⟩ := interpolatedReach_ne_nil hm
    rw [interpolatedReach, ih hm hk']
    · rfl
    · exact hquote
    · exact hline
    · exact fun _ _ hc _ => hback d ds' hc rfl
  | case6 cs ih =>
    obtain ⟨m, hm, rfl⟩ := Reach.after_eq h
    obtain ⟨es', rfl, hk'⟩ := hk.cons_cons
    rw [interpolatedReach, ih hm hk']
    rfl
  | case7 cs ih =>
    obtain ⟨m, hm, rfl⟩ := Reach.after_eq h
    obtain ⟨es', rfl, hk'⟩ := hk.cons_cons
    rw [interpolatedReach, ih hm hk']
    rfl
  | case8 depth cs hbrace ih =>
    obtain ⟨m, hm, rfl⟩ := Reach.after_eq h
    obtain ⟨es', rfl, hk'⟩ := hk.cons
    obtain ⟨-, -, -, hpos⟩ := interpolatedReach_ne_nil hm
    rw [interpolatedReach, ih hm hk']
    · rfl
    · exact fun es₁ hdepth => hk'.ne_cons hpos (fun ds => hbrace ds hdepth) es₁
  | case9 depth cs hbrace ih =>
    obtain ⟨m, hm, rfl⟩ := Reach.after_eq h
    obtain ⟨es', rfl, hk'⟩ := hk.cons
    obtain ⟨-, -, -, hpos⟩ := interpolatedReach_ne_nil hm
    rw [interpolatedReach, ih hm hk']
    · rfl
    · exact fun es₁ hdepth => hk'.ne_cons hpos (fun ds => hbrace ds hdepth) es₁
  | case10 depth cs ih =>
    obtain ⟨m, hm, rfl⟩ := Reach.after_eq h
    obtain ⟨es', rfl, hk'⟩ := hk.cons
    rw [interpolatedReach, ih hm hk']
    rfl
  | case11 cs hv ih =>
    obtain ⟨m, hm, rfl⟩ := Reach.after_eq h
    obtain ⟨es', rfl, hk'⟩ := hk.cons_cons
    rw [interpolatedReach, if_pos hv, ih hm hk']
    rfl
  | case12 cs hv =>
    cases h
    obtain ⟨es', rfl, -⟩ := Keeps.cons (m := 0) hk
    exact interpolatedReach_quote fun hverbatim => absurd hverbatim hv
  | case13 cs hquote =>
    cases h
    obtain ⟨es', rfl, hk'⟩ := Keeps.cons (m := 0) hk
    exact interpolatedReach_quote hk'.next
  | case14 depth c cs hv ih =>
    obtain ⟨m, hm, rfl⟩ := Reach.after_eq h
    obtain ⟨es', rfl, hk'⟩ := hk.cons
    have hrest := ih hm hk'
    obtain ⟨e, es₁, rfl, -⟩ := interpolatedReach_ne_nil hrest
    rw [interpolatedReach, if_pos hv, hrest]
    rfl
  | case15 depth c cs hv ih =>
    obtain ⟨m, hm, rfl⟩ := Reach.after_eq h
    obtain ⟨es', rfl, hk'⟩ := hk.cons_cons
    rw [interpolatedReach, if_neg hv, ih hm hk']
    rfl
  | case16 cs hv ih =>
    obtain ⟨m, hm, rfl⟩ := Reach.after_eq h
    obtain ⟨es', rfl, hk'⟩ := hk.cons
    rw [interpolatedReach, if_pos hv, ih hm hk']
    rfl
  | case17 cs hv => cases h
  | case18 depth c cs hopens hcloses hopen hclose hquote₁ hquotes hquote₀ hback hline ih =>
    obtain ⟨m, hm, rfl⟩ := Reach.after_eq h
    obtain ⟨es', rfl, hk'⟩ := hk.cons
    obtain ⟨d, ds', rfl, -⟩ := interpolatedReach_ne_nil hm
    rw [interpolatedReach, ih hm hk']
    · rfl
    · exact fun _ _ hc _ => hopen hc
    · exact fun _ _ hc _ => hclose hc
    · exact hopen
    · exact hclose
    · exact hquote₁
    · exact fun _ hdepth hc _ => hquote₀ hdepth hc
    · exact hquote₀
    · exact fun _ _ hc _ => hback d ds' hc rfl
    · exact hline

/-! ## Behind a verbatim string -/

theorem stringReach_next (hverbatim : verbatim = true) (h : stringReach verbatim ds = ⟨n, true⟩) :
    (ds.drop n).head? ≠ some '"' := by
  fun_induction stringReach verbatim ds generalizing n with
  | case1 => cases h
  | case3 _ hv | case6 _ _ hv => exact absurd hverbatim hv
  | case8 _ hv => exact absurd hverbatim hv
  | case4 cs hne =>
    cases h
    exact head?_ne hne
  | _ =>
    rename_i ih
    obtain ⟨m, hm, rfl⟩ := Reach.after_eq h
    rw [Nat.add_comm]
    exact ih hm

theorem interpolatedReach_next {place : Interpolation} (hverbatim : verbatim = true)
    (h : interpolatedReach verbatim place ds = ⟨n, true⟩) : (ds.drop n).head? ≠ some '"' := by
  fun_induction interpolatedReach verbatim place ds generalizing n with
  | case1 | case3 => cases h
  | case12 _ hv | case15 _ _ _ hv | case17 _ hv => exact absurd hverbatim hv
  | case13 cs hquote =>
    cases h
    exact head?_ne hquote
  | _ =>
    rename_i ih
    obtain ⟨m, hm, rfl⟩ := Reach.after_eq h
    rw [Nat.add_comm]
    exact ih hm

end Lexer

end LivePatch
