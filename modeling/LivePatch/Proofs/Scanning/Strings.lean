import LivePatch.Proofs.Scanning.Modes

/-!
# Comments and strings, character by character

How far a comment, string or character reaches, the lexer finds by looking for its end; the mode
comes to the same end step by step.  Each of the lemmas here follows one of the lexer's searches
and says that the mode then stands behind a token, ready for what comes next, whether the end was
found or not.
-/

namespace LivePatch

namespace Mode

open Lexer (Interpolation Reach blockCommentReach stringReach characterReach interpolatedReach)

/-- From the mode, the next `n` characters complete a token that is no trivia. -/
def Settles (m : Mode) (n : Nat) (cs : List Char) : Prop :=
  (m.scan (cs.take n)).Rests (cs.drop n)

theorem settles_nil {m : Mode} (h : m.isTrivia = false) (n : Nat) : m.Settles n [] := by
  simp [Settles, Rests, h, Opens]

theorem settles_one {m : Mode} {c : Char} {cs : List Char} (h : (m.step c).Rests cs) :
    m.Settles 1 (c :: cs) := by
  simpa [Settles] using h

theorem Settles.after_one {m : Mode} {c : Char} {cs : List Char} {r : Reach}
    (h : (m.step c).Settles r.length cs) : m.Settles (r.after 1).length (c :: cs) := by
  simpa [Settles, Reach.after, Nat.add_comm 1] using h

theorem Settles.after_two {m : Mode} {c d : Char} {cs : List Char} {r : Reach}
    (h : ((m.step c).step d).Settles r.length cs) :
    m.Settles (r.after 2).length (c :: d :: cs) := by
  simpa [Settles, Reach.after, Nat.add_comm 2] using h

/-- A block comment ends with its closing, or else the text does.  Behind a star no slash comes
next, since the two would have closed the comment. -/
theorem scan_blockComment (star : Bool) (cs : List Char)
    (hstar : star = true → cs.head? ≠ some '/') :
    ((blockCommentReach cs).closed = true ∧
        (comment star).scan (cs.take (blockCommentReach cs).length) = commentEnd) ∨
      ((blockCommentReach cs).closed = false ∧
        (comment star).Settles (blockCommentReach cs).length cs) := by
  fun_induction blockCommentReach cs generalizing star with
  | case1 cs => exact .inl ⟨rfl, by simp [step]⟩
  | case2 c cs hne ih =>
    have hstep : (comment star).step c = comment (c == '*') := by
      simp only [step]
      split
      · rename_i h
        obtain ⟨hs, hc⟩ := Bool.and_eq_true_iff.mp h
        exact absurd (by simpa using hc) (by simpa using hstar hs)
      · rfl
    have hnext : (c == '*') = true → cs.head? ≠ some '/' := by
      intro hc hslash
      cases cs with
      | nil => cases hslash
      | cons d ds =>
        obtain rfl : d = '/' := by simpa using hslash
        exact hne ds (by simpa using hc) rfl
    rcases ih (c == '*') hnext with ⟨hclosed, hscan⟩ | ⟨hopen, hsettles⟩
    · refine .inl ⟨hclosed, ?_⟩
      simpa [Reach.after, Nat.add_comm 1, hstep] using hscan
    · exact .inr ⟨hopen, .after_one (by rwa [hstep])⟩
  | case3 => exact .inr ⟨rfl, settles_nil rfl 0⟩

/-- An ordinary character of a quoted piece.  A backslash counts as one only at the end of the
text, where there is no character to take along. -/
theorem settles_quoted {quote c : Char} {cs : List Char} {r : Reach} (hquote : c ≠ quote)
    (hline : c ≠ '\n') (hback : ∀ d ds, c = '\\' → cs = d :: ds → False)
    (h : (quoted quote false).Settles r.length cs) :
    (quoted quote false).Settles (r.after 1).length (c :: cs) := by
  refine .after_one ?_
  have hstep : (quoted quote false).step c = quoted quote (c == '\\') := by
    simp only [step, beq_false_of_ne hquote, beq_false_of_ne hline, Bool.or_self,
      Bool.false_eq_true, if_false]
  rw [hstep]
  by_cases hc : c = '\\'
  · cases cs with
    | nil => exact settles_nil rfl _
    | cons d ds => exact (hback d ds hc rfl).elim
  · rwa [beq_false_of_ne hc]

theorem settles_string (cs : List Char) :
    (quoted '"' false).Settles (stringReach false cs).length cs := by
  fun_induction stringReach false cs with
  | case1 => exact settles_nil rfl 0
  | case2 cs h | case5 c cs h | case7 cs h => cases h
  | case3 cs | case4 cs => exact settles_one (rests_code _)
  | case6 c cs _ ih => exact .after_two ih
  | case8 cs => exact settles_one (rests_code _)
  | case9 c cs _ hquote hback hline ih => exact settles_quoted hquote hline hback ih

theorem settles_character (cs : List Char) :
    (quoted '\'' false).Settles (characterReach cs).length cs := by
  fun_induction characterReach cs with
  | case1 => exact settles_nil rfl 0
  | case2 cs => exact settles_one (rests_code _)
  | case3 c cs ih => exact .after_two ih
  | case4 cs => exact settles_one (rests_code _)
  | case5 c cs hquote hback hline ih => exact settles_quoted hquote hline hback ih

/-- Behind the end of a verbatim string no other quote stands. -/
theorem rests_verbatimEnd {cs : List Char} (h : ∀ ds, cs = '"' :: ds → False) :
    verbatimEnd.Rests cs := by
  refine ⟨rfl, ?_⟩
  cases cs with
  | nil => trivial
  | cons c cs =>
    have hc : c ≠ '"' := by
      rintro rfl
      exact h cs rfl
    exact ⟨.inl rfl, .inl (by simp [step, hc])⟩

theorem settles_verbatim (cs : List Char) :
    verbatim.Settles (stringReach true cs).length cs := by
  fun_induction stringReach true cs with
  | case1 => exact settles_nil rfl 0
  | case2 cs _ ih => exact .after_two ih
  | case3 cs h | case6 c cs h | case8 cs h => exact absurd rfl h
  | case4 cs h => exact settles_one (rests_verbatimEnd h)
  | case5 c cs _ ih => exact .after_one ih
  | case7 cs _ ih => exact .after_one ih
  | case9 c cs _ hquote _ _ ih =>
    refine .after_one ?_
    have hstep : verbatim.step c = verbatim := by
      simp only [step, beq_false_of_ne hquote, Bool.false_eq_true, if_false]
    rwa [hstep]

theorem rests_interpolatedEnd {cs : List Char} (h : ∀ ds, cs = '"' :: ds → False) :
    interpolatedEnd.Rests cs := by
  refine ⟨rfl, ?_⟩
  cases cs with
  | nil => trivial
  | cons c cs =>
    have hc : c ≠ '"' := by
      rintro rfl
      exact h cs rfl
    exact ⟨.inl rfl, .inl (by simp [step, hc])⟩

/-- The mode takes the next character as one of an interpolated string at the given place. -/
def InText (m : Mode) (isVerbatim : Bool) (place : Interpolation) (cs : List Char) : Prop :=
  m.isTrivia = false ∧ ∀ c ds, cs = c :: ds → m.step c = interpolate isVerbatim place c

theorem inText_interpolated (isVerbatim : Bool) (place : Interpolation) (cs : List Char) :
    (interpolated isVerbatim place false).InText isVerbatim place cs :=
  ⟨rfl, fun _ _ _ => rfl⟩

theorem inText_brace {isVerbatim : Bool} {cs : List Char} (h : ∀ ds, cs = '\x7b' :: ds → False) :
    (brace isVerbatim).InText isVerbatim (.text 1) cs := by
  refine ⟨rfl, ?_⟩
  rintro c ds rfl
  have hc : c ≠ '\x7b' := by
    rintro rfl
    exact h ds rfl
  simp [step, hc]

/-- An ordinary character of an interpolated string, or a backslash at the end of the text. -/
theorem inText_other {isVerbatim : Bool} {place : Interpolation} {cs : List Char} (escaped : Bool)
    (h : escaped = true → cs = []) :
    (interpolated isVerbatim place escaped).InText isVerbatim place cs := by
  refine ⟨rfl, ?_⟩
  rintro c ds rfl
  cases escaped with
  | false => rfl
  | true => cases h rfl

theorem settles_interpolated (isVerbatim : Bool) (place : Interpolation) (cs : List Char)
    (m : Mode) (h : m.InText isVerbatim place cs) :
    m.Settles (interpolatedReach isVerbatim place cs).length cs := by
  fun_induction interpolatedReach isVerbatim place cs generalizing m with
  | case1 place => exact settles_nil h.1 0
  | case2 depth cs ih =>
    refine .after_one (ih _ ?_)
    rw [h.2 _ _ rfl]
    exact inText_interpolated ..
  | case3 depth cs =>
    refine settles_one ?_
    rw [h.2 _ _ rfl]
    exact rests_code _
  | case4 depth c cs ih =>
    refine .after_two (ih _ ?_)
    rw [h.2 _ _ rfl]
    exact inText_interpolated ..
  | case5 depth c cs hquote hline hback ih =>
    refine .after_one (ih _ ?_)
    rw [h.2 _ _ rfl]
    simp only [interpolate, beq_false_of_ne hquote, beq_false_of_ne hline, Bool.false_eq_true,
      if_false]
    refine inText_other _ fun hc => ?_
    cases cs with
    | nil => rfl
    | cons d ds => exact (hback d ds (by simpa using hc) rfl).elim
  | case6 cs ih =>
    refine .after_two (ih _ ?_)
    rw [h.2 _ _ rfl]
    exact inText_interpolated ..
  | case7 cs ih =>
    refine .after_two (ih _ ?_)
    rw [h.2 _ _ rfl]
    cases isVerbatim <;> exact inText_interpolated ..
  | case8 depth cs hbrace ih =>
    refine .after_one (ih _ ?_)
    rw [h.2 _ _ rfl]
    cases depth with
    | zero => exact inText_brace (fun ds => hbrace ds rfl)
    | succ depth => exact inText_interpolated ..
  | case9 depth cs _ ih =>
    refine .after_one (ih _ ?_)
    rw [h.2 _ _ rfl]
    cases depth with
    | zero => cases isVerbatim <;> exact inText_interpolated ..
    | succ depth => exact inText_interpolated ..
  | case10 depth cs ih =>
    refine .after_one (ih _ ?_)
    rw [h.2 _ _ rfl]
    exact inText_interpolated ..
  | case11 cs hv ih =>
    subst hv
    refine .after_two (ih _ ?_)
    rw [h.2 _ _ rfl]
    exact inText_interpolated ..
  | case12 cs hv =>
    obtain rfl : isVerbatim = false := by simpa using hv
    refine settles_one ?_
    rw [h.2 _ _ rfl]
    exact rests_code _
  | case13 cs hquote =>
    refine settles_one ?_
    rw [h.2 _ _ rfl]
    cases isVerbatim with
    | false => exact rests_code _
    | true => exact rests_interpolatedEnd hquote
  | case14 depth c cs hv ih =>
    subst hv
    refine .after_one (ih _ ?_)
    rw [h.2 _ _ rfl]
    cases depth <;> exact inText_interpolated ..
  | case15 depth c cs hv ih =>
    obtain rfl : isVerbatim = false := by simpa using hv
    refine .after_two (ih _ ?_)
    rw [h.2 _ _ rfl]
    cases depth <;> exact inText_interpolated ..
  | case16 cs hv ih =>
    subst hv
    refine .after_one (ih _ ?_)
    rw [h.2 _ _ rfl]
    exact inText_interpolated ..
  | case17 cs hv =>
    obtain rfl : isVerbatim = false := by simpa using hv
    refine settles_one ?_
    rw [h.2 _ _ rfl]
    exact rests_code _
  | case18 depth c cs _ _ hopen hclose hquote₁ _ hquote₀ hback hline ih =>
    refine .after_one (ih _ ?_)
    rw [h.2 _ _ rfl]
    have hescape : (c == '\\' && !isVerbatim) = true → cs = [] := by
      intro hc
      cases cs with
      | nil => rfl
      | cons d ds => exact (hback d ds (by simp_all) rfl).elim
    cases depth with
    | zero =>
      have hq : c ≠ '"' := hquote₀ rfl
      have hl : c ≠ '\n' := hline rfl
      simp only [interpolate, beq_false_of_ne hopen, beq_false_of_ne hq, beq_false_of_ne hl,
        Bool.false_and, Bool.false_eq_true, if_false]
      exact inText_other _ hescape
    | succ depth =>
      have hq : c ≠ '"' := hquote₁ depth rfl
      simp only [interpolate, beq_false_of_ne hopen, beq_false_of_ne hclose, beq_false_of_ne hq,
        Bool.false_eq_true, if_false]
      exact inText_other _ hescape

end Mode

end LivePatch
