import LivePatch.Proofs.Phrases.Spellings

/-!
# Tokens by themselves

Where a token ends is decided by looking at what follows, a few characters ahead.  Still a token is
the same with nothing behind it: none of the lexer's searches needs the text behind the piece to
find what is inside of it, and at the end of the text every piece may end.  So the text of a token,
taken by itself, is cut into that token and no other (`lex_text`).
-/

namespace LivePatch

namespace Lexer

variable {lineStart : Bool} {c : Char} {k : Kind} {p : Char → Bool} {cs ds rest : List Char}

/-! ## Numbers -/

/-- What the search `F` finds without leaving `cs`, it finds in `cs` alone. -/
def Inward (F : List Char → Nat) : Prop :=
  ∀ cs rest : List Char, F (cs ++ rest) ≤ cs.length → F cs = F (cs ++ rest)

variable {F G : List Char → Nat}

theorem inward_runLength_take (p : Char → Bool) (n : Nat) :
    Inward fun ds => runLength p (ds.take n) := by
  intro cs rest hle
  induction cs generalizing n with
  | nil =>
    have hzero : runLength p (rest.take n) = 0 := Nat.le_zero.mp hle
    simpa [runLength] using hzero.symm
  | cons c cs ih =>
    cases n with
    | zero => rfl
    | succ n =>
      simp only [List.cons_append, List.take_succ_cons, runLength_cons, List.length_cons] at hle ⊢
      split
      · rename_i hc
        rw [if_pos hc] at hle
        exact congrArg (· + 1) (ih n (Nat.le_of_succ_le_succ hle))
      · rfl

theorem inward_runLength (p : Char → Bool) : Inward (runLength p) := by
  intro cs rest hle
  have htake := inward_runLength_take p (cs ++ rest).length cs rest
  have hcs : cs.take (cs ++ rest).length = cs := List.take_of_length_le (by simp)
  simp only [List.take_length, hcs] at htake
  exact htake hle

theorem Inward.add (hF : Inward F) (hG : Inward G) : Inward fun ds => F ds + G ds := by
  intro cs rest hle
  have hsum : F (cs ++ rest) + G (cs ++ rest) ≤ cs.length := hle
  show F _ + G _ = F _ + G _
  rw [hF cs rest (by omega), hG cs rest (by omega)]

theorem inward_digitsLength : Inward digitsLength := by
  intro cs rest hle
  cases cs with
  | nil => exact (Nat.le_zero.mp hle).symm
  | cons c cs =>
    have hrun := inward_runLength isDigitPart (c :: cs) rest
    simp only [List.cons_append, digitsLength_cons] at hle hrun ⊢
    by_cases hc : c.isDigit = true
    · rw [if_pos hc] at hle
      rw [if_pos hc, if_pos hc, hrun hle]
    · rw [if_neg hc, if_neg hc]

theorem inward_behind (hF : Inward F) : Inward (behind p F) := by
  intro cs rest hle
  cases cs with
  | nil => exact (Nat.le_zero.mp hle).symm
  | cons c cs =>
    simp only [List.cons_append, behind, List.length_cons] at hle ⊢
    by_cases hc : p c = true
    · have hinside : F (cs ++ rest) ≤ cs.length := by
        by_cases hzero : F (cs ++ rest) = 0
        · omega
        · rw [if_pos ⟨hc, hzero⟩] at hle
          omega
      rw [hF cs rest hinside]
    · simp [hc]

theorem inward_fractionAfter (c : Char) : Inward (fractionAfter c) := by
  unfold fractionAfter
  split
  · intro cs rest _
    rfl
  · rw [fractionLength_eq]
    exact inward_behind inward_digitsLength

theorem inward_exponentLength : Inward exponentLength := by
  rw [exponentLength_eq]
  exact inward_behind ((inward_behind inward_digitsLength).add inward_digitsLength)

theorem inward_endLength (isReal : Bool) : Inward (endLength isReal) := by
  intro cs rest hle
  have hletter := inward_runLength_take isRealSuffix 1 cs rest
  have hsuffix := inward_runLength_take isIntegerSuffix 2 cs rest
  simp only [endLength, integerSuffixLength] at hle hletter hsuffix ⊢
  rw [hletter (by omega)]
  split
  · rfl
  · rename_i hreal
    rw [if_neg hreal] at hle
    rw [hsuffix (by omega)]

/-- A search that starts behind others, all of which stay inside. -/
theorem Inward.drop (hF : Inward F) (cs rest : List Char) {m : Nat}
    (hle : m + F ((cs ++ rest).drop m) ≤ cs.length) : F (cs.drop m) = F ((cs ++ rest).drop m) := by
  have hm : m ≤ cs.length := by omega
  rw [List.drop_append_of_le_length hm] at hle ⊢
  refine hF _ rest ?_
  rw [List.length_drop]
  omega

/-- A number is the same number with nothing behind it. -/
theorem numberReading_alone (h : numberReading c (cs ++ rest) = ⟨.ok k, cs.length⟩) :
    numberReading c cs = ⟨.ok k, cs.length⟩ := by
  by_cases hradix : c = '0' ∧ (cs ++ rest).head?.any isRadix = true
  · obtain ⟨rfl, hhead⟩ := hradix
    cases cs with
    | nil =>
      cases rest with
      | nil => exact h
      | cons d ds =>
        -- The number would hold at least the letter that gives its base.
        rw [List.nil_append, numberReading_radix hhead] at h
        have := (Reading.mk.inj h).2
        simp only [List.length_nil] at this
        omega
    | cons d cs =>
      have hd : isRadix d = true := by simpa using hhead
      rw [List.cons_append, numberReading_radix hd] at h
      obtain ⟨hkind, hlen⟩ := Reading.mk.inj h
      rw [List.length_cons] at hlen
      have hdigits := inward_runLength isHexPart cs rest (by omega)
      have hsuffix := (inward_runLength_take isIntegerSuffix 2).drop cs rest
        (m := runLength isHexPart (cs ++ rest)) (by
          simp only [integerSuffixLength] at hlen
          omega)
      rw [numberReading_radix hd, List.length_cons, hdigits, integerSuffixLength, hsuffix, ← hlen,
        hkind]
      rfl
  · have hrest : c = '0' → (cs ++ rest).head?.any isRadix = false := by
      intro hc
      simpa [hc] using hradix
    have hrest' : c = '0' → cs.head?.any isRadix = false := by
      intro hc
      cases cs with
      | nil => rfl
      | cons d cs => exact hrest hc
    rw [numberReading_decimal hrest] at h
    rw [numberReading_decimal hrest']
    simp only at h ⊢
    have hlen := (Reading.mk.inj h).2
    have hwhole := inward_runLength isDigitPart cs rest (by omega)
    rw [hwhole]
    have hfraction := (inward_fractionAfter c).drop cs rest
      (m := runLength isDigitPart (cs ++ rest)) (by omega)
    rw [hfraction]
    have hexponent := inward_exponentLength.drop cs rest
      (m := runLength isDigitPart (cs ++ rest) +
        fractionAfter c ((cs ++ rest).drop (runLength isDigitPart (cs ++ rest)))) (by omega)
    rw [hexponent]
    generalize runLength isDigitPart (cs ++ rest) +
      fractionAfter c ((cs ++ rest).drop (runLength isDigitPart (cs ++ rest))) +
      exponentLength ((cs ++ rest).drop (runLength isDigitPart (cs ++ rest) +
        fractionAfter c ((cs ++ rest).drop (runLength isDigitPart (cs ++ rest))))) = body at *
    have hend := (inward_endLength _).drop cs rest (Nat.le_of_eq hlen)
    have hletter := (inward_runLength_take isRealSuffix 1).drop cs rest
      (m := body) (by
        simp only [endLength] at hlen
        omega)
    rw [hend, hletter]
    exact h

/-- A point in front of a digit begins a number of at least two characters. -/
theorem ne_nil_of_numberReading_point (h : numberReading '.' (cs ++ rest) = ⟨.ok k, cs.length⟩)
    (hdigit : (cs ++ rest).head?.any Char.isDigit = true) : cs ≠ [] := by
  rintro rfl
  rw [numberReading_decimal (fun hc => absurd hc (by decide))] at h
  have hlen := (Reading.mk.inj h).2
  cases rest with
  | nil => cases hdigit
  | cons d rest =>
    have hpos := runLength_cons_pos (isDigitPart_of_isDigit hdigit) rest
    simp only [List.nil_append, List.length_nil] at hlen
    omega

/-! ## Comments to the end of the line -/

/-- What belongs to the line in front of its end is known without what follows. -/
theorem isPrefixOf_append_of_stop {front : List Char} (hfront : ∀ c ∈ front, p c = true)
    (hrest : rest.head?.any p = false) (cs : List Char) :
    front.isPrefixOf (cs ++ rest) = front.isPrefixOf cs := by
  induction front generalizing cs with
  | nil => simp
  | cons a front ih =>
    obtain ⟨ha, hfront⟩ := List.forall_mem_cons.mp hfront
    cases cs with
    | cons c cs => simp only [List.cons_append, List.isPrefixOf, ih hfront]
    | nil =>
      cases rest with
      | nil => rfl
      | cons d rest =>
        have hne : a ≠ d := by
          rintro rfl
          rw [List.head?_cons, Option.any_some, ha] at hrest
          cases hrest
        simp [List.isPrefixOf, hne]

theorem lineCommentKind_append (hrest : rest.head?.any inLine = false) (cs : List Char) :
    lineCommentKind (cs ++ rest) = lineCommentKind cs := by
  rw [lineCommentKind_eq, lineCommentKind_eq, isPrefixOf_append_of_stop (by simp [inLine]) hrest,
    isPrefixOf_append_of_stop (by simp [inLine]) hrest]

/-! ## All pieces -/

/-- **A piece is the same piece** with nothing behind it. -/
theorem Cuts.alone (h : Cuts lineStart c (cs ++ rest) k cs.length) : Cuts lineStart c cs k cs.length := by
  have hcuts := h
  suffices hnil : Cuts lineStart c (cs ++ []) k cs.length by rwa [List.append_nil] at hnil
  cases h with
  | blank first kind more => exact .blank first kind (runLength_append_congr more fun _ => rfl)
  | lineComment first second kind more =>
    have hend := ((runLength_append (p := inLine)).mp more.symm).2
    rw [lineCommentKind_append hend, ← List.append_nil cs] at kind
    refine .lineComment first ?_ kind (runLength_append_congr (p := inLine) more fun _ => rfl)
    cases cs with
    | nil =>
      rw [List.nil_append] at second
      rw [second] at hend
      cases hend
    | cons d cs => exact second
  | directive first start kind more =>
    exact .directive first start kind (runLength_append_congr (p := inLine) more fun _ => rfl)
  | blockComment first body reach kind more =>
    obtain ⟨cs, rfl, rfl, rfl⟩ := exists_eq_cons body more
    exact .blockComment first rfl (blockCommentReach_of_keeps reach (keeps_append nofun)) kind more
  | string first reach kind =>
    exact .string first (stringReach_of_keeps reach (keeps_append nofun)) kind
  | character first reach kind =>
    exact .character first (characterReach_of_keeps reach (keeps_append nofun)) kind
  | verbatim first body reach kind more =>
    obtain ⟨cs, rfl, rfl, rfl⟩ := exists_eq_cons body more
    exact .verbatim first rfl (stringReach_of_keeps reach (keeps_append fun _ => nofun)) kind more
  | interpolated first body reach kind more =>
    obtain ⟨cs, rfl, rfl, rfl⟩ := exists_eq_cons body more
    exact .interpolated first rfl (interpolatedReach_of_keeps reach (keeps_append nofun)) kind more
  | verbatimInterpolated first body reach kind more =>
    rw [show 2 = 1 + 1 from rfl, Nat.add_assoc] at more
    obtain ⟨cs, rfl, hbody, hmore⟩ := exists_eq_cons body more
    obtain ⟨cs, rfl, rfl, rfl⟩ := exists_eq_cons hbody.symm hmore.symm
    exact .verbatimInterpolated first rfl
      (interpolatedReach_of_keeps reach (keeps_append fun _ => nofun)) kind
      (by rw [List.length_cons, List.length_cons]; omega)
  | verbatimName _ _ kind _ => exact hcuts.of_isWord (by rw [kind]; rfl) rfl
  | word _ kind _ => exact hcuts.of_isWord (by rw [kind]; exact isWord_of_word) rfl
  | number first reading =>
    have hfirst : c.isDigit = true ∨ (c = '.' ∧ (cs ++ []).head?.any Char.isDigit = true) := by
      rcases first with hdigit | ⟨hpoint, hdigit⟩
      · exact .inl hdigit
      · cases cs with
        | nil => exact absurd rfl (ne_nil_of_numberReading_point (hpoint ▸ reading) hdigit)
        | cons d cs => exact .inr ⟨hpoint, hdigit⟩
    refine .number hfirst ?_
    rw [List.append_nil]
    exact numberReading_alone reading
  | mark _ _ reading =>
    have hmark := @markReading_ok c (cs ++ rest) k (by rw [reading])
    rw [reading, List.take_left] at hmark
    obtain ⟨d, ds, htext, hcut⟩ : (⟨k, String.ofList (c :: cs)⟩ : Token).Cut lineStart [] :=
      Token.cut_mark hmark rfl
    obtain ⟨rfl, rfl⟩ := List.cons.inj (String.toList_ofList.symm.trans htext)
    exact hcut

/-- A directive is found at the start of a line only. -/
theorem Cuts.at_lineStart {ds : List Char} {n : Nat}
    (h : Cuts lineStart c ds .preprocessorDirective n) : Cuts true c ds .preprocessorDirective n := by
  generalize hk : Kind.preprocessorDirective = k at h
  cases h with
  | directive first _ kind more => exact .directive first rfl kind more
  | lineComment _ _ kind _ =>
    rw [lineCommentKind_eq, ← hk] at kind
    split at kind <;> cases kind
  | word _ kind _ =>
    have hword := kind ▸ isWord_of_word
    rw [← hk] at hword
    cases hword
  | number _ reading =>
    rw [← hk] at reading
    cases isNumber_of_reading reading
  | mark _ _ reading =>
    have hall : ∀ m ∈ Kind.marks, m.2 ≠ .preprocessorDirective := by decide
    exact absurd hk.symm (hall _ (markReading_ok (by rw [reading])))
  | blank _ kind _ | blockComment _ _ _ kind _ | string _ _ kind | character _ _ kind
  | verbatim _ _ _ kind _ | interpolated _ _ _ kind _ | verbatimInterpolated _ _ _ kind _
  | verbatimName _ _ kind _ => cases hk.trans kind

end Lexer

namespace Token

variable {lineStart : Bool} {t : Token} {rest : List Char}

/-- A token is cut where nothing is in front of it and nothing behind it. -/
theorem Cut.alone (h : t.Cut lineStart rest) : t.Cut true [] := by
  obtain ⟨c, cs, htext, hcuts⟩ := h
  refine ⟨c, cs, htext, ?_⟩
  rw [List.append_nil]
  by_cases hk : t.kind = .preprocessorDirective
  · have halone := hcuts.alone
    rw [hk] at halone ⊢
    exact halone.at_lineStart
  · exact hcuts.alone.of_lineStart hk

end Token

/-- **Tokens stand for themselves.**  Whatever the text that a token was cut out of, and wherever it
stood there, the text of the token by itself is cut into this token and the end of the text, without
a fault. -/
theorem lex_text (source : String) {t : Token} (ht : t ∈ lex source) (herror : t.kind ≠ .error)
    (heof : t.kind ≠ .eof) : lex t.text = [t, .endOfText] ∧ lexicalFaults t.text = [] := by
  obtain ⟨lineStart, rest, hcut⟩ : ∃ lineStart rest, t.Cut lineStart rest := by
    rcases List.mem_append.mp ht with ht | ht
    · obtain ⟨l, hl, rfl⟩ := List.mem_map.mp ht
      cases hk : l.outcome with
      | error fault => exact absurd (by rw [Lexer.Lexeme.token, hk]) herror
      | ok k =>
        have htoken : l.token = ⟨k, l.text⟩ := by rw [Lexer.Lexeme.token, hk]
        exact htoken ▸ Lexer.exists_cut_of_mem hl hk
    · exact absurd (congrArg Token.kind (List.mem_singleton.mp ht)) heof
  have hlexes : Token.Lexes true [t] [] := Token.lexes_singleton.mpr hcut.alone
  have htext : Token.textOf [t] = t.text := by simp [Token.textOf]
  refine ⟨?_, htext ▸ Token.lexicalFaults_of_lexes hlexes⟩
  have hlexed := Token.lexed_of_lexes hlexes
  rw [htext] at hlexed
  show lexed t.text ++ [.endOfText] = _
  rw [hlexed]
  rfl

/-- The point of `a?.5e+b` belongs to the number, and the exponent that has no digits does not. -/
theorem lex_text_point_number :
    lex ".5" = [⟨.realLiteral, ".5"⟩, .endOfText] ∧ lexicalFaults ".5" = [] :=
  lex_text "a?.5e+b" (t := ⟨.realLiteral, ".5"⟩) (by decide +kernel) (by decide) (by decide)

end LivePatch
