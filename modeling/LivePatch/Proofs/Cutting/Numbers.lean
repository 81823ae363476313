import LivePatch.Proofs.Cutting.Similar

/-!
# Numbers in front of other texts

Of all pieces a number looks farthest ahead: a point belongs to it only if a digit follows, and the
letter of an exponent only if a digit follows, perhaps behind a sign.  Two texts are alike to a
number, `JoinsNumber`, if they begin with the same character and are similar behind it, or if both
begin with a character that ends every number; the end of the text is as good as such a character.

The parts of a number are found one after the other.  Each of the searches is `Stable`: if it stays
inside of the number in front of the one text, it comes to the same in front of the other.
-/

namespace LivePatch

namespace Lexer

/-- Does the character belong to no number, whatever stands around it? -/
def endsNumber (c : Char) : Bool :=
  !(isHexPart c || isIntegerSuffix c || isRealSuffix c || ['.', 'x', 'X', '+', '-'].contains c)

/-- The two texts are alike to a number in front of them. -/
inductive JoinsNumber : List Char → List Char → Prop
  | nil : JoinsNumber [] []
  | cons {ds es : List Char} (c : Char) : Similar 2 ds es → JoinsNumber (c :: ds) (c :: es)
  | ends {c d : Char} {ds es : List Char} : endsNumber c = true → endsNumber d = true →
      JoinsNumber (c :: ds) (d :: es)
  | stops {d : Char} {es : List Char} : endsNumber d = true → JoinsNumber [] (d :: es)

/-- What the search `F` finds at the front of `cs ++ rest` does not depend on `rest`, as long as it
stays inside of `cs`. -/
def Stable (F : List Char → Nat) : Prop :=
  ∀ (cs : List Char) ⦃rest rest' : List Char⦄, JoinsNumber rest rest' → F (cs ++ rest) ≤ cs.length →
    F (cs ++ rest') = F (cs ++ rest)

variable {c : Char} {cs ds rest rest' : List Char} {p : Char → Bool}

/-! ## Characters -/

theorem endsNumber_eq_true (h : endsNumber c = true) :
    (isHexPart c = false ∧ isIntegerSuffix c = false) ∧ isRealSuffix c = false ∧
      c ∉ ['.', 'x', 'X', '+', '-'] := by
  simpa [endsNumber, and_assoc] using h

theorem isDigitPart_of_endsNumber (h : endsNumber c = true) : isDigitPart c = false := by
  have := (endsNumber_eq_true h).1.1
  simp only [isHexPart, Bool.or_eq_false_iff] at this
  exact this.1.1

theorem isDigit_of_endsNumber (h : endsNumber c = true) : c.isDigit = false := by
  have := isDigitPart_of_endsNumber h
  simp only [isDigitPart, Bool.or_eq_false_iff] at this
  exact this.1

/-- Is this the letter of an exponent? -/
def isExponent (c : Char) : Bool := c == 'e' || c == 'E'

/-- Is this the sign of an exponent? -/
def isSignum (c : Char) : Bool := c == '+' || c == '-'

theorem isExponent_of_endsNumber (h : endsNumber c = true) : isExponent c = false := by
  have hhex := (endsNumber_eq_true h).1.1
  rw [Bool.eq_false_iff]
  intro he
  rcases Bool.or_eq_true_iff.mp he with he | he
  · rw [beq_iff_eq.mp he] at hhex
    exact absurd hhex (by decide)
  · rw [beq_iff_eq.mp he] at hhex
    exact absurd hhex (by decide)

theorem isSignum_of_endsNumber (h : endsNumber c = true) : isSignum c = false := by
  have hmem := (endsNumber_eq_true h).2.2
  simp only [List.mem_cons, not_or] at hmem
  simp [isSignum, hmem]

theorem isSignum_of_isHead (h : isHead c = true) : isSignum c = false := by
  rw [Bool.eq_false_iff]
  intro hs
  rcases Bool.or_eq_true_iff.mp hs with hs | hs
  · rw [beq_iff_eq.mp hs] at h
    exact absurd h (by decide)
  · rw [beq_iff_eq.mp hs] at h
    exact absurd h (by decide)

theorem isDigit_of_isSignum (h : isSignum c = true) : c.isDigit = false := by
  rcases Bool.or_eq_true_iff.mp h with h | h
  · rw [beq_iff_eq.mp h]
    decide
  · rw [beq_iff_eq.mp h]
    decide

theorem isDigitPart_of_isDigit (h : c.isDigit = true) : isDigitPart c = true := by
  simp [isDigitPart, h]

/-! ## Runs -/

theorem runLength_cons (p : Char → Bool) (c : Char) (cs : List Char) :
    runLength p (c :: cs) = if p c then runLength p cs + 1 else 0 := by
  rw [runLength, List.takeWhile_cons]
  split <;> rfl

theorem runLength_cons_pos (h : p c = true) (cs : List Char) : 1 ≤ runLength p (c :: cs) := by
  rw [runLength_cons, if_pos h]
  omega

theorem stable_runLength_take (hp : ∀ c, endsNumber c = true → p c = false) (n : Nat) :
    Stable fun ds => runLength p (ds.take n) := by
  intro cs rest rest' hj hle
  induction cs generalizing n with
  | nil =>
    have hzero : runLength p (rest.take n) = 0 := Nat.le_zero.mp hle
    show runLength p (rest'.take n) = runLength p (rest.take n)
    rw [hzero]
    cases n with
    | zero => rfl
    | succ n =>
      cases hj with
      | nil => rfl
      | @cons ds es c _ =>
        have hc : p c = false := by
          rw [Bool.eq_false_iff]
          intro hc
          have := runLength_cons_pos hc (ds.take n)
          rw [List.take_succ_cons] at hzero
          omega
        rw [List.take_succ_cons, runLength_cons, hc]
        rfl
      | ends _ hd | stops hd =>
        rw [List.take_succ_cons, runLength_cons, hp _ hd]
        rfl
  | cons a cs ih =>
    cases n with
    | zero => rfl
    | succ n =>
      simp only [List.cons_append, List.take_succ_cons, runLength_cons, List.length_cons] at hle ⊢
      split
      · rename_i ha
        rw [if_pos ha] at hle
        exact congrArg (· + 1) (ih n (Nat.le_of_succ_le_succ hle))
      · rfl

theorem stable_runLength (hp : ∀ c, endsNumber c = true → p c = false) : Stable (runLength p) := by
  intro cs rest rest' hj hle
  have htake := stable_runLength_take hp (cs ++ rest ++ (cs ++ rest')).length cs hj
  simp only at htake
  rw [List.take_of_length_le (by simp), List.take_of_length_le (by simp; omega)] at htake
  exact htake hle

/-! ## Searches behind a character -/

/-- Similar texts are alike to the search `F` if it finds nothing in one of them. -/
def Blind (n : Nat) (F : List Char → Nat) : Prop :=
  ∀ ⦃ds es : List Char⦄, Similar n ds es → F ds = 0 → F es = 0

/-- Digits, the first of which is no underscore. -/
def digitsLength (ds : List Char) : Nat :=
  if ds.head?.any Char.isDigit then runLength isDigitPart ds else 0

/-- A character that satisfies `p` and what `F` finds behind it, if that is anything. -/
def behind (p : Char → Bool) (F : List Char → Nat) : List Char → Nat
  | [] => 0
  | c :: ds => if p c = true ∧ F ds ≠ 0 then 1 + F ds else 0

variable {F G : List Char → Nat} {n : Nat}

theorem Blind.succ (h : Blind n F) : Blind (n + 1) F := fun _ _ hs => h hs.of_succ

theorem Blind.add (hF : Blind n F) (hG : Blind n G) : Blind n fun ds => F ds + G ds := by
  intro ds es hs hzero
  obtain ⟨hf, hg⟩ := Nat.add_eq_zero_iff.mp hzero
  show F es + G es = 0
  rw [hF hs hf, hG hs hg]

theorem Stable.add (hF : Stable F) (hG : Stable G) : Stable fun ds => F ds + G ds := by
  intro cs rest rest' hj hle
  have hsum : F (cs ++ rest) + G (cs ++ rest) ≤ cs.length := hle
  show F _ + G _ = F _ + G _
  rw [hF cs hj (by omega), hG cs hj (by omega)]

theorem digitsLength_cons (d : Char) (ds : List Char) :
    digitsLength (d :: ds) = if d.isDigit then runLength isDigitPart (d :: ds) else 0 := rfl

theorem digitsLength_eq_zero : digitsLength ds = 0 ↔ ds.head?.any Char.isDigit = false := by
  unfold digitsLength
  cases ds with
  | nil => simp
  | cons d ds =>
    by_cases hd : d.isDigit = true
    · have := runLength_cons_pos (isDigitPart_of_isDigit hd) ds
      simp only [List.head?_cons, Option.any_some, hd, if_true]
      constructor
      · omega
      · nofun
    · simp [hd]

theorem blind_digitsLength : Blind 1 digitsLength := by
  intro ds es hs hzero
  rw [digitsLength_eq_zero] at hzero ⊢
  rw [← hzero]
  exact (hs.any_head? fun _ => isDigit_of_isHead).symm

theorem stable_digitsLength : Stable digitsLength := by
  intro cs rest rest' hj hle
  cases cs with
  | nil =>
    have hzero : digitsLength rest = 0 := Nat.le_zero.mp hle
    rw [List.nil_append, List.nil_append, hzero]
    rw [digitsLength_eq_zero] at hzero ⊢
    cases hj with
    | nil => rfl
    | cons c _ => exact hzero
    | ends _ hd | stops hd => simp [isDigit_of_endsNumber hd]
  | cons c cs =>
    have hrun := stable_runLength (p := isDigitPart) (fun c => isDigitPart_of_endsNumber)
      (c :: cs) hj
    simp only [List.cons_append, digitsLength_cons] at hle hrun ⊢
    by_cases hc : c.isDigit = true
    · rw [if_pos hc] at hle
      rw [if_pos hc, if_pos hc, hrun hle]
    · rw [if_neg hc, if_neg hc]

theorem behind_cons_eq_zero {d : Char} :
    behind p F (d :: ds) = 0 ↔ p d = false ∨ F ds = 0 := by
  rw [behind]
  split
  · rename_i h
    simp [h.1, h.2]
  · rename_i h
    simp only [true_iff]
    by_cases hd : p d = true
    · exact .inr (by_contra fun hne => h ⟨hd, hne⟩)
    · exact .inl (by simpa using hd)

theorem blind_behind (hF : Blind n F) (hp : ∀ c, isHead c = true → p c = false) :
    Blind (n + 1) (behind p F) := by
  intro ds es hs hzero
  cases hs with
  | nil => exact hzero
  | cons c hs =>
    rw [behind_cons_eq_zero] at hzero ⊢
    exact hzero.imp_right (hF hs)
  | heads _ hd => exact behind_cons_eq_zero.mpr (.inl (hp _ hd))

theorem stable_behind (hF : Stable F) (hblind : Blind 2 F)
    (hp : ∀ c, endsNumber c = true → p c = false) : Stable (behind p F) := by
  intro cs rest rest' hj hle
  cases cs with
  | nil =>
    have hzero : behind p F rest = 0 := Nat.le_zero.mp hle
    rw [List.nil_append, List.nil_append, hzero]
    cases hj with
    | nil => rfl
    | cons c hs =>
      rw [behind_cons_eq_zero] at hzero ⊢
      exact hzero.imp_right (hblind hs)
    | ends _ hd | stops hd => exact behind_cons_eq_zero.mpr (.inl (hp _ hd))
  | cons c cs =>
    simp only [List.cons_append, behind, List.length_cons] at hle ⊢
    by_cases hc : p c = true
    · have hinside : F (cs ++ rest) ≤ cs.length := by
        by_cases hzero : F (cs ++ rest) = 0
        · omega
        · rw [if_pos ⟨hc, hzero⟩] at hle
          omega
      rw [hF cs hj hinside]
    · simp [hc]

/-! ## Fractions, exponents and suffixes -/

theorem fractionLength_eq : fractionLength = behind (· == '.') digitsLength := by
  funext ds
  match ds with
  | [] => rfl
  | [a] => simp [fractionLength, behind, digitsLength]
  | a :: b :: ds =>
    by_cases ha : a = '.'
    · subst ha
      by_cases hb : b.isDigit = true
      · have := runLength_cons_pos (isDigitPart_of_isDigit hb) ds
        simp [fractionLength, behind, digitsLength, hb]
        omega
      · simp [fractionLength, behind, digitsLength, hb]
    · simp [fractionLength, behind, ha]

theorem exponentLength_cons_cons (e s : Char) (ds : List Char) :
    exponentLength (e :: s :: ds) =
      if isExponent e then
        if isSignum s then
          if ds.head?.any Char.isDigit then 2 + runLength isDigitPart ds else 0
        else if s.isDigit then 1 + runLength isDigitPart (s :: ds) else 0
      else 0 := by
  cases ds with
  | cons d ds => rfl
  | nil =>
    show (if (isExponent e && s.isDigit) then 2 else 0) = _
    by_cases hs : s.isDigit = true
    · have hsign : isSignum s = false := by
        rw [Bool.eq_false_iff]
        intro hsign
        rw [isDigit_of_isSignum hsign] at hs
        cases hs
      by_cases he : isExponent e = true <;>
        simp [he, hs, hsign, runLength, isDigitPart_of_isDigit]
    · simp [hs]

theorem exponentLength_eq : exponentLength =
    behind isExponent fun ds => behind isSignum digitsLength ds + digitsLength ds := by
  funext ds
  match ds with
  | [] => rfl
  | [e] => simp [exponentLength, behind, digitsLength]
  | e :: s :: ds =>
    rw [exponentLength_cons_cons, behind]
    by_cases hsign : isSignum s = true
    · have hdigit := isDigit_of_isSignum hsign
      by_cases hd : ds.head?.any Char.isDigit = true
      · have hne : digitsLength ds ≠ 0 := by simp [digitsLength_eq_zero, hd]
        have hlen : digitsLength ds = runLength isDigitPart ds := if_pos hd
        simp only [hsign, hd, if_true, behind, true_and, digitsLength_cons, hdigit, ne_eq, hlen]
        grind
      · have hzero : digitsLength ds = 0 := by simpa [digitsLength_eq_zero] using hd
        simp [hsign, hd, behind, digitsLength_cons, hdigit, hzero]
    · by_cases hs : s.isDigit = true
      · have hpos := runLength_cons_pos (isDigitPart_of_isDigit hs) ds
        simp only [hsign, behind, digitsLength_cons, hs]
        grind
      · simp [hsign, behind, digitsLength_cons, hs]

theorem stable_fractionLength : Stable fractionLength := by
  rw [fractionLength_eq]
  refine stable_behind stable_digitsLength blind_digitsLength.succ fun c hc => ?_
  rw [beq_eq_false_iff_ne]
  rintro rfl
  exact absurd hc (by decide)

theorem stable_exponentLength : Stable exponentLength := by
  rw [exponentLength_eq]
  refine stable_behind ?_ ?_ fun c => isExponent_of_endsNumber
  · exact (stable_behind stable_digitsLength blind_digitsLength.succ
      fun c => isSignum_of_endsNumber).add stable_digitsLength
  · exact (blind_behind blind_digitsLength fun c => isSignum_of_isHead).add blind_digitsLength.succ

theorem stable_integerSuffixLength : Stable integerSuffixLength :=
  stable_runLength_take (fun _ hc => (endsNumber_eq_true hc).1.2) 2

/-! ## Whole numbers -/

/-- The characters between a leading zero and digits to another base. -/
def isRadix (c : Char) : Bool := ['x', 'X', 'b', 'B'].contains c

theorem isRadix_of_endsNumber (h : endsNumber c = true) : isRadix c = false := by
  rw [Bool.eq_false_iff]
  intro hc
  simp only [isRadix, List.contains_eq_mem, decide_eq_true_eq, List.mem_cons, List.not_mem_nil,
    or_false] at hc
  rcases hc with rfl | rfl | rfl | rfl <;> exact absurd h (by decide)

theorem numberReading_radix {d : Char} (h : isRadix d = true) (ds : List Char) :
    numberReading '0' (d :: ds) = ⟨.ok .intLiteral, 1 + runLength isHexPart ds +
      integerSuffixLength (ds.drop (runLength isHexPart ds))⟩ := by
  simp only [isRadix, List.contains_eq_mem, decide_eq_true_eq, List.mem_cons, List.not_mem_nil,
    or_false] at h
  rcases h with rfl | rfl | rfl | rfl <;> rfl

/-- The fraction of a number that starts with `c`: none if the point stood in front. -/
def fractionAfter (c : Char) (ds : List Char) : Nat :=
  if c == '.' then 0 else fractionLength ds

/-- The end of a number: one letter that makes it real, or an integer suffix. -/
def endLength (isReal : Bool) (ds : List Char) : Nat :=
  let letter := runLength isRealSuffix (ds.take 1)
  letter + if isReal || 0 < letter then 0 else integerSuffixLength ds

theorem endReading_eq (isReal : Bool) (body : Nat) (ds : List Char) :
    (match ds with
      | c :: rest =>
        if isRealSuffix c then (⟨.ok .realLiteral, body + 1⟩ : Reading)
        else if isReal then ⟨.ok .realLiteral, body⟩
        else ⟨.ok .intLiteral, body + integerSuffixLength (c :: rest)⟩
      | [] => ⟨.ok (if isReal then .realLiteral else .intLiteral), body⟩) =
    ⟨.ok (if isReal || 0 < runLength isRealSuffix (ds.take 1) then .realLiteral
      else .intLiteral), body + endLength isReal ds⟩ := by
  cases ds with
  | nil => simp [endLength, runLength, integerSuffixLength]
  | cons e ds =>
    by_cases he : isRealSuffix e = true <;> cases isReal <;> simp [endLength, runLength, he]

theorem numberReading_decimal (h : c = '0' → ds.head?.any isRadix = false) :
    numberReading c ds =
      let whole := runLength isDigitPart ds
      let fraction := fractionAfter c (ds.drop whole)
      let exponent := exponentLength (ds.drop (whole + fraction))
      let body := whole + fraction + exponent
      let isReal := c == '.' || 0 < fraction || 0 < exponent
      ⟨.ok (if isReal || 0 < runLength isRealSuffix ((ds.drop body).take 1) then .realLiteral
        else .intLiteral), body + endLength isReal (ds.drop body)⟩ := by
  have hradix (d : Char) (hd : isRadix d = true) (es : List Char) : c = '0' → ds ≠ d :: es := by
    rintro rfl rfl
    have := h rfl
    rw [List.head?_cons, Option.any_some, hd] at this
    cases this
  unfold numberReading
  split
  · exact absurd rfl (hradix 'x' rfl _ rfl)
  · exact absurd rfl (hradix 'X' rfl _ rfl)
  · exact absurd rfl (hradix 'b' rfl _ rfl)
  · exact absurd rfl (hradix 'B' rfl _ rfl)
  · exact endReading_eq _ _ _

theorem stable_fractionAfter (c : Char) : Stable (fractionAfter c) := by
  unfold fractionAfter
  split
  · intro cs rest rest' _ _
    rfl
  · exact stable_fractionLength

theorem stable_realSuffix : Stable fun ds => runLength isRealSuffix (ds.take 1) :=
  stable_runLength_take (fun _ hc => (endsNumber_eq_true hc).2.1) 1

theorem stable_endLength (isReal : Bool) : Stable (endLength isReal) := by
  intro cs rest rest' hj hle
  have hletter := stable_realSuffix cs hj
  have hsuffix := stable_integerSuffixLength cs hj
  simp only [endLength] at hle hletter ⊢
  rw [hletter (by omega)]
  split
  · rfl
  · rename_i hreal
    rw [if_neg hreal] at hle
    rw [hsuffix (by omega)]

/-- A search that starts behind others, all of which stay inside of the number. -/
theorem Stable.drop (hF : Stable F) (hj : JoinsNumber rest rest') (cs : List Char) {m : Nat}
    (hle : m + F ((cs ++ rest).drop m) ≤ cs.length) :
    F ((cs ++ rest').drop m) = F ((cs ++ rest).drop m) := by
  have hm : m ≤ cs.length := by omega
  rw [List.drop_append_of_le_length hm] at hle ⊢
  rw [List.drop_append_of_le_length hm]
  refine hF _ hj ?_
  rw [List.length_drop]
  omega

theorem JoinsNumber.any_isRadix (h : JoinsNumber rest rest')
    (hrest : rest.head?.any isRadix = false) : rest'.head?.any isRadix = false := by
  cases h with
  | nil => rfl
  | cons c _ => exact hrest
  | ends _ hd | stops hd => exact isRadix_of_endsNumber hd

/-- A number stays the number it is in front of another text that looks alike to it, even if it ends
some way before that text begins. -/
theorem numberReading_of_joins {k : Kind} {n : Nat} (hj : JoinsNumber rest rest')
    (hn : n ≤ cs.length) (h : numberReading c (cs ++ rest) = ⟨.ok k, n⟩) :
    numberReading c (cs ++ rest') = ⟨.ok k, n⟩ := by
  by_cases hradix : c = '0' ∧ (cs ++ rest).head?.any isRadix = true
  · obtain ⟨rfl, hhead⟩ := hradix
    cases cs with
    | nil =>
      cases rest with
      | nil => cases hhead
      | cons d ds =>
        -- The number would hold at least the letter that gives its base.
        rw [List.nil_append, numberReading_radix hhead] at h
        have := (Reading.mk.injEq .. ▸ h).2
        simp only [List.length_nil] at hn
        omega
    | cons d cs =>
      have hd : isRadix d = true := by simpa using hhead
      rw [List.cons_append, numberReading_radix hd] at h ⊢
      obtain ⟨hkind, hlen⟩ := Reading.mk.inj h
      rw [List.length_cons] at hn
      have hhex : ∀ c, endsNumber c = true → isHexPart c = false :=
        fun _ hc => (endsNumber_eq_true hc).1.1
      have hdigits := stable_runLength hhex cs hj (by omega)
      have hsuffix := stable_integerSuffixLength.drop hj cs
        (m := runLength isHexPart (cs ++ rest)) (by omega)
      rw [hdigits, hsuffix, hkind, hlen]
  · have hrest : c = '0' → (cs ++ rest).head?.any isRadix = false := by
      intro hc
      simpa [hc] using hradix
    have hrest' : c = '0' → (cs ++ rest').head?.any isRadix = false := by
      intro hc
      cases cs with
      | nil => exact hj.any_isRadix (hrest hc)
      | cons d cs => exact hrest hc
    rw [numberReading_decimal hrest] at h
    rw [numberReading_decimal hrest']
    simp only at h ⊢
    have hlen := (Reading.mk.inj h).2
    have hwhole := stable_runLength (p := isDigitPart) (fun _ => isDigitPart_of_endsNumber) cs hj (by omega)
    rw [hwhole]
    have hfraction := (stable_fractionAfter c).drop hj cs
      (m := runLength isDigitPart (cs ++ rest)) (by omega)
    rw [hfraction]
    have hexponent := stable_exponentLength.drop hj cs
      (m := runLength isDigitPart (cs ++ rest) +
        fractionAfter c ((cs ++ rest).drop (runLength isDigitPart (cs ++ rest)))) (by omega)
    rw [hexponent]
    generalize runLength isDigitPart (cs ++ rest) +
      fractionAfter c ((cs ++ rest).drop (runLength isDigitPart (cs ++ rest))) +
      exponentLength ((cs ++ rest).drop (runLength isDigitPart (cs ++ rest) +
        fractionAfter c ((cs ++ rest).drop (runLength isDigitPart (cs ++ rest))))) = body at *
    have hend := (stable_endLength _).drop hj cs (Nat.le_trans (Nat.le_of_eq hlen) hn)
    have hletter := stable_realSuffix.drop hj cs (m := body) (by
      simp only [endLength] at hlen
      omega)
    rw [hend, hletter]
    exact h

end Lexer

end LivePatch
