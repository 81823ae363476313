import LivePatch.Proofs.Cutting.Cuts

/-!
# Texts that look alike from in front

A pass puts a text in place of a word, and what stands in front of the word sees another text
behind it.  The lexer looks at few characters beyond the piece it cuts, and a word, a sign `@` in
front of one and an opening parenthesis are much alike to it: none of them goes on with a mark.

Two texts are `Similar` if they agree in their first characters, up to a place where both have such
a head.
-/

namespace LivePatch

namespace Lexer

/-- May the character begin a name, or a parenthesis in place of one? -/
def isHead (c : Char) : Bool := isIdentifierStart c || c == '@' || c == '('

/-- The two texts agree in their first `n` characters, or up to a place where both have a head. -/
inductive Similar : Nat → List Char → List Char → Prop
  | zero (ds es : List Char) : Similar 0 ds es
  | nil (n : Nat) : Similar n [] []
  | cons {n : Nat} {ds es : List Char} (c : Char) : Similar n ds es →
      Similar (n + 1) (c :: ds) (c :: es)
  | heads {n : Nat} {c d : Char} {ds es : List Char} : isHead c = true → isHead d = true →
      Similar n (c :: ds) (d :: es)

namespace Similar

variable {n : Nat} {ds es : List Char}

theorem of_succ (h : Similar (n + 1) ds es) : Similar n ds es := by
  induction n generalizing ds es with
  | zero => exact .zero _ _
  | succ n ih =>
    cases h with
    | nil => exact .nil _
    | cons c h => exact .cons c (ih h)
    | heads hc hd => exact .heads hc hd

/-- The same text in front keeps two texts similar. -/
theorem append_left (h : Similar n ds es) (cs : List Char) : Similar n (cs ++ ds) (cs ++ es) := by
  induction cs with
  | nil => exact h
  | cons c cs ih =>
    cases n with
    | zero => exact .zero _ _
    | succ n => exact .cons c ih.of_succ

/-- A long text looks the same with more behind it. -/
theorem append_right (h : n ≤ ds.length) (es : List Char) : Similar n ds (ds ++ es) := by
  induction ds generalizing n with
  | nil =>
    obtain rfl : n = 0 := Nat.le_zero.mp h
    exact .zero _ _
  | cons c ds ih =>
    cases n with
    | zero => exact .zero _ _
    | succ n => exact .cons c (ih (Nat.le_of_succ_le_succ h))

/-- What no head satisfies cannot tell the first characters of similar texts apart. -/
theorem any_head? (h : Similar (n + 1) ds es) {p : Char → Bool}
    (hp : ∀ c, isHead c = true → p c = false) : ds.head?.any p = es.head?.any p := by
  cases h with
  | nil => rfl
  | cons c h => rfl
  | heads hc hd => simp [hp _ hc, hp _ hd]

/-- Nor can a character that is no head. -/
theorem head?_ne (h : Similar (n + 1) ds es) {c : Char} (hc : isHead c = false)
    (hne : ds.head? ≠ some c) : es.head? ≠ some c := by
  cases h with
  | nil => exact hne
  | cons c h => exact hne
  | heads _ hd =>
    intro heq
    obtain rfl := Option.some.inj heq
    rw [hc] at hd
    cases hd

/-- Nor can a short text without a head. -/
theorem isPrefixOf (h : Similar n ds es) (cs : List Char) (hlen : cs.length ≤ n)
    (hcs : cs.any isHead = false) : cs.isPrefixOf ds = cs.isPrefixOf es := by
  induction cs generalizing n ds es with
  | nil => simp
  | cons c cs ih =>
    obtain ⟨hc, hcs⟩ := Bool.or_eq_false_iff.mp hcs
    cases h with
    | zero => simp at hlen
    | nil => rfl
    | cons d h =>
      have hrest := ih h (by simpa using hlen) hcs
      simp only [List.isPrefixOf, hrest]
    | @heads _ a b _ _ ha hb =>
      have hne (e : Char) (he : isHead e = true) : (c == e) = false := by
        rw [beq_eq_false_iff_ne]
        rintro rfl
        rw [hc] at he
        cases he
      simp [List.isPrefixOf, hne a ha, hne b hb]

end Similar

/-! ## What a head is not -/

theorem isHead_eq_true {c : Char} (h : isHead c = true) :
    isIdentifierStart c = true ∨ c = '@' ∨ c = '(' := by
  simpa [isHead, or_assoc] using h

theorem isBlank_of_isHead {c : Char} (h : isHead c = true) : isBlank c = false := by
  rcases isHead_eq_true h with h | rfl | rfl
  · have hplain := Mode.isPlain_of_isIdentifierContinue
      (isIdentifierContinue_of_isIdentifierStart h)
    simp only [Mode.isPlain, Bool.and_eq_true, Bool.not_eq_true'] at hplain
    exact hplain.1
  · decide
  · decide

theorem isDigit_of_isHead {c : Char} (h : isHead c = true) : c.isDigit = false := by
  rcases isHead_eq_true h with h | rfl | rfl
  · rw [Bool.eq_false_iff]
    intro hdigit
    rw [isIdentifierStart_of_isDigit hdigit] at h
    cases h
  · decide
  · decide

end Lexer

end LivePatch
