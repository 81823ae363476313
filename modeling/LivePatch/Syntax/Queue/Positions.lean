import LivePatch.Syntax.Lookahead

/-!
# Places in the queue

The tokens ahead stand in a queue, trivia and all, and a scan through them works with places in that
queue: it has to pass over the trivia itself, wherever some may stand.  `Queue.wordsFrom` is what the
grammar sees from a place on.  Each lemma says of one step of a scan what it comes to for these words.

A question about the words ahead is `Scanned` when the queue answers it: some scan over places finds
what the question asks for, whatever trivia the queue has.
-/

namespace LivePatch

namespace Queue

/-! ## Steps of a scan -/

/-- The kind of the token at the place `i`; the end of the text where there is none. -/
def kindAt (queue : List Token) (i : Nat) : Kind := (queue[i]?).elim .eof (·.kind)

/-- The text of the token at the place `i`. -/
def textAt (queue : List Token) (i : Nat) : String := (queue[i]?).elim "" (·.text)

/-- The first place from `i` on where no trivia stands. -/
def skipTrivia (queue : List Token) (i : Nat) : Nat :=
  match _h : queue[i]? with
  | none => i
  | some t => if t.isTrivia then skipTrivia queue (i + 1) else i
termination_by queue.length - i
decreasing_by
  have := (List.getElem?_eq_some_iff.mp _h).1
  omega

/-- The place of the `n`th word. -/
def indexOfNth : List Token → Nat → Option Nat
  | [], _ => none
  | t :: queue, n =>
    if t.isTrivia then (indexOfNth queue n).map (· + 1)
    else if n = 0 then some 0
    else (indexOfNth queue (n - 1)).map (· + 1)

/-- The kind of the `n`th word. -/
def nth (queue : List Token) (n : Nat) : Option Kind := (indexOfNth queue n).map (kindAt queue)

/-- The text of the `n`th word. -/
def nthText (queue : List Token) (n : Nat) : String := (indexOfNth queue n).elim "" (textAt queue)

/-! ## The words from a place on -/

/-- The words from the place `i` on. -/
def wordsFrom (queue : List Token) (i : Nat) : List Token :=
  (queue.drop i).filter Token.isSignificant

variable {queue : List Token} {i : Nat}

theorem wordsFrom_none (h : queue[i]? = none) : wordsFrom queue i = [] := by
  rw [wordsFrom, List.drop_eq_nil_of_le (List.getElem?_eq_none_iff.mp h), List.filter_nil]

theorem drop_of_getElem? {t : Token} (h : queue[i]? = some t) :
    queue.drop i = t :: queue.drop (i + 1) := by
  obtain ⟨hi, rfl⟩ := List.getElem?_eq_some_iff.mp h
  exact List.drop_eq_getElem_cons hi

theorem wordsFrom_trivia {t : Token} (h : queue[i]? = some t) (ht : t.isTrivia = true) :
    wordsFrom queue i = wordsFrom queue (i + 1) := by
  rw [wordsFrom, drop_of_getElem? h, List.filter_cons_of_neg (by simp [Token.isSignificant, ht]),
    wordsFrom]

theorem wordsFrom_word {t : Token} (h : queue[i]? = some t) (ht : t.isTrivia = false) :
    wordsFrom queue i = t :: wordsFrom queue (i + 1) := by
  rw [wordsFrom, drop_of_getElem? h, List.filter_cons_of_pos (by simp [Token.isSignificant, ht]),
    wordsFrom]

/-- Passing over trivia keeps the words, and then a word stands at the place or nothing does. -/
theorem skipTrivia_spec (queue : List Token) (i : Nat) :
    i ≤ skipTrivia queue i ∧ wordsFrom queue (skipTrivia queue i) = wordsFrom queue i ∧
      queue[skipTrivia queue i]? = (wordsFrom queue i).head? ∧
      wordsFrom queue (skipTrivia queue i + 1) = (wordsFrom queue i).drop 1 := by
  fun_induction skipTrivia queue i with
  | case1 i h =>
    have hend : wordsFrom queue (i + 1) = [] :=
      wordsFrom_none (List.getElem?_eq_none_iff.mpr
        (Nat.le_succ_of_le (List.getElem?_eq_none_iff.mp h)))
    rw [wordsFrom_none h]
    exact ⟨Nat.le_refl i, rfl, h, hend⟩
  | case2 i t h ht ih =>
    obtain ⟨hle, hsame, hword, hrest⟩ := ih
    rw [wordsFrom_trivia h ht]
    exact ⟨Nat.le_of_succ_le hle, hsame, hword, hrest⟩
  | case3 i t h ht =>
    rw [wordsFrom_word h (Bool.eq_false_iff.mpr ht)]
    exact ⟨Nat.le_refl i, rfl, h, rfl⟩

theorem le_skipTrivia : i ≤ skipTrivia queue i := (skipTrivia_spec queue i).1

@[simp] theorem wordsFrom_skipTrivia : wordsFrom queue (skipTrivia queue i) = wordsFrom queue i :=
  (skipTrivia_spec queue i).2.1

@[simp] theorem wordsFrom_skipTrivia_succ :
    wordsFrom queue (skipTrivia queue i + 1) = (wordsFrom queue i).drop 1 :=
  (skipTrivia_spec queue i).2.2.2

theorem kindAt_of_head? {ws : List Token} (h : queue[i]? = ws.head?) :
    kindAt queue i = Words.front ws := by
  rw [kindAt, h]
  cases ws <;> rfl

theorem textAt_of_head? {ws : List Token} (h : queue[i]? = ws.head?) :
    textAt queue i = Words.frontText ws := by
  rw [textAt, h]
  cases ws <;> rfl

@[simp] theorem kindAt_skipTrivia :
    kindAt queue (skipTrivia queue i) = Words.front (wordsFrom queue i) :=
  kindAt_of_head? (skipTrivia_spec queue i).2.2.1

@[simp] theorem textAt_skipTrivia :
    textAt queue (skipTrivia queue i) = Words.frontText (wordsFrom queue i) :=
  textAt_of_head? (skipTrivia_spec queue i).2.2.1

/-- The words of the whole queue. -/
theorem wordsFrom_zero : wordsFrom queue 0 = queue.filter Token.isSignificant := rfl

/-- The words up to a later place. -/
theorem wordsFrom_eq_append {j : Nat} (h : i ≤ j) : wordsFrom queue i =
    ((queue.drop i).take (j - i)).filter Token.isSignificant ++ wordsFrom queue j := by
  rw [wordsFrom, wordsFrom, ← List.filter_append]
  congr 1
  conv => lhs; rw [← List.take_append_drop (j - i) (queue.drop i), List.drop_drop,
    Nat.add_sub_cancel' h]

/-- Where the `n`th word stands, if there is one. -/
theorem indexOfNth_spec (queue : List Token) (n : Nat) :
    match indexOfNth queue n with
    | none => (wordsFrom queue 0).length ≤ n
    | some i => ∃ t, queue[i]? = some t ∧ (wordsFrom queue 0)[n]? = some t ∧
        wordsFrom queue i = (wordsFrom queue 0).drop n := by
  induction queue generalizing n with
  | nil => exact Nat.zero_le n
  | cons t queue ih =>
    by_cases ht : t.isTrivia = true
    · have hwords : wordsFrom (t :: queue) 0 = wordsFrom queue 0 := wordsFrom_trivia rfl ht
      have hn := ih n
      rw [indexOfNth, if_pos ht, hwords]
      cases h : indexOfNth queue n <;> rw [h] at hn <;> exact hn
    · have hwords : wordsFrom (t :: queue) 0 = t :: wordsFrom queue 0 :=
        wordsFrom_word rfl (Bool.eq_false_iff.mpr ht)
      rw [indexOfNth, if_neg ht, hwords]
      cases n with
      | zero => exact ⟨t, rfl, rfl, hwords⟩
      | succ n =>
        have hn := ih n
        rw [if_neg (Nat.succ_ne_zero n), Nat.add_sub_cancel]
        cases h : indexOfNth queue n <;> rw [h] at hn
        · exact Nat.succ_le_succ hn
        · exact hn

theorem nth_eq (queue : List Token) (n : Nat) :
    nth queue n = Words.kindAt n (queue.filter Token.isSignificant) := by
  have h := indexOfNth_spec queue n
  rw [nth, Words.kindAt, ← wordsFrom_zero]
  cases hi : indexOfNth queue n with
  | none =>
    rw [hi] at h
    rw [List.getElem?_eq_none h]
    rfl
  | some i =>
    rw [hi] at h
    obtain ⟨t, ht, hword, -⟩ := h
    rw [hword, Option.map_some, Option.map_some, kindAt, ht]
    rfl

theorem nthText_eq (queue : List Token) (n : Nat) :
    nthText queue n = Words.frontText ((queue.filter Token.isSignificant).drop n) := by
  have h := indexOfNth_spec queue n
  rw [nthText, ← wordsFrom_zero]
  cases hi : indexOfNth queue n with
  | none =>
    rw [hi] at h
    rw [List.drop_eq_nil_of_le h]
    rfl
  | some i =>
    rw [hi] at h
    obtain ⟨t, ht, hword, -⟩ := h
    exact textAt_of_head? (by rw [ht, List.head?_drop, hword])

end Queue

/-- A question about the words ahead that a scan through the queue answers. -/
class Scanned {α : Type} (decide : List Token → α) where
  /-- What the scan answers. -/
  scan : List Token → α
  /-- Trivia makes no difference to the scan. -/
  scan_eq (queue : List Token) : scan queue = decide (queue.filter Token.isSignificant)

end LivePatch
