import LivePatch.Proofs.Scanning.Strings

/-!
# One reading of the lexer

Numbers, words and marks hold no character that opens a comment or string, but for the slash, and
stray characters hold at most a sign that opens nothing.  With what is known of comments and
strings, that settles all readings: `scan_read`.
-/

namespace LivePatch

namespace Mode

open Lexer (Reach blockCommentReach runLength take_runLength isDigitPart isHexPart isIntegerSuffix
  isRealSuffix fractionLength exponentLength integerSuffixLength numberReading Reading
  lineStartAfter restOfLine markReading markFits wordReading lineCommentKind)

/-! ## Plain pieces -/

/-- Have the first `n` characters the property `p`? -/
def HoldsFor (p : Char → Bool) (n : Nat) (cs : List Char) : Prop := ∀ c ∈ cs.take n, p c = true

/-- Are the first `n` characters plain? -/
def PlainFor (n : Nat) (cs : List Char) : Prop := ∀ c ∈ cs.take n, isPlain c = true

section

variable {p q : Char → Bool} {c : Char}

theorem holdsFor_zero (cs : List Char) : HoldsFor p 0 cs := by simp [HoldsFor]

theorem HoldsFor.add {a b : Nat} {cs : List Char} (h : HoldsFor p a cs)
    (k : HoldsFor p b (cs.drop a)) : HoldsFor p (a + b) cs := by
  intro c hc
  rw [List.take_add] at hc
  rcases List.mem_append.mp hc with hc | hc
  · exact h c hc
  · exact k c hc

theorem HoldsFor.cons {n : Nat} {cs : List Char} (hc : p c = true) (h : HoldsFor p n cs) :
    HoldsFor p (1 + n) (c :: cs) := by
  rw [Nat.add_comm]
  exact List.forall_mem_cons.mpr ⟨hc, h⟩

theorem drop_runLength (p : Char → Bool) (cs : List Char) :
    cs.drop (runLength p cs) = cs.dropWhile p := by
  have h := List.takeWhile_append_dropWhile (p := p) (l := cs)
  rw [← take_runLength] at h
  exact List.append_cancel_left ((List.take_append_drop _ cs).trans h.symm)

theorem holdsFor_runLength (hq : ∀ c, q c = true → p c = true) (cs : List Char) :
    HoldsFor p (runLength q cs) cs := by
  intro c hc
  rw [take_runLength] at hc
  exact hq c (List.all_eq_true.mp List.all_takeWhile c hc)

/-! ## The characters of numbers -/

/-- May the character be part of a number? -/
def isNumberPart (c : Char) : Bool :=
  isHexPart c || isIntegerSuffix c || isRealSuffix c || ['.', 'x', 'X', '+', '-'].contains c

theorem isNumberPart_of_isHexPart (h : isHexPart c = true) : isNumberPart c = true := by
  simp [isNumberPart, h]

theorem isNumberPart_of_isDigitPart (h : isDigitPart c = true) : isNumberPart c = true :=
  isNumberPart_of_isHexPart (by simp [isHexPart, h])

theorem isNumberPart_of_isDigit (h : c.isDigit = true) : isNumberPart c = true :=
  isNumberPart_of_isDigitPart (by simp [isDigitPart, h])

theorem isNumberPart_of_isExponent (h : (c == 'e' || c == 'E') = true) :
    isNumberPart c = true := by
  simp only [Bool.or_eq_true, beq_iff_eq] at h
  rcases h with rfl | rfl <;> decide

theorem isNumberPart_of_isSignum (h : (c == '+' || c == '-') = true) :
    isNumberPart c = true := by
  simp only [Bool.or_eq_true, beq_iff_eq] at h
  rcases h with rfl | rfl <;> decide

theorem holdsFor_fraction (cs : List Char) : HoldsFor isNumberPart (fractionLength cs) cs := by
  unfold fractionLength
  split
  · split
    · exact .cons (by decide) (holdsFor_runLength (fun _ => isNumberPart_of_isDigitPart) _)
    · exact holdsFor_zero _
  · exact holdsFor_zero _

theorem holdsFor_integerSuffix (cs : List Char) :
    HoldsFor isNumberPart (integerSuffixLength cs) cs := by
  intro c hc
  have hle : integerSuffixLength cs ≤ 2 := by
    rw [integerSuffixLength, runLength]
    exact Nat.le_trans (List.takeWhile_sublist _).length_le (List.length_take_le 2 cs)
  have htake : cs.take (integerSuffixLength cs) = (cs.take 2).takeWhile isIntegerSuffix := by
    rw [← take_runLength, List.take_take]
    exact congrArg (cs.take ·) (Nat.min_eq_left hle).symm
  rw [htake] at hc
  have hsuffix := List.all_eq_true.mp List.all_takeWhile c hc
  simp [isNumberPart, hsuffix]

theorem holdsFor_exponent (cs : List Char) : HoldsFor isNumberPart (exponentLength cs) cs := by
  have hrun := holdsFor_runLength (q := isDigitPart) fun _ => isNumberPart_of_isDigitPart
  unfold exponentLength
  split
  · split
    · rename_i e s d ds he
      split
      · rename_i hs
        split
        · rw [show 2 + runLength isDigitPart (d :: ds) = 1 + (1 + runLength isDigitPart (d :: ds))
            by omega]
          exact .cons (isNumberPart_of_isExponent he) (.cons (isNumberPart_of_isSignum hs) (hrun _))
        · exact holdsFor_zero _
      · split
        · exact .cons (isNumberPart_of_isExponent he) (hrun _)
        · exact holdsFor_zero _
    · exact holdsFor_zero _
  · rename_i e d
    split
    · rename_i h
      obtain ⟨he, hd⟩ := Bool.and_eq_true_iff.mp h
      exact .cons (isNumberPart_of_isExponent he)
        (.cons (isNumberPart_of_isDigit hd) (holdsFor_zero _))
    · exact holdsFor_zero _
  · exact holdsFor_zero _

/-- What belongs to a number behind its first character. -/
theorem holdsFor_number (c : Char) (cs : List Char) :
    HoldsFor isNumberPart (numberReading c cs).more cs := by
  have hhex (d : Char) (hd : isNumberPart d = true) (ds : List Char) :
      HoldsFor isNumberPart
        (1 + runLength isHexPart ds + integerSuffixLength (ds.drop (runLength isHexPart ds)))
        (d :: ds) := by
    rw [Nat.add_assoc]
    exact .cons hd ((holdsFor_runLength (fun _ => isNumberPart_of_isHexPart) _).add
      (holdsFor_integerSuffix _))
  unfold numberReading
  split
  · exact hhex _ (by decide) _
  · exact hhex _ (by decide) _
  · exact hhex _ (by decide) _
  · exact hhex _ (by decide) _
  extract_lets whole fraction exponent body isReal
  have hwhole : HoldsFor isNumberPart whole cs :=
    holdsFor_runLength (fun _ => isNumberPart_of_isDigitPart) _
  have hfraction : HoldsFor isNumberPart (whole + fraction) cs := by
    refine hwhole.add ?_
    show HoldsFor isNumberPart (if _ then _ else _) _
    split
    · exact holdsFor_zero _
    · exact holdsFor_fraction _
  have hbody : HoldsFor isNumberPart body cs := hfraction.add (holdsFor_exponent _)
  clear_value body isReal
  split
  · rename_i d ds hdrop
    split
    · rename_i hd
      refine hbody.add ?_
      rw [hdrop]
      exact .cons (by simp [isNumberPart, hd]) (holdsFor_zero _)
    · split
      · exact hbody
      · refine hbody.add ?_
        rw [hdrop]
        exact holdsFor_integerSuffix _
  · exact hbody

end

/-! ## Plain characters -/

theorem toNat_lt_of_isDigit {c : Char} (h : c.isDigit = true) : c.toNat < 128 := by
  simp only [Char.isDigit, Bool.and_eq_true, decide_eq_true_eq, UInt32.le_iff_toNat_le] at h
  exact Nat.lt_of_le_of_lt h.2 (by decide)

theorem toNat_lt_of_isNumberPart {c : Char} (h : isNumberPart c = true) : c.toNat < 128 := by
  simp only [isNumberPart, isHexPart, isDigitPart, isIntegerSuffix, isRealSuffix,
    Bool.or_eq_true, Bool.and_eq_true, decide_eq_true_eq, beq_iff_eq, List.contains_eq_mem,
    List.mem_cons, List.not_mem_nil, or_false, or_assoc] at h
  rcases h with h | rfl | ⟨-, h⟩ | ⟨-, h⟩ | h
  · exact toNat_lt_of_isDigit h
  · decide
  · exact Nat.lt_of_le_of_lt h (by decide)
  · exact Nat.lt_of_le_of_lt h (by decide)
  · have hall : ['u', 'U', 'l', 'L', 'f', 'F', 'd', 'D', 'm', 'M', '.', 'x', 'X', '+', '-'].all
        (fun d => decide (d.toNat < 128)) = true := by decide
    exact of_decide_eq_true (List.all_eq_true.mp hall c (by simpa using h))

theorem isPlain_of_isNumberPart {c : Char} (h : isNumberPart c = true) : isPlain c = true := by
  have hall : ∀ n < 128, isNumberPart (Char.ofNat n) = true → isPlain (Char.ofNat n) = true := by
    decide
  have := hall _ (toNat_lt_of_isNumberPart h)
  rw [Char.ofNat_toNat] at this
  exact this h

theorem isPlain_of_isDigit {c : Char} (h : c.isDigit = true) : isPlain c = true :=
  isPlain_of_isNumberPart (isNumberPart_of_isDigit h)

theorem plainFor_number (c : Char) (cs : List Char) : PlainFor (numberReading c cs).more cs :=
  fun d hd => isPlain_of_isNumberPart (holdsFor_number c cs d hd)

/-! ## One reading -/

/-- Is what was read trivia? -/
def isTriviaOutcome : Except LexicalFault Kind → Bool
  | .ok k => k.isTrivia
  | .error _ => false

/-- Behind the piece that `r` reads at the front of `c :: cs`, the mode tells whether it was
trivia, and is ready for the next piece.  Only few characters start trivia. -/
structure Reads (lineStart : Bool) (c : Char) (cs : List Char) (r : Reading) : Prop where
  trivia : ((fresh lineStart c).scan (cs.take r.more)).isTrivia = isTriviaOutcome r.outcome
  opens : ((fresh lineStart c).scan (cs.take r.more)).Opens
    (lineStartAfter lineStart r.outcome (c :: cs.take r.more)) (cs.drop r.more)
  front : isTriviaOutcome r.outcome = true → isBlank c = true ∨ c = '/' ∨ c = '#'

variable {lineStart : Bool} {c : Char} {cs : List Char} {r : Reading}

theorem lineStartAfter_eq_false {outcome : Except LexicalFault Kind} {piece : List Char}
    (h : outcome ≠ .ok .whitespace) : lineStartAfter lineStart outcome piece = false := by
  unfold lineStartAfter
  split
  · exact absurd rfl h
  · rfl

theorem reads_of_settles (hr : isTriviaOutcome r.outcome = false)
    (h : (fresh lineStart c).Settles r.more cs) : Reads lineStart c cs r := by
  refine ⟨h.1.trans hr.symm, ?_, ?_⟩
  · rw [lineStartAfter_eq_false]
    · exact h.2
    · rintro hw
      rw [hw] at hr
      cases hr
  · intro ht
    rw [hr] at ht
    cases ht

theorem reads_delimited {r : Reach} {opening : Nat} {kind : Kind} {fault : LexicalFault}
    (hk : kind.isTrivia = false) (h : (fresh lineStart c).Settles (opening + r.length) cs) :
    Reads lineStart c cs (r.reading opening kind fault) := by
  refine reads_of_settles ?_ h
  rw [Reach.reading]
  split
  · exact hk
  · rfl

/-- A piece of plain characters. -/
theorem reads_plain (hr : isTriviaOutcome r.outcome = false) (hc : isPlain c = true)
    (h : PlainFor r.more cs) : Reads lineStart c cs r := by
  refine reads_of_settles hr ?_
  rw [Settles, fresh_of_isPlain hc, scan_plain h]
  exact rests_code _

theorem scan_blanks {ds : List Char} (h : ∀ d ∈ ds, isBlank d = true) :
    (space lineStart).scan ds = space (lineStart || ds.contains '\n') := by
  induction ds generalizing lineStart with
  | nil => simp
  | cons d ds ih =>
    have hd : (space lineStart).step d = space (lineStart || '\n' == d) := by
      simp [step, fresh, h d List.mem_cons_self, BEq.comm]
    rw [scan_cons, hd, ih fun e he => h e (List.mem_cons_of_mem _ he), List.contains_cons,
      Bool.or_assoc]

theorem reads_blank (hc : isBlank c = true) :
    Reads lineStart c cs ⟨.ok .whitespace, runLength isBlank cs⟩ := by
  have hscan : (fresh lineStart c).scan (cs.take (runLength isBlank cs)) =
      space (lineStart || (c :: cs.take (runLength isBlank cs)).contains '\n') := by
    refine @scan_blanks lineStart (c :: cs.take (runLength isBlank cs)) ?_
    rw [take_runLength]
    exact List.forall_mem_cons.mpr ⟨hc, List.all_eq_true.mp List.all_takeWhile⟩
  refine ⟨by rw [hscan]; rfl, ?_, fun _ => .inl hc⟩
  rw [hscan]
  cases cs.drop (runLength isBlank cs) with
  | nil => trivial
  | cons d ds => exact ⟨.inl rfl, .inl rfl⟩

/-- A comment or directive that reaches to the end of the line. -/
theorem scan_line {ds : List Char} (h : ∀ d ∈ ds, (d != '\n' && d != '\r') = true) :
    line.scan ds = line := by
  induction ds with
  | nil => rfl
  | cons d ds ih =>
    have hd : line.step d = line := by
      have := h d List.mem_cons_self
      simp_all [step]
    rw [scan_cons, hd]
    exact ih fun e he => h e (List.mem_cons_of_mem _ he)

theorem opens_line (cs : List Char) :
    line.Opens false (cs.drop (restOfLine cs)) := by
  rw [restOfLine, drop_runLength]
  cases hd : cs.dropWhile (fun c => c != '\n' && c != '\r') with
  | nil => trivial
  | cons d ds =>
    have hend : (d == '\n' || d == '\r') = true := by
      have := List.head?_dropWhile_not (fun c => c != '\n' && c != '\r') cs
      rw [hd] at this
      simpa [bne, or_iff_not_imp_left] using this
    have hblank : isBlank d = true := by
      rcases Bool.or_eq_true_iff.mp hend with h | h
      · rw [beq_iff_eq.mp h]
        decide
      · rw [beq_iff_eq.mp h]
        decide
    exact ⟨.inr hblank, .inl (by simp only [step, hend, if_true])⟩

theorem reads_lineComment (ds : List Char) :
    Reads lineStart '/' ('/' :: ds) ⟨.ok (lineCommentKind ('/' :: ds)), restOfLine ('/' :: ds)⟩ := by
  have hscan : (fresh lineStart '/').scan (('/' :: ds).take (restOfLine ('/' :: ds))) = line := by
    have hopen : (fresh lineStart '/').step '/' = line := by cases lineStart <;> rfl
    rw [restOfLine, take_runLength, List.takeWhile_cons_of_pos (by decide), scan_cons, hopen]
    exact scan_line (List.all_eq_true.mp List.all_takeWhile)
  have hkind : (lineCommentKind ('/' :: ds)).isTrivia = true ∧
      lineCommentKind ('/' :: ds) ≠ .whitespace := by
    unfold lineCommentKind
    split <;> decide
  refine ⟨by rw [hscan]; exact hkind.1.symm, ?_, fun _ => .inr (.inl rfl)⟩
  rw [hscan, lineStartAfter_eq_false (by simpa using hkind.2)]
  exact opens_line _

theorem reads_directive (cs : List Char) :
    Reads true '#' cs ⟨.ok .preprocessorDirective, restOfLine cs⟩ := by
  have hscan : (fresh true '#').scan (cs.take (restOfLine cs)) = line := by
    refine scan_line ?_
    rw [restOfLine, take_runLength]
    exact List.all_eq_true.mp List.all_takeWhile
  refine ⟨by rw [hscan]; rfl, ?_, fun _ => .inr (.inr rfl)⟩
  rw [hscan, lineStartAfter_eq_false (by simp)]
  exact opens_line _

theorem reads_blockComment (ds : List Char) :
    Reads lineStart '/' ('*' :: ds)
      ((blockCommentReach ds).reading 1 .blockComment .unterminatedBlockComment) := by
  have hopen : (fresh lineStart '/').step '*' = comment false := by
    cases lineStart <;> rfl
  rcases scan_blockComment false ds nofun with ⟨hclosed, hscan⟩ | ⟨hclosed, hsettles⟩
  · have hend : (fresh lineStart '/').scan
        (('*' :: ds).take (1 + (blockCommentReach ds).length)) = commentEnd := by
      rw [Nat.add_comm, List.take_succ_cons, scan_cons, hopen, hscan]
    refine ⟨?_, ?_, fun _ => .inr (.inl rfl)⟩
    all_goals simp only [Reach.reading, hclosed, if_true, hend]
    · rfl
    rw [lineStartAfter_eq_false (by simp)]
    cases ('*' :: ds).drop (1 + (blockCommentReach ds).length) with
    | nil => trivial
    | cons d ds => exact ⟨.inl rfl, .inl rfl⟩
  · refine reads_of_settles ?_ ?_
    · simp [Reach.reading, hclosed, isTriviaOutcome]
    · exact .after_one (by rwa [hopen])

theorem plainFor_word (cs : List Char) : PlainFor (runLength isIdentifierContinue cs) cs :=
  holdsFor_runLength (fun _ => isPlain_of_isIdentifierContinue) cs

theorem reads_word (hc : isIdentifierStart c = true) :
    Reads lineStart c cs (wordReading c cs) := by
  refine reads_plain ?_ ?_ (plainFor_word cs)
  · have hkeys : ∀ m ∈ Kind.keywords, m.2.isTrivia = false := by decide
    cases hk : (wordReading c cs).outcome with
    | error fault => rfl
    | ok k =>
      rcases Lexer.wordReading_ok hk with rfl | hmem
      · rfl
      · exact hkeys _ hmem
  · exact isPlain_of_isIdentifierContinue (isIdentifierContinue_of_isIdentifierStart hc)

theorem reads_number (hc : isPlain c = true) : Reads lineStart c cs (numberReading c cs) := by
  refine reads_plain ?_ hc (plainFor_number c cs)
  unfold numberReading
  split
  iterate 4 rfl
  extract_lets whole fraction exponent body isReal
  clear_value isReal body
  split
  · split
    · rfl
    · split <;> rfl
  · simp only [isTriviaOutcome]
    split <;> rfl

/-- The name that a sign keeps from being reserved. -/
theorem reads_verbatimName (hc : cs.head?.any isIdentifierStart = true) :
    Reads lineStart '@' cs ⟨.ok .identifier, runLength isIdentifierContinue cs⟩ := by
  refine reads_of_settles rfl ?_
  cases cs with
  | nil => cases hc
  | cons d ds =>
    have hd : isIdentifierContinue d = true := isIdentifierContinue_of_isIdentifierStart hc
    have hplain := isPlain_of_isIdentifierContinue hd
    have hopen : (fresh lineStart '@').step d = code :=
      step_of_isPlain (by cases lineStart <;> rfl) hplain
    have hrun : runLength isIdentifierContinue (d :: ds) =
        runLength isIdentifierContinue ds + 1 := by
      simp [runLength, hd]
    rw [Settles, hrun, List.take_succ_cons, scan_cons, hopen, scan_plain (plainFor_word ds)]
    exact rests_code _

/-! ### Punctuation and stray characters -/

/-- Behind a slash that opens no comment. -/
theorem rests_slash (h : cs.head? ≠ some '/' ∧ cs.head? ≠ some '*') : slash.Rests cs := by
  refine ⟨rfl, ?_⟩
  cases cs with
  | nil => trivial
  | cons c cs =>
    simp only [List.head?_cons, ne_eq, Option.some.injEq] at h
    exact ⟨.inl rfl, .inl (by simp [step, h.1, h.2])⟩

/-- Behind a sign that opens no string. -/
theorem rests_atSign (h : cs.head? ≠ some '"' ∧ ∀ ds, cs ≠ '$' :: '"' :: ds) :
    atSign.Rests cs := by
  refine ⟨rfl, ?_⟩
  cases cs with
  | nil => trivial
  | cons c cs =>
    have hquote : c ≠ '"' := by simpa using h.1
    by_cases hc : c = '$'
    · refine ⟨.inl rfl, .inr ⟨rfl, rfl, .inr hc, ?_⟩⟩
      subst hc
      cases cs with
      | nil => simp
      | cons d ds =>
        rintro hd
        obtain rfl : d = '"' := by simpa using hd
        exact h.2 ds rfl
    · exact ⟨.inl rfl, .inl (by simp [step, hquote, hc])⟩

theorem rests_dollar (h : cs.head? ≠ some '"' ∧ ∀ ds, cs ≠ '@' :: '"' :: ds) :
    dollar.Rests cs := by
  refine ⟨rfl, ?_⟩
  cases cs with
  | nil => trivial
  | cons c cs =>
    have hquote : c ≠ '"' := by simpa using h.1
    by_cases hc : c = '@'
    · refine ⟨.inl rfl, .inr ⟨rfl, rfl, .inl hc, ?_⟩⟩
      subst hc
      cases cs with
      | nil => simp
      | cons d ds =>
        rintro hd
        obtain rfl : d = '"' := by simpa using hd
        exact h.2 ds rfl
    · exact ⟨.inl rfl, .inl (by simp [step, hquote, hc])⟩

/-- No mark but the slash leaves anything open. -/
theorem scan_marks : ∀ m ∈ Kind.marks, m.2.isTrivia = false ∧
    (m.1 = "/" ∨ code.scan m.1.toList = code) := by
  decide

/-- Behind a character that belongs to no token. -/
theorem rests_stray (hslash : c ≠ '/')
    (hat : c = '@' → cs.head? ≠ some '"' ∧ ∀ ds, cs ≠ '$' :: '"' :: ds)
    (hdollar : c = '$' → cs.head? ≠ some '"' ∧ ∀ ds, cs ≠ '@' :: '"' :: ds)
    (hblank : isBlank c = false) (hquote : c ≠ '"') (hquote' : c ≠ '\'') :
    (fresh false c).Rests cs := by
  unfold fresh
  rw [hblank]
  simp only [Bool.false_eq_true, if_false]
  split
  · contradiction
  · contradiction
  · contradiction
  · exact rests_atSign (hat rfl)
  · exact rests_dollar (hdollar rfl)
  · exact rests_code _
  · exact rests_code _

/-- The start of a line matters for white space and for directives only. -/
theorem fresh_lineStart (hblank : isBlank c = false) (hhash : c = '#' → lineStart = false) :
    fresh lineStart c = fresh false c := by
  by_cases hc : c = '#'
  · rw [hhash hc]
  · unfold fresh
    rw [hblank]
    simp only [Bool.false_eq_true, if_false]
    split <;> first | rfl | contradiction

theorem reads_mark (hslash : c = '/' → cs.head? ≠ some '/' ∧ cs.head? ≠ some '*')
    (hat : c = '@' → cs.head? ≠ some '"' ∧ ∀ ds, cs ≠ '$' :: '"' :: ds)
    (hdollar : c = '$' → cs.head? ≠ some '"' ∧ ∀ ds, cs ≠ '@' :: '"' :: ds)
    (hblank : isBlank c = false) (hquote : c ≠ '"') (hquote' : c ≠ '\'')
    (hhash : c = '#' → lineStart = false) :
    Reads lineStart c cs (markReading c cs) := by
  have hfresh := fresh_lineStart hblank hhash
  cases hk : (markReading c cs).outcome with
  | ok kind =>
    obtain ⟨htrivia, hscan⟩ := scan_marks _ (Lexer.markReading_ok hk)
    refine reads_of_settles (by rw [hk]; exact htrivia) ?_
    rw [Settles, hfresh]
    rcases hscan with hone | hscan
    · obtain ⟨rfl, htake⟩ : c = '/' ∧ cs.take (markReading c cs).more = [] := by
        have := congrArg String.toList hone
        simpa using this
      have hdrop : cs.drop (markReading '/' cs).more = cs := by
        have := List.take_append_drop (markReading '/' cs).more cs
        rwa [htake, List.nil_append] at this
      rw [htake, hdrop]
      exact rests_slash (hslash rfl)
    · rw [String.toList_ofList, scan_cons] at hscan
      rw [show fresh false c = code.step c from rfl, hscan]
      exact rests_code _
  | error fault =>
    refine reads_of_settles (by rw [hk]; rfl) ?_
    unfold markReading at hk ⊢
    split at hk
    · cases hk
    rename_i hnone
    have hslash : c ≠ '/' := by
      rintro rfl
      have := List.find?_eq_none.mp hnone ("/", .slash) (by decide)
      simp [markFits] at this
    rw [Settles, hfresh]
    exact rests_stray hslash hat hdollar hblank hquote hquote'

/-- **The mode agrees with the lexer** behind each piece. -/
theorem scan_read (lineStart : Bool) (c : Char) (cs : List Char) :
    Reads lineStart c cs (Lexer.read lineStart c cs) := by
  have hat : fresh lineStart '@' = atSign := by cases lineStart <;> rfl
  have hdollar : fresh lineStart '$' = dollar := by cases lineStart <;> rfl
  unfold Lexer.read
  split
  · rename_i hblank
    exact reads_blank hblank
  rename_i hblank
  split
  · exact reads_lineComment _
  · exact reads_blockComment _
  · refine reads_delimited rfl ?_
    rw [Nat.zero_add, show fresh lineStart '"' = quoted '"' false by cases lineStart <;> rfl]
    exact settles_string cs
  · refine reads_delimited rfl ?_
    rw [Nat.zero_add, show fresh lineStart '\'' = quoted '\'' false by cases lineStart <;> rfl]
    exact settles_character cs
  · refine reads_delimited rfl ?_
    rw [hat]
    exact .after_one (settles_verbatim _)
  · refine reads_delimited rfl ?_
    rw [hat]
    exact .after_two (settles_interpolated _ _ _ _ (inText_interpolated ..))
  · refine reads_delimited rfl ?_
    rw [hdollar]
    exact .after_two (settles_interpolated _ _ _ _ (inText_interpolated ..))
  · refine reads_delimited rfl ?_
    rw [hdollar]
    exact .after_one (settles_interpolated _ _ _ _ (inText_interpolated ..))
  rename_i hquote hquote' hline hblock hverbatim hatDollar hdollarAt hinterpolated
  split
  · rename_i h
    obtain ⟨hc, rfl⟩ : c = '#' ∧ lineStart = true := by simpa using h
    subst hc
    exact reads_directive cs
  rename_i hhash
  split
  · rename_i h
    obtain ⟨rfl, hstart⟩ : c = '@' ∧ cs.head?.any isIdentifierStart = true := by
      simpa only [Bool.and_eq_true, beq_iff_eq] using h
    exact reads_verbatimName hstart
  split
  · rename_i hstart
    exact reads_word hstart
  split
  · rename_i h
    refine reads_number ?_
    rcases Bool.or_eq_true_iff.mp h with hdigit | hpoint
    · exact isPlain_of_isDigit hdigit
    · obtain ⟨hc, -⟩ := Bool.and_eq_true_iff.mp hpoint
      rw [beq_iff_eq.mp hc]
      decide
  · -- The characters that could open a comment or a string do not: that was asked before.
    have hnext {d : Char} (h : ∀ rest, cs = d :: rest → False) : cs.head? ≠ some d := by
      cases cs with
      | nil => simp
      | cons e es =>
        rintro he
        obtain rfl : e = d := by simpa using he
        exact h es rfl
    refine reads_mark ?_ ?_ ?_ (by simpa using hblank) hquote hquote' ?_
    · exact fun hc => ⟨hnext fun rest => hline rest hc, hnext fun rest => hblock rest hc⟩
    · exact fun hc => ⟨hnext fun rest => hverbatim rest hc, fun rest => hatDollar rest hc⟩
    · exact fun hc => ⟨hnext fun rest => hinterpolated rest hc, fun rest => hdollarAt rest hc⟩
    · intro hc
      simpa [hc] using hhash

end Mode

end LivePatch
