import LivePatch.Proofs.Lexing

/-!
# Where white space and comments end

The lexer looks ahead, so where it cuts a text depends on what follows.  Putting a text in front
of a name, as the passes do, may move a cut: `1` followed by `f.x` is no longer the number `1`.
What must not change is which characters stand in comments and which in strings, for a comment
that ran on over the rest of a replacement would swallow it.

A `Mode` holds just that much, and follows the text one character at a time, without looking
ahead.  The main result, `scan_read`, says that the two views agree: behind each piece that the
lexer cuts, the mode tells whether the piece was trivia, and it is ready for the next piece.  So
the last token of a text can be read off the mode behind the text, however the text was put
together.
-/

namespace LivePatch

open Lexer (Interpolation)

deriving instance DecidableEq for Interpolation

/-- What the characters so far leave open. -/
inductive Mode where
  /-- White space, or the start of the text; is nothing else on the line so far? -/
  | space (lineStart : Bool)
  /-- Any other token that nothing can reach back into. -/
  | code
  /-- A slash, which may still open a comment. -/
  | slash
  /-- A comment or directive that reaches to the end of the line. -/
  | line
  /-- A block comment; was the last character a star? -/
  | comment (star : Bool)
  /-- The end of a block comment. -/
  | commentEnd
  /-- The signs that may still open a string. -/
  | atSign | dollar | atDollar | dollarAt
  /-- A string or character between the given quotes; does a backslash wait for its character? -/
  | quoted (quote : Char) (escaped : Bool)
  | verbatim
  /-- A quote in a verbatim string: its end, unless another one follows. -/
  | verbatimEnd
  | interpolated (verbatim : Bool) (place : Interpolation) (escaped : Bool)
  /-- A brace in an interpolated string: a hole, unless another one follows. -/
  | brace (verbatim : Bool)
  /-- A quote in a verbatim interpolated string. -/
  | interpolatedEnd
deriving DecidableEq

namespace Mode

/-- The mode behind a first character. -/
def fresh (lineStart : Bool) (c : Char) : Mode :=
  if isBlank c then .space (lineStart || c == '\n')
  else match c with
  | '/' => .slash
  | '"' => .quoted '"' false
  | '\'' => .quoted '\'' false
  | '@' => .atSign
  | '$' => .dollar
  | '#' => if lineStart then .line else .code
  | _ => .code

/-- One more character of an interpolated string. -/
def interpolate (verbatim : Bool) (place : Interpolation) (c : Char) : Mode :=
  match place with
  | .quoted depth =>
    if c == '"' then .interpolated verbatim (.text depth) false
    else if c == '\n' then .code
    else .interpolated verbatim (.quoted depth) (c == '\\')
  | .text 0 =>
    if c == '\x7b' then .brace verbatim
    else if c == '"' then if verbatim then .interpolatedEnd else .code
    else if c == '\n' && !verbatim then .code
    else .interpolated verbatim (.text 0) (c == '\\' && !verbatim)
  | .text (depth + 1) =>
    if c == '\x7b' then .interpolated verbatim (.text (depth + 2)) false
    else if c == '\x7d' then .interpolated verbatim (.text depth) false
    else if c == '"' then .interpolated verbatim (.quoted (depth + 1)) false
    else .interpolated verbatim (.text (depth + 1)) (c == '\\' && !verbatim)

/-- The mode behind one more character. -/
def step : Mode → Char → Mode
  | .space lineStart, c => fresh lineStart c
  | .code, c => fresh false c
  | .slash, c =>
    if c == '/' then .line else if c == '*' then .comment false else fresh false c
  | .line, c => if c == '\n' || c == '\r' then fresh false c else .line
  | .comment star, c => if star && c == '/' then .commentEnd else .comment (c == '*')
  | .commentEnd, c => fresh false c
  | .atSign, c =>
    if c == '"' then .verbatim else if c == '$' then .atDollar else fresh false c
  | .dollar, c =>
    if c == '"' then .interpolated false (.text 0) false
    else if c == '@' then .dollarAt else fresh false c
  | .atDollar, c =>
    if c == '"' then .interpolated true (.text 0) false
    else if c == '@' then .dollarAt else fresh false c
  | .dollarAt, c =>
    if c == '"' then .interpolated true (.text 0) false
    else if c == '$' then .atDollar else fresh false c
  | .quoted quote true, _ => .quoted quote false
  | .quoted quote false, c =>
    if c == quote || c == '\n' then .code else .quoted quote (c == '\\')
  | .verbatim, c => if c == '"' then .verbatimEnd else .verbatim
  | .verbatimEnd, c => if c == '"' then .verbatim else fresh false c
  | .interpolated isVerbatim place true, _ => .interpolated isVerbatim place false
  | .interpolated isVerbatim place false, c => interpolate isVerbatim place c
  | .brace isVerbatim, c =>
    if c == '\x7b' then .interpolated isVerbatim (.text 0) false
    else interpolate isVerbatim (.text 1) c
  | .interpolatedEnd, c =>
    if c == '"' then .interpolated true (.text 0) false else fresh false c

/-- The mode behind several characters. -/
def scan (m : Mode) (cs : List Char) : Mode := cs.foldl step m

@[simp] theorem scan_nil (m : Mode) : m.scan [] = m := rfl

@[simp] theorem scan_cons (m : Mode) (c : Char) (cs : List Char) :
    m.scan (c :: cs) = (m.step c).scan cs := rfl

@[simp] theorem scan_append (m : Mode) (cs ds : List Char) :
    m.scan (cs ++ ds) = (m.scan cs).scan ds := List.foldl_append

/-- Does the mode stand behind white space, a comment or a directive? -/
def isTrivia : Mode → Bool
  | .space _ | .line | .commentEnd => true
  | _ => false

/-- Does the mode stand behind a sign that may open a string? -/
def isSign : Mode → Bool
  | .atSign | .dollar | .atDollar | .dollarAt => true
  | _ => false

/-- Is the mode between two tokens, or may it be? -/
def isBetween : Mode → Bool
  | .space _ | .code | .slash | .commentEnd | .atSign | .dollar | .atDollar | .dollarAt
  | .verbatimEnd | .interpolatedEnd => true
  | _ => false

/-- The mode is ready for a piece that starts with these characters: nothing is open, unless it is
a line that ends here, and the first character is taken as if nothing stood in front.  Behind a
sign that came to nothing, another sign may follow that is not taken so; then no quote follows at
once, which alone would tell the difference. -/
def Opens (m : Mode) (lineStart : Bool) : List Char → Prop
  | [] => True
  | c :: cs => (m.isBetween = true ∨ isBlank c = true) ∧
      (m.step c = fresh lineStart c ∨
        (lineStart = false ∧ m.isSign = true ∧ (c = '@' ∨ c = '$') ∧ cs.head? ≠ some '"'))

/-- The mode is that behind a token that is no trivia, and ready for what follows. -/
def Rests (m : Mode) (rest : List Char) : Prop := m.isTrivia = false ∧ m.Opens false rest

theorem opens_code (rest : List Char) : code.Opens false rest := by
  cases rest with
  | nil => trivial
  | cons c cs => exact ⟨.inl rfl, .inl rfl⟩

theorem rests_code (rest : List Char) : code.Rests rest := ⟨rfl, opens_code rest⟩

/-! ## Characters that open nothing -/

/-- The characters of which comments and strings are opened. -/
def openers : List Char := ['/', '*', '"', '\'', '@', '$', '#']

/-- Is the character neither white space nor one of which a comment or string is opened? -/
def isPlain (c : Char) : Bool := !isBlank c && !openers.contains c

theorem fresh_of_isPlain {c : Char} (h : isPlain c = true) (lineStart : Bool) :
    fresh lineStart c = code := by
  simp only [isPlain, openers, Bool.and_eq_true, Bool.not_eq_true', List.contains_eq_mem,
    decide_eq_false_iff_not, List.mem_cons, List.not_mem_nil, or_false, not_or] at h
  obtain ⟨hblank, h₁, h₂, h₃, h₄, h₅, h₆, h₇⟩ := h
  unfold fresh
  rw [hblank]
  split
  · contradiction
  · split <;> first | rfl | contradiction

/-- A plain character opens nothing wherever it stands. -/
theorem step_of_isPlain {m : Mode} {c : Char} (hm : m.isBetween = true) (h : isPlain c = true) :
    m.step c = code := by
  have hfresh := fresh_of_isPlain h
  simp only [isPlain, openers, Bool.and_eq_true, Bool.not_eq_true', List.contains_eq_mem,
    decide_eq_false_iff_not, List.mem_cons, List.not_mem_nil, or_false, not_or] at h
  obtain ⟨hblank, h₁, h₂, h₃, h₄, h₅, h₆, h₇⟩ := h
  cases m <;> first | (simp [step, *]; done) | cases hm

/-- The code points of white space. -/
def blankCodes : List Nat :=
  [0x9, 0xA, 0xB, 0xC, 0xD, 0x20, 0x85, 0xA0, 0x1680, 0x2000, 0x2001, 0x2002, 0x2003, 0x2004,
    0x2005, 0x2006, 0x2007, 0x2008, 0x2009, 0x200A, 0x2028, 0x2029, 0x202F, 0x205F, 0x3000]

theorem mem_range_of_member {n a b : Nat} {borders : List Nat}
    (h : CodeRanges.member n (a :: b :: borders) false = true) :
    (a ≤ n ∧ n < b) ∨ CodeRanges.member n borders false = true := by
  simp only [CodeRanges.member] at h
  split_ifs at h with ha hb
  · exact .inl ⟨Nat.le_of_not_lt ha, hb⟩
  · exact .inr h

theorem toNat_mem_blankCodes {c : Char} (h : isBlank c = true) : c.toNat ∈ blankCodes := by
  have hmem {a b : Nat} (ha : a ≤ c.toNat) (hb : c.toNat < b)
      (hall : ∀ i < b - a, a + i ∈ blankCodes) : c.toNat ∈ blankCodes := by
    have := hall (c.toNat - a) (by omega)
    rwa [Nat.add_sub_cancel' ha] at this
  have h : CodeRanges.member c.toNat blankRanges.borders false = true := h
  iterate 10
    rcases mem_range_of_member h with ⟨ha, hb⟩ | h
    · exact hmem ha hb (by decide)
  cases h

theorem isPlain_of_isIdentifierContinue {c : Char} (h : isIdentifierContinue c = true) :
    isPlain c = true := by
  have hblank : isBlank c = false := by
    by_contra hb
    have hmem := toNat_mem_blankCodes (by simpa using hb)
    have hnone : ∀ n ∈ blankCodes, isIdentifierContinue (Char.ofNat n) = false := by
      decide +kernel
    have := hnone _ hmem
    rw [Char.ofNat_toNat, h] at this
    cases this
  have hopener : openers.any isIdentifierContinue = false := by decide
  simp only [isPlain, hblank, Bool.not_false, Bool.true_and, Bool.not_eq_true',
    List.contains_eq_mem, decide_eq_false_iff_not]
  exact fun hmem => List.any_eq_false.mp hopener c hmem h

theorem scan_plain {cs : List Char} (h : ∀ c ∈ cs, isPlain c = true) : code.scan cs = code := by
  induction cs with
  | nil => rfl
  | cons c cs ih =>
    rw [scan_cons, step, fresh_of_isPlain (h c List.mem_cons_self)]
    exact ih fun d hd => h d (List.mem_cons_of_mem _ hd)

end Mode

end LivePatch
