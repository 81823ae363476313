import LivePatch.Proofs.Scanning.Readings

/-!
# Modes along a list of tokens

A mode `Follows` a list of tokens when it stays in step with them: no token that the grammar sees
starts inside of a comment or string, and behind each token the mode tells whether the token was
trivia.  The tokens of a text are followed from its start (`follows_lex`), and so are the trees
that were read from it.

What makes the notion useful is that it survives a change in front.  A list that starts with a
token the grammar sees is followed from any mode that takes its first character as if nothing
stood in front (`Follows.restart`).
-/

namespace LivePatch

open Token (Divides textOf shift closingAngle)

namespace Mode

/-! ## Signs that come to nothing -/

/-- The two modes take every character alike, but for a quote behind signs. -/
structure Alike (m m' : Mode) : Prop where
  sign : m.isSign = m'.isSign
  between : m.isBetween = m'.isBetween
  step : ∀ c, (m.isSign = true → c ≠ '"') → m.step c = m'.step c

namespace Alike

variable {m m' m'' : Mode}

theorem refl (m : Mode) : Alike m m := ⟨rfl, rfl, fun _ _ => rfl⟩

theorem symm (h : Alike m m') : Alike m' m :=
  ⟨h.sign.symm, h.between.symm, fun c hc => (h.step c fun hm => hc (h.sign ▸ hm)).symm⟩

theorem trans (h : Alike m m') (k : Alike m' m'') : Alike m m'' := by
  refine ⟨h.sign.trans k.sign, h.between.trans k.between, fun c hc => ?_⟩
  rw [h.step c hc, k.step c fun hm => hc (h.sign ▸ hm)]

end Alike

theorem alike_commentEnd : Alike .code .commentEnd := ⟨rfl, rfl, fun _ _ => rfl⟩

theorem isBetween_of_isSign {m : Mode} (h : m.isSign = true) : m.isBetween = true := by
  cases m <;> first | rfl | cases h

theorem isTrivia_of_isSign {m : Mode} (h : m.isSign = true) : m.isTrivia = false := by
  cases m <;> first | rfl | cases h

/-- Behind a sign, another sign is taken almost as if nothing stood in front. -/
theorem alike_step_sign {m : Mode} {c : Char} (hm : m.isBetween = true) (hc : c = '@' ∨ c = '$') :
    (m.step c).isSign = true ∧ Alike (m.step c) (fresh false c) := by
  have hat : Alike .dollarAt .atSign := ⟨rfl, rfl, fun c hc => by simp [step, hc rfl]⟩
  have hdollar : Alike .atDollar .dollar := ⟨rfl, rfl, fun c hc => by simp [step, hc rfl]⟩
  rcases hc with rfl | rfl
  · cases m <;>
      first | exact ⟨rfl, .refl _⟩ | exact ⟨rfl, hat⟩ | cases hm
  · cases m <;>
      first | exact ⟨rfl, .refl _⟩ | exact ⟨rfl, hdollar⟩ | cases hm

/-- A quote behind signs opens another string than a quote by itself. -/
theorem step_quote_ne {m : Mode} (hm : m.isSign = true) (lineStart : Bool) :
    m.step '"' ≠ fresh lineStart '"' := by
  cases m <;> first | (cases lineStart <;> decide) | cases hm

/-- The mode takes the character `c`, with `cs` behind it, as if nothing stood in front, or as
good as. -/
def Starts (m : Mode) (c : Char) (cs : List Char) : Prop :=
  m.step c = fresh false c ∨ (m.isSign = true ∧ (c = '@' ∨ c = '$') ∧ cs.head? ≠ some '"')

variable {m m' : Mode} {c : Char} {cs : List Char}

theorem starts_code (c : Char) (cs : List Char) : code.Starts c cs := .inl rfl

theorem Starts.ne_quote (h : m.Starts c cs) (hm : m.isSign = true) : c ≠ '"' := by
  rintro rfl
  rcases h with h | ⟨-, h | h, -⟩
  · exact step_quote_ne hm false h
  · cases h
  · cases h

/-- Then what follows is scanned as from its own start. -/
theorem Starts.alike (h : m.Starts c cs) :
    Alike (m.scan (c :: cs)) ((fresh false c).scan cs) ∧
      (m.scan (c :: cs)).isTrivia = ((fresh false c).scan cs).isTrivia := by
  rw [scan_cons]
  rcases h with h | ⟨hsign, hc, hquote⟩
  · rw [h]
    exact ⟨.refl _, rfl⟩
  obtain ⟨hstep, halike⟩ := alike_step_sign (isBetween_of_isSign hsign) hc
  cases cs with
  | nil =>
    refine ⟨halike, ?_⟩
    rw [scan_nil, scan_nil, isTrivia_of_isSign hstep, isTrivia_of_isSign (halike.sign ▸ hstep)]
  | cons d ds =>
    have hd : d ≠ '"' := by
      rintro rfl
      exact hquote rfl
    rw [scan_cons, scan_cons, halike.step d fun _ => hd]
    exact ⟨.refl _, rfl⟩

/-! ## Following tokens -/

/-- The mode takes a token that starts with `c` and goes on with `cs`. -/
structure Takes (m : Mode) (trivia : Bool) (c : Char) (cs : List Char) : Prop where
  starts : trivia = false → m.isBetween = true ∧ m.Starts c cs
  front : trivia = true → isBlank c = true ∨ c = '/' ∨ c = '#'
  last : (m.scan (c :: cs)).isTrivia = trivia

/-- The mode takes a token; an empty one is no matter. -/
def Admits (m : Mode) (t : Token) : Prop :=
  ∀ c cs, t.text.toList = c :: cs → m.Takes t.isTrivia c cs

/-- The mode stays in step with the tokens. -/
def Follows : Mode → List Token → Prop
  | _, [] => True
  | m, t :: ts => m.Admits t ∧ (m.scan t.text.toList).Follows ts

variable {t : Token} {ts us : List Token}

theorem follows_append : m.Follows (ts ++ us) ↔
    m.Follows ts ∧ (m.scan (textOf ts).toList).Follows us := by
  induction ts generalizing m with
  | nil => simp [Follows]
  | cons t ts ih =>
    simp only [List.cons_append, Follows, ih, Token.textOf_cons, String.toList_append, scan_append,
      and_assoc]

/-- The mode behind the tokens tells whether the last one is trivia. -/
theorem Follows.isTrivia_last (h : m.Follows (ts ++ [t])) (ht : t.text ≠ "") :
    (m.scan (textOf (ts ++ [t])).toList).isTrivia = t.isTrivia := by
  obtain ⟨-, hadmits, -⟩ := follows_append.mp h
  rw [Token.textOf_append, String.toList_append, scan_append]
  cases htext : t.text.toList with
  | nil => exact absurd (String.toList_eq_nil_iff.mp htext) ht
  | cons c cs =>
    rw [Token.textOf_cons, Token.textOf_nil, String.append_empty, htext]
    exact (hadmits c cs htext).last

/-- The first character of a trivia token is no quote. -/
theorem Takes.ne_quote {trivia : Bool} (h : m.Takes trivia c cs) (hm : m.isSign = true) :
    c ≠ '"' := by
  cases trivia with
  | false => exact (h.starts rfl).2.ne_quote hm
  | true =>
    rintro rfl
    exact absurd (h.front rfl) (by decide)

/-- Two modes that are alike follow the same tokens. -/
theorem Follows.of_alike (h : m.Follows ts) (hm : Alike m m') : m'.Follows ts := by
  induction ts with
  | nil => trivial
  | cons t ts ih =>
    obtain ⟨hadmits, hrest⟩ := h
    cases htext : t.text.toList with
    | nil =>
      rw [htext] at hrest
      refine ⟨fun c cs hc => ?_, ?_⟩
      · rw [htext] at hc
        cases hc
      · rw [htext]
        exact ih hrest
    | cons c cs =>
      have htakes := hadmits c cs htext
      have hc := hm.step c htakes.ne_quote
      refine ⟨fun d ds hd => ?_, ?_⟩
      · rw [htext] at hd
        obtain ⟨rfl, rfl⟩ := List.cons.inj hd
        refine ⟨?_, htakes.front, ?_⟩
        · rw [Starts, ← hc, ← hm.sign, ← hm.between]
          exact htakes.starts
        · rw [scan_cons, ← hc]
          exact htakes.last
      · rw [htext, scan_cons, ← hc]
        rwa [htext, scan_cons] at hrest

/-- **A change in front.**  Tokens of which the grammar sees the first are followed from any mode
that takes its first character well. -/
theorem Follows.restart (h : m.Follows (t :: ts)) (ht : t.isTrivia = false)
    (htext : t.text.toList = c :: cs) (hm : m'.isBetween = true) (hc : m'.Starts c cs) :
    m'.Follows (t :: ts) := by
  obtain ⟨hadmits, hrest⟩ := h
  have htakes := hadmits c cs htext
  obtain ⟨halike, htrivia⟩ := (htakes.starts ht).2.alike
  obtain ⟨halike', htrivia'⟩ := hc.alike
  refine ⟨fun d ds hd => ?_, ?_⟩
  · rw [htext] at hd
    obtain ⟨rfl, rfl⟩ := List.cons.inj hd
    refine ⟨fun _ => ⟨hm, hc⟩, htakes.front, ?_⟩
    rw [htrivia', ← htrivia]
    exact htakes.last
  · rw [htext] at hrest ⊢
    exact hrest.of_alike (halike.trans halike'.symm)

/-- Half a shift is taken like the whole. -/
theorem Follows.of_divides (h : m.Follows ts) (hd : Divides ts us) : m.Follows us := by
  induction hd generalizing m with
  | nil => trivial
  | keep t _ ih => exact ⟨h.1, ih h.2⟩
  | divide _ ih =>
    obtain ⟨hadmits, hrest⟩ := h
    have hbetween := ((hadmits '>' ['>'] rfl).starts rfl).1
    have hplain : isPlain '>' = true := by decide
    have hangle {m : Mode} (hm : m.isBetween = true) : m.Admits closingAngle := by
      intro c cs hc
      obtain ⟨rfl, rfl⟩ : '>' = c ∧ [] = cs := List.cons.inj hc
      have hstep := step_of_isPlain hm hplain
      exact ⟨fun _ => ⟨hm, .inl (by rw [hstep]; rfl)⟩, nofun, by rw [scan_cons, hstep]; rfl⟩
    have hstep := step_of_isPlain hbetween hplain
    refine ⟨hangle hbetween, hangle ?_, ih hrest⟩
    show (m.step '>').isBetween = true
    rw [hstep]
    rfl

/-! ## The tokens of a text -/

open Lexer (piecesFrom lineStartAfter)

theorem piecesFrom_skip (lineStart : Bool) (skip : Nat) (cs : List Char) :
    piecesFrom lineStart skip cs = piecesFrom lineStart 0 (cs.drop skip) := by
  induction skip generalizing cs with
  | zero => rfl
  | succ skip ih =>
    cases cs with
    | nil => simp [piecesFrom]
    | cons c cs => rw [piecesFrom, ih, List.drop_succ_cons]

theorem isTrivia_token (outcome : Except LexicalFault Kind) (text : String) :
    (Lexer.Lexeme.token ⟨outcome, text⟩).isTrivia = isTriviaOutcome outcome := by
  cases outcome <;> rfl

/-- A piece that is no trivia starts with no white space, and with no directive. -/
theorem front_of_significant {lineStart : Bool}
    (h : isTriviaOutcome (Lexer.read lineStart c cs).outcome = false) :
    isBlank c = false ∧ (c = '#' → lineStart = false) := by
  constructor
  · by_contra hblank
    rw [Bool.not_eq_false] at hblank
    unfold Lexer.read at h
    rw [if_pos hblank] at h
    cases h
  · rintro rfl
    by_contra hstart
    rw [Bool.not_eq_false] at hstart
    subst hstart
    cases h

/-- What a mode that is ready for some characters makes of the first piece. -/
theorem Opens.takes {lineStart : Bool} (h : m.Opens lineStart (c :: cs)) :
    let r := Lexer.read lineStart c cs
    m.Takes (isTriviaOutcome r.outcome) c (cs.take r.more) ∧
      Alike (m.scan (c :: cs.take r.more)) ((fresh lineStart c).scan (cs.take r.more)) := by
  intro r
  obtain ⟨htrivia, -, hfront⟩ := scan_read lineStart c cs
  rcases h.2 with hstep | ⟨rfl, hsign, hc, hquote⟩
  · refine ⟨⟨fun hsig => ?_, hfront, ?_⟩, ?_⟩
    · obtain ⟨hblank, hhash⟩ := front_of_significant hsig
      refine ⟨h.1.resolve_right (by rw [hblank]; nofun), .inl ?_⟩
      rw [hstep, fresh_lineStart hblank hhash]
    · rw [scan_cons, hstep]
      exact htrivia
    · rw [scan_cons, hstep]
      exact .refl _
  · have hstarts : m.Starts c (cs.take r.more) := by
      refine .inr ⟨hsign, hc, fun hhead => hquote ?_⟩
      rw [List.head?_take] at hhead
      split at hhead
      · cases hhead
      · exact hhead
    obtain ⟨halike, htrivia'⟩ := hstarts.alike
    exact ⟨⟨fun _ => ⟨isBetween_of_isSign hsign, hstarts⟩, hfront, htrivia'.trans htrivia⟩, halike⟩

theorem Opens.of_alike {lineStart : Bool} (h : m.Opens lineStart cs) (hm : Alike m m') :
    m'.Opens lineStart cs := by
  cases cs with
  | nil => trivial
  | cons c cs =>
    refine ⟨hm.between ▸ h.1, ?_⟩
    have hquote : m.isSign = true → c ≠ '"' := by
      rintro hsign rfl
      rcases h.2 with h | ⟨-, -, h | h, -⟩
      · exact step_quote_ne hsign _ h
      · cases h
      · cases h
    rw [← hm.step c hquote, ← hm.sign]
    exact h.2

/-- The pieces of a text are followed, by induction on how much of it is left. -/
theorem Opens.follows {lineStart : Bool} (h : m.Opens lineStart cs) :
    m.Follows ((piecesFrom lineStart 0 cs).map Lexer.Lexeme.token) := by
  induction hn : cs.length using Nat.strongRecOn generalizing m lineStart cs with
  | _ n ih =>
    subst hn
    cases cs with
    | nil => trivial
    | cons c cs =>
      obtain ⟨htakes, halike⟩ := h.takes
      have hopens := (scan_read lineStart c cs).opens
      rw [piecesFrom, List.map_cons, piecesFrom_skip]
      generalize Lexer.read lineStart c cs = r at htakes halike hopens
      refine ⟨fun d ds hd => ?_, ?_⟩
      · obtain ⟨rfl, rfl⟩ : c = d ∧ cs.take r.more = ds := by
          simpa [Lexer.Lexeme.token] using hd
        rwa [isTrivia_token]
      · have hless : (cs.drop r.more).length < (c :: cs).length := by
          rw [List.length_drop, List.length_cons]
          omega
        simpa [Lexer.Lexeme.token] using ih _ hless (hopens.of_alike halike.symm) rfl

/-- **The tokens of a text** are followed from its start. -/
theorem follows_lex (source : String) : (space true).Follows (lex source) := by
  have hopens : (space true).Opens true source.toList := by
    cases source.toList with
    | nil => trivial
    | cons c cs => exact ⟨.inl rfl, .inl rfl⟩
  refine follows_append.mpr ⟨hopens.follows, ?_, trivial⟩
  intro c cs hc
  cases hc

end Mode

end LivePatch
