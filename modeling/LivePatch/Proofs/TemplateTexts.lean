import LivePatch.Proofs.TokenPlaces

/-!
# What a template is made into

A template that has problems is refused with the first of them.  One without problems is the text
of one expression: nothing else that the grammar sees is in it, so the expression has the text
from the first word of the template to the last.

Where the words of the template stand is computed from its tokens, while the expression holds the
leaves of a tree, among which shifts may be divided.  Division leaves the trivia at both ends alone
(`Token.Divides.edges`), and that is all that the span of the words depends on.
-/

namespace LivePatch

open Token (Divides Edges endOfText textOf widthOf)

/-! ## The words of a text -/

/-- Is the token a word of a text, neither trivia nor the end? -/
def Token.isWritten (t : Token) : Bool := t.isSignificant && t.kind != .eof

/-- The places of the words of a text, in order. -/
def wordPlaces (source : String) : List Span :=
  ((Token.spans 0 (lex source)).filter (·.1.isWritten)).map Prod.snd

/-- The bytes of a text from the start of its first word to the end of its last one.  A text of
trivia has none. -/
def wordsSpan? (source : String) : Option Span := do
  let first ← (wordPlaces source).head?
  let last ← (wordPlaces source).getLast?
  return ⟨first.start, last.stop⟩

namespace Token

variable {ts us lead core trail : List Token}

/-! ## Dividing shifts between trivia -/

theorem Divides.reverse (h : Divides ts us) : Divides ts.reverse us.reverse := by
  induction h with
  | nil => exact .nil
  | keep t _ ih => simpa using ih.append (.refl [t])
  | divide _ ih => simpa using ih.append (.divide .nil)

/-- Trivia has not come from a shift. -/
theorem Divides.of_cons {t : Token} (ht : t.isTrivia = true) (h : Divides ts (t :: us)) :
    ∃ vs, ts = t :: vs ∧ Divides vs us := by
  cases h with
  | keep _ h => exact ⟨_, rfl, h⟩
  | divide h => exact absurd ht (by decide)

/-- Trivia in front stands in front before shifts are divided. -/
theorem Divides.exists_behind (hlead : ∀ t ∈ lead, t.isTrivia = true)
    (h : Divides ts (lead ++ us)) : ∃ vs, ts = lead ++ vs ∧ Divides vs us := by
  induction lead generalizing ts with
  | nil => exact ⟨ts, rfl, h⟩
  | cons t lead ih =>
    obtain ⟨ht, hlead⟩ := List.forall_mem_cons.mp hlead
    obtain ⟨rest, rfl, hrest⟩ := h.of_cons ht
    obtain ⟨vs, rfl, hvs⟩ := ih hlead hrest
    exact ⟨vs, rfl, hvs⟩

/-- And trivia at the end stands at the end. -/
theorem Divides.exists_before (htrail : ∀ t ∈ trail, t.isTrivia = true)
    (h : Divides ts (us ++ trail)) : ∃ vs, ts = vs ++ trail ∧ Divides vs us := by
  have hback : Divides ts.reverse (trail.reverse ++ us.reverse) := by simpa using h.reverse
  obtain ⟨vs, hts, hvs⟩ := hback.exists_behind fun t ht => htrail t (List.mem_reverse.mp ht)
  exact ⟨vs.reverse, by simpa using congrArg List.reverse hts, by simpa using hvs.reverse⟩

/-- A shift is no trivia, and neither are its halves. -/
theorem Divides.first (h : Divides ts us) (hfirst : ∃ t rest, us = t :: rest ∧ t.isTrivia = false) :
    ∃ t rest, ts = t :: rest ∧ t.isTrivia = false := by
  obtain ⟨t, rest, rfl, ht⟩ := hfirst
  cases h with
  | keep _ h => exact ⟨t, _, rfl, ht⟩
  | divide h => exact ⟨shift, _, rfl, rfl⟩

/-- **Edges of divided tokens.**  The same trivia stands around the core before shifts are divided. -/
theorem Divides.edges (h : Divides ts us) (e : Edges us lead core trail) :
    ∃ whole, Edges ts lead whole trail ∧ Divides whole core := by
  rw [e.eq, List.append_assoc] at h
  obtain ⟨vs, rfl, hvs⟩ := h.exists_behind e.lead
  obtain ⟨whole, rfl, hwhole⟩ := hvs.exists_before e.trail
  have hfirst := hwhole.first e.first
  have hlast := hwhole.reverse.first e.reverse.first
  refine ⟨whole, ⟨by rw [List.append_assoc], e.lead, e.trail, hfirst, ?_⟩, hwhole⟩
  obtain ⟨t, rest, hrest, ht⟩ := hlast
  exact ⟨rest.reverse, t, by simpa using congrArg List.reverse hrest, ht⟩

/-- More trivia around tokens. -/
theorem Edges.around {front back : List Token} (e : Edges ts lead core trail)
    (hfront : ∀ t ∈ front, t.isTrivia = true) (hback : ∀ t ∈ back, t.isTrivia = true) :
    Edges (front ++ ts ++ back) (front ++ lead) core (trail ++ back) where
  eq := by simp [e.eq]
  lead := List.forall_mem_append.mpr ⟨hfront, e.lead⟩
  trail := List.forall_mem_append.mpr ⟨e.trail, hback⟩
  first := e.first
  last := e.last

/-! ## The places of words -/

theorem filter_spans_of_trivia (start : Nat) (h : ∀ t ∈ ts, t.isTrivia = true) :
    (spans start ts).filter (·.1.isWritten) = [] := by
  induction ts generalizing start with
  | nil => rfl
  | cons t ts ih =>
    obtain ⟨ht, hts⟩ := List.forall_mem_cons.mp h
    rw [spans, List.filter_cons_of_neg (by simp [isWritten, isSignificant, ht]), ih _ hts]

end Token

variable {source template : String} {lead core trail : List Token} {made : Tree}

/-- The words of a text are those of its core. -/
theorem wordPlaces_of_edges (e : Edges (lexed source) lead core trail) :
    wordPlaces source =
      ((Token.spans (widthOf lead) core).filter (·.1.isWritten)).map Prod.snd := by
  have hlex : lex source = lead ++ (core ++ (trail ++ [endOfText])) := by
    rw [show lex source = lexed source ++ [endOfText] from rfl, e.eq]
    simp
  rw [wordPlaces, hlex]
  simp only [Token.spans_append, List.filter_append, Token.filter_spans_of_trivia _ e.lead,
    Token.filter_spans_of_trivia _ e.trail, Nat.zero_add, List.nil_append]
  rw [show (Token.spans _ [endOfText]).filter (·.1.isWritten) = [] from rfl,
    List.append_nil]

/-- **The span of the words** of a text is that of its core. -/
theorem wordsSpan?_of_edges (e : Edges (lexed source) lead core trail) :
    wordsSpan? source = some ⟨widthOf lead, widthOf lead + widthOf core⟩ := by
  have hword : ∀ t ∈ core, t.isTrivia = false → t.isWritten = true := by
    intro t ht hshown
    have hmem : t ∈ lexed source := by simp [e.eq, ht]
    simp [Token.isWritten, Token.isSignificant, hshown, (isPiece_of_mem_lexed hmem).ne_eof]
  obtain ⟨t, rest, hfirst, ht⟩ := e.first
  obtain ⟨front, u, hlast, hu⟩ := e.last
  have hhead : (wordPlaces source).head? = some (.ofText (widthOf lead) t.text) := by
    have htword := hword t (by simp [hfirst]) ht
    simp [wordPlaces_of_edges e, hfirst, Token.spans, htword]
  have hend : (wordPlaces source).getLast? =
      some (.ofText (widthOf lead + widthOf front) u.text) := by
    have huword := hword u (by simp [hlast]) hu
    simp [wordPlaces_of_edges e, hlast, Token.spans_append, Token.spans, huword]
  have hwidth : widthOf lead + widthOf front + u.text.utf8ByteSize =
      widthOf lead + widthOf core := by
    simp [hlast, Token.width, Nat.add_assoc]
  simp only [wordsSpan?, hhead, hend, Span.ofText, hwidth]
  rfl

/-! ## The expression of a template -/

namespace IsFragment

/-- **The place and the text of the expression.**  Its core stands where the words of the template
do and is what the template holds there. -/
theorem words (h : IsFragment template lead made trail) :
    ∃ span, wordsSpan? template = some span ∧ (site template lead made).coreSpan = span ∧
      span.slice? template.toList = some made.coreText.toList := by
  have hedges := Tree.edges_of_isSolid h.synthesized.isSolid
  have hall := hedges.around h.before h.behind
  obtain ⟨whole, e, hdiv⟩ := h.leaves.edges hall
  have hwidth : widthOf whole = widthOf made.coreLeaves := hdiv.widthOf_eq.symm
  refine ⟨_, wordsSpan?_of_edges e, ?_, ?_⟩
  · rw [Site.coreSpan_of_edges (n := site template lead made) hedges, hwidth, site]
    simp
  · have htext : template.toList = (textOf (lead ++ made.leadingTrivia)).toList ++
        (made.coreText.toList ++ (textOf (made.trailingTrivia ++ trail)).toList) := by
      rw [← textOf_lexed template, e.eq, Tree.coreText, hdiv.textOf_eq]
      simp
    rw [htext, hwidth, ← byteLength_textOf, ← byteLength_textOf]
    exact Span.slice?_append _ _ _

end IsFragment

/-- **A template is made into its only expression, or refused with its first problem.**  Nothing
else can happen: a template without problems always has an expression, and no other node stands
beside it.  The text of the expression without the trivia at its ends is the template from its
first word to its last. -/
theorem synthesize_decided (template : String) :
    ((∃ e, synthesize template = .error e) ↔ (parseExpression template).diagnostics ≠ []) ∧
      (∀ e, synthesize template = .error e → ∃ d ds,
        (parseExpression template).diagnostics = d :: ds ∧
          e = .synthesis template (.rejected d.problem)) ∧
      (∀ t, synthesize template ≠ .error (.synthesis t .noExpression)) ∧
      ∀ made, synthesize template = .ok made → made.kind.isExpression = true ∧
        ∃ site span, (Site.root (parseExpression template).tree).nodes = [site] ∧
          site.tree = made ∧ wordsSpan? template = some span ∧ site.coreSpan = span ∧
          span.slice? template.toList = some made.coreText.toList := by
  cases hproblems : (parseExpression template).diagnostics with
  | cons d ds =>
    rw [synthesize_of_problem hproblems]
    refine ⟨⟨fun _ => List.cons_ne_nil d ds, fun _ => ⟨_, rfl⟩⟩, ?_, ?_, ?_⟩
    · intro e he
      exact ⟨d, ds, rfl, (Except.error.inj he).symm⟩
    · intro t he
      cases Except.error.inj he
    · intro made hmade
      cases hmade
  | nil =>
    obtain ⟨lead, made, trail, h⟩ := exists_fragment hproblems
    rw [h.synthesize_eq]
    refine ⟨⟨?_, fun hne => absurd rfl hne⟩, ?_, ?_, ?_⟩
    · rintro ⟨e, he⟩
      cases he
    · intro e he
      cases he
    · intro t he
      cases he
    · intro made' hmade
      obtain rfl : made = made' := Except.ok.inj hmade
      obtain ⟨span, hspan, hplace, htext⟩ := h.words
      exact ⟨h.synthesized.isExpression, _, span, h.nodes_eq, rfl, hspan, hplace, htext⟩

/-- A conversion between trivia.  Its last token is a shift, of which the tree has the halves. -/
def spacedConversion : String := "/*c*/ x as A<B<C>> "

theorem synthesize_decided_spacedConversion :
    ∃ made site, synthesize spacedConversion = .ok made ∧ made.kind.isExpression = true ∧
      (Site.root (parseExpression spacedConversion).tree).nodes = [site] ∧ site.tree = made ∧
      wordsSpan? spacedConversion = some ⟨6, 18⟩ ∧ site.coreSpan = ⟨6, 18⟩ ∧
      made.coreText = "x as A<B<C>>" := by
  obtain ⟨hrefused, -, -, hmade⟩ := synthesize_decided spacedConversion
  obtain ⟨hclean, hwords, hslice⟩ : (parseExpression spacedConversion).diagnostics = [] ∧
      wordsSpan? spacedConversion = some ⟨6, 18⟩ ∧
      Span.slice? ⟨6, 18⟩ spacedConversion.toList = some "x as A<B<C>>".toList := by
    decide +kernel
  cases hresult : synthesize spacedConversion with
  | error e => exact absurd hclean (hrefused.mp ⟨e, hresult⟩)
  | ok made =>
    obtain ⟨hexpression, site, span, hnodes, htree, hspan, hplace, htext⟩ := hmade made hresult
    obtain rfl : ⟨6, 18⟩ = span := Option.some.inj (hwords.symm.trans hspan)
    rw [hslice] at htext
    have hcore : made.coreText = "x as A<B<C>>" := String.toList_inj.mp (Option.some.inj htext).symm
    exact ⟨made, site, rfl, hexpression, hnodes, htree, hwords, hplace, hcore⟩

/-- What is left over behind an expression is a problem. -/
example : synthesize "A." =
    .error (.synthesis "A." (.rejected (.unexpected "input after expression"))) := by
  decide +kernel

end LivePatch
