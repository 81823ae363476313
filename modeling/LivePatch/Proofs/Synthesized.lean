import LivePatch.Proofs.Edges
import LivePatch.Proofs.Losslessness
import LivePatch.Proofs.Scanning.Templates

/-!
# What a template reads as

A template that reads without a problem is one expression with trivia at most around it.  If it
opens nothing and ends neither in white space nor in a comment, then there is no such trivia: the
expression `Spells` the template, token by token.  How the template ends is read off the mode
behind it, so nothing has to be known about how its parts join up.
-/

namespace LivePatch

open Token (Divides Edges textOf endOfText widthOf)

/-- The tokens of a text without its end. -/
def lexed (source : String) : List Token := (Lexer.pieces source).map Lexer.Lexeme.token

theorem textOf_lexed (source : String) : textOf (lexed source) = source := by
  have hlex := textOf_lex source
  rw [lex, Token.textOf_append, Token.textOf_cons, Token.textOf_nil] at hlex
  simpa [endOfText, lexed] using hlex

theorem follows_lexed (source : String) : (Mode.space true).Follows (lexed source) :=
  (Mode.follows_append.mp (Mode.follows_lex source)).1

theorem isPiece_of_mem_lexed {source : String} {w : Token} (h : w ∈ lexed source) : w.IsPiece := by
  obtain ⟨l, hl, rfl⟩ := List.mem_map.mp h
  exact Lexer.Lexeme.isPiece_token hl

namespace Tree

theorem isTrivia_of_bare_eq_nil {ts : List Tree} (h : bare ts = []) :
    ∀ w ∈ leavesAll ts, w.isTrivia = true := by
  intro w hw
  obtain ⟨t, ht, hwt⟩ := mem_leavesAll.mp hw
  have htrivia : t.isTriviaToken = true := by
    by_contra hne
    have hmem : t ∈ bare ts := mem_bare.mpr ⟨ht, by simpa using hne⟩
    rw [h] at hmem
    cases hmem
  cases t with
  | node k parts => cases htrivia
  | token v =>
    obtain rfl : w = v := by simpa using hwt
    exact htrivia

/-- The trees around the one that is no trivia. -/
theorem exists_of_bare_eq_singleton {ts : List Tree} {t : Tree} (h : bare ts = [t]) :
    ∃ front back, ts = front ++ t :: back ∧ bare front = [] ∧ bare back = [] := by
  have hmem : t ∈ bare ts := by rw [h]; exact List.mem_singleton_self t
  obtain ⟨ht, hsolid⟩ := mem_bare.mp hmem
  obtain ⟨front, back, rfl⟩ := List.append_of_mem ht
  have hcons : bare (t :: back) = t :: bare back := by
    simp [bare, hsolid]
  rw [bare_append, hcons] at h
  have hlen := congrArg List.length h
  simp only [List.length_append, List.length_cons, List.length_nil] at hlen
  refine ⟨front, back, rfl, List.length_eq_zero_iff.mp ?_, List.length_eq_zero_iff.mp ?_⟩
  · omega
  · omega

/-- Trees that are all trivia are tokens. -/
theorem exists_tokens_of_bare_eq_nil {ts : List Tree} (h : bare ts = []) :
    ∃ ws : List Token, ts = ws.map .token ∧ ∀ w ∈ ws, w.isTrivia = true := by
  induction ts with
  | nil => exact ⟨[], rfl, List.forall_mem_nil _⟩
  | cons t ts ih =>
    cases t with
    | node k parts => cases h
    | token w =>
      have hw : w.isTrivia = true := by
        by_contra hne
        simp [bare, isTriviaToken, hne] at h
      obtain ⟨ws, rfl, hws⟩ := ih (by simpa [bare, isTriviaToken, hw] using h)
      exact ⟨w :: ws, rfl, List.forall_mem_cons.mpr ⟨hw, hws⟩⟩

end Tree

namespace Site

theorem partsFrom_append (s : Site) (index start : Nat) (ts us : List Tree) :
    s.partsFrom index start (ts ++ us) = s.partsFrom index start ts ++
      s.partsFrom (index + ts.length) (start + (ts.map Tree.width).sum) us := by
  induction ts generalizing index start with
  | nil => rfl
  | cons t ts ih => simp [partsFrom, ih, Nat.add_assoc, Nat.add_comm 1]

/-- Tokens are no nodes. -/
theorem nodes_partsFrom_tokens (s : Site) (index start : Nat) (ws : List Token) :
    (s.partsFrom index start (ws.map .token)).filter (·.tree.isNode) = [] := by
  induction ws generalizing index start with
  | nil => rfl
  | cons w ws ih => exact ih (index + 1) (start + w.width)

/-- The only node among tokens. -/
theorem nodes_root {k : Kind} {front back : List Token} {t : Tree} (ht : t.isNode = true) :
    (root (.node k (front.map .token ++ t :: back.map .token))).nodes =
      [⟨t, widthOf front,
        [⟨.node k (front.map .token ++ t :: back.map .token), 0, front.length⟩]⟩] := by
  have hwidth : ((front.map Tree.token).map Tree.width).sum = widthOf front := by
    rw [← Tree.widthOf_leavesAll, Tree.leavesAll_tokens]
  simp only [nodes, parts, root, Tree.children, partsFrom_append, partsFrom, List.filter_append,
    List.filter_cons, nodes_partsFrom_tokens, ht, if_true, hwidth, List.length_map, Nat.zero_add,
    List.nil_append]

end Site

/-! ## Reading a template -/

/-- What a template without problems reads as: one expression with something to show, and trivia
around it. -/
structure Synthesized (template : String) (made : Tree) : Prop where
  isNode : made.isNode = true
  isExpression : made.kind.isExpression = true
  isSolid : made.isSolid = true
  sound : made.Sound
  within : made.Within .quiet
  leaves : ∃ lead trail, (∀ w ∈ lead, w.isTrivia = true) ∧ (∀ w ∈ trail, w.isTrivia = true) ∧
    Divides (lexed template) (lead ++ made.leaves ++ trail)

/-- The tree that a template without problems reads as: the expression `made`, the trivia in front
of it and behind it, and the end of the text. -/
structure IsFragment (template : String) (lead : List Token) (made : Tree) (trail : List Token) :
    Prop where
  clean : (parseExpression template).diagnostics = []
  tree : (parseExpression template).tree =
    .node .expressionFragment (lead.map .token ++ made :: (trail ++ [endOfText]).map .token)
  before : ∀ w ∈ lead, w.isTrivia = true
  behind : ∀ w ∈ trail, w.isTrivia = true
  leaves : Divides (lexed template) (lead ++ made.leaves ++ trail)
  synthesized : Synthesized template made

/-- **A template without problems** reads as one expression. -/
theorem exists_fragment {template : String} (h : (parseExpression template).diagnostics = []) :
    ∃ lead made trail, IsFragment template lead made trail := by
  obtain ⟨s, y, gap, hlast⟩ := Grammar.exists_last_parseExpression template
  have hholds := hlast.holds
  obtain ⟨-, hdesc, hframe, hgap, -, htree, hdiag⟩ := hlast
  -- Without a problem there is one value in the frame.
  have hfound : s.found = [] := by
    rw [h] at hdiag
    exact List.reverse_eq_nil_iff.mp (List.append_eq_nil_iff.mp hdiag.symm).2
  obtain ⟨hshape, hlevel⟩ : y.shape = .value ∧ y.level = .quiet := by
    rcases hframe with hvalue | hnoted
    · exact hvalue
    · exact absurd hfound (hdesc.noted hnoted)
  have hfits := hdesc.shape
  rw [hshape] at hfits
  obtain ⟨k, parts, hbare, hk⟩ := hfits
  obtain ⟨hexpression, hsolid⟩ := hk.resolve_right fun hk => hk.2 hfound
  -- All that stands around it is trivia.
  obtain ⟨front, back, hbuilt, hfront, hback⟩ := Tree.exists_of_bare_eq_singleton hbare
  obtain ⟨lead, rfl, hlead⟩ := Tree.exists_tokens_of_bare_eq_nil hfront
  obtain ⟨trail, rfl, htrail⟩ := Tree.exists_tokens_of_bare_eq_nil hback
  have hin : Tree.node k parts ∈ s.built := by
    rw [← List.mem_reverse, hbuilt]
    exact List.mem_append_right _ List.mem_cons_self
  have hrest : ∀ w ∈ trail ++ gap, w.isTrivia = true := List.forall_mem_append.mpr ⟨htrail, hgap⟩
  have hroot : (parseExpression template).tree = .node .expressionFragment
      (lead.map .token ++ .node k parts :: (trail ++ gap ++ [endOfText]).map .token) := by
    rw [htree, hbuilt]
    simp
  have hleaves : Divides (lexed template) (lead ++ (Tree.node k parts).leaves ++ (trail ++ gap)) := by
    have hdiv : Divides (lexed template ++ [endOfText]) (parseExpression template).tree.leaves :=
      hholds.leaves
    obtain ⟨vs, hvs, hd⟩ := hdiv.concat (by decide)
    rw [hroot] at hvs
    have hsame : lead ++ (Tree.node k parts).leaves ++ (trail ++ gap) ++ [endOfText] =
        vs ++ [endOfText] := by
      rw [← hvs]
      simp
    rw [List.append_cancel_right hsame]
    exact hd
  exact ⟨lead, .node k parts, trail ++ gap, h, hroot, hlead, hrest, hleaves,
    rfl, hexpression, hsolid, hdesc.sound _ hin, hlevel ▸ hdesc.within _ hin,
    lead, trail ++ gap, hlead, hrest, hleaves⟩

namespace IsFragment

variable {template : String} {lead trail : List Token} {made : Tree}

/-- The place of the expression: behind the trivia in front of it. -/
def site (template : String) (lead : List Token) (made : Tree) : Site :=
  ⟨made, widthOf lead, [⟨(parseExpression template).tree, 0, lead.length⟩]⟩

/-- The expression is the only node. -/
theorem nodes_eq (h : IsFragment template lead made trail) :
    (Site.root (parseExpression template).tree).nodes = [site template lead made] := by
  rw [site, h.tree]
  exact Site.nodes_root h.synthesized.isNode

/-- It is what the template is made into. -/
theorem synthesize_eq (h : IsFragment template lead made trail) :
    synthesize template = .ok made := by
  have hexpression : (Site.root (parseExpression template).tree).expression? =
      some (site template lead made) := by
    have hkind : (site template lead made).kind.isExpression = true := h.synthesized.isExpression
    simp only [Site.expression?, Site.expressions, Site.nodesWith, h.nodes_eq, List.filter_cons,
      hkind, if_true, List.head?_cons]
  simp only [synthesize, h.clean, hexpression, site]

end IsFragment

theorem synthesize_of_problem {template : String} {d : Diagnostic} {ds : List Diagnostic}
    (h : (parseExpression template).diagnostics = d :: ds) :
    synthesize template = .error (.synthesis template (.rejected d.problem)) := by
  simp only [synthesize, h]

theorem synthesized_of_ok {template : String} {made : Tree} (h : synthesize template = .ok made) :
    Synthesized template made := by
  cases hproblems : (parseExpression template).diagnostics with
  | nil =>
    obtain ⟨lead, made', trail, hfragment⟩ := exists_fragment hproblems
    have hmade : made' = made := Except.ok.inj (hfragment.synthesize_eq.symm.trans h)
    exact hmade ▸ hfragment.synthesized
  | cons d ds =>
    rw [synthesize_of_problem hproblems] at h
    cases h

/-! ## Spelling a template -/

/-- The tree consists of the tokens of the template, and starts and ends with one that the grammar
sees. -/
structure Tree.Spells (made : Tree) (template : String) : Prop where
  leaves : Divides (lexed template) made.leaves
  edges : Edges made.leaves [] made.leaves []

namespace Tree.Spells

variable {made : Tree} {template : String}

theorem text_eq (h : made.Spells template) : made.text = template := by
  rw [Tree.text, h.leaves.textOf_eq, textOf_lexed]

theorem coreText_eq (h : made.Spells template) : made.coreText = template := by
  rw [Tree.coreText, Tree.coreLeaves_of_edges h.edges]
  exact h.text_eq

theorem isPiece (h : made.Spells template) : ∀ w ∈ made.leaves, w.IsPiece :=
  h.leaves.forall_mem Token.isPiece_closingAngle fun _ hw => isPiece_of_mem_lexed hw

theorem follows (h : made.Spells template) : (Mode.space true).Follows made.leaves :=
  (follows_lexed template).of_divides h.leaves

end Tree.Spells

/-- The first token of a text that opens nothing is one that the grammar sees. -/
theorem isTrivia_first {ts : List Token} {w : Token} {template : String}
    (hfollows : (Mode.space true).Follows (w :: ts)) (htext : textOf (w :: ts) = template)
    (hw : w.text ≠ "") (hopens : Mode.OpensNothing template.toList) : w.isTrivia = false := by
  cases hchars : w.text.toList with
  | nil => exact absurd (String.toList_eq_nil_iff.mp hchars) hw
  | cons c cs =>
    have hfront := (hfollows.1 c cs hchars).front
    rw [← htext, Token.textOf_cons, String.toList_append, hchars, List.cons_append] at hopens
    by_contra htrivia
    rw [Bool.not_eq_false] at htrivia
    rcases hopens with hplain | ⟨rfl, -⟩
    · rcases hfront htrivia with hblank | rfl | rfl
      · simp [Mode.isPlain, hblank] at hplain
      · exact absurd hplain (by decide)
      · exact absurd hplain (by decide)
    · exact absurd (hfront htrivia) (by decide)

/-- **A template is spelled** by what it reads as, when it opens nothing and the mode behind it
is that of no trivia. -/
theorem Synthesized.spells {template : String} {made : Tree} (h : Synthesized template made)
    (hopens : Mode.OpensNothing template.toList)
    (hends : ((Mode.space true).scan template.toList).isTrivia = false) :
    made.Spells template := by
  obtain ⟨lead, trail, hlead, htrail, hdiv⟩ := h.leaves
  have hfollows := (follows_lexed template).of_divides hdiv
  have htext : textOf (lead ++ made.leaves ++ trail) = template := by
    rw [hdiv.textOf_eq, textOf_lexed]
  have hpiece : ∀ w ∈ lead ++ made.leaves ++ trail, w.IsPiece :=
    hdiv.forall_mem Token.isPiece_closingAngle fun _ hw => isPiece_of_mem_lexed hw
  obtain ⟨w₀, hw₀, -⟩ := Tree.isSolid_iff.mp h.isSolid
  have hne : made.leaves ≠ [] := List.ne_nil_of_mem hw₀
  -- The first token is no trivia, so nothing stands in front of the tree.
  obtain rfl : lead = [] := by
    cases lead with
    | nil => rfl
    | cons w lead =>
      have hfirst := isTrivia_first hfollows htext (hpiece w (by simp)).ne_empty hopens
      rw [hlead w List.mem_cons_self] at hfirst
      cases hfirst
  -- Nor is the last one, so nothing stands behind it.
  obtain rfl : trail = [] := by
    rcases List.eq_nil_or_concat' trail with rfl | ⟨front, w, rfl⟩
    · rfl
    rw [← List.append_assoc] at hfollows
    have hlast := hfollows.isTrivia_last (hpiece w (by simp)).ne_empty
    rw [List.append_assoc, htext, hends, htrail w (by simp)] at hlast
    cases hlast
  rw [List.nil_append, List.append_nil] at hdiv hfollows htext hpiece
  refine ⟨hdiv, by simp, List.forall_mem_nil _, List.forall_mem_nil _, ?_, ?_⟩
  · obtain ⟨w, ts, hleaves⟩ := List.exists_cons_of_ne_nil hne
    rw [hleaves] at hfollows htext hpiece
    have hw := (hpiece w List.mem_cons_self).ne_empty
    exact ⟨w, ts, hleaves, isTrivia_first hfollows htext hw hopens⟩
  · rcases List.eq_nil_or_concat' made.leaves with hnil | ⟨front, w, hleaves⟩
    · exact absurd hnil hne
    rw [hleaves] at hfollows htext hpiece
    have hlast := hfollows.isTrivia_last (hpiece w (by simp)).ne_empty
    rw [htext, hends] at hlast
    exact ⟨front, w, hleaves, hlast.symm⟩

end LivePatch
