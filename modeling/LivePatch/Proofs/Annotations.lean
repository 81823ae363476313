import LivePatch.Proofs.Commutation
import LivePatch.Proofs.Cutting.Seams

/-!
# Comments behind grafts

If comments are asked for, then each graft has the comment of its rule behind it.  Two lists of
tokens that differ in this alone are `Annotated`.  Since the lexer cuts behind a graft anyway, and
since no two names stand side by side, their texts are cut into the same pieces, such comments
apart (`Annotated.samePieces`).
-/

namespace LivePatch

open Lexer (Sealed EndsWord Lexeme piecesFrom)
open Token (Leafy Replaces charsOf lineStartOf Edges)

/-! ## Comments of rules -/

/-- Is the token the comment of a rule? -/
def Token.isRuleComment (w : Token) : Bool :=
  w.kind == .blockComment && PatchRule.all.any (·.comment == w.text)

theorem Token.isTrivia_of_isRuleComment {w : Token} (h : w.isRuleComment = true) :
    w.isTrivia = true := by
  rw [isTrivia, beq_iff_eq.mp (Bool.and_eq_true_iff.mp h).1]
  rfl

theorem Tree.isRuleComment_of_mem_mark {comments : Bool} {rule : PatchRule} {w : Token}
    (h : w ∈ mark comments rule) : w.isRuleComment = true := by
  rw [eq_of_mem_mark h]
  cases rule <;> simp [Token.isRuleComment, PatchRule.all]

namespace Lexer

/-- The pieces are the same, comments of rules apart. -/
def SamePieces (ls ms : List Lexeme) : Prop :=
  ls.filter (!·.token.isRuleComment) = ms.filter (!·.token.isRuleComment)

theorem SamePieces.append {ls ms ls' ms' : List Lexeme} (h : SamePieces ls ms)
    (h' : SamePieces ls' ms') : SamePieces (ls ++ ls') (ms ++ ms') := by
  rw [SamePieces, List.filter_append, List.filter_append, h, h']

/-- The comment of a rule changes nothing. -/
theorem samePieces_mark (comments : Bool) (rule : PatchRule) (rest : List Char) :
    SamePieces (piecesFrom false 0 (charsOf (Tree.mark comments rule) ++ rest))
      (piecesFrom false 0 rest) := by
  have hstart : lineStartOf false (Tree.mark comments rule) = false := by cases comments <;> rfl
  rw [Token.piecesFrom_append (Token.lexes_mark comments rule), hstart]
  have hmark : ((Tree.mark comments rule).map fun t => Lexeme.mk (.ok t.kind) t.text).filter
      (!·.token.isRuleComment) = [] := by
    refine List.filter_eq_nil_iff.mpr fun l hl => ?_
    obtain ⟨w, hw, rfl⟩ := List.mem_map.mp hl
    have hcomment : (Lexeme.mk (.ok w.kind) w.text).token.isRuleComment = true :=
      Tree.isRuleComment_of_mem_mark hw
    simp [hcomment]
  rw [SamePieces, List.filter_append, hmark, List.nil_append]

end Lexer

open Lexer (SamePieces)

/-! ## Annotated tokens -/

namespace Token

/-- Both lists are the first one, which stands behind `before`, with the same tokens in place of
some words.  Each of these satisfies `R`, and in the first list the comment of a rule may stand
behind them. -/
inductive Annotated (R : List Token → Token → List Token → Prop) :
    List Token → List Token → List Token → List Token → Prop
  | nil (before : List Token) : Annotated R before [] [] []
  | keep {before ts us vs : List Token} (w : Token) : Annotated R (before ++ [w]) ts us vs →
      Annotated R before (w :: ts) (w :: us) (w :: vs)
  | graft {before new ts us vs : List Token} {w : Token} (comments : Bool) (rule : PatchRule) :
      R before w new → Annotated R (before ++ [w]) ts us vs →
      Annotated R before (w :: ts) (new ++ (Tree.mark comments rule ++ us)) (new ++ vs)

namespace Annotated

variable {R : List Token → Token → List Token → Prop}
  {before ts us vs ts' us' vs' after : List Token}

theorem refl (before ts : List Token) : Annotated R before ts ts ts := by
  induction ts generalizing before with
  | nil => exact .nil before
  | cons w ts ih => exact .keep w (ih _)

theorem append (h : Annotated R before ts us vs) (k : Annotated R (before ++ ts) ts' us' vs') :
    Annotated R before (ts ++ ts') (us ++ us') (vs ++ vs') := by
  induction h with
  | nil => simpa using k
  | keep w _ ih => exact .keep w (ih (by simpa using k))
  | graft comments rule hR _ ih =>
    rw [List.append_assoc, List.append_assoc, List.append_assoc]
    exact .graft comments rule hR (ih (by simpa using k))

/-- What becomes of two neighbouring lists. -/
theorem of_append (h : Annotated R before (ts ++ ts') us vs) :
    ∃ us₁ us₂ vs₁ vs₂, us = us₁ ++ us₂ ∧ vs = vs₁ ++ vs₂ ∧ Annotated R before ts us₁ vs₁ ∧
      Annotated R (before ++ ts) ts' us₂ vs₂ := by
  induction ts generalizing before us vs with
  | nil => exact ⟨[], us, [], vs, rfl, rfl, .nil before, by simpa using h⟩
  | cons w ts ih =>
    cases h with
    | keep _ h =>
      obtain ⟨us₁, us₂, vs₁, vs₂, rfl, rfl, hts, hts'⟩ := ih h
      exact ⟨w :: us₁, us₂, w :: vs₁, vs₂, rfl, rfl, .keep w hts, by simpa using hts'⟩
    | @graft _ new _ _ _ _ comments rule hR h =>
      obtain ⟨us₁, us₂, vs₁, vs₂, rfl, rfl, hts, hts'⟩ := ih h
      exact ⟨new ++ (Tree.mark comments rule ++ us₁), us₂, new ++ vs₁, vs₂, by simp, by simp,
        .graft comments rule hR hts, by simpa using hts'⟩

/-- What the grafts of annotated tokens have to satisfy: the tokens stand in place of a word, they
have no trivia at their ends, and behind a word with a graft no other than `this` has one. -/
structure Grafted (R : List Token → Token → List Token → Prop) : Prop where
  edges : ∀ {before w new}, R before w new → w.isTrivia = false ∧ Edges new [] new []
  replaces : ∀ {before w new}, R before w new → ∃ ts, Replaces w ts ∧ charsOf new = charsOf ts
  apart : ∀ {before w new w' new'}, R before w new → R (before ++ [w]) w' new' → w' = this

/-- The text behind a graft does not go on with a letter. -/
theorem endsWord (hR : Grafted R) {w : Token} {new : List Token} (hw : R before w new)
    (h : Annotated R (before ++ [w]) ts us vs) {lineStart : Bool} {rest tail : List Char}
    (hleafy : Leafy lineStart (w :: (ts ++ after)) rest) (htail : EndsWord tail) :
    EndsWord (charsOf us ++ tail) ∧ EndsWord (charsOf vs ++ tail) := by
  obtain ⟨_, hreplaces, -⟩ := hR.replaces hw
  have hword := hreplaces.isCutWord
  have hcut : w.Cut lineStart (charsOf (ts ++ after) ++ rest) := by
    refine hleafy.1.resolve_left fun hangles => ?_
    obtain ⟨c, cs, htext, hc⟩ := hword.exists_head
    simp only [isAngles, htext, List.all_cons, isAngle_of_isHead hc, Bool.false_and,
      Bool.and_false] at hangles
    cases hangles
  have hnext := hcut.next_of_isWord hword.isWord
  cases h with
  | nil => exact ⟨htail, htail⟩
  | @keep _ ts us vs v _ =>
    have hne : v.text ≠ "" := hleafy.2.1.elim ne_empty_of_isAngles Cut.ne_empty
    obtain ⟨c, cs, htext⟩ := List.exists_cons_of_ne_nil (mt String.toList_eq_nil_iff.mp hne)
    rw [List.cons_append, charsOf_cons, htext] at hnext
    simp only [EndsWord, charsOf_cons, htext]
    exact ⟨hnext, hnext⟩
  | graft _ _ hw' _ =>
    -- The word would go on with the letters of `this`.
    rw [hR.apart hw hw', List.cons_append, charsOf_cons, List.append_assoc] at hnext
    have hletter : true = false := hnext
    cases hletter

/-- Annotated tokens begin with a word if the original does. -/
theorem exists_first (hR : Grafted R) (h : Annotated R before ts us vs)
    (hts : ∃ t rest, ts = t :: rest ∧ t.isTrivia = false) :
    (∃ t rest, us = t :: rest ∧ t.isTrivia = false) ∧
      ∃ t rest, vs = t :: rest ∧ t.isTrivia = false := by
  obtain ⟨t, rest, rfl, ht⟩ := hts
  cases h with
  | keep _ _ => exact ⟨⟨t, _, rfl, ht⟩, t, _, rfl, ht⟩
  | graft _ _ hw _ =>
    obtain ⟨u, new, rfl, hu⟩ := (hR.edges hw).2.first
    exact ⟨⟨u, _, rfl, hu⟩, u, _, rfl, hu⟩

/-- Trivia is kept. -/
theorem eq_of_isTrivia (hR : Grafted R) (h : Annotated R before ts us vs)
    (hts : ∀ t ∈ ts, t.isTrivia = true) : ts = us ∧ ts = vs := by
  induction h with
  | nil => exact ⟨rfl, rfl⟩
  | keep w _ ih =>
    obtain ⟨rfl, rfl⟩ := ih fun v hv => hts v (List.mem_cons_of_mem _ hv)
    exact ⟨rfl, rfl⟩
  | graft _ _ hw _ _ =>
    have htrivia := hts _ List.mem_cons_self
    rw [(hR.edges hw).1] at htrivia
    cases htrivia

/-- Annotated tokens end with a word if the original does, or with a comment behind it. -/
theorem exists_last (hR : Grafted R) {t : Token} (ht : t.isTrivia = false)
    (h : Annotated R before (ts ++ [t]) us vs) :
    ∃ comments rule us', us = us' ++ Tree.mark comments rule ∧
      Annotated R before (ts ++ [t]) us' vs ∧ (∃ front u, us' = front ++ [u] ∧ u.isTrivia = false) ∧
      ∃ front u, vs = front ++ [u] ∧ u.isTrivia = false := by
  obtain ⟨us, _, vs, _, rfl, rfl, hfront, hend⟩ := h.of_append
  cases hend with
  | keep _ hnil =>
    cases hnil
    exact ⟨false, .thisArgument, us ++ [t], by simp [Tree.mark], hfront.append (.refl _ _),
      ⟨us, t, rfl, ht⟩, vs, t, rfl, ht⟩
  | @graft _ new _ _ _ _ comments rule hw hnil =>
    cases hnil
    obtain ⟨front, u, hnew, hu⟩ := (hR.edges hw).2.last
    have hplain := Annotated.graft false rule hw (.nil (before ++ ts ++ [t]))
    rw [Tree.mark, if_neg Bool.false_ne_true, List.nil_append, List.append_nil] at hplain
    rw [List.append_nil, List.append_nil]
    exact ⟨comments, rule, us ++ new, by simp, hfront.append hplain,
      ⟨us ++ front, u, by simp [hnew], hu⟩, vs ++ front, u, by simp [hnew], hu⟩

/-- **The edges of annotated tokens** are those of the original, with a comment at most. -/
theorem exists_edges (hR : Grafted R) (h : Annotated R before ts us vs)
    {lead core trail : List Token} (hts : Edges ts lead core trail) :
    ∃ comments rule core₁ core₂, Edges us lead core₁ (Tree.mark comments rule ++ trail) ∧
      Edges vs lead core₂ trail ∧ Annotated R (before ++ lead) core core₁ core₂ := by
  obtain ⟨front, t, hcore, ht⟩ := hts.last
  rw [hts.eq, List.append_assoc] at h
  obtain ⟨lead₁, _, lead₂, _, rfl, rfl, hlead, hrest⟩ := h.of_append
  obtain ⟨us, trail₁, vs, trail₂, rfl, rfl, hcores, htrail⟩ := hrest.of_append
  obtain ⟨rfl, rfl⟩ := hlead.eq_of_isTrivia hR hts.lead
  obtain ⟨rfl, rfl⟩ := htrail.eq_of_isTrivia hR hts.trail
  rw [hcore] at hcores
  obtain ⟨comments, rule, core₁, rfl, hcores, hlast₁, hlast₂⟩ := hcores.exists_last hR ht
  rw [← hcore] at hcores
  obtain ⟨hfirst₁, hfirst₂⟩ := hcores.exists_first hR hts.first
  refine ⟨comments, rule, core₁, vs, ⟨by simp, hts.lead, ?_, hfirst₁, hlast₁⟩,
    ⟨by simp, hts.lead, hts.trail, hfirst₂, hlast₂⟩, hcores⟩
  intro w hw
  rcases List.mem_append.mp hw with hw | hw
  · exact isTrivia_of_isRuleComment (Tree.isRuleComment_of_mem_mark hw)
  · exact hts.trail w hw

/-- **Annotated tokens are cut alike.**  In front of a graft there may be tokens that are waiting to
be cut with it. -/
theorem samePieces (hR : Grafted R) (h : Annotated R before ts us vs) {waiting : List Token}
    {lineStart : Bool} {rest tail : List Char}
    (hleafy : Leafy lineStart (waiting ++ (ts ++ after)) rest) (htail : EndsWord tail) :
    SamePieces (piecesFrom lineStart 0 (charsOf waiting ++ (charsOf us ++ tail)))
      (piecesFrom lineStart 0 (charsOf waiting ++ (charsOf vs ++ tail))) := by
  induction h generalizing waiting lineStart with
  | nil => rfl
  | @keep before ts us vs w _ ih =>
    have hmore := @ih (waiting ++ [w]) lineStart (by simpa using hleafy)
    simpa using hmore
  | @graft before new ts us vs w comments rule hw h ih =>
    obtain ⟨new', hreplaces, hnew⟩ := hR.replaces hw
    obtain ⟨ls, hls⟩ := Leafy.sealed hreplaces hleafy
    rw [← hnew] at hls
    have hback := (leafy_append.mp hleafy).2
    obtain ⟨hus, hvs⟩ := endsWord hR hw h hback htail
    -- Behind the graft everything starts anew.
    have hrest := hback.2
    rw [← lineStartOf_append, lineStartOf_concat _ hreplaces.isCutWord.ne_whitespace] at hrest
    have hmark : EndsWord (charsOf (Tree.mark comments rule) ++ (charsOf us ++ tail)) := by
      cases comments with
      | false => exact hus
      | true => cases rule <;> rfl
    have hsame := @ih [] false hrest
    simp only [charsOf_append, List.append_assoc] at hls ⊢
    rw [hls _ hmark, hls _ hvs]
    exact SamePieces.append rfl ((Lexer.samePieces_mark comments rule _).trans hsame)

end Annotated

end Token

/-! ## Annotated trees -/

namespace Decision

open Token (Annotated)

variable {f : Site → Option Proposal} {root : Tree} {n : Site}

/-- **What a decision about words does, with and without comments.** -/
theorem Recasts.annotated (h : Recasts f root) (hn : (Site.root root).Around n) :
    Annotated ((ofSite f).Grafting root false) n.leavesBefore n.tree.leaves
      ((fills true f).treeAt n).leaves ((fills false f).treeAt n).leaves := by
  obtain ⟨t, start, trail⟩ := n
  induction t using Tree.inductionOn generalizing start trail with
  | leaf w =>
    rw [Substitution.treeAt_token, Substitution.treeAt_token]
    exact .refl _ _
  | part k ts ih =>
    cases hp : f ⟨.node k ts, start, trail⟩ with
    | some p =>
      obtain ⟨w, hw⟩ := h.isWord hn rfl hp
      obtain ⟨made, hmade⟩ := h.exists_made hn rfl hp
      obtain ⟨lead, rest, hedges⟩ := hw.edges
      have hnode := (synthesized_of_ok hmade).isNode
      have hgraft : (ofSite f).Grafting root false
          (Site.leavesBefore ⟨.node k ts, start, trail⟩ ++ lead) w made.leaves :=
        ⟨_, p, made, hn, hw, hp, hmade, by rw [Tree.leadingTrivia_of_edges hedges],
          (List.append_nil _).symm⟩
      rw [Substitution.treeAt_of_some rfl (fills_of_ok hp hmade),
        Substitution.treeAt_of_some rfl (fills_of_ok hp hmade),
        Tree.leaves_finish true p.rule hedges hnode, Tree.leaves_finish false p.rule hedges hnode,
        hedges.eq]
      have hone : Annotated ((ofSite f).Grafting root false)
          (Site.leavesBefore ⟨.node k ts, start, trail⟩ ++ lead) ([w] ++ rest)
          (made.leaves ++ (Tree.mark true p.rule ++ rest)) (made.leaves ++ rest) :=
        .graft true p.rule hgraft (.refl _ _)
      simpa [Tree.mark] using (Annotated.refl _ lead).append hone
    | none =>
      rw [Substitution.treeAt_eq rfl (fills_of_none hp), Substitution.treeAt_eq rfl (fills_of_none hp),
        Tree.leaves_node, Tree.leaves_node, Tree.leaves_node]
      -- One part after the other, with those in front of it.
      have hall : ∀ (us : List Tree) (index start' : Nat), ts.drop index = us →
          (∀ q ∈ Site.partsFrom ⟨.node k ts, start, trail⟩ index start' us,
            (Site.root root).Around q) →
          Annotated ((ofSite f).Grafting root false)
            (Site.leavesBefore ⟨.node k ts, start, trail⟩ ++ Tree.leavesAll (ts.take index))
            (Tree.leavesAll us)
            (Tree.leavesAll ((Site.partsFrom ⟨.node k ts, start, trail⟩ index start' us).map
              (fills true f).treeAt))
            (Tree.leavesAll ((Site.partsFrom ⟨.node k ts, start, trail⟩ index start' us).map
              (fills false f).treeAt)) := by
        intro us
        induction us with
        | nil => exact fun _ _ _ _ => .nil _
        | cons u us ihus =>
          intro index start' hdrop hparts
          obtain ⟨hu, hus⟩ := List.forall_mem_cons.mp hparts
          have hget : ts[index]? = some u := by rw [← List.head?_drop, hdrop, List.head?_cons]
          have hnext : ts.drop (index + 1) = us := by rw [← List.tail_drop, hdrop, List.tail_cons]
          have hfirst := ih u (List.mem_of_getElem? hget) _ _ hu
          have hrest := ihus (index + 1) _ hnext hus
          rw [Site.leavesBefore_cons] at hfirst
          rw [List.take_add_one, hget, Option.toList_some, Tree.leavesAll_append,
            ← List.append_assoc] at hrest
          rw [Site.partsFrom, List.map_cons, List.map_cons, Tree.leavesAll_cons,
            Tree.leavesAll_cons, Tree.leavesAll_cons]
          refine hfirst.append ?_
          rw [List.append_assoc] at hrest ⊢
          simpa [Tree.children] using hrest
      have hparts := hall ts 0 start rfl fun q hq => hn.part hq
      rw [List.take_zero, Tree.leavesAll_nil, List.append_nil] at hparts
      exact hparts

end Decision

/-! ## The grafts of the passes over words -/

variable {root : Tree} {visibility : FieldVisibility}

section

variable {n : Site} {p : Proposal} {made : Tree} {before new : List Token} {w : Token}

/-- A graft spells its template. -/
theorem spells_of_isGraft (hroot : root.Readable)
    (h : (Decision.ofSite (wordDecision visibility)).IsGraft root false n p made before w new) :
    made.Spells p.template := by
  have hdecided : wordDecision visibility n = some p := h.decided
  rcases Option.or_eq_some_iff.mp hdecided with hp | ⟨-, hp⟩
  · have hfield : Decision.ofSite (StaticFields.reference? visibility) n n.tree = some p := hp
    exact (StaticFields.rewords hroot.toRegular visibility).spells h.around h.isWord.isNode hfield
      h.synthesized
  · have hself : Decision.ofSite SelfReference.cast? n n.tree = some p := hp
    exact (SelfReference.rewords hroot.toRegular).spells h.around h.isWord.isNode hself
      h.synthesized

theorem leaves_of_isGraft
    (h : (Decision.ofSite (wordDecision visibility)).IsGraft root false n p made before w new) :
    new = made.leaves := by
  rw [h.new_eq, Tree.mark, if_neg Bool.false_ne_true, List.append_nil]

/-- What a graft consists of. -/
theorem replaces_of_isGraft (hroot : root.Readable)
    (h : (Decision.ofSite (wordDecision visibility)).IsGraft root false n p made before w new) :
    ∃ ts, Replaces w ts ∧ charsOf new = charsOf ts := by
  have hdecided : wordDecision visibility n = some p := h.decided
  have hchars : charsOf new = p.template.toList := by
    rw [leaves_of_isGraft h, ← (spells_of_isGraft hroot h).text_eq]
    rfl
  rcases Option.or_eq_some_iff.mp hdecided with hp | ⟨-, hp⟩
  · obtain ⟨type, q, x, hr, rfl⟩ := StaticFields.reference?_eq_some.mp hp
    obtain ⟨v, hv, rfl⟩ := Option.map_eq_some_iff.mp hr.named
    obtain rfl := h.isWord.unique
      (Site.isWord_name (h.around.sound hroot.sound) h.isWord.isNode hr.kind hv hr.plain)
    obtain ⟨hmem, hkind⟩ := Site.boundName?_eq_some hv
    have hname := hroot.allNamesCut h.around w (Site.mem_leaves_of_mem_tokens hmem) hkind
    have htype := (h.around.of_mem_ancestors (List.mem_of_find?_eq_some hr.nearest)).1
    obtain ⟨t, us, hnames, rfl, -⟩ :=
      Site.exists_nameable (hroot.allNamesCut htype) hr.qualified
    refine ⟨_, .member hnames.cut hnames.parameters hname, ?_⟩
    rw [hchars, charsOf, Token.textOf_member]
  · obtain ⟨hkind, type, hmem, target, htarget, htemplate⟩ := SelfReference.cast?_eq_some hp
    obtain rfl : w = Token.this := h.isWord.unique
      (Tree.isWord_this (h.around.sound hroot.sound) h.isWord.isNode hkind)
    have htype := (h.around.of_mem_ancestors hmem).1
    obtain ⟨t, us, hnames, rfl, -⟩ := Site.exists_nameable (hroot.allNamesCut htype) htarget
    rcases htemplate with htemplate | htemplate
    · refine ⟨_, .cast rfl (Token.portable_cast hnames.cut hnames.parameters)
        ⟨_, Token.charsOf_cons _ _⟩, ?_⟩
      rw [hchars, htemplate, charsOf, Token.textOf_cast]
    · refine ⟨_, .cast rfl (Token.portable_parenthesizedCast hnames.cut hnames.parameters)
        ⟨_, Token.charsOf_cons _ _⟩, ?_⟩
      rw [hchars, htemplate, charsOf, Token.textOf_parenthesizedCast]

/-- The word of a `this` is always the same. -/
theorem this_of_isGraft (hroot : root.Readable)
    (h : (Decision.ofSite (wordDecision visibility)).IsGraft root false n p made before w new)
    (hkind : n.tree.kind = .thisExpression) : w = ⟨.thisKw, "this"⟩ :=
  h.isWord.unique (Tree.isWord_this (h.around.sound hroot.sound) h.isWord.isNode hkind)

end

/-- Comments behind the grafts of the passes over words change nothing else. -/
theorem grafted_wordDecision {source : String} (hclean : (parse source).isClean = true)
    (visibility : FieldVisibility) :
    Token.Annotated.Grafted
      ((Decision.ofSite (wordDecision visibility)).Grafting (parse source).tree false) := by
  have hroot := readable_parse hclean
  have hrecasts := recasts_wordDecision hroot visibility
  constructor
  · rintro before w new ⟨n, p, made, hgraft⟩
    rw [leaves_of_isGraft hgraft]
    exact ⟨hgraft.isWord.significant, (spells_of_isGraft hroot hgraft).edges⟩
  · rintro before w new ⟨n, p, made, hgraft⟩
    exact replaces_of_isGraft hroot hgraft
  · rintro before w new w' new' ⟨n, p, made, hgraft⟩ ⟨n', p', made', hgraft'⟩
    have hkind := hrecasts.stands hgraft.around hgraft.isWord.isNode hgraft.decided
    rcases hrecasts.stands hgraft'.around hgraft'.isWord.isNode hgraft'.decided with
      ⟨hname, -⟩ | hthis
    · have hnext := hgraft'.before_eq
      rw [hgraft.before_eq] at hnext
      exact absurd hnext.symm (Site.not_adjacent hclean hgraft.around hgraft.isWord
        (hkind.imp_left And.left) hgraft'.around hgraft'.isWord hname)
    · exact this_of_isGraft hroot hgraft' hthis

end LivePatch
