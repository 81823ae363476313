import LivePatch.Proofs.Grafts
import Mathlib.Data.List.Forall2

/-!
# Passes leave regular trees

A revision that only inserts leaves a tree that is `Akin` to the one it was given: tokens stay,
nodes keep their kinds but for expressions in place of expressions, and nothing comes in that the
passes do not expect.  So a regular tree stays regular (`Inserts.regular`).

One thing depends on the decision: that returned values can still be read on their own.  A
decision about words keeps this, since a mode that follows a word also follows the settled text
that is put in place of it.
-/

namespace LivePatch

open Token (Edges textOf endOfText)

/-! ## Following a graft -/

namespace Mode

theorem Starts.of_append {m : Mode} {c : Char} {cs ds : List Char} (h : m.Starts c (cs ++ ds)) :
    m.Starts c cs := by
  rcases h with h | ⟨hsign, hc, hquote⟩
  · exact .inl h
  · refine .inr ⟨hsign, hc, fun hhead => hquote ?_⟩
    rw [List.head?_append, hhead]
    rfl

theorem scan_comment (rule : PatchRule) : code.scan rule.comment.toList = commentEnd := by
  cases rule <;> decide

/-- The comment of a rule leaves things as they are. -/
theorem follows_mark {comments : Bool} {rule : PatchRule} {rest : List Token}
    (h : code.Follows rest) : code.Follows (Tree.mark comments rule ++ rest) := by
  cases comments with
  | false => exact h
  | true =>
    have hscan := scan_comment rule
    refine ⟨fun c cs hc => ⟨nofun, fun _ => ?_, ?_⟩, ?_⟩
    · obtain ⟨rfl, -⟩ : '/' = c ∧ _ = cs := by
        have hfront : rule.comment.toList = '/' :: ("*" ++ rule.passName ++ ":" ++
            rule.shortName ++ "*/").toList := by
          simp [PatchRule.comment]
        exact List.cons.inj (hfront.symm.trans hc)
      exact .inr (.inl rfl)
    · have hc : rule.comment.toList = c :: cs := hc
      rw [← hc, hscan]
      rfl
    · show (code.scan rule.comment.toList).Follows rest
      rw [hscan]
      exact h.of_alike alike_commentEnd

/-- **A settled text in place of a settled word** is followed wherever the word was. -/
theorem Follows.graft {m : Mode} {w : Token} {rest : List Token} {made : Tree} {template : String}
    {comments : Bool} {rule : PatchRule} (h : m.Follows (w :: rest)) (hw : w.isTrivia = false)
    (hsettled : Settled w.text.toList) (htemplate : Settled template.toList)
    (hspells : made.Spells template) :
    m.Follows (made.leaves ++ Tree.mark comments rule ++ rest) := by
  obtain ⟨hadmits, hrest⟩ := h
  have hm : m.isBetween = true := by
    cases htext : w.text.toList with
    | nil =>
      rw [htext] at hsettled
      exact hsettled.opens.elim
    | cons c cs => exact ((hadmits c cs htext).starts hw).1
  rw [hsettled.scan m hm] at hrest
  have htext : textOf made.leaves = template := hspells.text_eq
  have hmade : m.Follows made.leaves := by
    obtain ⟨v, vs, hleaves, hv⟩ := hspells.edges.first
    have hfollows := hspells.follows
    have hne := (hspells.isPiece v (by simp [hleaves])).ne_empty
    rw [hleaves] at hfollows htext ⊢
    cases hchars : v.text.toList with
    | nil => exact absurd (String.toList_eq_nil_iff.mp hchars) hne
    | cons c cs =>
      refine hfollows.restart hv hchars hm ?_
      have hopens := htemplate.opens
      rw [← htext, Token.textOf_cons, String.toList_append, hchars, List.cons_append] at hopens
      exact (hopens.starts hm).of_append
  rw [List.append_assoc]
  refine follows_append.mpr ⟨hmade, ?_⟩
  rw [htext, htemplate.scan m hm]
  exact follows_mark hrest

end Mode

/-! ## Trees that are akin -/

namespace Tree

/-- The second tree may stand where the first one stood. -/
structure Akin (t t' : Tree) : Prop where
  token : ∀ w, t = .token w → t' = .token w
  isNode : t'.isNode = t.isNode
  kind : t'.kind = t.kind ∨ (t.kind.isExpression = true ∧ t'.kind.isExpression = true)
  within : ∀ l, t.Within l → t'.Within l
  isSolid : t.isSolid = true → t'.isSolid = true
  new : ∀ w ∈ t'.leaves, w ∈ t.leaves ∨ w.IsPiece
  sound : t'.Sound
  returns : t'.ReturnsValues

namespace Akin

variable {t t' : Tree}

theorem refl_token (w : Token) : Akin (.token w) (.token w) :=
  ⟨fun _ h => h, rfl, .inl rfl, fun _ h => h, fun h => h, fun _ h => .inl h, sound_token w, .token w⟩

theorem isExpression (h : Akin t t') (hk : t'.kind.isExpression = true) :
    t.kind.isExpression = true := by
  rcases h.kind with heq | ⟨hexpr, -⟩
  · rwa [heq] at hk
  · exact hexpr

theorem isShown (h : Akin t t') (hs : t.IsShown) : t'.IsShown := by
  intro hnode hexpr
  exact h.isSolid (hs (h.isNode ▸ hnode) (h.isExpression hexpr))

theorem isTriviaToken (h : Akin t t') : t.isTriviaToken = t'.isTriviaToken := by
  cases t with
  | token w => rw [h.token w rfl]
  | node k ts =>
    cases t' with
    | token v => cases h.isNode
    | node k' ts' => rfl

theorem isNamePart (h : Akin t t') (ht : t.IsNamePart) : t'.IsNamePart := by
  cases t with
  | token w =>
    rw [h.token w rfl]
    exact ht
  | node k ts =>
    cases t' with
    | token v => cases h.isNode
    | node k' ts' =>
      obtain rfl : k = .typeArgumentList := ht
      rcases h.kind with heq | ⟨hexpr, -⟩
      · exact heq
      · cases hexpr

end Akin

/-- Each tree of the second list may stand where that of the first one stood. -/
abbrev AkinAll (ts ts' : List Tree) : Prop := List.Forall₂ Akin ts ts'

theorem exists_mem_of_forall₂ {R : Tree → Tree → Prop} {ts ts' : List Tree}
    (h : List.Forall₂ R ts ts') {t' : Tree} (ht' : t' ∈ ts') : ∃ t ∈ ts, R t t' := by
  induction h with
  | nil => cases ht'
  | cons hR _ ih =>
    rcases List.mem_cons.mp ht' with rfl | ht'
    · exact ⟨_, List.mem_cons_self, hR⟩
    · obtain ⟨t, ht, hR⟩ := ih ht'
      exact ⟨t, List.mem_cons_of_mem _ ht, hR⟩

variable {ts ts' : List Tree}

theorem AkinAll.bare (h : AkinAll ts ts') : AkinAll (bare ts) (bare ts') := by
  refine List.rel_filter ?_ h
  intro t t' hR
  simp only [hR.isTriviaToken]

/-- Akin parts are as good as the parts they stand for. -/
theorem AkinAll.hasParts {k : Kind} (h : AkinAll ts ts') (hparts : HasParts k ts) :
    HasParts k ts' := by
  have hone : ∀ w, Tree.bare ts = [.token w] → Tree.bare ts' = [.token w] := by
    intro w hw
    have hbare := h.bare
    rw [hw] at hbare
    obtain ⟨t', us, hR, hnil, hts'⟩ := List.forall₂_cons_left_iff.mp hbare
    rw [hts', List.forall₂_nil_left_iff.mp hnil, hR.token w rfl]
  unfold HasParts at hparts ⊢
  split
  · exact hone _ hparts
  · rcases hparts with hnil | ⟨w, hw, hk⟩ | ⟨hall, p, hp, hnode⟩
    · have hbare := h.bare
      rw [hnil] at hbare
      exact .inl (List.forall₂_nil_left_iff.mp hbare)
    · exact .inr (.inl ⟨w, hone w hw, hk⟩)
    · refine .inr (.inr ⟨fun p' hp' => ?_, ?_⟩)
      · obtain ⟨q, hq, hR⟩ := exists_mem_of_forall₂ h.bare hp'
        exact hR.isNamePart (hall q hq)
      · have hflip : List.Forall₂ (fun t' t => Akin t t') (Tree.bare ts') (Tree.bare ts) :=
          h.bare.flip
        obtain ⟨p', hp', hR⟩ := exists_mem_of_forall₂ hflip hp
        exact ⟨p', hp', hR.isNode ▸ hnode⟩
  · intro t' ht'
    obtain ⟨t, ht, hR⟩ := exists_mem_of_forall₂ h ht'
    exact ⟨hR.within _ (hparts t ht).1, hR.isShown (hparts t ht).2⟩
  · trivial

/-- A node with akin parts is akin, if what is returned in it can still be returned. -/
theorem akin_node {k : Kind} (h : AkinAll ts ts') (hsound : (node k ts).Sound)
    (hvalues : k = .returnStatement →
      ∀ e ∈ ts', e.isNode = true → e.kind.isExpression = true → e.IsValue) :
    Akin (node k ts) (node k ts') := by
  obtain ⟨hparts, hall⟩ := sound_node.mp hsound
  refine ⟨nofun, rfl, .inl rfl, ?_, ?_, ?_, ?_, ?_⟩
  · intro l hl
    obtain ⟨hk, hts⟩ := within_node.mp hl
    refine within_node.mpr ⟨hk, fun t' ht' => ?_⟩
    obtain ⟨t, ht, hR⟩ := exists_mem_of_forall₂ h ht'
    exact hR.within _ (hts t ht)
  · intro hsolid
    obtain ⟨t, ht, hs⟩ := isSolid_node.mp hsolid
    have hflip : List.Forall₂ (fun t' t => Akin t t') ts' ts := h.flip
    obtain ⟨t', ht', hR⟩ := exists_mem_of_forall₂ hflip ht
    exact isSolid_node.mpr ⟨t', ht', hR.isSolid hs⟩
  · intro w hw
    rw [leaves_node] at hw ⊢
    obtain ⟨t', ht', hw⟩ := mem_leavesAll.mp hw
    obtain ⟨t, ht, hR⟩ := exists_mem_of_forall₂ h ht'
    rcases hR.new w hw with hold | hnew
    · exact .inl (mem_leavesAll.mpr ⟨t, ht, hold⟩)
    · exact .inr hnew
  · refine sound_node.mpr ⟨h.hasParts hparts, fun t' ht' => ?_⟩
    obtain ⟨t, -, hR⟩ := exists_mem_of_forall₂ h ht'
    exact hR.sound
  · refine .node hvalues fun t' ht' => ?_
    obtain ⟨t, -, hR⟩ := exists_mem_of_forall₂ h ht'
    exact hR.returns

/-! ## Replacements -/

theorem isPiece_mark {comments : Bool} {rule : PatchRule} :
    ∀ w ∈ mark comments rule, w.IsPiece := by
  intro w hw
  rw [eq_of_mem_mark hw]
  refine ⟨nofun, ?_, .inl (by simp [Lexer.openKinds]), nofun⟩
  cases rule <;> decide

theorem isTrivia_mark {comments : Bool} {rule : PatchRule} :
    ∀ w ∈ mark comments rule, w.isTrivia = true := by
  intro w hw
  rw [eq_of_mem_mark hw]
  rfl

/-- What is around the parts of a node does not matter if it is trivia. -/
theorem HasParts.surround {k : Kind} (hparts : HasParts k ts) {lead trail : List Token}
    (hlead : ∀ w ∈ lead, w.isTrivia = true) (htrail : ∀ w ∈ trail, w.isTrivia = true) :
    HasParts k (lead.map token ++ ts ++ trail.map token) := by
  have hbare : Tree.bare (lead.map token ++ ts ++ trail.map token) = Tree.bare ts := by
    rw [bare_append, bare_append, bare_tokens hlead, bare_tokens htrail]
    simp
  have htoken : ∀ (us : List Token), ∀ t ∈ us.map token, t.Within .quiet ∧ t.IsShown := by
    intro us t ht
    obtain ⟨w, -, rfl⟩ := List.mem_map.mp ht
    exact ⟨within_token _ w, Shape.isShown_token w⟩
  unfold HasParts at hparts ⊢
  split
  · rwa [hbare]
  · rwa [hbare]
  · intro t ht
    rcases List.mem_append.mp ht with ht | ht
    · rcases List.mem_append.mp ht with ht | ht
      · exact htoken lead t ht
      · exact hparts t ht
    · exact htoken trail t ht
  · trivial

theorem ofKind_isExpression {k : Kind} (h : k.isExpression = true) : Level.ofKind k = .quiet := by
  have hall : ∀ k : Kind, k.isExpression = true → Level.ofKind k = .quiet := by
    intro k hk
    cases k <;> first | rfl | cases hk
  exact hall k h

theorem ne_returnStatement {k : Kind} (h : k.isExpression = true) : k ≠ .returnStatement := by
  rintro rfl
  cases h

/-- **A replacement is akin** to the expression it replaces. -/
theorem akin_finish {t made : Tree} {template : String} {comments : Bool} {rule : PatchRule}
    (hnode : t.isNode = true) (hexpr : t.kind.isExpression = true) (hsolid : t.isSolid = true)
    (hsyn : Synthesized template made) (hspells : made.Spells template) :
    Akin t (finish comments rule t made) := by
  have hedges := edges_of_isSolid hsolid
  generalize t.leadingTrivia = lead at hedges
  generalize t.coreLeaves = core at hedges
  generalize t.trailingTrivia = trail at hedges
  have htrivia : ∀ w ∈ mark comments rule ++ trail, w.isTrivia = true := by
    intro w hw
    rcases List.mem_append.mp hw with hw | hw
    · exact isTrivia_mark w hw
    · exact hedges.trail w hw
  cases made with
  | token v => cases hsyn.isNode
  | node k parts =>
    have hk : k.isExpression = true := hsyn.isExpression
    have hleaves := leaves_finish comments rule hedges hsyn.isNode
    have hreturns : (node k parts).ReturnsValues :=
      returnsValues_of_follows hspells.follows hspells.isPiece hsyn.sound
    obtain ⟨hparts, hall⟩ := sound_node.mp hsyn.sound
    have hmem : ∀ p ∈ lead.map token ++ parts ++ (mark comments rule ++ trail).map token,
        p ∈ parts ∨ ∃ w, p = token w := by
      intro p hp
      rcases List.mem_append.mp hp with hp | hp
      · rcases List.mem_append.mp hp with hp | hp
        · obtain ⟨w, -, rfl⟩ := List.mem_map.mp hp
          exact .inr ⟨w, rfl⟩
        · exact .inl hp
      · obtain ⟨w, -, rfl⟩ := List.mem_map.mp hp
        exact .inr ⟨w, rfl⟩
    have hfinish : finish comments rule t (node k parts) = node k (lead.map token ++ parts ++
        (mark comments rule ++ trail).map token) := finish_node hedges
    refine ⟨?_, ?_, ?_, ?_, ?_, ?_, ?_, ?_⟩
    · rintro w rfl
      cases hnode
    · rw [hfinish, hnode]
      rfl
    · rw [hfinish]
      exact .inr ⟨hexpr, hk⟩
    · intro l _
      obtain ⟨-, hwithin⟩ := within_node.mp hsyn.within
      rw [hfinish]
      refine within_node.mpr ⟨by rw [ofKind_isExpression hk]; exact Level.quiet_le l, ?_⟩
      intro p hp
      rcases hmem p hp with hp | ⟨w, rfl⟩
      · exact (hwithin p hp).mono (Level.below_mono k (Level.quiet_le l))
      · exact within_token _ w
    · intro _
      obtain ⟨w, hw, hs⟩ := isSolid_iff.mp hsyn.isSolid
      refine isSolid_iff.mpr ⟨w, ?_, hs⟩
      rw [hleaves]
      exact List.mem_append_left _ (List.mem_append_left _ (List.mem_append_right _ hw))
    · intro w hw
      rw [hleaves] at hw
      rw [hedges.eq]
      simp only [List.mem_append] at hw ⊢
      rcases hw with ((hw | hw) | hw) | hw
      · exact .inl (.inl (.inl hw))
      · exact .inr (hspells.isPiece w hw)
      · exact .inr (isPiece_mark w hw)
      · exact .inl (.inr hw)
    · rw [hfinish]
      refine sound_node.mpr ⟨hparts.surround hedges.lead htrivia, fun p hp => ?_⟩
      rcases hmem p hp with hp | ⟨w, rfl⟩
      · exact hall p hp
      · exact sound_token w
    · rw [hfinish]
      cases hreturns with
      | node _ hvalues =>
        refine .node (fun hreturn => absurd hreturn (ne_returnStatement hk)) fun p hp => ?_
        rcases hmem p hp with hp | ⟨w, rfl⟩
        · exact hvalues p hp
        · exact .token w

end Tree

/-! ## Revisions -/

namespace Decision

variable {d : Decision} {root : Tree} {comments : Bool}

/-- Revising a returned value leaves one whose core can be read on its own. -/
def KeepsValues (d : Decision) (comments : Bool) (root : Tree) : Prop :=
  ∀ ⦃n t' es⦄, (Site.root root).Around n → n.tree.isNode = true →
    n.tree.kind.isExpression = true → n.tree.Within .quiet → n.tree.isSolid = true →
    n.tree.IsValue → d.revise comments n.trail n.start n.tree = .ok (t', es) →
    Mode.code.Follows t'.coreLeaves

theorem Inserts.akin (h : d.Inserts root) (hroot : root.Regular)
    (hvalues : d.KeepsValues comments root) {n : Site} {t' : Tree} {es : List Edit}
    (hn : (Site.root root).Around n)
    (hrev : d.revise comments n.trail n.start n.tree = .ok (t', es)) : n.tree.Akin t' := by
  refine revise_induction_of_apart h.apart (P := fun n t' _ => n.tree.Akin t')
    (Q := fun _ _ _ ts ts' _ => List.Forall₂ (fun t t' => t.Akin t' ∧
      (t.isNode = true → t.kind.isExpression = true → t.Within .quiet → t.isSolid = true →
        t.IsValue → t'.IsValue)) ts ts')
    ?_ ?_ ?_ ?_ ?_ hn hrev
  · intro w start trail
    exact .refl_token w
  · intro n index start
    exact .nil
  · intro n index start t ts t' ts' es fs ht hrev hfirst hrest
    refine .cons ⟨hfirst, fun hnode hexpr hwithin hsolid hvalue => ⟨fun w hw => ?_, ?_⟩⟩ hrest
    · rcases hfirst.new w hw with hold | hnew
      · exact hvalue.pieces w hold
      · exact hnew
    · exact hvalues ht hnode hexpr hwithin hsolid hvalue hrev
  · intro n k ts ts' es hn htree hparts
    have hsound : n.tree.Sound := hn.sound hroot.sound
    have hreturns : n.tree.ReturnsValues := hn.returnsValues hroot.returns
    rw [htree] at hsound hreturns ⊢
    refine Tree.akin_node (hparts.imp fun _ _ hR => hR.1) hsound ?_
    rintro rfl e' he' hnode hexpr
    obtain ⟨e, he, hakin, hvalue⟩ := Tree.exists_mem_of_forall₂ hparts he'
    obtain ⟨hwithin, hshown⟩ := (Tree.sound_node.mp hsound).1 e he
    have henode : e.isNode = true := hakin.isNode ▸ hnode
    have heexpr := hakin.isExpression hexpr
    cases hreturns with
    | node hown _ =>
      exact hvalue henode heexpr hwithin (hshown henode heexpr) (hown rfl e he henode heexpr)
  · intro n p made hn hnode hp hmade
    have hinsertion := h.insertion hn hnode hp hmade
    exact Tree.akin_finish hnode hinsertion.isExpression hinsertion.isSolid
      (synthesized_of_ok hmade) hinsertion.spells

/-- **A revision that only inserts leaves a regular tree.** -/
theorem Inserts.regular (h : d.Inserts root) (hroot : root.Regular)
    (hvalues : d.KeepsValues comments root) {t' : Tree} {es : List Edit}
    (hrev : d.revise comments [] 0 root = .ok (t', es)) : t'.Regular := by
  have hakin : root.Akin t' := h.akin hroot hvalues (n := Site.root root) .refl hrev
  refine ⟨fun w hw => ?_, hakin.sound, hakin.returns⟩
  rcases hakin.new w hw with hold | hnew
  · exact hroot.pieces w hold
  · exact .inl hnew

/-- What is put in place of a word: pieces of text, of which the grammar sees one. -/
theorem Rewords.pieces (h : d.Rewords root) {before new : List Token} {w : Token}
    (hgraft : d.Grafting root comments before w new) :
    (∀ v ∈ new, v.IsPiece) ∧ ∃ v ∈ new, v.isSignificant = true := by
  obtain ⟨n, p, made, hgraft⟩ := hgraft
  have hspells := h.spells hgraft.around hgraft.isWord.isNode hgraft.decided hgraft.synthesized
  rw [hgraft.new_eq]
  constructor
  · intro v hv
    rcases List.mem_append.mp hv with hv | hv
    · exact hspells.isPiece v hv
    · exact Tree.isPiece_mark v hv
  · obtain ⟨v, hv, hsig⟩ := Tree.isSolid_iff.mp (synthesized_of_ok hgraft.synthesized).isSolid
    exact ⟨v, List.mem_append_left _ hv, hsig⟩

theorem Rewords.follows (h : d.Rewords root) {before new rest : List Token} {w : Token}
    (hgraft : d.Grafting root comments before w new) {m : Mode} (hm : m.Follows (w :: rest)) :
    m.Follows (new ++ rest) := by
  obtain ⟨n, p, made, hgraft⟩ := hgraft
  obtain ⟨-, htemplate, v, hword, hsettled, -⟩ :=
    h hgraft.around hgraft.isWord.isNode hgraft.decided
  obtain rfl : w = v := hgraft.isWord.unique hword
  rw [hgraft.new_eq]
  exact hm.graft hword.significant hsettled htemplate
    (spells_of_settled htemplate hgraft.synthesized)

/-- A decision about words keeps returned values readable. -/
theorem Rewords.keepsValues (h : d.Rewords root) : d.KeepsValues comments root := by
  intro n t' es hn _ _ _ hsolid hvalue hrev
  have hedges := Tree.edges_of_isSolid hsolid
  have hpieces : ∀ w ∈ n.tree.coreLeaves, w.IsPiece := fun w hw =>
    hvalue.pieces w (Tree.mem_leaves_of_mem_coreLeaves hsolid hw)
  have hfollows := hvalue.follows
  have hgrafts := h.grafts hn hrev
  generalize n.tree.leadingTrivia = lead at hedges
  generalize n.tree.coreLeaves = core at hedges hpieces hfollows
  generalize n.tree.trailingTrivia = trail at hedges
  -- Trivia is not grafted, so the grafts are all in the core.
  have htrivia : ∀ (us : List Token), (∀ w ∈ us, w.isTrivia = true) → ∀ w ∈ us, ∀ before new,
      ¬d.Grafting root comments before w new := by
    rintro us hus w hw before new ⟨n, p, made, hgraft⟩
    have hsig := hgraft.isWord.significant
    rw [hus w hw] at hsig
    cases hsig
  rw [hedges.eq, List.append_assoc] at hgrafts
  obtain ⟨lead', rest', hleaves, hlead, hrest⟩ := hgrafts.of_append
  obtain ⟨mid, trail', rfl, hmid, htrail⟩ := hrest.of_append
  rw [hlead.eq_of_forall_not (htrivia lead hedges.lead),
    htrail.eq_of_forall_not (htrivia trail hedges.trail)] at hleaves
  have hmidPieces := hmid.forall_mem (fun _ _ _ hg => (h.pieces hg).1) hpieces
  have hshown : ∃ w ∈ core, w.isSignificant = true := by
    obtain ⟨w, rest, rfl, hw⟩ := hedges.first
    exact ⟨w, List.mem_cons_self, by simp [Token.isSignificant, hw]⟩
  obtain ⟨a, mid', b, hmidEdges⟩ :=
    Token.exists_edges (hmid.exists_mem (fun _ _ _ hg => (h.pieces hg).2) hshown)
  have hnew : Edges t'.leaves (lead ++ a) mid' (b ++ trail) := by
    refine ⟨by rw [hleaves, hmidEdges.eq]; simp, ?_, ?_, hmidEdges.first, hmidEdges.last⟩
    · exact List.forall_mem_append.mpr ⟨hedges.lead, hmidEdges.lead⟩
    · exact List.forall_mem_append.mpr ⟨hmidEdges.trail, hedges.trail⟩
  rw [Tree.coreLeaves_of_edges hnew]
  refine (hmid.follows (fun _ _ _ hg m rest hm => h.follows hg hm) hfollows).core hmidEdges ?_
  intro w hw
  exact (hmidPieces w (by rw [hmidEdges.eq]; simp [hw])).ne_empty

end Decision

end LivePatch
