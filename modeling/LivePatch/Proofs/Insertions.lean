import LivePatch.Proofs.Revision
import LivePatch.Proofs.Scripts
import LivePatch.Proofs.Synthesized

/-!
# Decisions that only insert

A replacement inserts when the new text holds the old one.  A decision `Inserts` on a tree when
all its replacements there do, and none stands inside of another.  Then the edits of a revision
are a script from the text of the tree to that of the revised one (`Inserts.script`): the parts of
a node cover neighbouring texts, so their scripts append.
-/

namespace LivePatch

open Token (Edges textOf widthOf)

/-- Putting `made` in place of the node at `n` inserts: the template holds what stood there, and is
what stands there afterwards. -/
structure Site.Insertion (n : Site) (template : String) (made : Tree) : Prop where
  isExpression : n.kind.isExpression = true
  isSolid : n.tree.isSolid = true
  ne_empty : n.tree.coreText ≠ ""
  kept : n.tree.coreText.toList <:+: template.toList
  spells : made.Spells template

/-- On the tree `root`, the decision only inserts. -/
structure Decision.Inserts (d : Decision) (root : Tree) : Prop where
  apart : d.Apart root
  insertion : ∀ {n p made}, (Site.root root).Around n → n.tree.isNode = true →
    d n n.tree = some p → synthesize p.template = .ok made → n.Insertion p.template made

theorem Site.coreSpan_of_edges {n : Site} {lead core trail : List Token}
    (h : Edges n.tree.leaves lead core trail) :
    n.coreSpan = ⟨n.start + widthOf lead, n.start + widthOf lead + widthOf core⟩ := by
  have hcore := Tree.coreLeaves_of_edges h
  unfold coreSpan
  split
  · rename_i hnil
    rw [hcore] at hnil
    exact absurd hnil h.ne_nil
  · rw [hcore, Tree.leadingTrivia_of_edges h]

theorem byteLength_textOf (ts : List Token) : byteLength (textOf ts).toList = widthOf ts := by
  rw [byteLength_toList, Token.utf8ByteSize_textOf]

theorem Tree.textOf_mark (comments : Bool) (rule : PatchRule) :
    textOf (mark comments rule) = if comments then rule.comment else "" := by
  cases comments <;> simp [mark]

/-- The script of one replacement. -/
theorem Site.Insertion.script {n : Site} {made : Tree} {template : String}
    (h : n.Insertion template made) (hnode : made.isNode = true) (comments : Bool)
    (rule : PatchRule) :
    Edit.Script comments n.start n.tree.text.toList [Edit.record rule n made]
      (finish comments rule n.tree made).text.toList := by
  have hedges := Tree.edges_of_isSolid h.isSolid
  generalize hlead : n.tree.leadingTrivia = lead at hedges
  generalize hcore : n.tree.coreLeaves = core at hedges
  generalize htrail : n.tree.trailingTrivia = trail at hedges
  have hafter : (Edit.record rule n made).after = template := h.spells.coreText_eq
  have hfits : (Edit.record rule n made).Fits n.start (textOf lead).toList (textOf core).toList := by
    have hbefore : n.tree.coreText = textOf core := by rw [Tree.coreText, hcore]
    refine ⟨?_, ?_, ?_, ?_⟩
    · rw [byteLength_textOf, byteLength_textOf]
      exact Site.coreSpan_of_edges hedges
    · exact congrArg String.toList hbefore
    · rw [← hbefore]
      exact fun hnil => h.ne_empty (String.toList_eq_nil_iff.mp hnil)
    · rw [← hbefore, hafter]
      exact h.kept
  have hold : n.tree.text.toList =
      (textOf lead).toList ++ (textOf core).toList ++ (textOf trail).toList := by
    rw [Tree.text, hedges.eq]
    simp
  have hnew : (finish comments rule n.tree made).text.toList = (textOf lead).toList ++
      ((Edit.record rule n made).written comments).toList ++ (textOf trail).toList := by
    have hmade : textOf made.leaves = template := h.spells.text_eq
    rw [Tree.text, Tree.leaves_finish comments rule hedges hnode, Edit.written, hafter]
    simp [hmade, Tree.textOf_mark, Edit.record]
  rw [hold, hnew]
  exact .edit hfits (.done (Edit.record rule n made).span.stop (textOf trail).toList)

/-- **The edits of a decision that only inserts are a script.** -/
theorem Decision.Inserts.script {d : Decision} {root : Tree} (h : d.Inserts root) {comments : Bool}
    {n : Site} {t' : Tree} {es : List Edit} (hn : (Site.root root).Around n)
    (hrev : d.revise comments n.trail n.start n.tree = .ok (t', es)) :
    Edit.Script comments n.start n.tree.text.toList es t'.text.toList := by
  refine revise_induction_of_apart h.apart
    (P := fun n t' es => Edit.Script comments n.start n.tree.text.toList es t'.text.toList)
    (Q := fun _ _ start ts ts' es => Edit.Script comments start
      (textOf (Tree.leavesAll ts)).toList es (textOf (Tree.leavesAll ts')).toList)
    ?_ ?_ ?_ ?_ ?_ hn hrev
  · intro w start trail
    exact .done start _
  · intro n index start
    exact .done start _
  · intro n index start t ts t' ts' es fs _ _ hfirst hrest
    have hwidth : byteLength t.text.toList = t.width := byteLength_textOf t.leaves
    have hboth := hfirst.append (hwidth ▸ hrest)
    simpa only [Tree.text, Tree.leavesAll_cons, Token.textOf_append, String.toList_append] using hboth
  · intro n k ts ts' es _ htree hparts
    rw [Tree.text, Tree.text, htree, Tree.leaves_node, Tree.leaves_node]
    exact hparts
  · intro n p made hn hnode hp hmade
    have hinsertion := h.insertion hn hnode hp hmade
    exact hinsertion.script (synthesized_of_ok hmade).isNode comments p.rule

end LivePatch
