import LivePatch.Proofs.Grafts
import LivePatch.Proofs.Grammar.Spacing
import Mathlib.Data.List.TakeWhile

/-!
# Names side by side

The marks of a tree, read off its sites.  A node that stands for one word has one mark, and it is
found among the marks of the whole tree behind as many others as there are words in front.  So in
the tree of a text without problems, no word that is a name stands right behind a word that is a
name or `this`.
-/

namespace LivePatch

open LivePatch.Tree (marks marksAll bare)

namespace Tree

theorem marks_name {t : Tree} {w : Token} (h : t.IsWord w) (hk : t.kind = .nameExpression) :
    t.marks = [.name] := by
  cases t with
  | token v => cases h.isNode
  | node k ts =>
    obtain rfl : k = .nameExpression := hk
    have hbare : bare ts = [.token w] := h.bare_eq
    simp [marks, hbare]

theorem marks_self {t : Tree} {w : Token} (h : t.IsWord w) (hk : t.kind = .thisExpression) :
    t.marks = [.self] := by
  cases t with
  | token v => cases h.isNode
  | node k ts =>
    obtain rfl : k = .thisExpression := hk
    have hbare : bare ts = [.token w] := h.bare_eq
    simp [marks, hbare]

/-- A node with a node among its parts has the marks of its parts. -/
theorem marks_of_node {k : Kind} {ts : List Tree} {t : Tree} (ht : t ∈ ts)
    (hnode : t.isNode = true) : marks (.node k ts) = marksAll ts := by
  rcases marks_node k ts with hsame | ⟨⟨w, hw⟩, -⟩
  · exact hsame
  · have hmem : t ∈ bare ts := mem_bare.mpr ⟨ht, by cases t <;> first | rfl | cases hnode⟩
    rw [hw] at hmem
    rw [List.mem_singleton.mp hmem] at hnode
    cases hnode

theorem length_marksAll_of_forall {ts : List Tree}
    (h : ∀ t ∈ ts, t.marks.length = t.significantLeaves.length) :
    (marksAll ts).length = ((leavesAll ts).filter Token.isSignificant).length := by
  induction ts with
  | nil => simp
  | cons t ts ih =>
    obtain ⟨ht, hts⟩ := List.forall_mem_cons.mp h
    rw [marksAll_cons, leavesAll_cons, List.filter_append, List.length_append,
      List.length_append, ht, ih hts]
    rfl

/-- There is a mark for every word. -/
theorem length_marks (t : Tree) : t.marks.length = t.significantLeaves.length := by
  induction t using inductionOn with
  | leaf w =>
    rw [marks_token, significantLeaves, leaves_token]
    by_cases hw : w.isTrivia = true <;> simp [hw, Token.isSignificant]
  | part k ts ih =>
    rw [significantLeaves, leaves_node, ← length_marksAll_of_forall ih]
    rcases marks_node k ts with hsame | ⟨-, hone, ⟨-, hmarks⟩ | ⟨-, hmarks⟩⟩
    · rw [hsame]
    · rw [hmarks, hone]
      rfl
    · rw [hmarks, hone]
      rfl

theorem length_marksAll (ts : List Tree) :
    (marksAll ts).length = ((leavesAll ts).filter Token.isSignificant).length :=
  length_marksAll_of_forall fun t _ => t.length_marks

end Tree

namespace Site

variable {t : Tree} {n m : Site}

/-- The marks of a node among those of the whole tree. -/
theorem Around.exists_marks (hn : (root t).Around n) (hnode : n.tree.isNode = true) :
    ∃ front back, t.marks = front ++ n.tree.marks ++ back ∧
      front.length = (n.leavesBefore.filter Token.isSignificant).length := by
  induction hn with
  | refl => exact ⟨[], [], by simp [root], by simp [root, leavesBefore]⟩
  | @part b p hb hp ih =>
    obtain ⟨front, back, hmarks, hlength⟩ := ih (isNode_of_mem_parts hp)
    obtain ⟨ts, u, us, hparts, rfl⟩ := exists_of_mem_parts hp
    obtain ⟨tree, start, trail⟩ := b
    cases tree with
    | token w => simp [Tree.children] at hparts
    | node k vs =>
      obtain rfl : vs = ts ++ u :: us := hparts
      rw [Tree.marks_of_node (t := u) (by simp) hnode] at hmarks
      refine ⟨front ++ marksAll ts, marksAll us ++ back, by simp [hmarks], ?_⟩
      rw [leavesBefore_cons, List.filter_append, List.length_append, List.length_append, hlength,
        Tree.length_marksAll]
      simp [Tree.children]

/-- What stands below a node has none but its marks. -/
theorem Around.mem_marks (h : n.Around m) (hnode : m.tree.isNode = true) {a : Mark}
    (ha : a ∈ m.tree.marks) : a ∈ n.tree.marks := by
  induction h with
  | refl => exact ha
  | @part b p hb hp ih =>
    have hmem := tree_mem_of_mem_parts hp
    have hbnode := isNode_of_mem_parts hp
    refine ih hbnode ?_
    cases htree : b.tree with
    | token w =>
      rw [htree] at hbnode
      cases hbnode
    | node k ts =>
      rw [htree] at hmem
      have hmem : p.tree ∈ ts := hmem
      rw [Tree.marks_of_node hmem hnode]
      obtain ⟨front, back, rfl⟩ := List.append_of_mem hmem
      simp [ha]

theorem Around.designates (h : n.Around m) (hn : n.tree.Designates) : m.tree.Designates := by
  induction h with
  | refl => exact hn
  | @part b p _ hp ih =>
    have hmem := tree_mem_of_mem_parts hp
    cases htree : b.tree with
    | token w => simp [htree, Tree.children] at hmem
    | node k ts =>
      rw [htree] at hmem ih
      cases ih with
      | node _ hall => exact hall p.tree hmem

/-- **Names do not stand side by side.** -/
theorem not_adjacent {source : String} (hclean : (parse source).isClean = true) {v w : Token}
    (hn : (root (parse source).tree).Around n) (hv : n.tree.IsWord v)
    (hkind : n.kind = .nameExpression ∨ n.kind = .thisExpression)
    (hm : (root (parse source).tree).Around m) (hw : m.tree.IsWord w)
    (hname : m.kind = .nameExpression) :
    m.leavesBefore ++ m.tree.leadingTrivia ≠ n.leavesBefore ++ n.tree.leadingTrivia ++ [v] := by
  intro hnext
  have hchain := (marked_parse source).2 hclean
  obtain ⟨front, back, hfront, hflen⟩ := hn.exists_marks hv.isNode
  obtain ⟨front', back', hfront', hflen'⟩ := hm.exists_marks hw.isNode
  have htrivia : ∀ u : Tree, u.leadingTrivia.filter Token.isSignificant = [] := by
    intro u
    refine List.filter_eq_nil_iff.mpr fun x hx => ?_
    simp [Token.isSignificant, List.mem_takeWhile_imp hx]
  have hsig : v.isSignificant = true := by simp [Token.isSignificant, hv.significant]
  have hlength : front'.length = front.length + 1 := by
    have := congrArg (fun l => (l.filter Token.isSignificant).length) hnext
    simp only [List.filter_append, htrivia, List.append_nil, List.filter_cons_of_pos hsig,
      List.filter_nil, List.length_append, List.length_singleton] at this
    omega
  obtain ⟨a, hone, ha⟩ : ∃ a, n.tree.marks = [a] ∧ a ≠ .other := by
    rcases hkind with hk | hk
    · exact ⟨_, Tree.marks_name hv hk, Mark.noConfusion⟩
    · exact ⟨_, Tree.marks_self hv hk, Mark.noConfusion⟩
  rw [hone] at hfront
  rw [Tree.marks_name hw hname] at hfront'
  -- The two marks stand side by side in the marks of the tree.
  have heq := hfront.symm.trans hfront'
  rw [List.append_assoc front'] at heq
  obtain ⟨hsame, -⟩ := List.append_inj heq (by simp [hlength])
  rw [hfront', ← hsame, List.append_assoc, List.append_assoc] at hchain
  have hpair := (List.isChain_append_cons_cons.mp hchain).2.1
  rcases hpair with h | h
  · exact ha h
  · exact h rfl

end Site

end LivePatch
