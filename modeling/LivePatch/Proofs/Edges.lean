import LivePatch.Patch.Pass
import LivePatch.Proofs.Leaves

/-!
# The trivia at the two ends of a tree

What a replacement leaves in place is the trivia around the core of a node.  `Edges` says how
tokens divide into leading trivia, core and trailing trivia.  There is one way to do so, and the
functions that compute the three parts find it; so the text of a replaced node is known from the
division alone (`leaves_finish`).
-/

namespace LivePatch

namespace Token

/-- The tokens `ts` are the trivia `lead`, then `core` from one significant token to another, then
the trivia `trail`. -/
structure Edges (ts lead core trail : List Token) : Prop where
  eq : ts = lead ++ core ++ trail
  lead : ∀ t ∈ lead, t.isTrivia = true
  trail : ∀ t ∈ trail, t.isTrivia = true
  first : ∃ t rest, core = t :: rest ∧ t.isTrivia = false
  last : ∃ front t, core = front ++ [t] ∧ t.isTrivia = false

namespace Edges

variable {ts lead core trail : List Token}

theorem ne_nil (h : Edges ts lead core trail) : core ≠ [] := by
  obtain ⟨t, rest, hcore, -⟩ := h.first
  rw [hcore]
  exact List.cons_ne_nil t rest

theorem takeWhile (h : Edges ts lead core trail) : ts.takeWhile isTrivia = lead := by
  obtain ⟨t, rest, hcore, ht⟩ := h.first
  rw [h.eq, List.append_assoc, List.takeWhile_append_of_pos h.lead, hcore, List.cons_append,
    List.takeWhile_cons_of_neg (by rw [ht]; nofun), List.append_nil]

theorem dropWhile (h : Edges ts lead core trail) : ts.dropWhile isTrivia = core ++ trail := by
  obtain ⟨t, rest, hcore, ht⟩ := h.first
  rw [h.eq, List.append_assoc, List.dropWhile_append_of_pos h.lead, hcore, List.cons_append,
    List.dropWhile_cons_of_neg (by rw [ht]; nofun)]

/-- The same from the back. -/
theorem reverse (h : Edges ts lead core trail) :
    Edges ts.reverse trail.reverse core.reverse lead.reverse := by
  obtain ⟨t, rest, hcore, ht⟩ := h.first
  obtain ⟨front, u, hcore', hu⟩ := h.last
  refine ⟨?_, ?_, ?_, ?_, ?_⟩
  · simp [h.eq]
  · intro v hv
    exact h.trail v (List.mem_reverse.mp hv)
  · intro v hv
    exact h.lead v (List.mem_reverse.mp hv)
  · exact ⟨u, front.reverse, by simp [hcore'], hu⟩
  · exact ⟨rest.reverse, t, by simp [hcore], ht⟩

/-- Without the leading trivia, the rest has the same edges. -/
theorem of_core (h : Edges ts lead core trail) : Edges (core ++ trail) [] core trail :=
  ⟨by simp, List.forall_mem_nil _, h.trail, h.first, h.last⟩

end Edges

/-- The first token that the grammar sees. -/
theorem exists_first {ts : List Token} (h : ∃ t ∈ ts, t.isSignificant = true) :
    ∃ lead t rest, ts = lead ++ t :: rest ∧ (∀ u ∈ lead, u.isTrivia = true) ∧
      t.isTrivia = false := by
  induction ts with
  | nil => simp at h
  | cons u ts ih =>
    by_cases hu : u.isTrivia = true
    · have hrest : ∃ t ∈ ts, t.isSignificant = true := by
        obtain ⟨t, ht, hsig⟩ := h
        rcases List.mem_cons.mp ht with rfl | ht
        · rw [isSignificant, hu] at hsig
          cases hsig
        · exact ⟨t, ht, hsig⟩
      obtain ⟨lead, t, rest, rfl, hlead, ht⟩ := ih hrest
      exact ⟨u :: lead, t, rest, rfl, List.forall_mem_cons.mpr ⟨hu, hlead⟩, ht⟩
    · exact ⟨[], u, ts, rfl, by simp, by simpa using hu⟩

/-- Tokens of which the grammar sees one have edges. -/
theorem exists_edges {ts : List Token} (h : ∃ t ∈ ts, t.isSignificant = true) :
    ∃ lead core trail, Edges ts lead core trail := by
  obtain ⟨lead, t, rest, rfl, hlead, ht⟩ := exists_first h
  -- The last one is the first one from the back.
  have hback : ∃ u ∈ (t :: rest).reverse, u.isSignificant = true :=
    ⟨t, by simp, by simp [isSignificant, ht]⟩
  obtain ⟨trail, u, front, hrest, htrail, hu⟩ := exists_first hback
  have hcore : t :: rest = front.reverse ++ [u] ++ trail.reverse := by
    have := congrArg List.reverse hrest
    simpa using this
  refine ⟨lead, front.reverse ++ [u], trail.reverse, ?_, hlead, ?_, ?_, ⟨front.reverse, u, rfl, hu⟩⟩
  · rw [List.append_assoc, hcore]
  · intro v hv
    exact htrail v (List.mem_reverse.mp hv)
  · cases hfront : front.reverse with
    | nil => exact ⟨u, [], rfl, hu⟩
    | cons v vs =>
      rw [hfront] at hcore
      obtain ⟨rfl, -⟩ := List.cons.inj hcore
      exact ⟨t, vs ++ [u], rfl, ht⟩

end Token

open Token (Edges)

namespace Tree

variable {t made : Tree} {lead core trail : List Token}

theorem coreLeaves_of_edges (h : Edges t.leaves lead core trail) : t.coreLeaves = core := by
  have hback := h.of_core.reverse.dropWhile
  rw [coreLeaves, h.dropWhile, hback, List.reverse_nil, List.append_nil, List.reverse_reverse]

theorem leadingTrivia_of_edges (h : Edges t.leaves lead core trail) : t.leadingTrivia = lead :=
  h.takeWhile

theorem trailingTrivia_of_edges (h : Edges t.leaves lead core trail) :
    t.trailingTrivia = trail := by
  rw [trailingTrivia, h.reverse.takeWhile, List.reverse_reverse]

/-- The edges of a tree with something to show are those that are computed. -/
theorem edges_of_isSolid (h : t.isSolid = true) :
    Edges t.leaves t.leadingTrivia t.coreLeaves t.trailingTrivia := by
  obtain ⟨lead, core, trail, hedges⟩ := Token.exists_edges (isSolid_iff.mp h)
  rw [leadingTrivia_of_edges hedges, coreLeaves_of_edges hedges, trailingTrivia_of_edges hedges]
  exact hedges

theorem edgeTrivia_of_edges (h : Edges t.leaves lead core trail) :
    edgeTrivia t = (lead, trail) := by
  unfold edgeTrivia
  split
  · rename_i hnil
    rw [coreLeaves_of_edges h] at hnil
    exact absurd hnil h.ne_nil
  · rw [leadingTrivia_of_edges h, trailingTrivia_of_edges h]

/-! ## Putting a tree in place of another -/

/-- The comment that a replacement is marked with, if comments are asked for. -/
def mark (comments : Bool) (rule : PatchRule) : List Token :=
  if comments then [⟨.blockComment, rule.comment⟩] else []

theorem eq_of_mem_mark {comments : Bool} {rule : PatchRule} {w : Token}
    (h : w ∈ mark comments rule) : w = ⟨.blockComment, rule.comment⟩ := by
  cases comments with
  | false => cases h
  | true => exact List.mem_singleton.mp h

/-- The replacement as a node: its parts with trivia around them. -/
theorem finish_node {comments : Bool} {rule : PatchRule} {k : Kind} {parts : List Tree}
    (h : Edges t.leaves lead core trail) :
    finish comments rule t (.node k parts) =
      .node k (lead.map .token ++ parts ++ (mark comments rule ++ trail).map .token) := by
  rw [finish, edgeTrivia_of_edges h]
  rfl

/-- **The tokens of a replacement**: the edges stay, the core is that of the new tree. -/
theorem leaves_finish (comments : Bool) (rule : PatchRule) (h : Edges t.leaves lead core trail)
    (hmade : made.isNode = true) :
    (finish comments rule t made).leaves = lead ++ made.leaves ++ mark comments rule ++ trail := by
  cases made with
  | token w => cases hmade
  | node k parts =>
    rw [finish_node h]
    simp

end Tree

end LivePatch
