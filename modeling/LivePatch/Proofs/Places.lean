import LivePatch.Proofs.Leaves
import LivePatch.Syntax.View

/-!
# The places of one tree

The walks over a tree carry sites along, and what they decide at a site depends on what is around
it.  This file says how the sites of one tree lie to each other.

One site stands `Around` another when steps from a node to its parts lead from the one to the
other.  The nodes around a site are its ancestors, the nodes that it stands around are its
descendants, and two sites of one tree are either one around the other or share no byte.  The path
of a site tells it apart from all others of the same tree.
-/

namespace LivePatch

deriving instance DecidableEq for Crumb

deriving instance DecidableEq for Site

namespace Site

/-! ## Parts -/

theorem mem_partsFrom {s p : Site} {index start : Nat} {ts : List Tree} :
    p ∈ s.partsFrom index start ts ↔ ∃ front t back, ts = front ++ t :: back ∧
      p = ⟨t, start + (front.map Tree.width).sum,
        ⟨s.tree, s.start, index + front.length⟩ :: s.trail⟩ := by
  induction ts generalizing index start with
  | nil => simp [partsFrom]
  | cons u ts ih =>
    rw [partsFrom, List.mem_cons, ih]
    constructor
    · rintro (rfl | ⟨front, t, back, rfl, rfl⟩)
      · exact ⟨[], u, ts, rfl, by simp⟩
      · refine ⟨u :: front, t, back, rfl, ?_⟩
        simp [Nat.add_assoc, Nat.add_comm 1]
    · rintro ⟨front, t, back, hts, rfl⟩
      cases front with
      | nil =>
        obtain ⟨rfl, rfl⟩ := List.cons.inj hts
        exact .inl (by simp)
      | cons v front =>
        obtain ⟨rfl, rfl⟩ := List.cons.inj hts
        refine .inr ⟨front, t, back, rfl, ?_⟩
        simp [Nat.add_assoc, Nat.add_comm 1]

/-- A part of a node stands behind the parts in front of it. -/
theorem mem_parts {s p : Site} :
    p ∈ s.parts ↔ ∃ front t back, s.tree.children = front ++ t :: back ∧
      p = ⟨t, s.start + (front.map Tree.width).sum,
        ⟨s.tree, s.start, front.length⟩ :: s.trail⟩ := by
  simp [parts, mem_partsFrom]

theorem exists_of_mem_parts {s p : Site} (h : p ∈ s.parts) :
    ∃ front t back, s.tree.children = front ++ t :: back ∧
      p = ⟨t, s.start + (front.map Tree.width).sum,
        ⟨s.tree, s.start, front.length⟩ :: s.trail⟩ :=
  mem_parts.mp h

theorem tree_mem_of_mem_parts {s p : Site} (h : p ∈ s.parts) : p.tree ∈ s.tree.children := by
  obtain ⟨front, t, back, hs, rfl⟩ := exists_of_mem_parts h
  simp [hs]

theorem ancestors_of_mem_parts {s p : Site} (h : p ∈ s.parts) :
    p.ancestors = s :: s.ancestors := by
  obtain ⟨front, t, back, -, rfl⟩ := exists_of_mem_parts h
  rfl

theorem path_of_mem_parts {s p : Site} (h : p ∈ s.parts) : ∃ i, p.path = i :: s.path := by
  obtain ⟨front, t, back, -, rfl⟩ := exists_of_mem_parts h
  exact ⟨front.length, rfl⟩

/-- Only a node has parts. -/
theorem isNode_of_mem_parts {s p : Site} (h : p ∈ s.parts) : s.tree.isNode = true := by
  have hmem := tree_mem_of_mem_parts h
  cases hs : s.tree with
  | token w => simp [hs, Tree.children] at hmem
  | node k ts => rfl

/-- A part is told apart from the others by its index. -/
theorem eq_of_mem_parts {s p q : Site} (hp : p ∈ s.parts) (hq : q ∈ s.parts)
    (h : p.path = q.path) : p = q := by
  obtain ⟨front, t, back, hs, rfl⟩ := exists_of_mem_parts hp
  obtain ⟨front', t', back', hs', rfl⟩ := exists_of_mem_parts hq
  have hlen : front.length = front'.length := (List.cons.inj h).1
  obtain ⟨rfl, hback⟩ := List.append_inj (hs.symm.trans hs') hlen
  obtain ⟨rfl, -⟩ := List.cons.inj hback
  rfl

theorem width_node (k : Kind) (ts : List Tree) :
    (Tree.node k ts).width = (ts.map Tree.width).sum := by
  rw [Tree.width, Tree.leaves_node, Tree.widthOf_leavesAll]

/-- A part lies inside of its node. -/
theorem span_of_mem_parts {s p : Site} (h : p ∈ s.parts) :
    s.span.start ≤ p.span.start ∧ p.span.stop ≤ s.span.stop := by
  obtain ⟨front, t, back, hs, rfl⟩ := exists_of_mem_parts h
  cases hk : s.tree with
  | token w => simp [hk, Tree.children] at hs
  | node k ts =>
    rw [hk] at hs
    simp only [Tree.children] at hs
    simp only [span, hk, width_node, hs, List.map_append, List.map_cons, List.sum_append,
      List.sum_cons]
    omega

/-- Two parts of a node are the same, or one ends before the other starts. -/
theorem parts_apart {s p q : Site} (hp : p ∈ s.parts) (hq : q ∈ s.parts) :
    p = q ∨ p.span.stop ≤ q.span.start ∨ q.span.stop ≤ p.span.start := by
  obtain ⟨front, t, back, hs, rfl⟩ := exists_of_mem_parts hp
  obtain ⟨front', t', back', hs', rfl⟩ := exists_of_mem_parts hq
  rcases List.append_eq_append_iff.mp (hs.symm.trans hs') with ⟨as, rfl, has⟩ | ⟨as, rfl, has⟩
  · cases as with
    | nil =>
      obtain ⟨rfl, -⟩ := List.cons.inj has
      exact .inl (by simp)
    | cons a as =>
      obtain ⟨rfl, -⟩ := List.cons.inj has
      refine .inr (.inl ?_)
      simp only [span, List.map_append, List.map_cons, List.sum_append, List.sum_cons]
      omega
  · cases as with
    | nil =>
      obtain ⟨rfl, -⟩ := List.cons.inj has
      exact .inl (by simp)
    | cons a as =>
      obtain ⟨rfl, -⟩ := List.cons.inj has
      refine .inr (.inr ?_)
      simp only [span, List.map_append, List.map_cons, List.sum_append, List.sum_cons]
      omega

/-- The parts of a node stand in the order of their starts. -/
theorem pairwise_partsFrom (s : Site) (index start : Nat) (ts : List Tree) :
    (s.partsFrom index start ts).Pairwise fun p q => p.start ≤ q.start := by
  induction ts generalizing index start with
  | nil => exact .nil
  | cons t ts ih =>
    refine .cons (fun q hq => ?_) (ih _ _)
    obtain ⟨front, u, back, -, rfl⟩ := mem_partsFrom.mp hq
    exact Nat.le_trans (Nat.le_add_right start t.width) (Nat.le_add_right _ _)

/-- A node among the parts is met before the first one that starts behind `offset`. -/
theorem mem_takeWhile_nodes {s p : Site} {offset : Nat} (hp : p ∈ s.nodes)
    (hle : p.start ≤ offset) : p ∈ s.nodes.takeWhile (fun q => q.start ≤ offset) := by
  have hsorted : s.nodes.Pairwise fun p q => p.start ≤ q.start :=
    (s.pairwise_partsFrom 0 s.start s.tree.children).filter _
  generalize s.nodes = nodes at hp hsorted
  induction nodes with
  | nil => cases hp
  | cons q nodes ih =>
    obtain ⟨hfirst, hrest⟩ := List.pairwise_cons.mp hsorted
    rcases List.mem_cons.mp hp with rfl | hp
    · simp [hle]
    · have hq : q.start ≤ offset := Nat.le_trans (hfirst p hp) hle
      rw [List.takeWhile_cons_of_pos (by simpa using hq)]
      exact List.mem_cons_of_mem _ (ih hp hrest)

/-- The nodes around a site are those around the nearest one, and so on. -/
theorem ancestors_of_append {s a : Site} {front back : List Site}
    (h : s.ancestors = front ++ a :: back) : back = a.ancestors := by
  obtain ⟨t, start, trail⟩ := s
  change ofTrail trail = front ++ a :: back at h
  induction trail generalizing front with
  | nil => simp [ofTrail] at h
  | cons c trail ih =>
    cases front with
    | nil =>
      obtain ⟨rfl, rfl⟩ := List.cons.inj h
      rfl
    | cons b front => exact ih (List.cons.inj h).2

/-! ## What stands around what -/

/-- `b` stands at or below `a`: some steps from a node to one of its parts lead there. -/
inductive Around (a : Site) : Site → Prop
  | refl : Around a a
  | part {b p : Site} : Around a b → p ∈ b.parts → Around a p

namespace Around

variable {a b c p : Site}

theorem trans (h : a.Around b) (k : b.Around c) : a.Around c := by
  induction k with
  | refl => exact h
  | part _ hp ih => exact ih.part hp

theorem of_part (h : p ∈ a.parts) (k : p.Around b) : a.Around b := (Around.refl.part h).trans k

/-- The first step of the way down. -/
theorem eq_or_exists_part (h : a.Around b) : a = b ∨ ∃ p ∈ a.parts, p.Around b := by
  induction h with
  | refl => exact .inl rfl
  | @part b p _ hp ih =>
    rcases ih with rfl | ⟨q, hq, hqb⟩
    · exact .inr ⟨p, hp, .refl⟩
    · exact .inr ⟨q, hq, hqb.part hp⟩

theorem span_le (h : a.Around b) : a.span.start ≤ b.span.start ∧ b.span.stop ≤ a.span.stop := by
  induction h with
  | refl => exact ⟨Nat.le_refl _, Nat.le_refl _⟩
  | part _ hp ih =>
    obtain ⟨hstart, hstop⟩ := span_of_mem_parts hp
    exact ⟨Nat.le_trans ih.1 hstart, Nat.le_trans hstop ih.2⟩

/-- The leaves of what stands below are some of the leaves, in a row. -/
theorem exists_leaves (h : a.Around b) :
    ∃ front back, a.tree.leaves = front ++ b.tree.leaves ++ back := by
  induction h with
  | refl => exact ⟨[], [], by simp⟩
  | @part b p _ hp ih =>
    obtain ⟨front, back, ih⟩ := ih
    obtain ⟨ts, t, us, hb, rfl⟩ := exists_of_mem_parts hp
    cases htree : b.tree with
    | token v => simp [htree, Tree.children] at hb
    | node k parts =>
      rw [htree] at hb ih
      obtain rfl : parts = ts ++ t :: us := hb
      refine ⟨front ++ Tree.leavesAll ts, Tree.leavesAll us ++ back, ?_⟩
      rw [ih]
      simp

theorem mem_leaves (h : a.Around b) {w : Token} (hw : w ∈ b.tree.leaves) : w ∈ a.tree.leaves := by
  obtain ⟨front, back, hleaves⟩ := h.exists_leaves
  rw [hleaves]
  simp [hw]

/-- What stands around a node is a node. -/
theorem isNode (h : a.Around b) (hb : b.tree.isNode = true) : a.tree.isNode = true := by
  rcases h.eq_or_exists_part with rfl | ⟨p, hp, -⟩
  · exact hb
  · exact isNode_of_mem_parts hp

theorem path_length_le (h : a.Around b) : a = b ∨ a.path.length < b.path.length := by
  induction h with
  | refl => exact .inl rfl
  | part _ hp ih =>
    obtain ⟨i, hi⟩ := path_of_mem_parts hp
    right
    rw [hi, List.length_cons]
    rcases ih with rfl | hlt
    · exact Nat.lt_succ_self _
    · exact Nat.lt_succ_of_lt hlt

theorem antisymm (h : a.Around b) (k : b.Around a) : a = b := by
  rcases h.path_length_le with rfl | hlt
  · rfl
  rcases k.path_length_le with rfl | hlt'
  · rfl
  · exact absurd hlt (Nat.lt_asymm hlt')

/-- The nodes around a site, up to one that stands around it, stand between the two. -/
theorem chain (h : a.Around b) : ∃ between, b :: b.ancestors = between ++ a :: a.ancestors ∧
    ∀ c ∈ between, a.Around c ∧ c.Around b := by
  induction h with
  | refl => exact ⟨[], rfl, by simp⟩
  | @part b p hb hp ih =>
    obtain ⟨between, hchain, hall⟩ := ih
    refine ⟨p :: between, ?_, ?_⟩
    · rw [ancestors_of_mem_parts hp, hchain, List.cons_append]
    · intro c hc
      rcases List.mem_cons.mp hc with rfl | hc
      · exact ⟨hb.part hp, .refl⟩
      · exact ⟨(hall c hc).1, (hall c hc).2.part hp⟩

theorem mem_ancestors (h : a.Around b) : b = a ∨ a ∈ b.ancestors := by
  cases h with
  | refl => exact .inl rfl
  | @part b p hb hp =>
    obtain ⟨between, hchain, -⟩ := hb.chain
    right
    rw [ancestors_of_mem_parts hp, hchain]
    simp

/-- The ancestors of a site of a tree are sites of the tree, and stand around it. -/
theorem of_mem_ancestors {t : Tree} (h : (root t).Around b) (ha : a ∈ b.ancestors) :
    (root t).Around a ∧ a.Around b := by
  obtain ⟨between, hchain, hall⟩ := h.chain
  have hmem : a ∈ between ++ (root t) :: (root t).ancestors := by
    rw [← hchain]
    exact List.mem_cons_of_mem _ ha
  rcases List.mem_append.mp hmem with hmem | hmem
  · exact hall a hmem
  · obtain rfl : a = root t := by simpa [ancestors, root, ofTrail] using hmem
    exact ⟨.refl, h⟩

/-- The node right around a site of a tree has it as a part. -/
theorem of_parent {t : Tree} (h : (root t).Around b) (hp : b.parent? = some p) :
    (root t).Around p ∧ b ∈ p.parts := by
  cases h with
  | refl => cases hp
  | part ha hb =>
    rw [parent?, ancestors_of_mem_parts hb] at hp
    obtain rfl := Option.some.inj hp
    exact ⟨ha, hb⟩

/-- **Two sites of one tree.**  One stands around the other, or they share no byte. -/
theorem around_or_apart {r : Site} (ha : r.Around a) (hb : r.Around b) :
    a.Around b ∨ b.Around a ∨ a.span.stop ≤ b.span.start ∨ b.span.stop ≤ a.span.start := by
  induction ha with
  | refl => exact .inl hb
  | @part a p _ hp ih =>
    have hspan := span_of_mem_parts hp
    rcases ih with hab | hba | hapart | hapart
    · rcases hab.eq_or_exists_part with rfl | ⟨q, hq, hqb⟩
      · exact .inr (.inl (Around.refl.part hp))
      · have hqspan := hqb.span_le
        rcases parts_apart hp hq with rfl | hapart | hapart
        · exact .inl hqb
        · exact .inr (.inr (.inl (Nat.le_trans hapart hqspan.1)))
        · exact .inr (.inr (.inr (Nat.le_trans hqspan.2 hapart)))
    · exact .inr (.inl (hba.part hp))
    · exact .inr (.inr (.inl (Nat.le_trans hspan.2 hapart)))
    · exact .inr (.inr (.inr (Nat.le_trans hapart hspan.1)))

/-- **The path of a site** tells it apart from the other sites of the tree. -/
theorem eq_of_path {t : Tree} (ha : (root t).Around a) (hb : (root t).Around b)
    (h : a.path = b.path) : a = b := by
  induction ha generalizing b with
  | refl =>
    cases hb with
    | refl => rfl
    | part _ hp =>
      obtain ⟨i, hi⟩ := path_of_mem_parts hp
      rw [hi] at h
      cases h
  | part _ hp ih =>
    obtain ⟨i, hi⟩ := path_of_mem_parts hp
    cases hb with
    | refl =>
      rw [hi] at h
      cases h
    | part hb hq =>
      obtain ⟨j, hj⟩ := path_of_mem_parts hq
      rw [hi, hj] at h
      obtain rfl := ih hb (List.cons.inj h).2
      exact eq_of_mem_parts hp hq (by rw [hi, hj, h])

theorem isSame_iff {t : Tree} (ha : (root t).Around a) (hb : (root t).Around b) :
    a.isSame b = true ↔ a = b := by
  rw [isSame, beq_iff_eq]
  exact ⟨eq_of_path ha hb, congrArg path⟩

end Around

/-! ## Descendants -/

theorem nodesWithinAll_eq (s : Site) (index start : Nat) (ts : List Tree) :
    nodesWithinAll s.tree s.start s.trail index start ts =
      (s.partsFrom index start ts).flatMap descendants := by
  induction ts generalizing index start with
  | nil => simp [nodesWithinAll, partsFrom]
  | cons t ts ih => rw [nodesWithinAll, ih, partsFrom, List.flatMap_cons, descendants]

theorem descendants_token (w : Token) (start : Nat) (trail : List Crumb) :
    descendants ⟨.token w, start, trail⟩ = [] := by
  rw [descendants, nodesWithin]

/-- A node stands in front of the nodes below it, and these come part by part. -/
theorem descendants_node (k : Kind) (ts : List Tree) (start : Nat) (trail : List Crumb) :
    descendants ⟨.node k ts, start, trail⟩ =
      ⟨.node k ts, start, trail⟩ :: (parts ⟨.node k ts, start, trail⟩).flatMap descendants := by
  rw [descendants, nodesWithin]
  exact congrArg _ (nodesWithinAll_eq ⟨.node k ts, start, trail⟩ 0 start ts)

theorem descendants_of_isNode {n : Site} (h : n.tree.isNode = true) :
    n.descendants = n :: n.parts.flatMap descendants := by
  obtain ⟨t, start, trail⟩ := n
  cases t with
  | token w => cases h
  | node k ts => exact descendants_node k ts start trail

theorem descendants_of_token {n : Site} (h : n.tree.isNode = false) : n.descendants = [] := by
  obtain ⟨t, start, trail⟩ := n
  cases t with
  | token w => exact descendants_token w start trail
  | node k ts => cases h

/-- The descendants of a site are the nodes that it stands around. -/
theorem mem_descendants {a b : Site} :
    b ∈ a.descendants ↔ a.Around b ∧ b.tree.isNode = true := by
  obtain ⟨t, start, trail⟩ := a
  induction t using Tree.inductionOn generalizing start trail with
  | leaf w =>
    rw [descendants_token]
    refine ⟨nofun, fun ⟨h, hnode⟩ => ?_⟩
    rcases h.eq_or_exists_part with rfl | ⟨p, hp, -⟩
    · cases hnode
    · cases isNode_of_mem_parts hp
  | part k ts ih =>
    rw [descendants_node, List.mem_cons, List.mem_flatMap]
    constructor
    · rintro (rfl | ⟨p, hp, hb⟩)
      · exact ⟨.refl, rfl⟩
      · have hbelow := (ih p.tree (tree_mem_of_mem_parts hp) p.start p.trail).mp hb
        exact ⟨.of_part hp hbelow.1, hbelow.2⟩
    · rintro ⟨h, hnode⟩
      rcases h.eq_or_exists_part with rfl | ⟨p, hp, hpb⟩
      · exact .inl rfl
      · refine .inr ⟨p, hp, ?_⟩
        exact (ih p.tree (tree_mem_of_mem_parts hp) p.start p.trail).mpr ⟨hpb, hnode⟩

/-! ## What the parts of a node say -/

variable {s p : Site}

theorem nodesOf_subset {k : Kind} (h : p ∈ s.nodesOf k) : p ∈ s.nodes :=
  (List.mem_filter.mp h).1

theorem mem_parts_of_mem_nodes (h : p ∈ s.nodes) : p ∈ s.parts :=
  (List.mem_filter.mp h).1

theorem token_mem_of_mem_tokens {w : Token} (h : w ∈ s.tokens) : .token w ∈ s.tree.children := by
  obtain ⟨t, ht, hw⟩ := List.mem_filterMap.mp h
  cases t with
  | node k ts => cases hw
  | token v =>
    obtain rfl : v = w := Option.some.inj hw
    exact ht

theorem mem_leaves_of_mem_tokens {w : Token} (h : w ∈ s.tokens) : w ∈ s.tree.leaves := by
  have ht := token_mem_of_mem_tokens h
  cases hs : s.tree with
  | token u => simp [hs, Tree.children] at ht
  | node k ts =>
    rw [hs] at ht
    rw [Tree.leaves_node]
    exact Tree.mem_leavesAll.mpr ⟨.token w, ht, by simp⟩

theorem declaredName?_eq_some {w : Token} (h : s.declaredName? = some w) :
    w ∈ s.tree.leaves ∧ w.kind = .identifier := by
  have hmem : w ∈ s.identifiers := List.mem_of_getLast? h
  obtain ⟨hw, hk⟩ := List.mem_filter.mp hmem
  exact ⟨mem_leaves_of_mem_tokens hw, beq_iff_eq.mp hk⟩

theorem boundName?_eq_some {w : Token} (h : s.boundName? = some w) :
    w ∈ s.tokens ∧ w.kind = .identifier := by
  have hfind : s.tokens.find? (fun t : Token => t.kind == .identifier) = some w := h
  have hk := List.find?_some hfind
  exact ⟨List.mem_of_find?_eq_some hfind, beq_iff_eq.mp hk⟩

end Site

end LivePatch
