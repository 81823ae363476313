import LivePatch.Proofs.Synthesized

/-!
# Regular trees

The passes run one after the other, each over the tree that the one before left, and such a tree
need not be what its text reads as.  What they rely on is less: the tokens are pieces of text, the
parts of names, of `this` and of return statements are what the grammar makes them, and the core
of a returned value can be read on its own.  A `Regular` tree has all this.  The tree of a text
is regular (`regular_parse`), and so is what a template reads as.

Names without type arguments and `this` are the nodes that stand for a single word, `IsWord`; to
put something in place of such a node is to put it in place of the word.
-/

namespace LivePatch

open Token (Divides Edges textOf endOfText)

/-! ## Cores -/

/-- A core is followed on its own. -/
theorem Mode.Follows.core {m : Mode} {ts lead core trail : List Token} (h : m.Follows ts)
    (hedges : Edges ts lead core trail) (hne : ∀ w ∈ core, w.text ≠ "") :
    Mode.code.Follows core := by
  rw [hedges.eq] at h
  have hcore := (Mode.follows_append.mp (Mode.follows_append.mp h).1).2
  obtain ⟨w, rest, rfl, hw⟩ := hedges.first
  cases htext : w.text.toList with
  | nil => exact absurd (String.toList_eq_nil_iff.mp htext) (hne w List.mem_cons_self)
  | cons c cs => exact hcore.restart hw htext rfl (Mode.starts_code c cs)

namespace Tree

theorem mem_leaves_of_mem_coreLeaves {t : Tree} {w : Token} (ht : t.isSolid = true)
    (hw : w ∈ t.coreLeaves) : w ∈ t.leaves := by
  rw [(edges_of_isSolid ht).eq]
  simp [hw]

/-! ## Returned values -/

/-- The tree can be returned: its tokens are pieces of text, and its core can be read on its
own. -/
structure IsValue (e : Tree) : Prop where
  pieces : ∀ w ∈ e.leaves, w.IsPiece
  follows : Mode.code.Follows e.coreLeaves

/-- In each return statement of the tree, every expression can be returned. -/
inductive ReturnsValues : Tree → Prop
  | token (w : Token) : ReturnsValues (.token w)
  | node {k : Kind} {ts : List Tree} :
      (k = .returnStatement →
        ∀ e ∈ ts, e.isNode = true → e.kind.isExpression = true → e.IsValue) →
      (∀ t ∈ ts, ReturnsValues t) → ReturnsValues (.node k ts)

theorem isValue_of_follows {e : Tree} {m : Mode} (h : m.Follows e.leaves)
    (hpieces : ∀ w ∈ e.leaves, w.IsPiece) (hsolid : e.isSolid = true) : e.IsValue := by
  refine ⟨hpieces, h.core (edges_of_isSolid hsolid) fun w hw => ?_⟩
  exact (hpieces w (mem_leaves_of_mem_coreLeaves hsolid hw)).ne_empty

/-- A sound tree that is followed as a whole returns values. -/
theorem returnsValues_of_follows {t : Tree} {m : Mode} (h : m.Follows t.leaves)
    (hpieces : ∀ w ∈ t.leaves, w.IsPiece) (hsound : t.Sound) : t.ReturnsValues := by
  induction t using inductionOn generalizing m with
  | leaf w => exact .token w
  | part k ts ih =>
    obtain ⟨hparts, hall⟩ := sound_node.mp hsound
    rw [leaves_node] at h hpieces
    have hpart : ∀ t ∈ ts, (∃ m : Mode, m.Follows t.leaves) ∧ ∀ w ∈ t.leaves, w.IsPiece := by
      intro t ht
      refine ⟨?_, fun w hw => hpieces w (mem_leavesAll.mpr ⟨t, ht, hw⟩)⟩
      obtain ⟨front, back, rfl⟩ := List.append_of_mem ht
      rw [leavesAll_append, leavesAll_cons] at h
      exact ⟨_, (Mode.follows_append.mp (Mode.follows_append.mp h).2).1⟩
    refine .node ?_ fun t ht => ?_
    · rintro rfl e he hnode hexpr
      obtain ⟨⟨m', hm'⟩, hp⟩ := hpart e he
      exact isValue_of_follows hm' hp ((hparts e he).2 hnode hexpr)
    · obtain ⟨⟨m', hm'⟩, hp⟩ := hpart t ht
      exact ih t ht hm' hp (hall t ht)

/-! ## Regular trees -/

/-- What every pass relies on, and leaves. -/
structure Regular (t : Tree) : Prop where
  pieces : ∀ w ∈ t.leaves, w.IsPiece ∨ w = endOfText
  sound : t.Sound
  returns : t.ReturnsValues

end Tree

/-- **The tree of a text** is regular. -/
theorem regular_parse (source : String) : (parse source).tree.Regular := by
  obtain ⟨s, y, gap, hlast⟩ := Grammar.exists_last_parse source
  have hleaves : Divides (lexed source ++ [endOfText]) (parse source).tree.leaves :=
    hlast.holds.leaves
  have htree := hlast.tree
  generalize hparts : s.built.reverse ++ gap.map Tree.token = parts at htree
  rw [htree] at hleaves ⊢
  -- In front of the end of the text there are the pieces of the text.
  obtain ⟨vs, hvs, hdiv⟩ := hleaves.concat (by decide)
  obtain rfl : Tree.leavesAll parts = vs := by
    have : Tree.leavesAll parts ++ [endOfText] = vs ++ [endOfText] := by
      rw [← hvs]
      simp
    exact List.append_cancel_right this
  have hpieces : ∀ w ∈ Tree.leavesAll parts, w.IsPiece :=
    hdiv.forall_mem Token.isPiece_closingAngle fun _ hw => isPiece_of_mem_lexed hw
  have hfollows := (follows_lexed source).of_divides hdiv
  have hsound : ∀ t ∈ parts, t.Sound := by
    intro t ht
    rw [← hparts] at ht
    rcases List.mem_append.mp ht with ht | ht
    · exact hlast.describes.sound t (List.mem_reverse.mp ht)
    · obtain ⟨w, -, rfl⟩ := List.mem_map.mp ht
      exact Tree.sound_token w
  -- The root is no return statement, so it is enough that its parts return values.
  have hreturns : (Tree.node .compilationUnit parts).ReturnsValues :=
    Tree.returnsValues_of_follows (by simpa using hfollows) (by simpa using hpieces)
      (Tree.sound_node.mpr ⟨trivial, hsound⟩)
  refine ⟨?_, ?_, ?_⟩
  · intro w hw
    rw [hvs] at hw
    rcases List.mem_append.mp hw with hw | hw
    · exact .inl (hpieces w hw)
    · exact .inr (List.mem_singleton.mp hw)
  · refine Tree.sound_node.mpr ⟨trivial, fun t ht => ?_⟩
    rcases List.mem_append.mp ht with ht | ht
    · exact hsound t ht
    · rw [List.mem_singleton.mp ht]
      exact Tree.sound_token _
  · refine .node nofun fun t ht => ?_
    rcases List.mem_append.mp ht with ht | ht
    · cases hreturns with
      | node _ hall => exact hall t ht
    · rw [List.mem_singleton.mp ht]
      exact .token _

/-! ## Places of a regular tree -/

namespace Site

variable {a b : Site}

theorem Around.sound {t : Tree} (h : (root t).Around b) (ht : t.Sound) : b.tree.Sound := by
  generalize hroot : root t = a at h
  induction h with
  | refl =>
    rw [← hroot]
    exact ht
  | @part b p _ hp ih =>
    have hmem := tree_mem_of_mem_parts hp
    cases hb : b.tree with
    | token w => simp [hb, Tree.children] at hmem
    | node k ts =>
      rw [hb] at hmem ih
      exact (Tree.sound_node.mp ih).2 p.tree hmem

theorem Around.returnsValues (h : a.Around b) (ha : a.tree.ReturnsValues) :
    b.tree.ReturnsValues := by
  induction h with
  | refl => exact ha
  | @part b p _ hp ih =>
    have hmem := tree_mem_of_mem_parts hp
    cases hb : b.tree with
    | token w => simp [hb, Tree.children] at hmem
    | node k ts =>
      rw [hb] at hmem ih
      cases ih with
      | node _ hall => exact hall p.tree hmem

end Site

/-! ## Nodes that stand for one word -/

namespace Tree

/-- The node consists of the word `w`, and of trivia at most. -/
structure IsWord (t : Tree) (w : Token) : Prop where
  isNode : t.isNode = true
  significant : w.isTrivia = false
  bare_eq : bare t.children = [.token w]

namespace IsWord

variable {t : Tree} {w : Token}

theorem unique {v : Token} (h : t.IsWord w) (k : t.IsWord v) : w = v := by
  have := h.bare_eq.symm.trans k.bare_eq
  simpa using this

theorem edges (h : t.IsWord w) : ∃ lead trail, Edges t.leaves lead [w] trail := by
  obtain ⟨front, back, hparts, hfront, hback⟩ := exists_of_bare_eq_singleton h.bare_eq
  cases t with
  | token v => cases h.isNode
  | node k ts =>
    obtain rfl : ts = front ++ token w :: back := hparts
    refine ⟨leavesAll front, leavesAll back, by simp, ?_, ?_, ?_, ?_⟩
    · exact isTrivia_of_bare_eq_nil hfront
    · exact isTrivia_of_bare_eq_nil hback
    · exact ⟨w, [], rfl, h.significant⟩
    · exact ⟨[], w, rfl, h.significant⟩

theorem isSolid (h : t.IsWord w) : t.isSolid = true := by
  obtain ⟨lead, trail, hedges⟩ := h.edges
  refine isSolid_iff.mpr ⟨w, ?_, ?_⟩
  · rw [hedges.eq]
    simp
  · simp [Token.isSignificant, h.significant]

theorem coreText_eq (h : t.IsWord w) : t.coreText = w.text := by
  obtain ⟨lead, trail, hedges⟩ := h.edges
  rw [coreText, coreLeaves_of_edges hedges]
  simp

/-- Such a node has no node as a part. -/
theorem isNode_eq_false (h : t.IsWord w) : ∀ p ∈ t.children, p.isNode = false := by
  intro p hp
  cases p with
  | token v => rfl
  | node k ts =>
    have hmem : node k ts ∈ bare t.children := mem_bare.mpr ⟨hp, rfl⟩
    rw [h.bare_eq] at hmem
    cases List.mem_singleton.mp hmem

end IsWord

theorem isWord_this {t : Tree} (hsound : t.Sound) (hnode : t.isNode = true)
    (hkind : t.kind = .thisExpression) : t.IsWord ⟨.thisKw, "this"⟩ := by
  cases t with
  | token v => cases hnode
  | node k ts =>
    obtain rfl : k = .thisExpression := hkind
    exact ⟨rfl, rfl, (sound_node.mp hsound).1⟩

end Tree

namespace Site

theorem node?_eq_none {s : Site} {k : Kind} (h : s.node? k = none) :
    ∀ t ∈ s.tree.children, t.isNode = true → t.kind ≠ k := by
  intro t ht hnode hkind
  obtain ⟨front, back, hs⟩ := List.append_of_mem ht
  obtain ⟨p, hpart, rfl⟩ : ∃ p ∈ s.parts, p.tree = t :=
    ⟨_, mem_parts.mpr ⟨front, t, back, hs, rfl⟩, rfl⟩
  have hmem : p ∈ s.nodesOf k := List.mem_filter.mpr
    ⟨List.mem_filter.mpr ⟨hpart, hnode⟩, by simpa [kind] using hkind⟩
  rw [List.head?_eq_none_iff.mp h] at hmem
  cases hmem

/-- A name without type arguments stands for one word. -/
theorem isWord_name {s : Site} {w : Token} (hsound : s.tree.Sound) (hnode : s.tree.isNode = true)
    (hkind : s.kind = .nameExpression) (hname : s.boundName? = some w)
    (hplain : s.node? .typeArgumentList = none) : s.tree.IsWord w := by
  obtain ⟨hmem, hw⟩ := boundName?_eq_some hname
  have hsig : w.isTrivia = false := by rw [Token.isTrivia, hw]; rfl
  have hbare : .token w ∈ Tree.bare s.tree.children :=
    Tree.mem_bare.mpr ⟨token_mem_of_mem_tokens hmem, hsig⟩
  refine ⟨hnode, hsig, ?_⟩
  have hparts : Tree.IsName (Tree.bare s.tree.children) := by
    cases hs : s.tree with
    | token v =>
      rw [hs] at hnode
      cases hnode
    | node k ts =>
      rw [hs] at hsound
      obtain rfl : k = .nameExpression := by
        have := hkind
        rwa [kind, hs] at this
      exact (Tree.sound_node.mp hsound).1
  rcases hparts with hnil | ⟨v, hone, -⟩ | ⟨hall, p, hp, hpnode⟩
  · rw [hnil] at hbare
    cases hbare
  · rw [hone] at hbare ⊢
    obtain rfl : w = v := by simpa using hbare
    rfl
  · -- There would be type arguments.
    have hpart := hall p hp
    cases p with
    | token v => cases hpnode
    | node k ts =>
      exact absurd hpart (node?_eq_none hplain _ (Tree.mem_bare.mp hp).1 rfl)

end Site

end LivePatch
