import LivePatch.Proofs.Regularity
import LivePatch.Proofs.Revision
import LivePatch.Proofs.Views

/-!
# Trees in place of nodes

When each template of a pass is an expression, the pass does nothing but put trees in place of
nodes.  A `Substitution` says which, and `Substitution.apply` does it.

To compare what is seen before and after, each site of a tree gets an `image` in the new tree.  The
image has the same path, the nodes around it are the images of the nodes around the site, and as
long as a node is kept its parts are the images of its parts.
-/

namespace LivePatch

/-- What to put in place of nodes. -/
abbrev Substitution : Type := Site → Option Tree

namespace Substitution

mutual

/-- The tree with other trees in place of nodes. -/
def apply (F : Substitution) (trail : List Crumb) (start : Nat) : Tree → Tree
  | .token w => .token w
  | .node k ts =>
    (F ⟨.node k ts, start, trail⟩).getD (.node k (applyAll F ⟨.node k ts, start, trail⟩ 0 start ts))

/-- Some parts of the node at `site`, from the `index`-th on, with other trees in place of nodes. -/
def applyAll (F : Substitution) (site : Site) (index start : Nat) : List Tree → List Tree
  | [] => []
  | t :: ts =>
    apply F (⟨site.tree, site.start, index⟩ :: site.trail) start t ::
      applyAll F site (index + 1) (start + t.width) ts

end

/-- The whole tree with other trees in place of nodes. -/
def run (F : Substitution) (t : Tree) : Tree := F.apply [] 0 t

variable {F : Substitution}

/-- The tree that the image of a site holds. -/
def treeAt (F : Substitution) (n : Site) : Tree := F.apply n.trail n.start n.tree

theorem treeAt_token (w : Token) (start : Nat) (trail : List Crumb) :
    F.treeAt ⟨.token w, start, trail⟩ = .token w := by
  rw [treeAt, apply]

theorem treeAt_of_none {n : Site} {k : Kind} {ts : List Tree} (htree : n.tree = .node k ts)
    (h : F n = none) : F.treeAt n = .node k (F.applyAll n 0 n.start ts) := by
  obtain ⟨t, start, trail⟩ := n
  obtain rfl : t = .node k ts := htree
  rw [treeAt, apply, h]
  rfl

theorem treeAt_of_some {n : Site} {t : Tree} (hnode : n.tree.isNode = true) (h : F n = some t) :
    F.treeAt n = t := by
  obtain ⟨u, start, trail⟩ := n
  cases u with
  | token w => cases hnode
  | node k ts =>
    rw [treeAt, apply, h]
    rfl

/-- The new parts are the trees of the images of the parts. -/
theorem applyAll_eq (n : Site) (index start : Nat) (ts : List Tree) :
    F.applyAll n index start ts = (n.partsFrom index start ts).map F.treeAt := by
  induction ts generalizing index start with
  | nil => rw [applyAll]; rfl
  | cons t ts ih => rw [applyAll, Site.partsFrom, List.map_cons, ih, treeAt]

/-- A node that is kept gets the trees of its parts' images as parts. -/
theorem treeAt_eq {n : Site} (hnode : n.tree.isNode = true) (h : F n = none) :
    F.treeAt n = .node n.kind (n.parts.map F.treeAt) := by
  cases htree : n.tree with
  | token w =>
    rw [htree] at hnode
    cases hnode
  | node k ts =>
    rw [treeAt_of_none htree h, applyAll_eq, Decision.partsFrom_children htree, Site.kind, htree]
    rfl

/-! ## Images -/

/-- The image of the site with the given trail, tree and start. -/
def imageOf (F : Substitution) : List Crumb → Tree → Nat → Site
  | [], t, start => ⟨F.apply [] start t, start, []⟩
  | c :: trail, t, start =>
    let parent := imageOf F trail c.parent c.start
    ⟨F.apply (c :: trail) start t,
      parent.start + ((parent.tree.children.take c.index).map Tree.width).sum,
      ⟨parent.tree, parent.start, c.index⟩ :: parent.trail⟩

/-- Where a site of a tree is found in the new tree. -/
def image (F : Substitution) (n : Site) : Site := F.imageOf n.trail n.tree n.start

theorem image_root (t : Tree) : F.image (Site.root t) = Site.root (F.run t) := rfl

@[simp] theorem image_tree (n : Site) : (F.image n).tree = F.treeAt n := by
  obtain ⟨t, start, trail⟩ := n
  cases trail <;> rfl

@[simp] theorem image_path (n : Site) : (F.image n).path = n.path := by
  obtain ⟨t, start, trail⟩ := n
  induction trail generalizing t start with
  | nil => rfl
  | cons c trail ih => exact congrArg (c.index :: ·) (ih c.parent c.start)

@[simp] theorem isSame_image (n m : Site) : (F.image n).isSame (F.image m) = n.isSame m := by
  simp [Site.isSame]

@[simp] theorem image_ancestors (n : Site) :
    (F.image n).ancestors = n.ancestors.map F.image := by
  obtain ⟨t, start, trail⟩ := n
  induction trail generalizing t start with
  | nil => rfl
  | cons c trail ih => exact congrArg (F.imageOf trail c.parent c.start :: ·) (ih c.parent c.start)

@[simp] theorem image_parent? (n : Site) : (F.image n).parent? = n.parent?.map F.image := by
  simp [Site.parent?]

/-- **The parts of a node that is kept.** -/
theorem parts_image {n : Site} (h : F n = none) :
    (F.image n).parts = n.parts.map F.image := by
  cases htree : n.tree with
  | token w =>
    obtain ⟨t, start, trail⟩ := n
    obtain rfl : t = .token w := htree
    rw [Site.parts, Site.parts, image_tree, treeAt_token]
    rfl
  | node k ts =>
    have hnew : (F.image n).tree.children = F.applyAll n 0 n.start ts := by
      rw [image_tree, treeAt_of_none htree h]
      rfl
    -- The induction is over the parts that are left, behind `front`.
    have hfrom : ∀ (front us : List Tree) (start : Nat),
        F.applyAll n 0 n.start ts = front ++ F.applyAll n front.length start us →
        (F.image n).partsFrom front.length ((F.image n).start + (front.map Tree.width).sum)
            (F.applyAll n front.length start us) =
          (n.partsFrom front.length start us).map F.image := by
      intro front us
      induction us generalizing front with
      | nil =>
        intro start _
        rw [applyAll]
        rfl
      | cons u us ih =>
        intro start hall
        have hcut : (F.image n).tree.children.take front.length = front := by
          rw [hnew, hall, List.take_left]
        rw [applyAll] at hall ⊢
        rw [Site.partsFrom, Site.partsFrom, List.map_cons]
        refine congrArg₂ List.cons ?_ ?_
        · show _ = F.imageOf (_ :: n.trail) u start
          rw [imageOf]
          show _ = Site.mk _ ((F.image n).start +
            (((F.image n).tree.children.take front.length).map Tree.width).sum) _
          rw [hcut]
          rfl
        · have hrest := ih (front ++ [F.apply (⟨n.tree, n.start, front.length⟩ :: n.trail) start u])
            (start + u.width) (by rw [hall]; simp)
          simpa [Nat.add_assoc] using hrest
    have hall := hfrom [] ts n.start rfl
    rw [Site.parts, Site.parts, hnew, htree]
    simp only [List.length_nil, List.map_nil, List.sum_nil, Nat.add_zero] at hall
    exact hall

theorem image_mem_parts {n p : Site} (h : F n = none) (hp : p ∈ n.parts) :
    F.image p ∈ (F.image n).parts := by
  rw [parts_image h]
  exact List.mem_map_of_mem hp

/-! ## Words -/

end Substitution

namespace Kind

/-- Is this the kind of a word that may be replaced, or of what may be put in its place? -/
def isSwapped : Kind → Bool
  | .nameExpression | .thisExpression | .memberAccessExpression | .castExpression
  | .parenthesizedExpression => true
  | _ => false

/-- Is this the kind of a node inside of what may be put in place of a word? -/
def isInserted : Kind → Bool
  | .typeArgumentList | .type | .namedType | .predefinedType => true
  | k => k.isSwapped

end Kind

namespace Tree

mutual

/-- The kinds of the nodes of a tree, in reading order. -/
def kinds : Tree → List Kind
  | .token _ => []
  | .node k ts => k :: kindsAll ts

/-- The kinds of the nodes of several trees, in reading order. -/
def kindsAll : List Tree → List Kind
  | [] => []
  | t :: ts => kinds t ++ kindsAll ts

end

theorem mem_kindsAll {k : Kind} {ts : List Tree} : k ∈ kindsAll ts ↔ ∃ t ∈ ts, k ∈ t.kinds := by
  induction ts with
  | nil => simp [kindsAll]
  | cons t ts ih => simp [kindsAll, ih]

end Tree

theorem Site.Around.mem_kinds {a b : Site} (h : a.Around b) (hb : b.tree.isNode = true) :
    b.kind ∈ a.tree.kinds := by
  obtain ⟨t, start, trail⟩ := a
  induction t using Tree.inductionOn generalizing start trail with
  | leaf w =>
    cases h.isNode hb
  | part k ts ih =>
    rw [Tree.kinds, List.mem_cons]
    rcases h.eq_or_exists_part with rfl | ⟨p, hp, hpb⟩
    · exact .inl rfl
    · have hmem := Site.tree_mem_of_mem_parts hp
      exact .inr (Tree.mem_kindsAll.mpr ⟨p.tree, hmem, ih p.tree hmem p.start p.trail hpb⟩)

/-- One site of a tree stands around another if its path is the last part of the other one's. -/
theorem Site.around_iff_path {t : Tree} {a b : Site} (ha : (Site.root t).Around a)
    (hb : (Site.root t).Around b) : a.Around b ↔ a.path <:+ b.path := by
  constructor
  · intro h
    induction h with
    | refl => exact List.suffix_refl _
    | part hab hp ih =>
      obtain ⟨i, hi⟩ := path_of_mem_parts hp
      rw [hi]
      exact (ih (ha.trans hab)).trans (List.suffix_cons _ _)
  · intro h
    induction hb with
    | refl =>
      obtain rfl := ha.eq_of_path .refl (List.suffix_nil.mp h)
      exact .refl
    | @part b p hb hp ih =>
      obtain ⟨i, hi⟩ := path_of_mem_parts hp
      rw [hi] at h
      rcases List.suffix_cons_iff.mp h with heq | hsuffix
      · obtain rfl := ha.eq_of_path (hb.part hp) (heq.trans hi.symm)
        exact .refl
      · exact (ih hsuffix).part hp

namespace Substitution

variable {F : Substitution} {root : Tree} {n m p : Site}

/-- On the tree `root`, names that stand for themselves and `this` are replaced, by trees of the
kind that the passes make. -/
structure Rewords (F : Substitution) (root : Tree) : Prop where
  isWord : ∀ {n t}, (Site.root root).Around n → n.tree.isNode = true → F n = some t →
    ∃ w, n.tree.IsWord w
  stands : ∀ {n t}, (Site.root root).Around n → n.tree.isNode = true → F n = some t →
    n.kind = .nameExpression ∧ n.nameContext = .bare ∨ n.kind = .thisExpression
  made : ∀ {n t}, (Site.root root).Around n → n.tree.isNode = true → F n = some t →
    t.isNode = true ∧ t.kind ∈ [.memberAccessExpression, .castExpression, .parenthesizedExpression]
  inside : ∀ {n t}, (Site.root root).Around n → n.tree.isNode = true → F n = some t →
    ∀ k ∈ t.kinds, k.isInserted = true

/-- A node of the tree that is kept. -/
structure Keeps (F : Substitution) (root : Tree) (n : Site) : Prop where
  around : (Site.root root).Around n
  isNode : n.tree.isNode = true
  kept : F n = none

namespace Rewords

variable (h : F.Rewords root)

include h

/-- A node of another kind is kept. -/
theorem keeps_of_kind (hn : (Site.root root).Around n) (hnode : n.tree.isNode = true)
    (hkind : n.kind.isSwapped = false) : F.Keeps root n := by
  refine ⟨hn, hnode, ?_⟩
  by_contra hne
  obtain ⟨t, ht⟩ := Option.ne_none_iff_exists'.mp hne
  rcases h.stands hn hnode ht with ⟨hk, -⟩ | hk
  · rw [hk] at hkind
    cases hkind
  · rw [hk] at hkind
    cases hkind

/-- A node with a node among its parts is kept. -/
theorem keeps_of_part (hn : (Site.root root).Around n) (hp : p ∈ n.parts)
    (hnode : p.tree.isNode = true) : F.Keeps root n := by
  have hnnode := Site.isNode_of_mem_parts hp
  refine ⟨hn, hnnode, ?_⟩
  by_contra hne
  obtain ⟨t, ht⟩ := Option.ne_none_iff_exists'.mp hne
  obtain ⟨w, hw⟩ := h.isWord hn hnnode ht
  rw [hw.isNode_eq_false _ (Site.tree_mem_of_mem_parts hp)] at hnode
  cases hnode

/-- The nodes around a node are kept. -/
theorem keeps_of_mem_ancestors (hn : (Site.root root).Around n) (hnode : n.tree.isNode = true)
    (hm : m ∈ n.ancestors) : F.Keeps root m := by
  induction hn with
  | refl => cases hm
  | @part b p hb hp ih =>
    rw [Site.ancestors_of_mem_parts hp] at hm
    rcases List.mem_cons.mp hm with rfl | hm
    · exact h.keeps_of_part hb hp hnode
    · exact ih (Site.isNode_of_mem_parts hp) hm

/-- The image of a node is a place of the new tree. -/
theorem around_image (hn : (Site.root root).Around n) (hnode : n.tree.isNode = true) :
    (Site.root (F.run root)).Around (F.image n) := by
  induction hn with
  | refl => exact .refl
  | @part b p hb hp ih =>
    have hkept := h.keeps_of_part hb hp hnode
    exact (ih hkept.isNode).part (image_mem_parts hkept.kept hp)

theorem around_image_iff (hn : (Site.root root).Around n) (hnode : n.tree.isNode = true)
    (hm : (Site.root root).Around m) (hmnode : m.tree.isNode = true) :
    (F.image n).Around (F.image m) ↔ n.Around m := by
  rw [Site.around_iff_path (h.around_image hn hnode) (h.around_image hm hmnode),
    Site.around_iff_path hn hm, image_path, image_path]

theorem isNode_image (hn : (Site.root root).Around n) :
    (F.image n).tree.isNode = n.tree.isNode := by
  rw [image_tree]
  cases htree : n.tree with
  | token w =>
    obtain ⟨t, start, trail⟩ := n
    obtain rfl : t = .token w := htree
    rw [treeAt_token]
  | node k ts =>
    have hnode : n.tree.isNode = true := by rw [htree]; rfl
    cases hF : F n with
    | none =>
      rw [treeAt_of_none htree hF]
      rfl
    | some t =>
      rw [treeAt_of_some hnode hF, (h.made hn hnode hF).1]
      rfl

/-- What is replaced, and what is put in its place. -/
theorem isSwapped_of_some {t : Tree} (hn : (Site.root root).Around n)
    (hnode : n.tree.isNode = true) (hF : F n = some t) :
    n.kind.isSwapped = true ∧ (F.image n).kind.isSwapped = true := by
  rw [Site.kind, Site.kind, image_tree, treeAt_of_some hnode hF]
  refine ⟨?_, ?_⟩
  · rcases h.stands hn hnode hF with ⟨hk, -⟩ | hk <;> rw [Site.kind] at hk <;> rw [hk] <;> rfl
  · have hmem := (h.made hn hnode hF).2
    simp only [List.mem_cons, List.not_mem_nil, or_false] at hmem
    rcases hmem with hk | hk | hk <;> rw [hk] <;> rfl

/-- Every node of the new tree is the image of a node, or stands inside of what was put in place
of a word. -/
theorem image_or_inside {m' : Site} (hm : (Site.root (F.run root)).Around m')
    (hnode : m'.tree.isNode = true) :
    (∃ m, (Site.root root).Around m ∧ m.tree.isNode = true ∧ m' = F.image m) ∨
      ∃ n t, (Site.root root).Around n ∧ n.tree.isNode = true ∧ F n = some t ∧
        (F.image n).Around m' := by
  induction hm with
  | refl =>
    refine .inl ⟨Site.root root, .refl, ?_, rfl⟩
    rw [← h.isNode_image .refl]
    exact hnode
  | @part b' p' hb hp ih =>
    rcases ih (Site.isNode_of_mem_parts hp) with ⟨b, hplace, hbnode, rfl⟩ | ⟨n, t, hn, hnnode, hF, hnb⟩
    · cases hF : F b with
      | none =>
        rw [parts_image hF] at hp
        obtain ⟨p, hpart, rfl⟩ := List.mem_map.mp hp
        rw [h.isNode_image (hplace.part hpart)] at hnode
        exact .inl ⟨p, hplace.part hpart, hnode, rfl⟩
      | some t => exact .inr ⟨b, t, hplace, hbnode, hF, Site.Around.refl.part hp⟩
    · exact .inr ⟨n, t, hn, hnnode, hF, hnb.part hp⟩

/-- A node of a kind that nothing put in place of a word holds is the image of one that is kept. -/
theorem exists_keeps {m' : Site} (hm : (Site.root (F.run root)).Around m')
    (hnode : m'.tree.isNode = true) (hkind : m'.kind.isInserted = false) :
    ∃ m, F.Keeps root m ∧ m' = F.image m := by
  have hinside : ∀ {n t}, (Site.root root).Around n → n.tree.isNode = true → F n = some t →
      ¬(F.image n).Around m' := by
    intro n t hn hnnode hF haround
    have hmem := haround.mem_kinds hnode
    rw [image_tree, treeAt_of_some hnnode hF] at hmem
    rw [h.inside hn hnnode hF _ hmem] at hkind
    cases hkind
  rcases h.image_or_inside hm hnode with ⟨m, hplace, hmnode, rfl⟩ | ⟨n, t, hn, hnnode, hF, haround⟩
  · refine ⟨m, ⟨hplace, hmnode, ?_⟩, rfl⟩
    by_contra hne
    obtain ⟨t, hF⟩ := Option.ne_none_iff_exists'.mp hne
    exact hinside hplace hmnode hF .refl
  · exact absurd haround (hinside hn hnnode hF)

/-- What is found in the new tree, if nothing is found below grafts. -/
theorem filterMap_descendants_image {β : Type} {g : Site → Option β}
    (hinside : ∀ n t, (Site.root root).Around n → n.tree.isNode = true → F n = some t →
      ∀ q ∈ (F.image n).parts, ∀ m ∈ q.descendants, g m = none)
    (hn : (Site.root root).Around n) :
    (F.image n).descendants.filterMap g = n.descendants.filterMap fun m => g (F.image m) := by
  obtain ⟨t, start, trail⟩ := n
  induction t using Tree.inductionOn generalizing start trail with
  | leaf w =>
    rw [Site.descendants_token, Site.descendants_of_token (h.isNode_image hn)]
    rfl
  | part k ts ih =>
    have himage := h.isNode_image hn
    have hparts : ((F.image ⟨.node k ts, start, trail⟩).parts.flatMap Site.descendants).filterMap g =
        ((Site.parts ⟨.node k ts, start, trail⟩).flatMap Site.descendants).filterMap
          fun m => g (F.image m) := by
      rw [List.filterMap_flatMap, List.filterMap_flatMap]
      cases hF : F ⟨.node k ts, start, trail⟩ with
      | some t =>
        -- On neither side there is anything below.
        obtain ⟨w, hw⟩ := h.isWord hn rfl hF
        have hnew : ∀ q ∈ (F.image ⟨.node k ts, start, trail⟩).parts,
            q.descendants.filterMap g = [] := fun q hq =>
          List.filterMap_eq_nil_iff.mpr (hinside _ t hn rfl hF q hq)
        have hold : ∀ q ∈ Site.parts ⟨.node k ts, start, trail⟩,
            (q.descendants.filterMap fun m => g (F.image m)) = [] := fun q hq => by
          rw [Site.descendants_of_token (hw.isNode_eq_false _ (Site.tree_mem_of_mem_parts hq))]
          rfl
        rw [List.flatMap_eq_nil_iff.mpr hnew, List.flatMap_eq_nil_iff.mpr hold]
      | none =>
        rw [parts_image hF, List.flatMap_map]
        refine List.flatMap_congr fun p hp => ?_
        exact ih p.tree (Site.tree_mem_of_mem_parts hp) p.start p.trail (hn.part hp)
    rw [Site.descendants_of_isNode himage, Site.descendants_node, List.filterMap_cons,
      List.filterMap_cons, hparts]

end Rewords

/-! ## One substitution after another -/

/-- Nothing is put in place of a node at the site or below it. -/
def Silent (F : Substitution) (n : Site) : Prop :=
  ∀ m, n.Around m → m.tree.isNode = true → F m = none

theorem treeAt_of_silent (hn : F.Silent n) : F.treeAt n = n.tree := by
  obtain ⟨t, start, trail⟩ := n
  induction t using Tree.inductionOn generalizing start trail with
  | leaf w => exact treeAt_token w start trail
  | part k ts ih =>
    rw [treeAt_eq rfl (hn _ .refl rfl)]
    have hparts : ∀ p ∈ Site.parts ⟨.node k ts, start, trail⟩, F.treeAt p = p.tree := fun p hp =>
      ih p.tree (Site.tree_mem_of_mem_parts hp) p.start p.trail fun m hm =>
        hn m (.of_part hp hm)
    rw [List.map_congr_left hparts]
    exact congrArg (Tree.node k) (Site.partsFrom_map_tree _ _ _ _)

/-- **Two stages at once.**  If a third substitution does at each node that the first one keeps what
the second one does at its image, and puts in place of the others what the two make of them
together, then the third one does both. -/
theorem treeAt_image {G H : Substitution} (h : F.Rewords root)
    (hkept : ∀ n, F.Keeps root n → G (F.image n) = H n)
    (hmade : ∀ n t, (Site.root root).Around n → n.tree.isNode = true → F n = some t →
      H n = some (G.treeAt (F.image n)))
    (hn : (Site.root root).Around n) : G.treeAt (F.image n) = H.treeAt n := by
  obtain ⟨t, start, trail⟩ := n
  induction t using Tree.inductionOn generalizing start trail with
  | leaf w =>
    have htree : (F.image ⟨.token w, start, trail⟩).tree = .token w := by
      rw [image_tree, treeAt_token]
    rw [treeAt_token]
    cases himage : F.image ⟨.token w, start, trail⟩ with
    | mk u s tr =>
      rw [himage] at htree
      obtain rfl : u = .token w := htree
      exact treeAt_token w s tr
  | part k ts ih =>
    generalize hsite : (⟨.node k ts, start, trail⟩ : Site) = n at hn
    have htree : n.tree = .node k ts := by rw [← hsite]
    have hnode : n.tree.isNode = true := by rw [htree]; rfl
    cases hF : F n with
    | some t => rw [treeAt_of_some hnode (hmade n t hn hnode hF)]
    | none =>
      have himage : (F.image n).tree.isNode = true := by rw [h.isNode_image hn, hnode]
      have hsame := hkept n ⟨hn, hnode, hF⟩
      cases hH : H n with
      | some t =>
        rw [hH] at hsame
        rw [treeAt_of_some himage hsame, treeAt_of_some hnode hH]
      | none =>
        rw [hH] at hsame
        have hkind : (F.image n).kind = n.kind := by
          rw [Site.kind, image_tree, treeAt_eq hnode hF]
          rfl
        rw [treeAt_eq himage hsame, treeAt_eq hnode hH, hkind, parts_image hF, List.map_map]
        refine congrArg (Tree.node n.kind) (List.map_congr_left fun p hp => ?_)
        have hmem : p.tree ∈ ts := by
          have := Site.tree_mem_of_mem_parts hp
          rwa [htree] at this
        exact ih p.tree hmem p.start p.trail (hn.part hp)

/-- The second one may also leave alone what the first one has put in. -/
theorem run_run {G H : Substitution} (h : F.Rewords root)
    (hkept : ∀ n, F.Keeps root n → G (F.image n) = H n)
    (hmade : ∀ n t, (Site.root root).Around n → n.tree.isNode = true → F n = some t →
      H n = some t ∧ G.Silent (F.image n)) : G.run (F.run root) = H.run root := by
  refine treeAt_image h hkept (fun n t hn hnode hF => ?_) (n := Site.root root) .refl
  obtain ⟨hH, hsilent⟩ := hmade n t hn hnode hF
  rw [treeAt_of_silent hsilent, image_tree, treeAt_of_some hnode hF, hH]

/-- First the one substitution, then the other on the tree that it leaves. -/
def andThen (F G : Substitution) : Substitution := fun n =>
  if (F n).isSome then some (G.treeAt (F.image n)) else G (F.image n)

theorem treeAt_andThen (h : F.Rewords root) (G : Substitution) (hn : (Site.root root).Around n) :
    (F.andThen G).treeAt n = G.treeAt (F.image n) := by
  refine (treeAt_image h (fun m hm => ?_) (fun m t _ _ ht => ?_) hn).symm
  · rw [andThen, hm.kept]
    rfl
  · rw [andThen, ht]
    rfl

end Substitution

/-! ## Decisions as substitutions -/

namespace Decision

variable {f : Site → Option Proposal} {comments : Bool} {root : Tree}

/-- What a decision puts in place of nodes, as far as its templates are expressions. -/
def fills (comments : Bool) (f : Site → Option Proposal) : Substitution := fun n =>
  match f n with
  | none => none
  | some p =>
    match synthesize p.template with
    | .error _ => none
    | .ok made => some (finish comments p.rule n.tree made)

theorem fills_of_none {n : Site} (h : f n = none) : fills comments f n = none := by
  rw [fills, h]

theorem fills_of_ok {n : Site} {p : Proposal} {made : Tree} (h : f n = some p)
    (hmade : synthesize p.template = .ok made) :
    fills comments f n = some (finish comments p.rule n.tree made) := by
  rw [fills, h]
  simp only [hmade]

theorem fills_eq_some {n : Site} {t : Tree} :
    fills comments f n = some t ↔ ∃ p made, f n = some p ∧ synthesize p.template = .ok made ∧
      t = finish comments p.rule n.tree made := by
  unfold fills
  split
  · rename_i hnone
    simp [hnone]
  · rename_i p hsome
    split
    · rename_i hfail
      simp [hsome, hfail]
    · rename_i made hmade
      simp [hsome, hmade, eq_comm]

/-- A revision puts in place of nodes what its decision says. -/
theorem treeAt_eq_of_revise (hd : (ofSite f).Apart root) {n : Site} {t' : Tree} {es : List Edit}
    (hn : (Site.root root).Around n)
    (h : (ofSite f).revise comments n.trail n.start n.tree = .ok (t', es)) :
    t' = (fills comments f).treeAt n := by
  refine revise_induction (d := ofSite f)
    (P := fun n t' _ => (Site.root root).Around n → t' = (fills comments f).treeAt n)
    (Q := fun n index start ts ts' _ =>
      (∀ q ∈ n.partsFrom index start ts, (Site.root root).Around q) →
      ts' = (n.partsFrom index start ts).map (fills comments f).treeAt ∧
        ((∀ q ∈ n.partsFrom index start ts, (ofSite f).Silent q) → ts' = ts))
    ?_ ?_ ?_ ?_ ?_ h hn
  · intro w start trail _
    rw [Substitution.treeAt_token]
  · intro n index start _
    exact ⟨rfl, fun _ => rfl⟩
  · intro n index start t ts t' ts' es fs hrev hfirst hrest hparts
    obtain ⟨rfl, hsames⟩ := hrest fun q hq => hparts q (List.mem_cons_of_mem _ hq)
    refine ⟨?_, fun hsilent => ?_⟩
    · rw [Site.partsFrom, List.map_cons, ← hfirst (hparts _ List.mem_cons_self)]
    · obtain ⟨rfl, -⟩ := eq_of_silent (hsilent _ List.mem_cons_self) hrev
      rw [hsames fun q hq => hsilent q (List.mem_cons_of_mem _ hq)]
  · intro n k ts ts' es htree hparts hnone hn
    rw [partsFrom_children htree] at hparts
    obtain ⟨rfl, -⟩ := hparts fun q hq => hn.part hq
    rw [Substitution.treeAt_eq (by rw [htree]; rfl) (fills_of_none hnone), Site.kind, htree]
    rfl
  · intro n k ts ts' es p made htree hparts hsome hmade hn
    rw [partsFrom_children htree] at hparts
    obtain ⟨-, hsame⟩ := hparts fun q hq => hn.part hq
    rw [hsame (hd n hn _ p hsome), ← htree,
      Substitution.treeAt_of_some (by rw [htree]; rfl) (fills_of_ok hsome hmade)]

/-- **A decision whose templates are all expressions** succeeds, and does what its substitution
says. -/
theorem run_ofSite (comments : Bool) (hd : (ofSite f).Apart root)
    (hmade : ∀ n, (Site.root root).Around n → n.tree.isNode = true → ∀ p, f n = some p →
      ∃ made, synthesize p.template = .ok made) :
    (ofSite f).run comments root = .ok { tree := (fills comments f).run root
                                         edits := (Site.root root).descendants.filterMap (edit? f) } := by
  rw [run]
  cases hrev : (ofSite f).revise comments [] 0 root with
  | error e =>
    obtain ⟨n, hn, p, hp, hfail⟩ := exists_failure hrev
    obtain ⟨hplace, hnode⟩ := Site.mem_descendants.mp hn
    obtain ⟨made, hok⟩ := hmade n hplace hnode p hp
    rw [hfail] at hok
    cases hok
  | ok revised =>
    obtain ⟨tree, edits⟩ := revised
    have htree := treeAt_eq_of_revise hd (n := Site.root root) .refl hrev
    have hedits := edits_eq hd (n := Site.root root) .refl hrev
    rw [htree, hedits]
    rfl

end Decision

end LivePatch
