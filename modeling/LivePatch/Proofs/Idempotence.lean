import LivePatch.Proofs.Commutation

/-!
# Patching twice

What the passes over words leave, they leave alone when they run again.  Each word that was kept is
kept again, since the passes decide the same about it; and in what was put in place of words there
is nothing to replace: `this` stands in a cast there, the name of a field stands behind its type,
and the name of the type is no field of the type.

The last is an assumption about the text: `Site.IsDistinct` says that a type declares no field with
its own name.
-/

namespace LivePatch

open Decision (fills)

/-- No static field that the type declares, and that is not private under the policy, has the name
of the type. -/
def Site.IsDistinct (type : Site) (visibility : FieldVisibility) : Prop :=
  ∀ w, type.declaredName? = some w → w.text ∉ type.patchedFieldNames visibility

instance (type : Site) (visibility : FieldVisibility) : Decidable (type.IsDistinct visibility) :=
  inferInstanceAs (Decidable (∀ w, type.declaredName? = some w → _))

/-! ## Nothing to do -/

/-- A decision that is silent on a tree leaves it as it is. -/
theorem Decision.run_of_silent {f : Site → Option Proposal} {t : Tree} (comments : Bool)
    (h : (ofSite f).Silent (Site.root t)) : (ofSite f).run comments t = .ok ⟨t, []⟩ := by
  have hnone : ∀ n, (Site.root t).Around n → n.tree.isNode = true → f n = none :=
    fun n hn hnode => h n hn hnode n.tree
  rw [run_ofSite comments, filterMap_edit?_of_silent h]
  · congr 2
    exact Substitution.treeAt_of_silent fun m hm hnode => fills_of_none (hnone m hm hnode)
  · intro n hn _ p hp q hq m hm hnode _
    exact hnone m ((hn.part hq).trans hm) hnode
  · intro n hn hnode p hp
    rw [hnone n hn hnode] at hp
    cases hp

/-! ## What was put in place of words -/

namespace Tree

/-- The edges of a word are trivia, so they are not seen in what is put in its place. -/
theorem dropTrivia_finish {replaced made : Tree} {w : Token} (comments : Bool) (rule : PatchRule)
    (h : replaced.IsWord w) : (finish comments rule replaced made).dropTrivia = made.dropTrivia := by
  obtain ⟨lead, trail, hedges⟩ := h.edges
  cases made with
  | token v => rfl
  | node k parts =>
    have hlead : lead.filter (!Token.isTrivia ·) = [] := by simpa using hedges.lead
    have htrail : trail.filter (!Token.isTrivia ·) = [] := by simpa using hedges.trail
    have hmark : (mark comments rule).filter (!Token.isTrivia ·) = [] := by
      cases comments <;> rfl
    rw [finish_node hedges, ← without_isTrivia, ← without_isTrivia, without_node, without_node]
    simp [hlead, htrail, hmark]

end Tree

/-- The casts hold no place where `this` is replaced. -/
theorem SelfReference.silent_cast {s : Site} (hkind : s.kind ≠ .thisExpression)
    (hkinds : ∀ k ∈ s.tree.kinds, k ∈ castKinds) : (Decision.ofSite cast?).Silent s := by
  intro m hm hnode _
  by_contra hne
  obtain ⟨p, hp⟩ := Option.ne_none_iff_exists'.mp hne
  have hthis := (cast?_eq_some hp).1
  cases hm with
  | refl => exact hkind hthis
  | @part b m hsb hpart =>
    have hmem := hkinds _ (hsb.mem_kinds (Site.isNode_of_mem_parts hpart))
    have hparent : m.parent? = some b := by
      rw [Site.parent?, Site.ancestors_of_mem_parts hpart]
      rfl
    have hrule : ∀ type, rule? m type = none := by
      intro type
      simp only [castKinds, List.mem_cons, List.not_mem_nil, or_false] at hmem
      rcases hmem with h | h | h | h | h | h | h <;> simp [rule?, hparent, h]
    have hnone : cast? m = none := by simp [cast?, propose, hrule]
    exact hne hnone

/-- No name stands below a name without nodes of that kind among its parts. -/
theorem Site.Around.eq_of_name {c m : Site} (h : c.Around m) (hnode : m.tree.isNode = true)
    (hkind : m.kind = .nameExpression)
    (hparts : .nameExpression ∉ Tree.kindsAll c.tree.dropTrivia.children) : c = m := by
  rcases h.eq_or_exists_part with rfl | ⟨e, he, hem⟩
  · rfl
  · have hmem := hem.mem_kinds hnode
    rw [hkind] at hmem
    rw [Tree.kindsAll_children_dropTrivia] at hparts
    exact absurd (Tree.mem_kindsAll.mpr ⟨e.tree, tree_mem_of_mem_parts he, hmem⟩) hparts

/-- The nodes of a member access that was made: the name of the type and that of the member. -/
theorem Site.exists_nodes_member {s : Site} {t name : Token} {us : List Token}
    (hs : s.tree.dropTrivia = Grammar.memberTree t us name) : ∃ a b, s.nodes = [a, b] ∧
      a.tree.dropTrivia = .node .nameExpression (Grammar.qualifierParts t us) ∧
      b.tree.dropTrivia = .node .nameExpression [.token name] := by
  have hmap := s.nodes_map_without (p := Token.isTrivia)
  simp only [Tree.without_isTrivia, hs] at hmap
  have hlist : (Grammar.memberTree t us name).children.filter Tree.isNode =
      [.node .nameExpression (Grammar.qualifierParts t us),
        .node .nameExpression [.token name]] := rfl
  rw [hlist] at hmap
  obtain ⟨a, rest, hnodes, ha, hrest⟩ := List.map_eq_cons_iff.mp hmap
  obtain ⟨b, rest, rfl, hb, hnil⟩ := List.map_eq_cons_iff.mp hrest
  obtain rfl := List.map_eq_nil_iff.mp hnil
  exact ⟨a, b, hnodes, ha, hb⟩

/-- Nor does a member of a type hold a place where a name is replaced, if the type has no field
with its own name. -/
theorem StaticFields.silent_member {s : Site} {t name : Token} {us : List Token}
    {visibility : FieldVisibility} (hs : s.tree.dropTrivia = Grammar.memberTree t us name)
    (ht : t.kind = .identifier)
    (htype : ∀ type, s.ancestors.find? (·.kind.isTypeDeclaration) = some type →
      t.text ∉ type.patchedFieldNames visibility) :
    (Decision.ofSite (reference? visibility)).Silent s := by
  intro m hm hnode _
  by_contra hne
  obtain ⟨p, hp⟩ := Option.ne_none_iff_exists'.mp hne
  obtain ⟨type, q, x, hr, -⟩ := reference?_eq_some.mp hp
  have hskind : s.kind = .memberAccessExpression := by
    rw [Site.kind, ← Tree.kind_dropTrivia, hs]
    rfl
  obtain ⟨a, b, hnodes, ha, hb⟩ := Site.exists_nodes_member hs
  rcases hm.eq_or_exists_part with rfl | ⟨c, hc, hcm⟩
  · rw [hr.kind] at hskind
    cases hskind
  have hmem : c ∈ s.nodes := List.mem_filter.mpr ⟨hc, hcm.isNode hnode⟩
  rw [hnodes] at hmem
  simp only [List.mem_cons, List.not_mem_nil, or_false] at hmem
  rcases hmem with rfl | rfl
  · -- The name of the type is no field of it.
    obtain rfl := hcm.eq_of_name hnode hr.kind (by
      rw [ha]
      exact fun hmem => absurd (kindsAll_qualifierParts hmem) (by decide))
    have hbound : c.boundName? = some t := by
      rw [Site.boundName?, c.token?_eq_without (p := Token.isTrivia), Tree.without_isTrivia, ha]
      · cases us <;> simp [Tree.children, Grammar.qualifierParts, Tree.token?, ht]
      · rintro w hw hk
        rw [Token.isTrivia, hk] at hw
        cases hw
    obtain rfl : t.text = x := by
      have := hr.named
      rw [hbound] at this
      exact Option.some.inj this
    refine htype type ?_ (Site.mem_patchedFieldNames.mpr hr.declared)
    have hnearest := hr.nearest
    rw [Site.ancestors_of_mem_parts hc, List.find?_cons_of_neg] at hnearest
    · exact hnearest
    · rw [hskind]
      decide
  · -- The name of the member selects a member.
    obtain rfl := hcm.eq_of_name hnode hr.kind (by
      rw [hb]
      simp [Tree.children, Tree.kindsAll, Tree.kinds])
    have hlast : s.accessedName? = some c := by
      rw [Site.accessedName?, Site.lastNode?, hnodes]
      simp [hr.kind]
    have hbare := hr.bare
    rw [Site.nameContext_of_accessedName? hskind hlast] at hbare
    cases hbare

/-! ## Both passes again -/

section

variable {root : Tree} {visibility : FieldVisibility} {comments : Bool}

/-- Neither pass finds anything to do in what was put in place of a reference. -/
theorem silent_reference (hroot : root.Readable)
    (hdistinct : ∀ type ∈ (Site.root root).typeDeclarations, type.IsDistinct visibility) {n : Site}
    (hn : (Site.root root).Around n) (hnode : n.tree.isNode = true) {p : Proposal} {t : Tree}
    (hp : StaticFields.reference? visibility n = some p)
    (ht : fills comments (wordDecision visibility) n = some t) :
    (Decision.ofSite (StaticFields.reference? visibility)).Silent
        ((fills comments (wordDecision visibility)).image n) ∧
      (Decision.ofSite SelfReference.cast?).Silent
        ((fills comments (wordDecision visibility)).image n) := by
  have hrewords := (recasts_wordDecision hroot visibility).rewords comments
  have hword : wordDecision visibility n = some p := by rw [wordDecision, hp, Option.some_or]
  obtain ⟨type, name, us, w, hnearest, hdeclared, hisWord, hmakes⟩ :=
    StaticFields.makes_member hroot hn hnode hp
  refine ⟨?_, ?_⟩
  · obtain ⟨made, hmade, hdrop⟩ := hmakes
    have htree : ((fills comments (wordDecision visibility)).image n).tree.dropTrivia =
        Grammar.memberTree name us w := by
      rw [Substitution.image_tree,
        Substitution.treeAt_of_some hnode (Decision.fills_of_ok hword hmade),
        Tree.dropTrivia_finish _ _ hisWord, hdrop]
    refine StaticFields.silent_member htree (Site.declaredName?_eq_some hdeclared).2 ?_
    intro type' htype'
    rw [hrewords.find?_image hn hnode, hnearest] at htype'
    obtain rfl := Option.some.inj htype'
    have hkept := hrewords.keeps_of_mem_ancestors hn hnode (List.mem_of_find?_eq_some hnearest)
    rw [hkept.patchedFieldNames_eq hrewords]
    have hdeclaration : type.kind.isTypeDeclaration = true := by
      simpa using List.find?_some hnearest
    refine hdistinct type (List.mem_filter.mpr ⟨?_, hdeclaration⟩) name hdeclared
    exact Site.mem_descendants.mpr ⟨hkept.around, hkept.isNode⟩
  · refine .of_kinds hnode hword ht hmakes (fun hmem => ?_)
      fun hq => (SelfReference.cast?_eq_some hq).1
    exact absurd (kinds_memberTree hmem) (by decide)

/-- Nor in what was put in place of `this`. -/
theorem silent_cast (hroot : root.Readable) {n : Site} (hn : (Site.root root).Around n)
    (hnode : n.tree.isNode = true) {p : Proposal} {t : Tree}
    (hword : wordDecision visibility n = some p) (hp : SelfReference.cast? n = some p)
    (ht : fills comments (wordDecision visibility) n = some t) :
    (Decision.ofSite (StaticFields.reference? visibility)).Silent
        ((fills comments (wordDecision visibility)).image n) ∧
      (Decision.ofSite SelfReference.cast?).Silent
        ((fills comments (wordDecision visibility)).image n) := by
  obtain ⟨e, hmakes, hkind, hkinds⟩ : ∃ e, Grammar.MakesTree p.template e ∧
      e.kind ≠ .thisExpression ∧ ∀ k ∈ e.kinds, k ∈ castKinds := by
    obtain ⟨name, us, hmade | hmade⟩ := SelfReference.makes_cast hroot hn hp
    · exact ⟨_, hmade, nofun, fun k hk => List.mem_cons_of_mem _ (kinds_thisCastTree hk)⟩
    · exact ⟨_, hmade, nofun, fun k hk => kinds_parenthesizedTree hk⟩
  refine ⟨?_, ?_⟩
  · refine .of_kinds hnode hword ht hmakes (fun hmem => ?_) StaticFields.kind_of_reference?
    exact absurd (hkinds _ hmem) (by decide)
  · obtain ⟨made, hmade, rfl⟩ := hmakes
    have htree : ((fills comments (wordDecision visibility)).image n).tree =
        finish comments p.rule n.tree made := by
      rw [Substitution.image_tree,
        Substitution.treeAt_of_some hnode (Decision.fills_of_ok hword hmade)]
    refine SelfReference.silent_cast ?_ ?_
    · rwa [Site.kind, htree, Tree.kind_finish, ← Tree.kind_dropTrivia]
    · rwa [htree, Tree.kinds_finish, ← Tree.kinds_dropTrivia]

/-- **On the tree that the two passes leave, neither finds anything to do.** -/
theorem silent_run (hroot : root.Readable)
    (hdistinct : ∀ type ∈ (Site.root root).typeDeclarations, type.IsDistinct visibility)
    (hnew : ((fills comments (wordDecision visibility)).run root).Regular) :
    (Decision.ofSite (StaticFields.reference? visibility)).Silent
        (Site.root ((fills comments (wordDecision visibility)).run root)) ∧
      (Decision.ofSite SelfReference.cast?).Silent
        (Site.root ((fills comments (wordDecision visibility)).run root)) := by
  have hrecasts := recasts_wordDecision hroot visibility
  have hrewords := hrecasts.rewords comments
  have hmade : ∀ {n t}, (Site.root root).Around n → n.tree.isNode = true →
      fills comments (wordDecision visibility) n = some t →
      (Decision.ofSite (StaticFields.reference? visibility)).Silent
          ((fills comments (wordDecision visibility)).image n) ∧
        (Decision.ofSite SelfReference.cast?).Silent
          ((fills comments (wordDecision visibility)).image n) := by
    intro n t hn hnode ht
    obtain ⟨p, -, hword, -⟩ := Decision.fills_eq_some.mp ht
    rcases Option.or_eq_some_iff.mp hword with hp | ⟨-, hp⟩
    · exact silent_reference hroot hdistinct hn hnode hp ht
    · exact silent_cast hroot hn hnode hword hp ht
  have hboth : ∀ m', (Site.root ((fills comments (wordDecision visibility)).run root)).Around m' →
      m'.tree.isNode = true →
      StaticFields.reference? visibility m' = none ∧ SelfReference.cast? m' = none := by
    intro m' hm hmnode
    rcases hrewords.image_or_inside hm hmnode with ⟨m, hplace, hnode, rfl⟩ |
      ⟨n, t, hn, hnode, hF, haround⟩
    · cases hF : fills comments (wordDecision visibility) m with
      | none =>
        have hkeeps : (fills comments (wordDecision visibility)).Keeps root m :=
          ⟨hplace, hnode, hF⟩
        obtain ⟨hreference, hcast⟩ :=
          Option.or_eq_none_iff.mp ((hrecasts.kept_iff hplace hnode).mp hF)
        refine ⟨?_, Option.eq_none_iff_forall_ne_some.mpr fun p hp => ?_⟩
        · rw [hrewords.reference?_image hroot.toRegular hroot.designates hnew.pieces hkeeps,
            hreference]
        · rw [hrewords.cast?_of_image hkeeps hp] at hcast
          cases hcast
      | some t =>
        obtain ⟨hreference, hcast⟩ := hmade hplace hnode hF
        exact ⟨hreference _ .refl hmnode m.tree, hcast _ .refl hmnode m.tree⟩
    · obtain ⟨hreference, hcast⟩ := hmade hn hnode hF
      exact ⟨hreference m' haround hmnode m'.tree, hcast m' haround hmnode m'.tree⟩
  exact ⟨fun m hm hnode _ => (hboth m hm hnode).1, fun m hm hnode _ => (hboth m hm hnode).2⟩

end

/-- **Patching twice.**  On a clean text in which no type declares a static field with its own name,
and when returned values are not to be cast, patching succeeds, and the passes find nothing to do
on the tree that it leaves. -/
theorem patch_settles (options : PatchOptions) (source : String)
    (hclean : (parse source).isClean = true) (hreturns : options.castReturns = false)
    (hdistinct : ∀ type ∈ (Site.root (parse source).tree).typeDeclarations,
      type.IsDistinct options.visibility) :
    ∃ o, patch options source = .ok o ∧ Pass.runAll options Pass.all o.tree = .ok ⟨o.tree, []⟩ := by
  have hroot := readable_parse hclean
  rw [patch]
  simp only [hclean, if_true]
  generalize (parse source).tree = root at *
  obtain ⟨hregular, es, hrun, -⟩ := Pass.run_fields_casts options hroot
  have hlast : ∀ t, Pass.runAll options [.returnType] t = .ok ⟨t, []⟩ := by
    intro t
    exact Pass.runAll_singleton (by simp [Pass.run, hreturns])
  refine ⟨_, Pass.runAll_append hrun (hlast _), ?_⟩
  obtain ⟨hreference, hcast⟩ := silent_run hroot hdistinct hregular
  have hfields := Decision.run_of_silent options.comments hreference
  have hcasts := Decision.run_of_silent options.comments hcast
  rw [← Pass.run_staticFieldAccess] at hfields
  rw [← Pass.run_selfReference] at hcasts
  exact Pass.runAll_append (Pass.runAll_two hfields hcasts) (hlast _)

/-- Calls of `this` beside references to a field, in a type with parameters. -/
def castsAndFields : String :=
  "class A<T> { public static int x; A<T> M() { this.N(x, this); return this; } }"

/-- It has no field with the name of its type, and patching it once is enough. -/
theorem patch_settles_castsAndFields :
    (parse castsAndFields).isClean = true ∧
    (∀ type ∈ (Site.root (parse castsAndFields).tree).typeDeclarations,
      type.IsDistinct .explicitPrivateOnly) ∧
    ∃ o, patch {} castsAndFields = .ok o ∧ Pass.runAll {} Pass.all o.tree = .ok ⟨o.tree, []⟩ := by
  have hfacts : (parse castsAndFields).isClean = true ∧
      ∀ type ∈ (Site.root (parse castsAndFields).tree).typeDeclarations,
        type.IsDistinct .explicitPrivateOnly := by
    decide +kernel
  exact ⟨hfacts.1, hfacts.2, patch_settles {} castsAndFields hfacts.1 rfl hfacts.2⟩

end LivePatch
