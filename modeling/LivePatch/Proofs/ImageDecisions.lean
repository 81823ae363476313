import LivePatch.Proofs.ImageViews
import LivePatch.Proofs.PassDecisions
import Mathlib.Data.List.Find

/-!
# What the passes decide after words have been replaced

The passes over static fields and over `this` look at what is around a word: the nodes on its
trail, the places of its neighbours, the declarations in front of it.  Where a word is kept while
others are replaced, they decide the same about it as before.

There is one exception.  The pass over `this` asks whether the receiver of a call is `this`, and
what was put in place of `this` is not; so it may decide less after `this` itself was replaced.
-/

namespace LivePatch

/-! ## Trails -/

/-- The two steps lead from nodes of the same kind, both to the first node among the parts or
neither. -/
structure Crumb.Alike (c c' : Crumb) : Prop where
  kind : c'.parent.kind = c.parent.kind
  isFirstNode : c'.isFirstNode = c.isFirstNode

theorem setsMembers_of_alike {trail trail' : List Crumb}
    (h : List.Forall₂ Crumb.Alike trail trail') : setsMembers trail' = setsMembers trail := by
  fun_induction setsMembers trail generalizing trail' with
  | case1 =>
    cases h
    rfl
  | case2 owner trail hkind =>
    obtain ⟨owner', rest', hown, -, rfl⟩ := List.forall₂_cons_left_iff.mp h
    rw [setsMembers.eq_def]
    simp only [hown.kind, hkind]
  | case3 owner hkind =>
    obtain ⟨owner', rest', hown, hnil, rfl⟩ := List.forall₂_cons_left_iff.mp h
    rw [List.forall₂_nil_left_iff.mp hnil, setsMembers, hown.kind, hkind]
  | case4 owner hkind outer trail ih =>
    obtain ⟨owner', rest, hown, hrest, rfl⟩ := List.forall₂_cons_left_iff.mp h
    obtain ⟨outer', rest', houter, hrest', rfl⟩ := List.forall₂_cons_left_iff.mp hrest
    rw [setsMembers, hown.kind, hkind]
    simp only [hown.isFirstNode, houter.kind, ih hrest']
  | case5 owner trail hcreation hassignment =>
    obtain ⟨owner', rest', hown, -, rfl⟩ := List.forall₂_cons_left_iff.mp h
    rw [setsMembers.eq_def]
    simp only [hown.kind]

theorem assignsMember_of_alike {trail trail' : List Crumb}
    (h : List.Forall₂ Crumb.Alike trail trail') : assignsMember trail' = assignsMember trail := by
  cases h with
  | nil => rfl
  | @cons around around' rest rest' hown hrest =>
    rw [assignsMember, assignsMember, hown.kind, setsMembers_of_alike hrest]
    have hany : rest'.any (fun c => c.parent.kind == .attributeUse) =
        rest.any (fun c => c.parent.kind == .attributeUse) := by
      induction hrest with
      | nil => rfl
      | cons hc _ ih => rw [List.any_cons, List.any_cons, hc.kind, ih]
    rw [hany]

/-- How the name stands that a member access ends in. -/
theorem Site.nameContext_of_accessedName? {b n : Site} (hkind : b.kind = .memberAccessExpression)
    (hn : b.accessedName? = some n) : n.nameContext = .memberName := by
  obtain ⟨hlast, -⟩ := Option.filter_eq_some_iff.mp hn
  have hpart := mem_parts_of_mem_nodes (List.mem_of_getLast? hlast)
  have hparent : n.parent? = some b := by
    rw [parent?, ancestors_of_mem_parts hpart]
    rfl
  obtain ⟨around, trail, htrail, haround⟩ :
      ∃ c trail, n.trail = c :: trail ∧ c.parent.kind = .memberAccessExpression := by
    obtain ⟨front, u, back, -, rfl⟩ := exists_of_mem_parts hpart
    exact ⟨_, _, rfl, hkind⟩
  rw [nameContext, htrail]
  simp [haround, hparent, hn, isSame]

/-- `this` in a member access is cast only as the receiver. -/
theorem SelfReference.isThisReceiver_of_rule? {n b type : Site} {r : PatchRule}
    (hparent : n.parent? = some b) (hkind : b.kind = .memberAccessExpression)
    (hr : rule? n type = some r) : b.isThisReceiver = true := by
  simp only [rule?, hparent, Option.bind_eq_bind, Option.bind_some, hkind,
    Option.bind_eq_some_iff, Option.guard_eq_some', exists_const] at hr
  exact hr.1

namespace Substitution

variable {F : Substitution} {root : Tree} {n b : Site}

theorem Keeps.alike (hb : F.Keeps root b) (h : F.Rewords root) (index : Nat) :
    Crumb.Alike ⟨b.tree, b.start, index⟩ ⟨(F.image b).tree, (F.image b).start, index⟩ := by
  refine ⟨hb.kind_eq, ?_⟩
  have hparts : b.tree.children = b.parts.map (·.tree) :=
    (Site.partsFrom_map_tree b 0 b.start b.tree.children).symm
  have hfirst : (F.image b).tree.children.findIdx? Tree.isNode =
      b.tree.children.findIdx? Tree.isNode := by
    have hid : ∀ ts : List Tree, ts.findIdx? Tree.isNode = (ts.map Tree.isNode).findIdx? id := by
      intro ts
      rw [List.findIdx?_map]
      rfl
    rw [hid, hid, hb.tree_eq, hparts]
    show ((b.parts.map F.treeAt).map _).findIdx? id = _
    rw [List.map_map, List.map_map]
    refine congrArg (List.findIdx? id) (List.map_congr_left fun p hp => ?_)
    have hisNode := h.isNode_image (hb.around.part hp)
    rwa [image_tree] at hisNode
  rw [Crumb.isFirstNode, Crumb.isFirstNode, hfirst]

namespace Rewords

variable (h : F.Rewords root)

include h

theorem alike_trail (hn : (Site.root root).Around n) (hnode : n.tree.isNode = true) :
    List.Forall₂ Crumb.Alike n.trail (F.image n).trail := by
  induction hn with
  | refl => exact .nil
  | @part b p hb hp ih =>
    obtain ⟨front, u, back, -, rfl⟩ := Site.exists_of_mem_parts hp
    exact .cons ((h.keeps_of_part hb hp hnode).alike h _) (ih (Site.isNode_of_mem_parts hp))

end Rewords

namespace Keeps

theorem lastNode?_eq (hb : F.Keeps root b) (h : F.Rewords root) :
    (F.image b).lastNode? = b.lastNode?.map F.image := by
  rw [Site.lastNode?, Site.lastNode?, hb.nodes_eq h, List.getLast?_map]

/-- The name that a member access ends in does not stand for itself, so it is kept. -/
theorem of_accessedName? (hb : F.Keeps root b) (h : F.Rewords root)
    (hkind : b.kind = .memberAccessExpression) (hn : b.accessedName? = some n) :
    F.Keeps root n := by
  obtain ⟨hlast, hname⟩ := Option.filter_eq_some_iff.mp hn
  obtain ⟨hpart, hnode⟩ := List.mem_filter.mp (List.mem_of_getLast? hlast)
  refine ⟨hb.around.part hpart, hnode, ?_⟩
  by_contra hne
  obtain ⟨t, ht⟩ := Option.ne_none_iff_exists'.mp hne
  rcases h.stands (hb.around.part hpart) hnode ht with ⟨-, hbare⟩ | hthis
  · rw [Site.nameContext_of_accessedName? hkind hn] at hbare
    cases hbare
  · rw [beq_iff_eq.mp hname] at hthis
    cases hthis

theorem accessedName?_eq (hb : F.Keeps root b) (h : F.Rewords root)
    (hkind : b.kind = .memberAccessExpression) :
    (F.image b).accessedName? = b.accessedName?.map F.image := by
  rw [Site.accessedName?, hb.lastNode?_eq h]
  cases hname : b.accessedName? with
  | some n =>
    have hn := hb.of_accessedName? h hkind hname
    obtain ⟨hlast, hk⟩ := Option.filter_eq_some_iff.mp hname
    rw [hlast, Option.map_some, Option.filter_some, hn.kind_eq, if_pos hk]
  | none =>
    cases hlast : b.lastNode? with
    | none => rfl
    | some n =>
      have hk : n.kind ≠ .nameExpression := by
        rw [Site.accessedName?, hlast] at hname
        simpa using hname
      obtain ⟨hpart, hnode⟩ := List.mem_filter.mp (List.mem_of_getLast? hlast)
      have hplace := hb.around.part hpart
      have hnew : (F.image n).kind ≠ .nameExpression := by
        cases hF : F n with
        | none => rwa [Keeps.kind_eq ⟨hplace, hnode, hF⟩]
        | some t =>
          have hmade := (h.made hplace hnode hF).2
          rw [Site.kind, image_tree, treeAt_of_some hnode hF]
          intro heq
          rw [heq] at hmade
          simp at hmade
      simp [hnew]

theorem nameContext_eq (hn : F.Keeps root n) (h : F.Rewords root) :
    (F.image n).nameContext = n.nameContext := by
  have htrail := h.alike_trail hn.around hn.isNode
  rw [Site.nameContext, Site.nameContext, image_parent?]
  cases hn.around with
  | refl => rfl
  | @part b p hb hp =>
    have hbkeeps := h.keeps_of_part hb hp hn.isNode
    have hparent : n.parent? = some b := by
      rw [Site.parent?, Site.ancestors_of_mem_parts hp]
      rfl
    obtain ⟨around, trail, hold, haround⟩ :
        ∃ c trail, n.trail = c :: trail ∧ c.parent.kind = b.kind := by
      obtain ⟨front, u, back, -, rfl⟩ := Site.exists_of_mem_parts hp
      exact ⟨_, _, rfl, rfl⟩
    rw [hold] at htrail
    obtain ⟨around', trail', hown, hrest, hnew⟩ := List.forall₂_cons_left_iff.mp htrail
    rw [hold, hnew]
    simp only [hown.kind, hown.isFirstNode, assignsMember_of_alike hrest, hparent,
      Option.map_some, Option.any_some, haround]
    split
    · rename_i hkind
      rw [hbkeeps.accessedName?_eq h hkind, Option.any_map]
      simp
    · rfl
    · rfl

end Keeps

/-! ## Static fields -/

namespace Rewords

variable (h : F.Rewords root)

include h

theorem find?_image (hn : (Site.root root).Around n) (hnode : n.tree.isNode = true) :
    (F.image n).ancestors.find? (·.kind.isTypeDeclaration) =
      (n.ancestors.find? (·.kind.isTypeDeclaration)).map F.image := by
  rw [image_ancestors, List.find?_map]
  refine congrArg (Option.map F.image) (List.find?_congr fun a ha => ?_)
  show (F.image a).kind.isTypeDeclaration = _
  rw [(h.keeps_of_mem_ancestors hn hnode ha).kind_eq]

/-- **The pass over static fields** decides the same about a node that is kept. -/
theorem reference?_image (hroot : root.Regular) (hdesignates : root.Designates)
    (hnew : ∀ w ∈ (F.run root).leaves, w.IsPiece ∨ w = .endOfText) (hn : F.Keeps root n)
    (visibility : FieldVisibility) :
    StaticFields.reference? visibility (F.image n) = StaticFields.reference? visibility n := by
  unfold StaticFields.reference?
  rw [hn.kind_eq, hn.boundName?_eq h, hn.nameContext_eq h, hn.node?_eq h rfl, Option.isNone_map,
    h.find?_image hn.around hn.isNode]
  by_cases hkind : n.kind = .nameExpression
  swap
  · simp [hkind]
  cases hname : n.boundName? with
  | none => simp
  | some w =>
    cases hplain : n.node? .typeArgumentList with
    | some list => simp
    | none =>
      have hword := Site.isWord_name (hn.around.sound hroot.sound) hn.isNode hkind hname hplain
      obtain ⟨hmem, hwkind⟩ := Site.boundName?_eq_some hname
      have hleaf := Site.mem_leaves_of_mem_tokens hmem
      have hkeeps : F.KeepsName root n w := by
        refine ⟨hn, hword, hkind, Site.span_lt hroot.pieces hn.around hleaf hwkind, ?_⟩
        refine Site.span_lt hnew (h.around_image hn.around hn.isNode) (w := w) ?_ hwkind
        rwa [hn.tree_of_isWord hword]
      cases htype : n.ancestors.find? (·.kind.isTypeDeclaration) with
      | none => simp
      | some type =>
        have hkept := h.keeps_of_mem_ancestors hn.around hn.isNode
          (List.mem_of_find?_eq_some htype)
        simp only [Option.map_some, Option.bind_eq_bind, Option.bind_some,
          hkept.patchedFieldNames_eq h, hkept.qualifyingName?_eq h,
          hkeeps.isShadowed_image h hdesignates]

end Rewords

/-! ## The object itself -/

namespace Keeps

theorem isByReference_eq (hb : F.Keeps root b) (h : F.Rewords root) :
    (F.image b).isByReference = b.isByReference := by
  rw [Site.isByReference, Site.isByReference, hb.tokens_eq h]

theorem expression?_eq (hb : F.Keeps root b) (h : F.Rewords root) :
    (F.image b).expression? = b.expression?.map F.image := by
  rw [Site.expression?, Site.expression?, hb.expressions_eq h, List.head?_map]

theorem rightExpression?_eq (hb : F.Keeps root b) (h : F.Rewords root) :
    (F.image b).rightExpression? = b.rightExpression?.map F.image := by
  rw [Site.rightExpression?, Site.rightExpression?, hb.expressions_eq h, List.getElem?_map]

/-- What is put in place of a word is not `this`. -/
theorem isThisReceiver_of_image (hb : F.Keeps root b) (h : F.Rewords root)
    (hthis : (F.image b).isThisReceiver = true) : b.isThisReceiver = true := by
  obtain ⟨e', he', hkind⟩ := (Option.any_eq_true _ _).mp hthis
  rw [hb.expression?_eq h] at he'
  obtain ⟨e, he, rfl⟩ := Option.map_eq_some_iff.mp he'
  obtain ⟨hpart, hnode⟩ := List.mem_filter.mp (List.mem_filter.mp (List.mem_of_mem_head? he)).1
  have hplace := hb.around.part hpart
  refine (Option.any_eq_true _ _).mpr ⟨e, he, ?_⟩
  cases hF : F e with
  | none => rwa [Keeps.kind_eq ⟨hplace, hnode, hF⟩] at hkind
  | some t =>
    have hmade := (h.made hplace hnode hF).2
    rw [Site.kind, image_tree, treeAt_of_some hnode hF] at hkind
    rw [beq_iff_eq.mp hkind] at hmade
    simp at hmade

/-- As long as `this` is kept, it is a receiver after as before. -/
theorem isThisReceiver_eq (hb : F.Keeps root b) (h : F.Rewords root)
    (hself : ∀ {m t}, F m = some t → m.kind ≠ .thisExpression) :
    (F.image b).isThisReceiver = b.isThisReceiver := by
  refine Bool.eq_iff_iff.mpr ⟨hb.isThisReceiver_of_image h, fun hthis => ?_⟩
  obtain ⟨e, he, hkind⟩ := (Option.any_eq_true _ _).mp hthis
  obtain ⟨hpart, hnode⟩ := List.mem_filter.mp (List.mem_filter.mp (List.mem_of_mem_head? he)).1
  have hkept : F.Keeps root e := by
    refine ⟨hb.around.part hpart, hnode, Option.eq_none_iff_forall_ne_some.mpr fun t ht => ?_⟩
    exact hself ht (beq_iff_eq.mp hkind)
  refine (Option.any_eq_true _ _).mpr ⟨F.image e, ?_, ?_⟩
  · rw [hb.expression?_eq h, he]
    rfl
  · rwa [hkept.kind_eq]

end Keeps

namespace Rewords

variable (h : F.Rewords root)

include h

theorem rule?_image {type : Site} (hn : F.Keeps root n) (htype : F.Keeps root type)
    (hreceiver : ∀ b, n.parent? = some b → b.kind = .memberAccessExpression →
      (F.image b).isThisReceiver = b.isThisReceiver) :
    SelfReference.rule? (F.image n) (F.image type) = SelfReference.rule? n type := by
  unfold SelfReference.rule?
  rw [image_parent?]
  cases hparent : n.parent? with
  | none => rfl
  | some b =>
    have hb : F.Keeps root b :=
      h.keeps_of_mem_ancestors hn.around hn.isNode (List.mem_of_mem_head? hparent)
    simp only [Option.map_some, Option.bind_eq_bind, Option.bind_some, hb.kind_eq]
    split
    · rw [hb.isByReference_eq h]
    · simp only [hb.rightExpression?_eq h, Option.any_map, isSame_image]
    · rfl
    · rename_i hkind
      rw [hreceiver b hparent hkind, image_parent?, hb.accessedName?_eq h hkind]
      cases hcall : b.parent? with
      | none => simp
      | some c =>
        have hc : F.Keeps root c :=
          h.keeps_of_mem_ancestors hb.around hb.isNode (List.mem_of_mem_head? hcall)
        cases hname : b.accessedName? with
        | none => simp
        | some name =>
          have hkept := hb.of_accessedName? h hkind hname
          simp only [Option.map_some, Option.bind_some, hc.kind_eq, hc.expression?_eq h,
            Option.any_map, isSame_image, hkept.boundName?_eq h,
            htype.methodNames_eq h]
    · rfl

/-- Where a rule applies afterwards, it applied before. -/
theorem rule?_of_image {type : Site} {r : PatchRule} (hn : F.Keeps root n)
    (htype : F.Keeps root type)
    (hr : SelfReference.rule? (F.image n) (F.image type) = some r) :
    SelfReference.rule? n type = some r := by
  rw [← hr, h.rule?_image hn htype]
  intro b hparent hkind
  have hb : F.Keeps root b :=
    h.keeps_of_mem_ancestors hn.around hn.isNode (List.mem_of_mem_head? hparent)
  have hparent' : (F.image n).parent? = some (F.image b) := by
    rw [image_parent?, hparent]
    rfl
  have hthis := SelfReference.isThisReceiver_of_rule? hparent' (by rw [hb.kind_eq, hkind]) hr
  rw [hthis, hb.isThisReceiver_of_image h hthis]

theorem types_image (hn : F.Keeps root n) :
    (F.image n :: (F.image n).ancestors).filter (·.kind.isTypeDeclaration) =
      ((n :: n.ancestors).filter (·.kind.isTypeDeclaration)).map F.image := by
  rw [image_ancestors, ← List.map_cons, List.filter_map]
  refine congrArg (List.map F.image) (List.filter_congr fun a ha => ?_)
  have hkept : F.Keeps root a := by
    rcases List.mem_cons.mp ha with rfl | ha
    · exact hn
    · exact h.keeps_of_mem_ancestors hn.around hn.isNode ha
  rw [Function.comp, hkept.kind_eq]

/-- **The pass over `this`** decides the same about a node that is kept, if the rule for it inside
of the nearest type is the same. -/
theorem cast?_image (hn : F.Keeps root n)
    (hrule : ∀ type, ((n :: n.ancestors).filter (·.kind.isTypeDeclaration)).head? = some type →
      F.Keeps root type →
      SelfReference.rule? (F.image n) (F.image type) = SelfReference.rule? n type) :
    SelfReference.cast? (F.image n) = SelfReference.cast? n := by
  rw [SelfReference.cast?, SelfReference.cast?, h.types_image hn]
  unfold SelfReference.propose
  rw [hn.kind_eq, List.head?_map]
  cases htype : ((n :: n.ancestors).filter (·.kind.isTypeDeclaration)).head? with
  | none => rfl
  | some type =>
    have hmem := (List.mem_filter.mp (List.mem_of_mem_head? htype)).1
    have hkept : F.Keeps root type := by
      rcases List.mem_cons.mp hmem with rfl | hmem
      · exact hn
      · exact h.keeps_of_mem_ancestors hn.around hn.isNode hmem
    simp only [Option.map_some, Option.bind_eq_bind, Option.bind_some, hrule type htype hkept,
      hkept.qualifyingName?_eq h]

/-- What it decides afterwards about such a node, it decided before. -/
theorem cast?_of_image (hn : F.Keeps root n) {p : Proposal}
    (hp : SelfReference.cast? (F.image n) = some p) : SelfReference.cast? n = some p := by
  rw [← hp, h.cast?_image hn]
  intro type htype hkept
  -- There is a rule afterwards, so it applied before.
  have hfound := hp
  rw [SelfReference.cast?, h.types_image hn] at hfound
  simp only [SelfReference.propose, List.head?_map, htype, Option.map_some, bind,
    Option.bind_eq_some_iff, Option.some.injEq, exists_eq_left'] at hfound
  obtain ⟨-, -, r, hr, -⟩ := hfound
  rw [hr, h.rule?_of_image hn hkept hr]

end Rewords

end Substitution

end LivePatch
