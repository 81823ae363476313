import LivePatch.Proofs.Adjacency
import LivePatch.Proofs.Scopes
import LivePatch.Proofs.Substitution

/-!
# What a node shows after words have been replaced

When names and `this` are replaced, the nodes around them still declare the same names, have the
same modifiers and bind the same variables: none of this is read off a bare name.  Here the views
of a node that is kept are compared with those of its image, up to what hides a field.
-/

namespace LivePatch

open Site (boundNames declaredNames)

namespace Substitution

variable {F : Substitution} {root : Tree} {n : Site}

namespace Keeps

variable (hn : F.Keeps root n)

include hn

theorem tree_eq : (F.image n).tree = .node n.kind (n.parts.map F.treeAt) := by
  rw [image_tree, treeAt_eq hn.isNode hn.kept]

theorem kind_eq : (F.image n).kind = n.kind := by
  rw [Site.kind, hn.tree_eq]
  rfl

variable (h : F.Rewords root)

include h

/-! ## Parts -/

theorem nodes_eq : (F.image n).nodes = n.nodes.map F.image := by
  rw [Site.nodes, Site.nodes, parts_image hn.kept, List.filter_map]
  refine congrArg (List.map F.image) (List.filter_congr fun p hp => ?_)
  exact h.isNode_image (hn.around.part hp)

/-- A test that does not tell the kinds of words and of what is put in their place apart. -/
theorem nodesWith_eq {q : Kind → Bool} {b : Bool} (hq : ∀ k, k.isSwapped = true → q k = b) :
    (F.image n).nodesWith q = (n.nodesWith q).map F.image := by
  rw [Site.nodesWith, Site.nodesWith, hn.nodes_eq h, List.filter_map]
  refine congrArg (List.map F.image) (List.filter_congr fun p hp => ?_)
  obtain ⟨hpart, hnode⟩ := List.mem_filter.mp hp
  show q (F.image p).kind = q p.kind
  have hplace := hn.around.part hpart
  cases hF : F p with
  | none => rw [Keeps.kind_eq ⟨hplace, hnode, hF⟩]
  | some t =>
    obtain ⟨hold, hnew⟩ := h.isSwapped_of_some hplace hnode hF
    rw [hq _ hnew, hq _ hold]

theorem nodesOf_eq {k : Kind} (hk : k.isSwapped = false) :
    (F.image n).nodesOf k = (n.nodesOf k).map F.image := by
  refine hn.nodesWith_eq h (b := false) fun j hj => ?_
  rw [beq_eq_false_iff_ne]
  rintro rfl
  rw [hk] at hj
  cases hj

theorem node?_eq {k : Kind} (hk : k.isSwapped = false) :
    (F.image n).node? k = (n.node? k).map F.image := by
  rw [Site.node?, Site.node?, hn.nodesOf_eq h hk, List.head?_map]

theorem expressions_eq : (F.image n).expressions = n.expressions.map F.image := by
  exact hn.nodesWith_eq h (b := true) (Kind.forall_of_all (by decide +kernel))

theorem tokens_eq : (F.image n).tokens = n.tokens := by
  have hparts : n.tree.children = n.parts.map (·.tree) :=
    (Site.partsFrom_map_tree n 0 n.start n.tree.children).symm
  rw [Site.tokens, Site.tokens, hn.tree_eq, hparts]
  show (n.parts.map F.treeAt).filterMap _ = _
  rw [List.filterMap_map, List.filterMap_map]
  refine List.filterMap_congr fun p hp => ?_
  have hisNode := h.isNode_image (hn.around.part hp)
  show (F.treeAt p).token? = p.tree.token?
  rw [image_tree] at hisNode
  cases htree : p.tree with
  | token w =>
    obtain ⟨t, start, trail⟩ := p
    obtain rfl : t = .token w := htree
    rw [treeAt_token]
  | node k ts =>
    rw [htree] at hisNode
    cases hnew : F.treeAt p with
    | token w =>
      rw [hnew] at hisNode
      cases hisNode
    | node j us => rfl

theorem of_mem_nodesOf {k : Kind} (hk : k.isSwapped = false) {p : Site} (hp : p ∈ n.nodesOf k) :
    F.Keeps root p := by
  obtain ⟨hnode, hkind⟩ := List.mem_filter.mp hp
  obtain ⟨hpart, hisNode⟩ := List.mem_filter.mp hnode
  refine h.keeps_of_kind (hn.around.part hpart) hisNode ?_
  rw [beq_iff_eq.mp hkind]
  exact hk

theorem of_node? {k : Kind} (hk : k.isSwapped = false) {p : Site} (hp : n.node? k = some p) :
    F.Keeps root p :=
  hn.of_mem_nodesOf h hk (List.mem_of_mem_head? hp)

/-! ## Names and modifiers -/

theorem identifiers_eq : (F.image n).identifiers = n.identifiers := by
  rw [Site.identifiers, Site.identifiers, hn.tokens_eq h]

theorem declaredName?_eq : (F.image n).declaredName? = n.declaredName? := by
  rw [Site.declaredName?, Site.declaredName?, hn.identifiers_eq h]

theorem boundName?_eq : (F.image n).boundName? = n.boundName? := by
  rw [Site.boundName?, Site.boundName?, Site.token?, Site.token?, Site.tokenWith?,
    Site.tokenWith?, hn.tokens_eq h]

theorem hasModifierWith_eq (p : Kind → Bool) :
    (F.image n).hasModifierWith p = n.hasModifierWith p := by
  rw [Site.hasModifierWith, Site.hasModifierWith, hn.node?_eq h rfl]
  cases hm : n.node? .modifiers with
  | none => rfl
  | some m =>
    simp only [Option.map_some, Option.any_some, Site.modifierWords,
      (hn.of_node? h rfl hm).tokens_eq h]

theorem declaredNames_of_nodesOf {k : Kind} (hk : k.isSwapped = false) :
    ((F.image n).nodesOf k).filterMap (·.declaredName?.map (·.text)) =
      (n.nodesOf k).filterMap (·.declaredName?.map (·.text)) := by
  rw [hn.nodesOf_eq h hk, List.filterMap_map]
  refine List.filterMap_congr fun p hp => ?_
  show (F.image p).declaredName?.map _ = _
  rw [(hn.of_mem_nodesOf h hk hp).declaredName?_eq h]

/-! ## Types and their members -/

theorem typeParameterNames_eq : (F.image n).typeParameterNames = n.typeParameterNames := by
  rw [Site.typeParameterNames, Site.typeParameterNames, hn.node?_eq h rfl]
  cases hl : n.node? .typeParameterList with
  | none => rfl
  | some list => exact (hn.of_node? h rfl hl).declaredNames_of_nodesOf h rfl

theorem qualifyingName?_eq : (F.image n).qualifyingName? = n.qualifyingName? := by
  rw [Site.qualifyingName?, Site.qualifyingName?, hn.declaredName?_eq h,
    hn.typeParameterNames_eq h]

theorem membersOf_eq {k : Kind} (hk : k.isSwapped = false) :
    (F.image n).membersOf k = (n.membersOf k).map F.image := by
  rw [Site.membersOf, Site.membersOf, hn.node?_eq h rfl]
  cases hb : n.node? .typeBody with
  | none => rfl
  | some body => exact (hn.of_node? h rfl hb).nodesOf_eq h hk

theorem of_mem_membersOf {k : Kind} (hk : k.isSwapped = false) {p : Site}
    (hp : p ∈ n.membersOf k) : F.Keeps root p := by
  rw [Site.membersOf] at hp
  cases hb : n.node? .typeBody with
  | none =>
    rw [hb] at hp
    cases hp
  | some body =>
    rw [hb] at hp
    exact (hn.of_node? h rfl hb).of_mem_nodesOf h hk hp

theorem methodNames_eq : (F.image n).methodNames = n.methodNames := by
  rw [Site.methodNames, Site.methodNames, hn.membersOf_eq h rfl, List.filterMap_map]
  refine List.filterMap_congr fun p hp => ?_
  show (F.image p).declaredName?.map _ = _
  rw [(hn.of_mem_membersOf h rfl hp).declaredName?_eq h]

theorem variableNames_eq : (F.image n).variableNames = n.variableNames := by
  rw [Site.variableNames, Site.variableNames, Site.declarators, Site.declarators,
    hn.node?_eq h rfl]
  cases hl : n.node? .variableDeclaratorList with
  | none => rfl
  | some list =>
    have hlist := hn.of_node? h rfl hl
    show ((F.image list).nodesOf _).filterMap _ = (list.nodesOf _).filterMap _
    rw [hlist.nodesOf_eq h rfl, List.filterMap_map]
    refine List.filterMap_congr fun p hp => ?_
    show (F.image p).boundName?.map _ = _
    rw [(hlist.of_mem_nodesOf h rfl hp).boundName?_eq h]

theorem ownVariableNames_eq : (F.image n).ownVariableNames = n.ownVariableNames := by
  rw [Site.ownVariableNames, Site.ownVariableNames, hn.node?_eq h rfl]
  cases hd : n.node? .variableDeclaration with
  | none => rfl
  | some declaration => exact (hn.of_node? h rfl hd).variableNames_eq h

theorem isPatchedField_eq (visibility : FieldVisibility) :
    (F.image n).isPatchedField visibility = n.isPatchedField visibility := by
  simp only [Site.isPatchedField, Site.isStatic, Site.isPrivate, Site.hasAccessModifier,
    Site.hasModifier, hn.hasModifierWith_eq h]

theorem patchedFieldNames_eq (visibility : FieldVisibility) :
    (F.image n).patchedFieldNames visibility = n.patchedFieldNames visibility := by
  rw [Site.patchedFieldNames, Site.patchedFieldNames, hn.membersOf_eq h rfl, List.filter_map,
    List.flatMap_map]
  have hfilter : (n.membersOf .fieldDeclaration).filter
      ((fun field => field.isPatchedField visibility) ∘ F.image) =
      (n.membersOf .fieldDeclaration).filter (fun field => field.isPatchedField visibility) :=
    List.filter_congr fun p hp => (hn.of_mem_membersOf h rfl hp).isPatchedField_eq h visibility
  rw [hfilter]
  refine List.flatMap_congr fun p hp => ?_
  exact (hn.of_mem_membersOf h rfl (List.mem_filter.mp hp).1).ownVariableNames_eq h

/-! ## Bound names -/

theorem parameterNames_eq : (F.image n).parameterNames = n.parameterNames := by
  have hlists : ∀ k : Kind, k.isSwapped = true →
      (k == .parameterList || k == .bracketedParameterList) = false := by
    intro k hk
    cases k <;> first | rfl | cases hk
  rw [Site.parameterNames, Site.parameterNames, hn.nodesWith_eq h hlists, List.filterMap_append,
    List.filterMap_append, hn.declaredNames_of_nodesOf h rfl, List.flatMap_map]
  refine congrArg (· ++ _) ?_
  rw [List.filterMap_flatMap, List.filterMap_flatMap]
  refine List.flatMap_congr fun p hp => ?_
  obtain ⟨hnode, hkind⟩ := List.mem_filter.mp hp
  obtain ⟨hpart, hisNode⟩ := List.mem_filter.mp hnode
  have hkeeps : F.Keeps root p := by
    refine h.keeps_of_kind (hn.around.part hpart) hisNode ?_
    rcases Bool.or_eq_true_iff.mp hkind with hk | hk <;> rw [beq_iff_eq.mp hk] <;> rfl
  exact hkeeps.declaredNames_of_nodesOf h rfl

theorem declaredNames_eq : declaredNames (F.image n) = declaredNames n := by
  unfold Site.declaredNames
  rw [hn.kind_eq, hn.ownVariableNames_eq h, hn.declaredName?_eq h]

/-- What a designation holds is kept. -/
theorem treeAt_designation (hroot : root.Designates)
    (hkind : n.kind = .parenthesizedVariableDesignation) : F.treeAt n = n.tree := by
  refine treeAt_of_silent fun m hm hnode => ?_
  by_contra hne
  obtain ⟨t, ht⟩ := Option.ne_none_iff_exists'.mp hne
  have hplace := hn.around.trans hm
  obtain ⟨w, hw⟩ := h.isWord hplace hnode ht
  -- All words of a designation are bare, and this one is not.
  have hplain : ∀ a ∈ n.tree.marks, a = .other := by
    have hdesignates : n.tree.Designates := hn.around.designates hroot
    cases htree : n.tree with
    | token v =>
      have hisNode := hn.isNode
      rw [htree] at hisNode
      cases hisNode
    | node k ts =>
      obtain rfl : k = .parenthesizedVariableDesignation := by rwa [Site.kind, htree] at hkind
      rw [htree] at hdesignates
      cases hdesignates with
      | node hown _ =>
        rcases Tree.marks_node .parenthesizedVariableDesignation ts with
          hsame | ⟨-, -, ⟨hk, -⟩ | ⟨hk, -⟩⟩
        · rw [hsame]
          exact hown rfl
        · cases hk
        · cases hk
  rcases h.stands hplace hnode ht with ⟨hk, -⟩ | hk
  · cases hplain .name (hm.mem_marks hnode (by rw [Tree.marks_name hw hk]; simp))
  · cases hplain .self (hm.mem_marks hnode (by rw [Tree.marks_self hw hk]; simp))

theorem designatedNames_eq (hroot : root.Designates) :
    (F.image n).designatedNames = n.designatedNames := by
  rw [Site.designatedNames, Site.designatedNames, hn.boundName?_eq h]
  cases hb : n.boundName? with
  | some name => rfl
  | none =>
    show ((F.image n).nodesOf _).flatMap _ = (n.nodesOf _).flatMap _
    rw [hn.nodesOf_eq h rfl, List.flatMap_map]
    refine List.flatMap_congr fun d hd => ?_
    have hkind : d.kind = .parenthesizedVariableDesignation :=
      beq_iff_eq.mp (List.mem_filter.mp hd).2
    rw [image_tree, (hn.of_mem_nodesOf h rfl hd).treeAt_designation h hroot hkind]

theorem loopNames_eq (hroot : root.Designates) : (F.image n).loopNames = n.loopNames := by
  rw [Site.loopNames, Site.loopNames, hn.boundName?_eq h]
  cases hb : n.boundName? with
  | some name => rfl
  | none =>
    show ((F.image n).nodesOf _).flatMap _ = (n.nodesOf _).flatMap _
    rw [hn.nodesOf_eq h rfl, List.flatMap_map]
    exact List.flatMap_congr fun d hd =>
      (hn.of_mem_nodesOf h rfl hd).designatedNames_eq h hroot

theorem boundNames_eq (hroot : root.Designates) : boundNames (F.image n) = boundNames n := by
  have hcatch : ((F.image n).node? .catchDeclaration).bind Site.boundName? =
      (n.node? .catchDeclaration).bind Site.boundName? := by
    rw [hn.node?_eq h rfl]
    cases hd : n.node? .catchDeclaration with
    | none => rfl
    | some d => exact (hn.of_node? h rfl hd).boundName?_eq h
  have hheader : ((F.image n).node? .forHeader).toList.flatMap Site.ownVariableNames =
      (n.node? .forHeader).toList.flatMap Site.ownVariableNames := by
    rw [hn.node?_eq h rfl]
    cases hd : n.node? .forHeader with
    | none => rfl
    | some d => simp [(hn.of_node? h rfl hd).ownVariableNames_eq h]
  unfold Site.boundNames
  rw [hn.kind_eq, hn.parameterNames_eq h, hn.ownVariableNames_eq h, hn.loopNames_eq h hroot,
    hcatch, hheader, Site.hasImplicitValue, hn.identifiers_eq h]
  rfl

end Keeps

/-! ## What hides a field -/

namespace Rewords

variable (h : F.Rewords root) {m s : Site}

include h

theorem keeps_of_mem_enclosing (hn : (Site.root root).Around n) (hnode : n.tree.isNode = true)
    (hs : s ∈ n.enclosing) : F.Keeps root s :=
  h.keeps_of_mem_ancestors hn hnode ((List.takeWhile_sublist _).mem hs)

theorem enclosing_image (hn : (Site.root root).Around n) (hnode : n.tree.isNode = true) :
    (F.image n).enclosing = n.enclosing.map F.image := by
  have hkinds : ∀ a ∈ n.ancestors, (F.image a).kind = a.kind := fun a ha =>
    (h.keeps_of_mem_ancestors hn hnode ha).kind_eq
  rw [Site.enclosing, Site.enclosing, image_ancestors]
  generalize n.ancestors = around at hkinds
  induction around with
  | nil => rfl
  | cons a around ih =>
    obtain ⟨ha, haround⟩ := List.forall_mem_cons.mp hkinds
    rw [List.map_cons, List.takeWhile_cons, List.takeWhile_cons, ha, ih haround]
    split <;> rfl

end Rewords

end Substitution

/-! ## Positions -/

namespace Site

variable {t : Tree} {list statement p n b : Site} {w : Token}

/-- A node starts no later than a place with bytes in another part of the same node if and only if
it is no later part. -/
theorem start_le_iff (hs : statement ∈ list.parts) (hp : p ∈ list.parts) (hpn : p.Around n)
    (hwidth : n.span.start < n.span.stop) :
    statement.start ≤ n.start ↔ statement.path.headD 0 ≤ p.path.headD 0 := by
  obtain ⟨front, u, back, hlist, rfl⟩ := exists_of_mem_parts hs
  obtain ⟨front', u', back', hlist', rfl⟩ := exists_of_mem_parts hp
  obtain ⟨hstart, hstop⟩ := hpn.span_le
  simp only [span] at hstart hstop hwidth
  show _ ↔ front.length ≤ front'.length
  have heq := hlist.symm.trans hlist'
  constructor
  · intro hle
    by_contra hlt
    obtain ⟨mid, rfl⟩ : ∃ mid, front = front' ++ u' :: mid := by
      rcases List.append_eq_append_iff.mp heq with ⟨as, rfl, -⟩ | ⟨as, rfl, has⟩
      · simp at hlt
      · cases as with
        | nil => simp at hlt
        | cons a as =>
          obtain ⟨rfl, -⟩ := List.cons.inj has
          exact ⟨as, rfl⟩
    simp only [List.map_append, List.map_cons, List.sum_append, List.sum_cons] at hle
    omega
  · intro hle
    obtain ⟨mid, rfl⟩ : ∃ mid, front' = front ++ mid := by
      rcases List.append_eq_append_iff.mp heq with ⟨as, rfl, -⟩ | ⟨as, rfl, has⟩
      · exact ⟨as, rfl⟩
      · cases as with
        | nil => exact ⟨[], by simp⟩
        | cons a as => simp only [List.length_append, List.length_cons] at hle; omega
    simp only [List.map_append, List.sum_append] at hstart
    dsimp only
    omega

/-- A node of another kind covers a word if and only if it stands around it. -/
theorem contains_iff (hb : (root t).Around b) (hbnode : b.tree.isNode = true)
    (hn : (root t).Around n) (hword : n.tree.IsWord w) (hne : b.kind ≠ n.kind)
    (hwidth : n.span.start < n.span.stop) : b.span.contains n.span = true ↔ b.Around n := by
  constructor
  · intro h
    rcases StaticFields.around_of_contains hb hn hwidth h with h | h
    · exact h
    · rcases h.eq_or_exists_part with rfl | ⟨p, hp, hpb⟩
      · exact absurd rfl hne
      · have hpnode := hpb.isNode hbnode
        rw [hword.isNode_eq_false _ (tree_mem_of_mem_parts hp)] at hpnode
        cases hpnode
  · intro h
    obtain ⟨hstart, hstop⟩ := h.span_le
    simp [Span.contains, hstart, hstop]

end Site

namespace Substitution

variable {F : Substitution} {root : Tree} {n : Site}

/-- A name that is kept in the tree `root`, at a place with bytes before and after. -/
structure KeepsName (F : Substitution) (root : Tree) (n : Site) (w : Token) : Prop
    extends F.Keeps root n where
  isWord : n.tree.IsWord w
  kind : n.kind = .nameExpression
  width : n.span.start < n.span.stop
  width_image : (F.image n).span.start < (F.image n).span.stop

/-- A word that is kept has the same tree. -/
theorem Keeps.tree_of_isWord {w : Token} (hn : F.Keeps root n) (hword : n.tree.IsWord w) :
    (F.image n).tree = n.tree := by
  rw [image_tree, treeAt_of_silent]
  intro m hm hnode
  rcases hm.eq_or_exists_part with rfl | ⟨p, hp, hpm⟩
  · exact hn.kept
  · have hpnode := hpm.isNode hnode
    rw [hword.isNode_eq_false _ (Site.tree_mem_of_mem_parts hp)] at hpnode
    cases hpnode

namespace KeepsName

variable {w : Token} (hn : F.KeepsName root n w) (h : F.Rewords root)

include hn h

/-- A block or lambda covers the name before if and only if it does after. -/
theorem contains_image {b : Site} (hb : F.Keeps root b)
    (hkind : b.kind = .block ∨ b.kind = .lambdaExpression) :
    (F.image b).span.contains (F.image n).span = b.span.contains n.span := by
  have hne : b.kind ≠ n.kind := by
    rw [hn.kind]
    rcases hkind with hk | hk <;> rw [hk] <;> nofun
  have hword : (F.image n).tree.IsWord w := by
    rw [hn.toKeeps.tree_of_isWord hn.isWord]
    exact hn.isWord
  have hbnode : (F.image b).tree.isNode = true := by
    rw [h.isNode_image hb.around]
    exact hb.isNode
  rw [Bool.eq_iff_iff, Site.contains_iff hb.around hb.isNode hn.around hn.isWord hne hn.width,
    Site.contains_iff (h.around_image hb.around hb.isNode) hbnode
      (h.around_image hn.around hn.isNode) hword (by rwa [hb.kind_eq, hn.toKeeps.kind_eq])
      hn.width_image, h.around_image_iff hb.around hb.isNode hn.around hn.isNode]

theorem isVisibleFrom_image {d : Site} (hd : F.Keeps root d) (statement : Site) :
    (F.image d).isVisibleFrom (F.image statement) (F.image n) = d.isVisibleFrom statement n := by
  have hkeeps : ∀ b ∈ d :: d.ancestors, F.Keeps root b := by
    intro b hb
    rcases List.mem_cons.mp hb with rfl | hb
    · exact hd
    · exact h.keeps_of_mem_ancestors hd.around hd.isNode hb
  rw [Site.isVisibleFrom, Site.isVisibleFrom, image_ancestors, ← List.map_cons,
    List.takeWhile_map, List.all_map]
  have hsame : (fun s : Site => !s.isSame (F.image statement)) ∘ F.image =
      fun s => !s.isSame statement := by
    funext s
    simp
  rw [hsame]
  rw [Bool.eq_iff_iff, List.all_eq_true, List.all_eq_true]
  refine forall₂_congr fun b hmem => ?_
  have hb := hkeeps b ((List.takeWhile_sublist _).mem hmem)
  rw [← Bool.eq_iff_iff]
  simp only [Function.comp, hb.kind_eq]
  split
  · rename_i hkind
    exact hn.contains_image h hb (.inl hkind)
  · rename_i hkind
    exact hn.contains_image h hb (.inr hkind)
  · rfl

/-- A statement of a list around the name starts no later than it if and only if its image does. -/
theorem start_image_le_iff {list statement : Site} (hlist : list ∈ n.enclosing)
    (hkind : list.isStatementList = true) (hs : statement ∈ list.nodes) :
    (F.image statement).start ≤ (F.image n).start ↔ statement.start ≤ n.start := by
  have hkeeps := h.keeps_of_mem_enclosing hn.around hn.isNode hlist
  obtain ⟨p, hp, hpn⟩ : ∃ p ∈ list.parts, p.Around n := by
    rcases (Site.around_of_mem_enclosing hn.around hlist).2.eq_or_exists_part with rfl | hpart
    · rw [Site.isStatementList, hn.kind] at hkind
      cases hkind
    · exact hpart
  have hpart := Site.mem_parts_of_mem_nodes hs
  have hplace := hkeeps.around.part hp
  have hnew := (h.around_image_iff hplace (hpn.isNode hn.isNode) hn.around hn.isNode).mpr hpn
  rw [Site.start_le_iff hpart hp hpn hn.width,
    Site.start_le_iff (image_mem_parts hkeeps.kept hpart) (image_mem_parts hkeeps.kept hp) hnew
      hn.width_image, image_path, image_path]

omit hn h in
theorem declaredNames_of_isSwapped {s : Site} (hs : s.kind.isSwapped = true) :
    declaredNames s = [] := by
  unfold Site.declaredNames
  split
  · rename_i hk
    rw [hk] at hs
    cases hs
  · rename_i hk
    rw [hk] at hs
    cases hs
  · rfl

/-- A statement declares the same for the name before and after. -/
theorem declares_image_iff (hroot : root.Designates) {statement : Site} {name : String}
    (hs : (Site.root root).Around statement) (hnode : statement.tree.isNode = true) :
    (name ∈ declaredNames (F.image statement) ∨ ∃ d ∈ (F.image statement).descendants,
        d.kind = .declarationExpression ∧ name ∈ d.designatedNames ∧
          d.isVisibleFrom (F.image statement) (F.image n) = true) ↔
      (name ∈ declaredNames statement ∨ ∃ d ∈ statement.descendants,
        d.kind = .declarationExpression ∧ name ∈ d.designatedNames ∧
          d.isVisibleFrom statement n = true) := by
  have hnames : declaredNames (F.image statement) = declaredNames statement := by
    cases hF : F statement with
    | none => exact Keeps.declaredNames_eq ⟨hs, hnode, hF⟩ h
    | some t =>
      obtain ⟨hold, hnew⟩ := h.isSwapped_of_some hs hnode hF
      rw [declaredNames_of_isSwapped hold, declaredNames_of_isSwapped hnew]
  rw [hnames]
  refine or_congr Iff.rfl ⟨?_, ?_⟩
  · rintro ⟨d', hd', hkind, hname, hvisible⟩
    obtain ⟨haround, hdnode⟩ := Site.mem_descendants.mp hd'
    obtain ⟨d, hd, rfl⟩ := h.exists_keeps ((h.around_image hs hnode).trans haround) hdnode
      (by rw [hkind]; rfl)
    refine ⟨d, Site.mem_descendants.mpr ⟨?_, hd.isNode⟩, by rwa [hd.kind_eq] at hkind, ?_, ?_⟩
    · exact (h.around_image_iff hs hnode hd.around hd.isNode).mp haround
    · rwa [hd.designatedNames_eq h hroot] at hname
    · rwa [hn.isVisibleFrom_image h hd] at hvisible
  · rintro ⟨d, hdesc, hkind, hname, hvisible⟩
    obtain ⟨haround, hdnode⟩ := Site.mem_descendants.mp hdesc
    have hd := h.keeps_of_kind (hs.trans haround) hdnode (by rw [hkind]; rfl)
    refine ⟨F.image d, Site.mem_descendants.mpr ⟨?_, ?_⟩, by rwa [hd.kind_eq], ?_, ?_⟩
    · exact (h.around_image_iff hs hnode hd.around hd.isNode).mpr haround
    · rwa [h.isNode_image hd.around]
    · rwa [hd.designatedNames_eq h hroot]
    · rwa [hn.isVisibleFrom_image h hd]

/-- **What hides a field** before hides it after. -/
theorem isShadowed_image (hroot : root.Designates) (name : String) :
    (F.image n).isShadowed name = n.isShadowed name := by
  have henclosing := h.enclosing_image hn.around hn.isNode
  rw [Bool.eq_iff_iff, Site.isShadowed_iff, Site.isShadowed_iff, henclosing]
  simp only [List.mem_map, exists_exists_and_eq_and]
  refine or_congr (exists_congr fun s => and_congr_right fun hs => ?_)
    (exists_congr fun list => and_congr_right fun hlist => ?_)
  · rw [(h.keeps_of_mem_enclosing hn.around hn.isNode hs).boundNames_eq h hroot]
  · have hkeeps := h.keeps_of_mem_enclosing hn.around hn.isNode hlist
    rw [Site.isStatementList, hkeeps.kind_eq, hkeeps.nodes_eq h, ← Site.isStatementList]
    refine and_congr_right fun hkind => ?_
    simp only [List.mem_map, exists_exists_and_eq_and]
    refine exists_congr fun statement => and_congr_right fun hs => ?_
    obtain ⟨hpart, hnode⟩ := List.mem_filter.mp hs
    rw [hn.start_image_le_iff h hlist hkind hs,
      hn.declares_image_iff h hroot (hkeeps.around.part hpart) hnode]

end KeepsName

end Substitution

end LivePatch
