import LivePatch.Proofs.Idempotence
import LivePatch.Proofs.WellFormedness

/-!
# Exactly where the object leaves

The pass over `this` walks with a stack of types and asks the nodes around for operands: the first
or second expression among their parts, the last node, the name.  `SelfReference.Escapes` says
without any of this where `this` leaves its object: which node stands around it, and what all the
nodes in that one are.  On the tree of a text without problems both say the same, since the nodes
there have the parts that they want.

So the pass casts `this` exactly there, and what it leaves has as many `this` as before and none in
such a place.
-/

namespace LivePatch

open Decision (fills)

/-! ## The parts of well-formed nodes -/

namespace Tree

theorem WellFormed.wantsParts {t : Tree} (h : t.WellFormed) (hnode : t.isNode = true) :
    t.kind.WantsParts (partsOf t.children) := by
  cases h with
  | token _ => cases hnode
  | node hparts _ => exact hparts

theorem nodeKinds_partsOf (ts : List Tree) :
    Part.nodeKinds (partsOf ts) = (ts.filter isNode).map kind := by
  induction ts with
  | nil => rfl
  | cons t ts ih =>
    cases t with
    | token w =>
      by_cases hw : w.isTrivia = true <;> simpa [partsOf, part?, hw] using ih
    | node k us =>
      show Part.nodeKinds (.node k :: partsOf ts) = _
      rw [Part.nodeKinds_node, ih]
      rfl

/-- A word among the parts is a token among the trees. -/
theorem exists_token_of_word {ts : List Tree} {k : Kind} (h : .word k ∈ partsOf ts) :
    ∃ w ∈ ts.filterMap token?, w.kind = k := by
  obtain ⟨t, ht, hpart⟩ := List.mem_filterMap.mp h
  cases t with
  | node k' us => cases hpart
  | token w =>
    refine ⟨w, List.mem_filterMap.mpr ⟨.token w, ht, rfl⟩, ?_⟩
    rw [part?] at hpart
    split at hpart
    · cases hpart
    · exact Part.word.inj (Option.some.inj hpart)

end Tree

namespace Site

variable {s n type : Site}

theorem Around.wellFormed (h : s.Around n) (hs : s.tree.WellFormed) : n.tree.WellFormed := by
  induction h with
  | refl => exact hs
  | @part b p _ hp ih =>
    have hmem := tree_mem_of_mem_parts hp
    cases hb : b.tree with
    | token w => simp [hb, Tree.children] at hmem
    | node k ts =>
      rw [hb] at ih hmem
      cases ih with
      | node _ hts => exact hts p.tree hmem

/-- The kinds of the nodes in a node, as its parts have them. -/
theorem nodes_map_kind (s : Site) :
    s.nodes.map kind = Part.nodeKinds (Tree.partsOf s.tree.children) := by
  have htrees : s.nodes.map (·.tree) = s.tree.children.filter Tree.isNode := by
    simpa [nodesWith] using s.nodesWith_map_tree fun _ => true
  rw [Tree.nodeKinds_partsOf, ← htrees, List.map_map]
  rfl

/-- Two nodes are all that there are, if the parts say so. -/
theorem exists_nodes_of_nodeKinds {k l : Kind}
    (h : Part.nodeKinds (Tree.partsOf s.tree.children) = [k, l]) :
    ∃ a b, s.nodes = [a, b] ∧ a.kind = k ∧ b.kind = l := by
  rw [← nodes_map_kind] at h
  obtain ⟨a, rest, hnodes, ha, hrest⟩ := List.map_eq_cons_iff.mp h
  obtain ⟨b, rest, rfl, hb, hnil⟩ := List.map_eq_cons_iff.mp hrest
  obtain rfl := List.map_eq_nil_iff.mp hnil
  exact ⟨a, b, hnodes, ha, hb⟩

/-- A node among the parts is found by its kind. -/
theorem exists_node?_of_part {k : Kind} (h : .node k ∈ Tree.partsOf s.tree.children) :
    ∃ n, s.node? k = some n := by
  have hmem : k ∈ s.nodes.map kind := by
    rw [nodes_map_kind]
    exact List.mem_filterMap.mpr ⟨_, h, rfl⟩
  obtain ⟨n, hn, hkind⟩ := List.mem_map.mp hmem
  have hof : n ∈ s.nodesOf k := List.mem_filter.mpr ⟨hn, beq_iff_eq.mpr hkind⟩
  exact ⟨_, List.head?_eq_some_head (List.ne_nil_of_mem hof)⟩

/-- The first node is the first expression, if it is one. -/
theorem expression?_of_nodes {a : Site} {rest : List Site} (h : s.nodes = a :: rest)
    (ha : a.kind.isExpression = true) : s.expression? = some a := by
  rw [expression?, expressions, nodesWith, h]
  simp only [List.filter_cons, ha, if_true, List.head?_cons]

/-- The second node is the second expression, if both are expressions. -/
theorem rightExpression?_of_nodes {a b : Site} (h : s.nodes = [a, b])
    (ha : a.kind.isExpression = true) (hb : b.kind.isExpression = true) :
    s.rightExpression? = some b := by
  rw [rightExpression?, expressions, nodesWith, h]
  simp only [List.filter_cons, ha, hb, if_true, List.filter_nil]
  rfl

/-- The name that a member access ends in is its last node. -/
theorem accessedName?_of_nodes {a b : Site} (h : s.nodes = [a, b])
    (hb : b.kind = .nameExpression) : s.accessedName? = some b := by
  simp [accessedName?, lastNode?, h, hb]

/-- A type declaration without problems has a name. -/
theorem exists_qualifyingName? (h : type.tree.WellFormed) (hnode : type.tree.isNode = true)
    (hkind : type.kind.isTypeDeclaration = true) : ∃ q, type.qualifyingName? = some q := by
  have hword : .word .identifier ∈ Tree.partsOf type.tree.children := by
    have hparts : type.kind.WantsParts (Tree.partsOf type.tree.children) := h.wantsParts hnode
    generalize type.kind = k at hkind hparts
    unfold Kind.isTypeDeclaration at hkind
    split at hkind
    · exact hparts
    · exact hparts
    · exact hparts
    · -- Records want a second identifier.
      exact List.count_pos_iff.mp (Nat.lt_of_lt_of_le Nat.two_pos hparts)
    · cases hkind
  obtain ⟨w, hw, hwkind⟩ := Tree.exists_token_of_word hword
  have hmem : w ∈ type.identifiers := List.mem_filter.mpr ⟨hw, beq_iff_eq.mpr hwkind⟩
  have hname : type.declaredName? = some (type.identifiers.getLast (List.ne_nil_of_mem hmem)) :=
    List.getLast?_eq_some_getLast _
  rw [qualifyingName?, hname]
  cases type.typeParameterNames <;> exact ⟨_, rfl⟩

end Site

namespace SelfReference

/-! ## Where `this` leaves its object -/

/-- At `n`, inside of the type at `type`, an expression leaves the object for the reason `r`. -/
inductive Escapes (type n : Site) : PatchRule → Prop
  /-- It is the value of an argument that is not passed by reference. -/
  | argument {a : Site} (parent : n.parent? = some a) (kind : a.kind = .argument)
      (value : a.isByReference = false) : Escapes type n .thisArgument
  /-- It is the right one of the two operands of an assignment. -/
  | assigned {a left : Site} (parent : n.parent? = some a) (kind : a.kind = .assignmentExpression)
      (operands : a.nodes = [left, n]) (expression : left.kind.isExpression = true) :
      Escapes type n .thisAssignmentValue
  /-- It is returned. -/
  | returned {s : Site} (parent : n.parent? = some s) (kind : s.kind = .returnStatement) :
      Escapes type n .thisReturnValue
  /-- A method of it is called, and no method in the body of the type has the name of that one. -/
  | receiver {access call name arguments : Site} {method : Token} (parent : n.parent? = some access)
      (accesses : access.kind = .memberAccessExpression) (selected : access.nodes = [n, name])
      (simple : name.kind = .nameExpression) (around : access.parent? = some call)
      (calls : call.kind = .invocationExpression) (called : call.nodes = [access, arguments])
      (named : name.boundName? = some method)
      (foreign : ∀ m ∈ type.membersOf .methodDeclaration,
        m.declaredName?.map (·.text) ≠ some method.text) : Escapes type n .thisInvocationReceiver

variable {n type : Site} {r : PatchRule}

/-- Such a place is told by the node around it. -/
theorem Escapes.exists_parent (h : Escapes type n r) : ∃ b, n.parent? = some b ∧
    b.kind ∈ [.argument, .assignmentExpression, .returnStatement, .memberAccessExpression] := by
  cases h with
  | argument hparent hkind => exact ⟨_, hparent, by simp [hkind]⟩
  | assigned hparent hkind => exact ⟨_, hparent, by simp [hkind]⟩
  | returned hparent hkind => exact ⟨_, hparent, by simp [hkind]⟩
  | receiver hparent hkind => exact ⟨_, hparent, by simp [hkind]⟩

theorem contains_methodNames_eq_false {name : String} :
    type.methodNames.contains name = false ↔
      ∀ m ∈ type.membersOf .methodDeclaration, m.declaredName?.map (·.text) ≠ some name := by
  rw [← Bool.not_eq_true, List.contains_iff_mem, Site.methodNames, List.mem_filterMap]
  simp

/-- Where `this` leaves its object, the pass has a rule for it, on every tree. -/
theorem Escapes.rule? (h : Escapes type n r) (hthis : n.kind = .thisExpression) :
    rule? n type = some r := by
  unfold SelfReference.rule?
  cases h with
  | argument hparent hkind hvalue => simp [hparent, hkind, hvalue]
  | @assigned a left hparent hkind hnodes hleft =>
    have hright := Site.rightExpression?_of_nodes hnodes hleft (by rw [hthis]; rfl)
    simp [hparent, hkind, hright, Site.isSame]
  | returned hparent hkind => simp [hparent, hkind]
  | @receiver access call name arguments method hparent haccess hnodes hname haround hcalls hcalled
      hmethod hforeign =>
    have hreceiver : access.isThisReceiver = true := by
      rw [Site.isThisReceiver, Site.expression?_of_nodes hnodes (by rw [hthis]; rfl)]
      simp [hthis]
    have hselected := Site.accessedName?_of_nodes hnodes hname
    have hcallee := Site.expression?_of_nodes hcalled (by rw [haccess]; rfl)
    have hnot := contains_methodNames_eq_false.mpr hforeign
    simp only [List.contains_eq_mem, decide_eq_false_iff_not] at hnot
    simp [hparent, haccess, hreceiver, haround, hcalls, hcallee, Site.isSame, hselected, hmethod,
      hnot]

/-- **Rules and places.**  On a well-formed tree, the pass has a rule for `this` exactly where it
leaves its object. -/
theorem rule?_eq_some_iff {t : Tree} (ht : t.WellFormed) (hn : (Site.root t).Around n)
    (hnode : n.tree.isNode = true) (hthis : n.kind = .thisExpression) :
    rule? n type = some r ↔ Escapes type n r := by
  refine ⟨fun hr => ?_, fun h => h.rule? hthis⟩
  obtain ⟨b, hparent⟩ : ∃ b, n.parent? = some b := by
    cases hparent : n.parent? with
    | none => simp [rule?, hparent] at hr
    | some b => exact ⟨b, rfl⟩
  obtain ⟨hb, hpart⟩ := hn.of_parent hparent
  have hmem : n ∈ b.nodes := List.mem_filter.mpr ⟨hpart, hnode⟩
  have hwants : b.kind.WantsParts (Tree.partsOf b.tree.children) :=
    (hb.wellFormed ht).wantsParts (Site.isNode_of_mem_parts hpart)
  simp only [rule?, hparent, Option.bind_eq_bind, Option.bind_some] at hr
  split at hr
  · -- An argument.
    rename_i hkind
    split at hr
    · cases hr
    · rename_i hvalue
      obtain rfl := Option.some.inj hr
      exact .argument hparent hkind (Bool.eq_false_iff.mpr hvalue)
  · -- An operand of an assignment, the right one.
    rename_i hkind
    rw [hkind] at hwants
    obtain ⟨k, l, hk, hl, hkinds⟩ := hwants
    obtain ⟨left, right, hnodes, rfl, rfl⟩ := Site.exists_nodes_of_nodeKinds hkinds
    have hrightPart : right ∈ b.parts := Site.mem_parts_of_mem_nodes (by simp [hnodes])
    rw [Site.rightExpression?_of_nodes hnodes hk hl, Option.any_some] at hr
    split at hr
    · rename_i hsame
      obtain rfl := Option.some.inj hr
      obtain rfl := ((hb.part hrightPart).isSame_iff hn).mp hsame
      exact .assigned hparent hkind hnodes hk
    · cases hr
  · -- A returned value.
    rename_i hkind
    obtain rfl := Option.some.inj hr
    exact .returned hparent hkind
  · -- The receiver of a call.
    rename_i hkind
    rw [hkind] at hwants
    obtain ⟨k, hk, hkinds⟩ := hwants
    obtain ⟨first, name, hnodes, rfl, hname⟩ := Site.exists_nodes_of_nodeKinds hkinds
    obtain rfl : n = first := by
      rw [hnodes, List.mem_pair] at hmem
      refine hmem.resolve_right ?_
      rintro rfl
      rw [hthis] at hname
      cases hname
    simp only [Option.bind_eq_some_iff, Option.guard_eq_some', exists_const, beq_iff_eq,
      Site.accessedName?_of_nodes hnodes hname, Option.some.injEq, exists_eq_left'] at hr
    obtain ⟨-, call, hcall, hcalls, hcallee, method, hmethod, hr⟩ := hr
    obtain ⟨hcallPlace, hbpart⟩ := hb.of_parent hcall
    have hwants : call.kind.WantsParts (Tree.partsOf call.tree.children) :=
      (hcallPlace.wellFormed ht).wantsParts (Site.isNode_of_mem_parts hbpart)
    rw [hcalls] at hwants
    obtain ⟨k, hk, hkinds⟩ := hwants
    obtain ⟨callee, arguments, hcallNodes, rfl, -⟩ := Site.exists_nodes_of_nodeKinds hkinds
    have hcalleePart : callee ∈ call.parts := Site.mem_parts_of_mem_nodes (by simp [hcallNodes])
    rw [Site.expression?_of_nodes hcallNodes hk, Option.any_some] at hcallee
    obtain rfl := ((hcallPlace.part hcalleePart).isSame_iff hb).mp hcallee
    split at hr
    · cases hr
    · rename_i hforeign
      obtain rfl := Option.some.inj hr
      exact .receiver hparent hkind hnodes hname hcall hcalls hcallNodes hmethod
        (contains_methodNames_eq_false.mp (Bool.eq_false_iff.mpr hforeign))
  · cases hr

/-! ## What is put there -/

/-- The text that `this` is replaced by for the reason `r`, in a type that goes by `qualifier`. -/
def castFor (r : PatchRule) (qualifier : String) : String :=
  if r = .thisInvocationReceiver then parenthesizedCastText qualifier "this"
  else castText qualifier "this"

/-- The kind of the node that this text reads as. -/
def castKindFor (r : PatchRule) : Kind :=
  if r = .thisInvocationReceiver then .parenthesizedExpression else .castExpression

/-- The nearest type around `this` at `n` is at `type`, and `n` leaves the object because of
`r`. -/
structure Leaves (n type : Site) (r : PatchRule) : Prop where
  kind : n.kind = .thisExpression
  nearest : n.ancestors.find? (·.kind.isTypeDeclaration) = some type
  escapes : Escapes type n r

/-- What the pass proposes for `this`, by the rule and the name of the nearest type. -/
theorem cast?_eq_some_iff_rule? {p : Proposal} (hthis : n.kind = .thisExpression) :
    cast? n = some p ↔ ∃ type r q, n.ancestors.find? (·.kind.isTypeDeclaration) = some type ∧
      rule? n type = some r ∧ type.qualifyingName? = some q ∧ p = ⟨r, castFor r q⟩ := by
  have hnearest : ((n :: n.ancestors).filter (·.kind.isTypeDeclaration)).head? =
      n.ancestors.find? (·.kind.isTypeDeclaration) := by
    rw [List.head?_filter, List.find?_cons_of_neg]
    simp [hthis, Kind.isTypeDeclaration]
  simp only [cast?, propose, hnearest, bind, Option.bind_eq_some_iff, Option.guard_eq_some',
    exists_const, beq_iff_eq]
  constructor
  · rintro ⟨-, type, htype, r, hr, q, hq, hp⟩
    refine ⟨type, r, q, htype, hr, hq, ?_⟩
    cases r <;> exact (Option.some.inj hp).symm
  · rintro ⟨type, r, q, htype, hr, hq, rfl⟩
    refine ⟨hthis, type, htype, r, hr, q, hq, ?_⟩
    cases r <;> rfl

/-- **What the pass decides.**  On a well-formed tree it casts `this` where it leaves the object,
to the name of the nearest type, and nothing else. -/
theorem cast?_eq_some_iff {t : Tree} (ht : t.WellFormed) (hn : (Site.root t).Around n)
    (hnode : n.tree.isNode = true) {p : Proposal} :
    cast? n = some p ↔ ∃ type r q, Leaves n type r ∧ type.qualifyingName? = some q ∧
      p = ⟨r, castFor r q⟩ := by
  constructor
  · intro hp
    have hthis := (cast?_eq_some hp).1
    obtain ⟨type, r, q, htype, hr, hq, rfl⟩ := (cast?_eq_some_iff_rule? hthis).mp hp
    exact ⟨type, r, q, ⟨hthis, htype, (rule?_eq_some_iff ht hn hnode hthis).mp hr⟩, hq, rfl⟩
  · rintro ⟨type, r, q, ⟨hthis, htype, hescapes⟩, hq, rfl⟩
    exact (cast?_eq_some_iff_rule? hthis).mpr
      ⟨type, r, q, htype, hescapes.rule? hthis, hq, rfl⟩

theorem Leaves.exists_cast? {t : Tree} (ht : t.WellFormed) (hn : (Site.root t).Around n)
    (hnode : n.tree.isNode = true) (h : Leaves n type r) :
    ∃ q, type.qualifyingName? = some q ∧ cast? n = some ⟨r, castFor r q⟩ := by
  obtain ⟨hplace, haround⟩ := hn.of_mem_ancestors (List.mem_of_find?_eq_some h.nearest)
  have hkind : type.kind.isTypeDeclaration = true := by simpa using List.find?_some h.nearest
  obtain ⟨q, hq⟩ :=
    Site.exists_qualifyingName? (hplace.wellFormed ht) (haround.isNode hnode) hkind
  exact ⟨q, hq, (cast?_eq_some_iff_rule? h.kind).mpr
    ⟨type, r, q, h.nearest, h.escapes.rule? h.kind, hq, rfl⟩⟩

/-- The text of a cast reads as the cast, or as one between parentheses. -/
theorem exists_made_castFor {root : Tree} (hroot : root.Readable)
    (htype : (Site.root root).Around type) {q : String} (hq : type.qualifyingName? = some q)
    (r : PatchRule) : ∃ t us, Grammar.MakesTree (castFor r q)
      (if r = .thisInvocationReceiver then Grammar.parenthesizedTree t us
        else Grammar.thisCastTree t us) := by
  obtain ⟨t, us, ht, hus, rfl, hdeclared, hkinds⟩ :=
    Site.exists_qualifier (hroot.allNamesCut htype) hq
  have htkind := (Site.declaredName?_eq_some hdeclared).2
  have hnames : Nameable t us := ⟨ht, hus, List.forall_mem_cons.mpr ⟨htkind, hkinds⟩⟩
  refine ⟨t, us, ?_⟩
  unfold castFor
  split
  · exact makesTree_parenthesizedCast hnames
  · exact makesTree_cast hnames

end SelfReference

/-! ## As many as before -/

namespace Tree

theorem kindsAll_eq_flatMap (ts : List Tree) : kindsAll ts = ts.flatMap kinds := by
  induction ts with
  | nil => rfl
  | cons t ts ih => rw [kindsAll, ih, List.flatMap_cons]

/-- A word has no node inside. -/
theorem IsWord.kinds_eq {t : Tree} {w : Token} (h : t.IsWord w) : t.kinds = [t.kind] := by
  cases t with
  | token v => cases h.isNode
  | node k ts =>
    have hnil : kindsAll ts = [] := by
      rw [kindsAll_eq_flatMap, List.flatMap_eq_nil_iff]
      intro u hu
      cases u with
      | token v => rfl
      | node l us => cases h.isNode_eq_false _ hu
    rw [kinds, hnil]
    rfl

theorem count_kinds_thisCastTree (t : Token) (us : List Token) :
    (Grammar.thisCastTree t us).kinds.count .thisExpression = 1 := by
  have hnone : (kindsAll (Grammar.qualifierParts t us)).count .thisExpression = 0 :=
    List.count_eq_zero.mpr fun hmem => absurd (kindsAll_qualifierParts hmem) (by decide)
  simp [Grammar.thisCastTree, Grammar.castTree, Grammar.objectCastTree, Grammar.thisTree,
    Grammar.namedType, kinds, kindsAll, hnone]

theorem count_kinds_parenthesizedTree (t : Token) (us : List Token) :
    (Grammar.parenthesizedTree t us).kinds.count .thisExpression = 1 := by
  simp [Grammar.parenthesizedTree, kinds, kindsAll, count_kinds_thisCastTree]

end Tree

namespace SelfReference

variable {root : Tree} {n : Site} {comments : Bool}

/-- A cast that was made holds `this` once, inside, and no place where `this` leaves its object. -/
theorem kinds_of_fills (hroot : root.Readable) (hn : (Site.root root).Around n) {t : Tree}
    (ht : fills comments cast? n = some t) : t.kinds.count .thisExpression = 1 ∧
      t.kind ≠ .thisExpression ∧ ∀ k ∈ t.kinds, k ∈ castKinds := by
  obtain ⟨p, made, hp, hmade, rfl⟩ := Decision.fills_eq_some.mp ht
  rw [Tree.kinds_finish, Tree.kind_finish, ← Tree.kinds_dropTrivia, ← Tree.kind_dropTrivia]
  obtain ⟨name, us, ⟨made', hmade', hdrop⟩ | ⟨made', hmade', hdrop⟩⟩ := makes_cast hroot hn hp
  · obtain rfl := Except.ok.inj (hmade.symm.trans hmade')
    rw [hdrop]
    exact ⟨Tree.count_kinds_thisCastTree _ _, nofun, fun k hk =>
      List.mem_cons_of_mem _ (kinds_thisCastTree hk)⟩
  · obtain rfl := Except.ok.inj (hmade.symm.trans hmade')
    rw [hdrop]
    exact ⟨Tree.count_kinds_parenthesizedTree _ _, nofun, fun k hk => kinds_parenthesizedTree hk⟩

theorem count_kinds_treeAt (hroot : root.Readable) (hn : (Site.root root).Around n) :
    ((fills comments cast?).treeAt n).kinds.count .thisExpression =
      n.tree.kinds.count .thisExpression := by
  obtain ⟨t, start, trail⟩ := n
  induction t using Tree.inductionOn generalizing start trail with
  | leaf w => rw [Substitution.treeAt_token]
  | part k ts ih =>
    cases hF : fills comments cast? ⟨.node k ts, start, trail⟩ with
    | some t =>
      obtain ⟨p, -, hp, -⟩ := Decision.fills_eq_some.mp hF
      obtain ⟨w, hw⟩ := (recasts hroot).isWord hn rfl hp
      have hkind : Tree.kind (.node k ts) = .thisExpression := (cast?_eq_some hp).1
      rw [Substitution.treeAt_of_some rfl hF, (kinds_of_fills hroot hn hF).1, hw.kinds_eq, hkind]
      rfl
    | none =>
      have hold : Tree.kindsAll ts =
          (Site.parts ⟨.node k ts, start, trail⟩).flatMap (·.tree.kinds) := by
        rw [← List.flatMap_map (fun n : Site => n.tree), Tree.kindsAll_eq_flatMap]
        exact congrArg _ (Site.partsFrom_map_tree _ 0 start ts).symm
      rw [Substitution.treeAt_eq rfl hF]
      show (k :: Tree.kindsAll _).count _ = (k :: Tree.kindsAll ts).count _
      rw [List.count_cons, List.count_cons, hold, Tree.kindsAll_eq_flatMap, List.flatMap_map,
        List.count_flatMap, List.count_flatMap]
      congr 2
      refine List.map_congr_left fun p hp => ?_
      exact ih p.tree (Site.tree_mem_of_mem_parts hp) p.start p.trail (hn.part hp)

/-- **There are as many `this` as before.** -/
theorem count_kinds_run (hroot : root.Readable) :
    ((fills comments cast?).run root).kinds.count .thisExpression =
      root.kinds.count .thisExpression :=
  count_kinds_treeAt hroot (n := Site.root root) .refl

/-! ## None in such a place -/

/-- Inside of a cast that was made, `this` does not leave its object. -/
theorem not_leaves_inside (hroot : root.Readable) (hn : (Site.root root).Around n)
    (hnode : n.tree.isNode = true) {t : Tree} (ht : fills comments cast? n = some t)
    {m type : Site} {r : PatchRule} (hm : ((fills comments cast?).image n).Around m) :
    ¬Leaves m type r := by
  intro hleaves
  have htree : ((fills comments cast?).image n).tree = t := by
    rw [Substitution.image_tree, Substitution.treeAt_of_some hnode ht]
  obtain ⟨-, hkind, hkinds⟩ := kinds_of_fills hroot hn ht
  rw [← htree] at hkind hkinds
  cases hm with
  | refl => exact hkind hleaves.kind
  | @part b m hb hpart =>
    have hmem := hkinds _ (hb.mem_kinds (Site.isNode_of_mem_parts hpart))
    obtain ⟨b', hparent, hescapes⟩ := hleaves.escapes.exists_parent
    rw [Site.parent?, Site.ancestors_of_mem_parts hpart] at hparent
    obtain rfl : b = b' := Option.some.inj hparent
    revert hmem hescapes
    generalize b.kind = k
    revert k
    decide

/-- **The pass leaves no `this` in such a place.** -/
theorem not_leaves_run (hroot : root.Readable) (hwell : root.WellFormed) {m type : Site}
    {r : PatchRule} (hm : (Site.root ((fills comments cast?).run root)).Around m)
    (hnode : m.tree.isNode = true) : ¬Leaves m type r := by
  have hrewords := (recasts hroot).rewords comments
  intro hleaves
  rcases hrewords.image_or_inside hm hnode with ⟨n, hn, hnnode, rfl⟩ | ⟨n, t, hn, hnnode, hF, hnm⟩
  swap
  · exact not_leaves_inside hroot hn hnnode hF hnm hleaves
  cases hF : fills comments cast? n with
  | some t => exact not_leaves_inside hroot hn hnnode hF .refl hleaves
  | none =>
    -- The node was kept, so it had stood in such a place before.
    have hkept : (fills comments cast?).Keeps root n := ⟨hn, hnnode, hF⟩
    obtain ⟨hthis, hnearest, hescapes⟩ := hleaves
    have hrule := hescapes.rule? hthis
    rw [hkept.kind_eq] at hthis
    rw [hrewords.find?_image hn hnnode] at hnearest
    obtain ⟨type, htype, rfl⟩ := Option.map_eq_some_iff.mp hnearest
    have hktype := hrewords.keeps_of_mem_ancestors hn hnnode (List.mem_of_find?_eq_some htype)
    have hold := (rule?_eq_some_iff hwell hn hnnode hthis).mp
      (hrewords.rule?_of_image hkept hktype hrule)
    obtain ⟨q, -, hp⟩ := Leaves.exists_cast? hwell hn hnnode ⟨hthis, htype, hold⟩
    rw [((recasts hroot).kept_iff hn hnnode).mp hF] at hp
    cases hp

/-! ## The edits -/

/-- The edit that casts `this`, if the pass decides so. -/
def castEdit? (n : Site) : Option Edit :=
  (cast? n).map fun p => ⟨p.rule, n.coreSpan, n.tree.coreText, p.template⟩

/-- The edit that is recorded is that of the decision. -/
theorem edit?_eq_castEdit? (hroot : root.Readable) (hn : (Site.root root).Around n)
    (hnode : n.tree.isNode = true) : Decision.edit? cast? n = castEdit? n := by
  cases hp : cast? n with
  | none => rw [Decision.edit?, castEdit?, hp, Option.map_none]
  | some p =>
    obtain ⟨made, hmade⟩ := (recasts hroot).exists_made hn hnode hp
    have hdecided : Decision.ofSite cast? n n.tree = some p := hp
    have hspells := (rewords hroot.toRegular).spells hn hnode hdecided hmade
    rw [Decision.edit?_eq_some.mpr ⟨p, made, hp, hmade, rfl⟩, castEdit?, hp, Option.map_some,
      Edit.record, hspells.coreText_eq]

/-- **`this` is cast exactly where it leaves its object.**  On a text without problems the pass
over `this` succeeds, and puts trees in place of some nodes, for which it records one edit each, in
reading order.  These are the `this` that leave the object of the nearest type around them.  Each is
cast to the name of that type, between parentheses exactly if it receives a call.  Afterwards there
are as many `this` as before, and none leaves its object. -/
theorem casts_exact (options : PatchOptions) (source : String)
    (hclean : (parse source).isClean = true) :
    let t := (parse source).tree
    ∃ o, Pass.selfReference.run options t = .ok o ∧
      o.tree = (fills options.comments cast?).run t ∧
      o.edits = (Site.root t).descendants.filterMap castEdit? ∧
      (∀ n ∈ (Site.root t).descendants,
        (∃ e, castEdit? n = some e) ↔ ∃ type r, Leaves n type r) ∧
      (∀ n ∈ (Site.root t).descendants, ∀ type r, Leaves n type r →
        ∃ q made, type.qualifyingName? = some q ∧ synthesize (castFor r q) = .ok made ∧
          made.kind = castKindFor r ∧
          fills options.comments cast? n = some (finish options.comments r n.tree made) ∧
          castEdit? n = some ⟨r, n.coreSpan, n.tree.coreText, castFor r q⟩) ∧
      o.tree.kinds.count .thisExpression = t.kinds.count .thisExpression ∧
      ∀ n ∈ (Site.root o.tree).descendants, ∀ type r, ¬Leaves n type r := by
  intro t
  have hroot : t.Readable := readable_parse hclean
  have hwell : t.WellFormed := wellFormed_parse source hclean
  clear_value t
  have hrun := Decision.run_ofSite options.comments (rewords hroot.toRegular).apart
    fun n hn hnode p hp => (recasts hroot).exists_made hn hnode hp
  rw [← Pass.run_selfReference] at hrun
  refine ⟨_, hrun, rfl, ?_, ?_, ?_, ?_, ?_⟩
  · refine List.filterMap_congr fun n hn => ?_
    obtain ⟨hplace, hnode⟩ := Site.mem_descendants.mp hn
    exact edit?_eq_castEdit? hroot hplace hnode
  · intro n hn
    obtain ⟨hplace, hnode⟩ := Site.mem_descendants.mp hn
    constructor
    · rintro ⟨e, he⟩
      obtain ⟨p, hp, -⟩ := Option.map_eq_some_iff.mp he
      obtain ⟨type, r, q, hleaves, -⟩ := (cast?_eq_some_iff hwell hplace hnode).mp hp
      exact ⟨type, r, hleaves⟩
    · rintro ⟨type, r, hleaves⟩
      obtain ⟨q, -, hp⟩ := hleaves.exists_cast? hwell hplace hnode
      exact ⟨_, by rw [castEdit?, hp, Option.map_some]⟩
  · intro n hn type r hleaves
    obtain ⟨hplace, hnode⟩ := Site.mem_descendants.mp hn
    obtain ⟨q, hq, hp⟩ := hleaves.exists_cast? hwell hplace hnode
    have htype := (hplace.of_mem_ancestors (List.mem_of_find?_eq_some hleaves.nearest)).1
    obtain ⟨name, us, made, hmade, hdrop⟩ := exists_made_castFor hroot htype hq r
    refine ⟨q, made, hq, hmade, ?_, Decision.fills_of_ok (p := ⟨r, castFor r q⟩) hp hmade, ?_⟩
    · rw [← Tree.kind_dropTrivia, hdrop, castKindFor]
      split <;> rfl
    · rw [castEdit?, hp, Option.map_some]
  · exact count_kinds_run hroot
  · intro n hn type r
    obtain ⟨hplace, hnode⟩ := Site.mem_descendants.mp hn
    exact not_leaves_run hroot hwell hplace hnode

/-- `this` in all four places, and in two others: in a reference argument and in front of a method
of the type. -/
def fourPlaces : String :=
  "class A<T> \x7b object M() \x7b p = this; N(this, ref this); this.M(); this.Q(); " ++
    "return this; \x7d \x7d"

/-- There four of the six are cast. -/
theorem casts_exact_fourPlaces : (parse fourPlaces).isClean = true ∧
    ∃ o, Pass.selfReference.run {} (parse fourPlaces).tree = .ok o ∧
      o.text = "class A<T> \x7b object M() \x7b p = (A<T>)(object)this; N((A<T>)(object)this, " ++
        "ref this); this.M(); ((A<T>)(object)this).Q(); return (A<T>)(object)this; \x7d \x7d" ∧
      o.tree.kinds.count .thisExpression = (parse fourPlaces).tree.kinds.count .thisExpression ∧
      ∀ n ∈ (Site.root o.tree).descendants, ∀ type r, ¬Leaves n type r := by
  obtain ⟨hclean, htext⟩ : (parse fourPlaces).isClean = true ∧
      (Pass.selfReference.run {} (parse fourPlaces).tree).toOption.map Outcome.text =
        some ("class A<T> \x7b object M() \x7b p = (A<T>)(object)this; N((A<T>)(object)this, " ++
          "ref this); this.M(); ((A<T>)(object)this).Q(); return (A<T>)(object)this; \x7d \x7d") := by
    decide +kernel
  obtain ⟨o, hrun, htext⟩ := Outcome.exists_of_text htext
  obtain ⟨o', hrun', -, -, -, -, hcount, hnone⟩ := casts_exact {} fourPlaces hclean
  obtain rfl := Except.ok.inj (hrun.symm.trans hrun')
  exact ⟨hclean, o, hrun, htext, hcount, hnone⟩

end SelfReference

end LivePatch
