import LivePatch.Proofs.Adjacency
import LivePatch.Proofs.ImageDecisions
import LivePatch.Proofs.OutputTokens
import LivePatch.Proofs.TemplateTrees

/-!
# What is put in place of words

On the tree of a clean text, every template of the passes over static fields and over `this` is an
expression: its names are words that the lexer has cut out of the text.  So each of these passes
succeeds, and what it does is a substitution that rewords the tree.
-/

namespace LivePatch

open Grammar (MakesTree)

/-! ## The kinds of what is made -/

namespace Tree

mutual

theorem kinds_dropTrivia (t : Tree) : t.dropTrivia.kinds = t.kinds := by
  cases t with
  | token w => rfl
  | node k ts => rw [dropTrivia, kinds, kinds, kindsAll_dropTriviaAll ts]

theorem kindsAll_dropTriviaAll (ts : List Tree) : kindsAll (dropTriviaAll ts) = kindsAll ts := by
  cases ts with
  | nil => rfl
  | cons t ts =>
    have ih := kindsAll_dropTriviaAll ts
    cases t with
    | token w =>
      rw [dropTriviaAll, kindsAll, kinds, List.nil_append, ← ih]
      split
      · rfl
      · rw [kindsAll, kinds, List.nil_append]
    | node k us => rw [dropTriviaAll, kindsAll, kindsAll, kinds_dropTrivia, ih]

end

theorem kindsAll_children_dropTrivia (t : Tree) :
    kindsAll t.dropTrivia.children = kindsAll t.children := by
  cases t with
  | token w => rfl
  | node k ts => rw [dropTrivia, children, children, kindsAll_dropTriviaAll]

theorem kindsAll_append (ss ts : List Tree) :
    kindsAll (ss ++ ts) = kindsAll ss ++ kindsAll ts := by
  induction ss with
  | nil => rfl
  | cons s ss ih => simp [kindsAll, ih]

theorem kindsAll_tokens (ws : List Token) : kindsAll (ws.map .token) = [] := by
  induction ws with
  | nil => rfl
  | cons w ws ih => rw [List.map_cons, kindsAll, kinds, ih]; rfl

/-- Trivia has no nodes, so the edges of a replacement add no kind. -/
theorem kinds_finish (comments : Bool) (rule : PatchRule) (replaced made : Tree) :
    (finish comments rule replaced made).kinds = made.kinds := by
  cases made with
  | token w => rfl
  | node k ts => simp [finish, surround, kinds, kindsAll_append, kindsAll_tokens]

theorem kind_finish (comments : Bool) (rule : PatchRule) (replaced made : Tree) :
    (finish comments rule replaced made).kind = made.kind := by
  cases made <;> rfl

theorem isNode_finish (comments : Bool) (rule : PatchRule) (replaced made : Tree) :
    (finish comments rule replaced made).isNode = made.isNode := by
  cases made <;> rfl

theorem kind_dropTrivia (t : Tree) : t.dropTrivia.kind = t.kind := by
  cases t <;> rfl

theorem isNode_dropTrivia (t : Tree) : t.dropTrivia.isNode = t.isNode := by
  cases t <;> rfl

/-- A tree that may be put in place of a word. -/
structure IsInsert (t : Tree) : Prop where
  isNode : t.isNode = true
  kind : t.kind ∈ [.memberAccessExpression, .castExpression, .parenthesizedExpression]
  inside : ∀ k ∈ t.kinds, k.isInserted = true

end Tree

section

open Grammar

variable {t name : Token} {us : List Token} {k : Kind}

theorem kindsAll_listTrees (h : k ∈ Tree.kindsAll (listTrees t us)) :
    k ∈ [.type, .namedType] := by
  induction us generalizing t with
  | nil => simpa [listTrees, namedType, Tree.kindsAll, Tree.kinds] using h
  | cons u us ih =>
    simp only [listTrees, namedType, Tree.kindsAll, Tree.kinds, List.mem_append, List.mem_cons,
      List.not_mem_nil, or_false, List.nil_append, List.append_nil] at h
    rcases h with h | h
    · simpa using h
    · exact ih h

theorem kindsAll_qualifierParts (h : k ∈ Tree.kindsAll (qualifierParts t us)) :
    k ∈ [.typeArgumentList, .type, .namedType] := by
  cases us with
  | nil => simp [qualifierParts, Tree.kindsAll, Tree.kinds] at h
  | cons u us =>
    simp only [qualifierParts, argumentsTree, Tree.kindsAll, Tree.kinds, List.nil_append,
      List.append_nil, List.mem_cons, Tree.kindsAll_append] at h
    rcases h with rfl | h
    · exact List.mem_cons_self
    · exact List.mem_cons_of_mem _ (kindsAll_listTrees (by simpa using h))

theorem kinds_memberTree (h : k ∈ (memberTree t us name).kinds) :
    k ∈ [.memberAccessExpression, .nameExpression, .typeArgumentList, .type, .namedType] := by
  simp only [memberTree, Tree.kinds, Tree.kindsAll, List.nil_append, List.append_nil,
    List.mem_cons, List.mem_append, List.not_mem_nil, or_false] at h
  rcases h with rfl | (rfl | h) | rfl
  · simp
  · simp
  · have := kindsAll_qualifierParts h
    simp only [List.mem_cons, List.not_mem_nil, or_false] at this
    rcases this with rfl | rfl | rfl <;> simp
  · simp

theorem kinds_thisCastTree (h : k ∈ (thisCastTree t us).kinds) :
    k ∈ [.castExpression, .thisExpression, .predefinedType, .typeArgumentList, .type,
      .namedType] := by
  simp only [thisCastTree, castTree, objectCastTree, thisTree, namedType, Tree.kinds,
    Tree.kindsAll, List.nil_append, List.append_nil, List.mem_cons, List.mem_append,
    List.not_mem_nil, or_false] at h
  rcases h with rfl | (rfl | rfl | h) | h
  · simp
  · simp
  · simp
  · have := kindsAll_qualifierParts h
    simp only [List.mem_cons, List.not_mem_nil, or_false] at this
    rcases this with rfl | rfl | rfl <;> simp
  · rcases h with rfl | (rfl | rfl) | rfl <;> simp

theorem kinds_parenthesizedTree (h : k ∈ (parenthesizedTree t us).kinds) :
    k ∈ [.parenthesizedExpression, .castExpression, .thisExpression, .predefinedType,
      .typeArgumentList, .type, .namedType] := by
  simp only [parenthesizedTree, Tree.kinds, Tree.kindsAll, List.nil_append, List.append_nil,
    List.mem_cons] at h
  rcases h with rfl | h
  · exact List.mem_cons_self
  · exact List.mem_cons_of_mem _ (kinds_thisCastTree h)

theorem isInsert_memberTree : (memberTree t us name).IsInsert := by
  have hall : ∀ k ∈ [Kind.memberAccessExpression, .nameExpression, .typeArgumentList, .type,
      .namedType], k.isInserted = true := by decide
  exact ⟨rfl, List.mem_cons_self, fun k hk => hall k (kinds_memberTree hk)⟩

/-- The kinds of the nodes of a cast, also between parentheses, are among these. -/
def castKinds : List Kind :=
  [.parenthesizedExpression, .castExpression, .thisExpression, .predefinedType,
    .typeArgumentList, .type, .namedType]

theorem isInsert_of_castKinds {e : Tree} (hnode : e.isNode = true)
    (hkind : e.kind = .castExpression ∨ e.kind = .parenthesizedExpression)
    (hkinds : ∀ k ∈ e.kinds, k ∈ castKinds) : e.IsInsert := by
  have hall : ∀ k ∈ castKinds, k.isInserted = true := by decide
  refine ⟨hnode, ?_, fun k hk => hall k (hkinds k hk)⟩
  rcases hkind with h | h <;> rw [h] <;> simp

end

/-! ## Readable trees -/

/-- What the passes over words rely on. -/
structure Tree.Readable (t : Tree) : Prop extends t.Regular where
  names : (Site.root t).AllNamesCut
  designates : t.Designates

theorem readable_parse {source : String} (h : (parse source).isClean = true) :
    (parse source).tree.Readable where
  toRegular := regular_parse source
  names := Site.Around.refl.allNamesCut (Parsed.lexicalFaults_eq_nil h) (divides_parse source)
  designates := (marked_parse source).1

theorem Tree.Readable.allNamesCut {root : Tree} (h : root.Readable) {n : Site}
    (hn : (Site.root root).Around n) : n.AllNamesCut :=
  fun w hw hk => h.names w (hn.mem_leaves hw) hk

/-! ## Decisions about words -/

namespace Decision

/-- The decision `f` puts expressions in place of words, each of which can be read. -/
structure Recasts (f : Site → Option Proposal) (root : Tree) : Prop where
  isWord : ∀ {n p}, (Site.root root).Around n → n.tree.isNode = true → f n = some p →
    ∃ w, n.tree.IsWord w
  stands : ∀ {n p}, (Site.root root).Around n → n.tree.isNode = true → f n = some p →
    n.kind = .nameExpression ∧ n.nameContext = .bare ∨ n.kind = .thisExpression
  made : ∀ {n p}, (Site.root root).Around n → n.tree.isNode = true → f n = some p →
    ∃ e, MakesTree p.template e ∧ e.IsInsert

namespace Recasts

variable {f g : Site → Option Proposal} {root : Tree} {comments : Bool} {n : Site}

theorem exists_made (h : Recasts f root) (hn : (Site.root root).Around n)
    (hnode : n.tree.isNode = true) {p : Proposal} (hp : f n = some p) :
    ∃ made, synthesize p.template = .ok made := by
  obtain ⟨_, ⟨made, hmade, -⟩, -⟩ := h.made hn hnode hp
  exact ⟨made, hmade⟩

theorem kept_iff (h : Recasts f root) (hn : (Site.root root).Around n)
    (hnode : n.tree.isNode = true) : fills comments f n = none ↔ f n = none := by
  refine ⟨fun hnone => ?_, fills_of_none⟩
  by_contra hne
  obtain ⟨p, hp⟩ := Option.ne_none_iff_exists'.mp hne
  obtain ⟨made, hmade⟩ := h.exists_made hn hnode hp
  rw [fills_of_ok hp hmade] at hnone
  cases hnone

/-- What is put in place of a word is the tree of the template, with trivia. -/
theorem fills_eq (h : Recasts f root) (hn : (Site.root root).Around n)
    (hnode : n.tree.isNode = true) {t : Tree} (ht : fills comments f n = some t) :
    ∃ p made, f n = some p ∧ synthesize p.template = .ok made ∧ made.dropTrivia.IsInsert ∧
      t = finish comments p.rule n.tree made := by
  obtain ⟨p, made, hp, hmade, rfl⟩ := fills_eq_some.mp ht
  obtain ⟨e, ⟨made', hmade', rfl⟩, hinsert⟩ := h.made hn hnode hp
  obtain rfl := Except.ok.inj (hmade.symm.trans hmade')
  exact ⟨p, made, hp, hmade, hinsert, rfl⟩

/-- What such a decision does is a substitution that rewords the tree. -/
theorem rewords (h : Recasts f root) (comments : Bool) : (fills comments f).Rewords root where
  isWord hn hnode ht := by
    obtain ⟨p, -, hp, -⟩ := fills_eq_some.mp ht
    exact h.isWord hn hnode hp
  stands hn hnode ht := by
    obtain ⟨p, -, hp, -⟩ := fills_eq_some.mp ht
    exact h.stands hn hnode hp
  made hn hnode ht := by
    obtain ⟨p, made, -, -, hinsert, rfl⟩ := h.fills_eq hn hnode ht
    rw [Tree.isNode_finish, Tree.kind_finish, ← Tree.isNode_dropTrivia, ← Tree.kind_dropTrivia]
    exact ⟨hinsert.isNode, hinsert.kind⟩
  inside hn hnode ht := by
    obtain ⟨p, made, -, -, hinsert, rfl⟩ := h.fills_eq hn hnode ht
    rw [Tree.kinds_finish, ← Tree.kinds_dropTrivia]
    exact hinsert.inside

/-- The two decisions at once; where both decide, the first one counts. -/
theorem orElse (hf : Recasts f root) (hg : Recasts g root) :
    Recasts (fun n => (f n).or (g n)) root where
  isWord hn hnode hp := by
    rcases Option.or_eq_some_iff.mp hp with hp | ⟨-, hp⟩
    · exact hf.isWord hn hnode hp
    · exact hg.isWord hn hnode hp
  stands hn hnode hp := by
    rcases Option.or_eq_some_iff.mp hp with hp | ⟨-, hp⟩
    · exact hf.stands hn hnode hp
    · exact hg.stands hn hnode hp
  made hn hnode hp := by
    rcases Option.or_eq_some_iff.mp hp with hp | ⟨-, hp⟩
    · exact hf.made hn hnode hp
    · exact hg.made hn hnode hp

end Recasts

end Decision

/-! ## The two passes -/

/-- The name of a type is made of names that the lexer cuts. -/
theorem Site.exists_nameable {s : Site} {q : String} (h : s.AllNamesCut)
    (hq : s.qualifyingName? = some q) : ∃ t us, Nameable t us ∧
      Token.textOf (Token.qualifier t us) = q ∧ s.declaredName? = some t := by
  obtain ⟨t, us, ht, hus, htext, hdeclared, hkinds⟩ := Site.exists_qualifier h hq
  have htkind := (Site.declaredName?_eq_some hdeclared).2
  exact ⟨t, us, ⟨ht, hus, List.forall_mem_cons.mpr ⟨htkind, hkinds⟩⟩, htext, hdeclared⟩

/-- What stands in place of a reference to a static field. -/
theorem StaticFields.makes_member {root : Tree} (hroot : root.Readable)
    {visibility : FieldVisibility} {n : Site} (hn : (Site.root root).Around n)
    (hnode : n.tree.isNode = true) {p : Proposal} (hp : reference? visibility n = some p) :
    ∃ type t us w, n.ancestors.find? (·.kind.isTypeDeclaration) = some type ∧
      type.declaredName? = some t ∧ n.tree.IsWord w ∧
      MakesTree p.template (Grammar.memberTree t us w) := by
  obtain ⟨type, q, x, hr, rfl⟩ := reference?_eq_some.mp hp
  obtain ⟨w, hw, rfl⟩ := Option.map_eq_some_iff.mp hr.named
  obtain ⟨hmem, hkind⟩ := Site.boundName?_eq_some hw
  have hname := hroot.allNamesCut hn w (Site.mem_leaves_of_mem_tokens hmem) hkind
  have htype := (hn.of_mem_ancestors (List.mem_of_find?_eq_some hr.nearest)).1
  obtain ⟨t, us, hnames, rfl, hdeclared⟩ :=
    Site.exists_nameable (hroot.allNamesCut htype) hr.qualified
  exact ⟨type, t, us, w, hr.nearest, hdeclared,
    Site.isWord_name (hn.sound hroot.sound) hnode hr.kind hw hr.plain,
    makesTree_member hnames hname hkind⟩

theorem StaticFields.recasts {root : Tree} (hroot : root.Readable) (visibility : FieldVisibility) :
    Decision.Recasts (reference? visibility) root where
  isWord hn hnode hp := by
    obtain ⟨_, _, _, w, -, -, hw, -⟩ := makes_member hroot hn hnode hp
    exact ⟨w, hw⟩
  stands _ _ hp := by
    obtain ⟨type, q, x, hr, -⟩ := reference?_eq_some.mp hp
    exact .inl ⟨hr.kind, hr.bare⟩
  made hn hnode hp := by
    obtain ⟨_, t, us, w, -, -, -, hmade⟩ := makes_member hroot hn hnode hp
    exact ⟨_, hmade, isInsert_memberTree⟩

/-- What stands in place of `this`. -/
theorem SelfReference.makes_cast {root : Tree} (hroot : root.Readable) {n : Site}
    (hn : (Site.root root).Around n) {p : Proposal} (hp : cast? n = some p) :
    ∃ t us, MakesTree p.template (Grammar.thisCastTree t us) ∨
      MakesTree p.template (Grammar.parenthesizedTree t us) := by
  obtain ⟨hkind, type, hmem, target, htarget, htemplate⟩ := cast?_eq_some hp
  have htype := (hn.of_mem_ancestors hmem).1
  obtain ⟨t, us, hnames, rfl, -⟩ := Site.exists_nameable (hroot.allNamesCut htype) htarget
  refine ⟨t, us, ?_⟩
  rcases htemplate with h | h
  · rw [h]
    exact .inl (makesTree_cast hnames)
  · rw [h]
    exact .inr (makesTree_parenthesizedCast hnames)

theorem SelfReference.recasts {root : Tree} (hroot : root.Readable) :
    Decision.Recasts cast? root where
  isWord hn hnode hp :=
    ⟨_, Tree.isWord_this (hn.sound hroot.sound) hnode (cast?_eq_some hp).1⟩
  stands _ _ hp := .inr (cast?_eq_some hp).1
  made hn _ hp := by
    obtain ⟨t, us, hmade | hmade⟩ := makes_cast hroot hn hp
    · exact ⟨_, hmade, isInsert_of_castKinds rfl (.inl rfl) fun k hk =>
        List.mem_cons_of_mem _ (kinds_thisCastTree hk)⟩
    · exact ⟨_, hmade, isInsert_of_castKinds rfl (.inr rfl) fun k hk => kinds_parenthesizedTree hk⟩

end LivePatch
