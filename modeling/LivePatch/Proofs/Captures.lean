import LivePatch.Proofs.Regularity
import LivePatch.Proofs.StaticReferences
import Mathlib.Tactic.MkIffOfInductiveProp

/-!
# Variables that expressions declare

An expression may declare a variable: an out variable, that of a pattern, or those of a
deconstruction.  Such a variable hides a field of the same name from there on, and a reference to
it must not get the type in front.

The pass looks for these declarations in the statements of the blocks around a reference, and
nowhere else.  So a declaration in a block of its member is always seen (`block_hides`), while one
in a member without a block, such as one whose body is an expression, is not.
-/

namespace LivePatch

namespace Site

/-- The members declared directly in the body of a type, of whatever kind. -/
def members (type : Site) : List Site :=
  match type.node? .typeBody with
  | none => []
  | some body => body.nodes

/-- The declaration expression `d` in `member` declares `name`, stands in front of `n`, which is
in the same member, and each block and lambda between `d` and the member also holds `n`.  So a
bare `name` at `n` is the variable. -/
@[mk_iff]
structure Captures (member d n : Site) (name : String) : Prop where
  kind : d.kind = .declarationExpression
  declares : name ∈ d.designatedNames
  declaration : d ∈ member.descendants
  reference : n ∈ member.descendants
  before : d.span.stop ≤ n.span.start
  reaches : ∀ b ∈ d.ancestors, b ∈ member.descendants →
    b.kind = .block ∨ b.kind = .lambdaExpression → b.span.contains n.span = true

instance (member d n : Site) (name : String) : Decidable (Captures member d n name) :=
  decidable_of_iff _ (captures_iff member d n name).symm

/-! ## Names have bytes -/

/-- A declared name is one of the identifiers of the declaration. -/
theorem exists_identifier_of_mem_designatedNames {s : Site} {name : String}
    (h : name ∈ s.designatedNames) : ∃ w ∈ s.tree.leaves, w.kind = .identifier := by
  unfold designatedNames at h
  split at h
  · rename_i w hw
    obtain ⟨hmem, hkind⟩ := boundName?_eq_some hw
    exact ⟨w, mem_leaves_of_mem_tokens hmem, hkind⟩
  · obtain ⟨p, hp, hname⟩ := List.mem_flatMap.mp h
    obtain ⟨w, hw, -⟩ := List.mem_map.mp hname
    obtain ⟨hmem, hkind⟩ := List.mem_filter.mp hw
    have hpart := mem_parts_of_mem_nodes (nodesOf_subset hp)
    exact ⟨w, (Around.refl.part hpart).mem_leaves hmem, by simpa using hkind⟩

end Site

/-- A place of a text with an identifier in it is not empty. -/
theorem Site.span_lt {t : Tree} (pieces : ∀ w ∈ t.leaves, w.IsPiece ∨ w = .endOfText) {s : Site}
    (hs : (Site.root t).Around s) {w : Token} (hw : w ∈ s.tree.leaves)
    (hkind : w.kind = .identifier) : s.span.start < s.span.stop := by
  have hpos : 0 < w.width := by
    rcases pieces w (hs.mem_leaves hw) with hpiece | rfl
    · exact hpiece.width_pos
    · cases hkind
  have hle : w.width ≤ s.tree.width := by
    obtain ⟨front, back, hleaves⟩ := List.append_of_mem hw
    rw [Tree.width, hleaves, Token.widthOf_append, Token.widthOf_cons]
    omega
  show s.start < s.start + s.tree.width
  omega

namespace StaticFields

variable {source : String} {visibility : FieldVisibility} {n type member d : Site}
  {qualifier name : String}

/-- A node that covers a place with bytes stands around it, unless it stands inside of it. -/
theorem around_of_contains {r b n : Site} (hb : r.Around b) (hn : r.Around n)
    (hwidth : n.span.start < n.span.stop) (h : b.span.contains n.span = true) :
    b.Around n ∨ n.Around b := by
  obtain ⟨hstart, hstop⟩ : b.span.start ≤ n.span.start ∧ n.span.stop ≤ b.span.stop := by
    simpa [Span.contains] using h
  rcases hb.around_or_apart hn with h | h | h | h
  · exact .inl h
  · exact .inr h
  · omega
  · omega

/-- A node between a reference and the nearest type is asked whether it hides the name. -/
theorem mem_asked {t : Tree} {b : Site} (hn : (Site.root t).Around n)
    (hnear : n.ancestors.find? (·.kind.isTypeDeclaration) = some type) (hb : type.Around b)
    (hbn : b.Around n) (hkind : b.kind.isTypeDeclaration = false) (hne : b.kind ≠ n.kind) :
    b ∈ n.ancestors.takeWhile (fun s => !s.kind.isTypeDeclaration) := by
  obtain ⟨htype, front, back, hsplit, hfront⟩ := List.find?_eq_some_iff_append.mp hnear
  have hmem : b ∈ n.ancestors := by
    rcases hbn.mem_ancestors with rfl | hmem
    · exact absurd rfl hne
    · exact hmem
  have hbefore : b ∈ front := by
    rw [hsplit] at hmem
    rcases List.mem_append.mp hmem with hmem | hmem
    · exact hmem
    exfalso
    rcases List.mem_cons.mp hmem with rfl | hmem
    · rw [hkind] at htype
      cases htype
    · -- Behind the type in the list there are only nodes around the type.
      rw [Site.ancestors_of_append hsplit] at hmem
      have hplace := (hn.of_mem_ancestors (List.mem_of_find?_eq_some hnear)).1
      obtain rfl := hb.antisymm (hplace.of_mem_ancestors hmem).2
      rw [hkind] at htype
      cases htype
  rw [hsplit, List.takeWhile_append_of_pos hfront]
  exact List.mem_append_left _ hbefore

theorem around_member (h : member ∈ type.members) : type.Around member := by
  unfold Site.members at h
  split at h
  · cases h
  · rename_i body hbody
    have hpart := Site.mem_parts_of_mem_nodes (Site.nodesOf_subset (List.mem_of_mem_head? hbody))
    exact (Site.Around.refl.part hpart).part (Site.mem_parts_of_mem_nodes h)

/-- **A block shows what is declared in it.**  The statement of the block that holds the
declaration starts before the reference, and the pass finds the declaration in it. -/
theorem declaresBefore_of_captures (hc : Site.Captures member d n name) {b : Site}
    (hb : member.Around b) (hbd : b.Around d) (hkind : b.kind = .block) :
    b.declaresBefore n name = true := by
  obtain ⟨hmd, hdnode⟩ := Site.mem_descendants.mp hc.declaration
  obtain ⟨s, hs, hsd⟩ : ∃ s ∈ b.parts, s.Around d := by
    rcases hbd.eq_or_exists_part with rfl | hpart
    · rw [hc.kind] at hkind
      cases hkind
    · exact hpart
  have hnode : s ∈ b.nodes := List.mem_filter.mpr ⟨hs, hsd.isNode hdnode⟩
  have hstart : s.start ≤ n.start := by
    have hle : s.start ≤ d.start := hsd.span_le.1
    have hwidth : d.start ≤ d.span.stop := Nat.le_add_right _ _
    exact Nat.le_trans hle (Nat.le_trans hwidth hc.before)
  rw [Site.declaresBefore, List.any_eq_true]
  refine ⟨s, Site.mem_takeWhile_nodes hnode hstart, ?_⟩
  rw [Site.declaresFor, Bool.or_eq_true]
  right
  rw [List.any_eq_true]
  refine ⟨d, Site.mem_descendants.mpr ⟨hsd, hdnode⟩, ?_⟩
  have hvisible : d.isVisibleFrom s n = true := by
    rw [Site.isVisibleFrom, List.all_eq_true]
    intro c hcmem
    -- Below the statement there are only nodes between the declaration and the member.
    obtain ⟨between, hchain, hall⟩ := hsd.chain
    have hstops : (!s.isSame s) = false := by simp [Site.isSame]
    have hmem : c ∈ between := by
      rw [hchain, List.takeWhile_append] at hcmem
      split at hcmem
      · simpa [hstops] using hcmem
      · exact (List.takeWhile_sublist _).mem hcmem
    obtain ⟨hsc, hcd⟩ := hall c hmem
    have hmc : member.Around c := (hb.part hs).trans hsc
    have hnested : c.kind = .block ∨ c.kind = .lambdaExpression →
        c.span.contains n.span = true := by
      intro hck
      rcases hcd.mem_ancestors with rfl | hanc
      · rw [hc.kind] at hck
        rcases hck with hck | hck <;> cases hck
      · exact hc.reaches c hanc (Site.mem_descendants.mpr ⟨hmc, hcd.isNode hdnode⟩) hck
    split
    · rename_i hblock
      exact hnested (.inl hblock)
    · rename_i hlambda
      exact hnested (.inr hlambda)
    · rfl
  simp [hc.kind, hc.declares, hvisible]

/-- **A block of the member hides the name.**  So where a reference gets its type in front, no
declaration that captures it stands in a block of the member. -/
theorem not_block_of_captures {t : Tree} (pieces : ∀ w ∈ t.leaves, w.IsPiece ∨ w = .endOfText)
    (hn : (Site.root t).Around n) (hr : Refers visibility n type qualifier name)
    (hm : member ∈ type.members) (hc : Site.Captures member d n name) {b : Site}
    (hanc : b ∈ d.ancestors) (hdesc : b ∈ member.descendants) : b.kind ≠ .block := by
  intro hkind
  have htype := (hn.of_mem_ancestors (List.mem_of_find?_eq_some hr.nearest)).1
  have hmember := around_member hm
  obtain ⟨hmd, -⟩ := Site.mem_descendants.mp hc.declaration
  obtain ⟨hmb, -⟩ := Site.mem_descendants.mp hdesc
  have hd := (htype.trans hmember).trans hmd
  obtain ⟨hb, hbd⟩ := hd.of_mem_ancestors hanc
  have hnwidth : n.span.start < n.span.stop := by
    obtain ⟨w, hw, -⟩ := Option.map_eq_some_iff.mp hr.named
    obtain ⟨hmem, hkind⟩ := Site.boundName?_eq_some hw
    exact Site.span_lt pieces hn (Site.mem_leaves_of_mem_tokens hmem) hkind
  have hdwidth : d.span.start < d.span.stop := by
    obtain ⟨w, hw, hwkind⟩ := Site.exists_identifier_of_mem_designatedNames hc.declares
    exact Site.span_lt pieces hd hw hwkind
  have hbn : b.Around n := by
    rcases around_of_contains hb hn hnwidth (hc.reaches b hanc hdesc (.inl hkind)) with h | h
    · exact h
    · -- Then the declaration would start inside of the reference, and not before it.
      have hle := (h.trans hbd).span_le.1
      have hbefore := hc.before
      omega
  have hasked := mem_asked hn hr.nearest (hmember.trans hmb) hbn (by rw [hkind]; rfl)
    (by rw [hkind, hr.kind]; decide)
  have hbinds : b.binds n name = true := by
    rw [Site.binds, hkind]
    exact declaresBefore_of_captures hc hmb hbd hkind
  have hshadowed : n.isShadowed name = true := by
    rw [Site.isShadowed, List.any_eq_true]
    exact ⟨b, hasked, hbinds⟩
  rw [hr.shown] at hshadowed
  cases hshadowed

/-- **A captured reference is captured from outside of all blocks.**  The pass does what the
conditions of `Refers` say.  Where it puts the type in front of a reference, a declaration that
captures the reference stands in no block of the member: in an expression body, in the initializer
of a field or property, or in the call of another constructor. -/
theorem captures_outside_blocks (options : PatchOptions) (source : String) :
    Pass.staticFieldAccess.run options (parse source).tree =
      (Decision.ofSite (reference? options.visibility)).run options.comments (parse source).tree ∧
    ∀ n ∈ (Site.root (parse source).tree).descendants, ∀ type qualifier name,
      Refers options.visibility n type qualifier name →
        ∀ member ∈ type.members, ∀ d, Site.Captures member d n name →
          ∀ b ∈ d.ancestors, b ∈ member.descendants → b.kind ≠ .block := by
  have pieces := (regular_parse source).pieces
  generalize (parse source).tree = t at pieces
  refine ⟨(tracks options t).run_eq options.comments, ?_⟩
  intro n hn type qualifier name hr member hm d hc b hanc hdesc
  exact not_block_of_captures pieces (Site.mem_descendants.mp hn).1 hr hm hc hanc hdesc

/-- A member whose body is an expression, in which the variable of a pattern hides a field. -/
def expressionBody : String :=
  "class A { public static int x; int M(object o) => o is int x ? x : 0; }"

/-- A node of the tree of a text, counted in reading order. -/
def nodeAt (source : String) (i : Nat) : Site :=
  (Site.root (parse source).tree).descendants.getD i default

/-- The reference of `expressionBody`, its type, its member, and the pattern in front of it.  All
facts are stated at once, so that the text is read only once. -/
theorem expressionBody_nodes :
    (parse expressionBody).isClean = true ∧
      (Pass.staticFieldAccess.run {} (parse expressionBody).tree).toOption.map Outcome.text =
        some "class A { public static int x; int M(object o) => o is int x ? A.x : 0; }" ∧
      nodeAt expressionBody 27 ∈ (Site.root (parse expressionBody).tree).descendants ∧
      Refers .explicitPrivateOnly (nodeAt expressionBody 27) (nodeAt expressionBody 1) "A" "x" ∧
      nodeAt expressionBody 11 ∈ (nodeAt expressionBody 1).members ∧
      Site.Captures (nodeAt expressionBody 11) (nodeAt expressionBody 24)
        (nodeAt expressionBody 27) "x" := by
  decide +kernel

/-- There the reference to the pattern's variable gets the type in front. -/
theorem expressionBody_captured :
    (parse expressionBody).isClean = true ∧
    (Pass.staticFieldAccess.run {} (parse expressionBody).tree).toOption.map Outcome.text =
      some "class A { public static int x; int M(object o) => o is int x ? A.x : 0; }" ∧
    ∃ n ∈ (Site.root (parse expressionBody).tree).descendants, ∃ type qualifier name,
      Refers .explicitPrivateOnly n type qualifier name ∧
      ∃ member ∈ type.members, ∃ d, Site.Captures member d n name := by
  obtain ⟨hclean, htext, hn, hrefers, hmember, hcaptures⟩ := expressionBody_nodes
  exact ⟨hclean, htext, _, hn, _, "A", "x", hrefers, _, hmember, _, hcaptures⟩

/-- And no block stands between the pattern and the member. -/
theorem captures_outside_blocks_expressionBody :
    Site.Captures (nodeAt expressionBody 11) (nodeAt expressionBody 24)
        (nodeAt expressionBody 27) "x" ∧
      ∀ b ∈ (nodeAt expressionBody 24).ancestors, b ∈ (nodeAt expressionBody 11).descendants →
        b.kind ≠ .block := by
  obtain ⟨-, -, hn, hrefers, hmember, hcaptures⟩ := expressionBody_nodes
  exact ⟨hcaptures, (captures_outside_blocks {} expressionBody).2 _ hn _ _ _ hrefers _ hmember _
    hcaptures⟩

end StaticFields

end LivePatch
