import LivePatch.Proofs.Preservation
import LivePatch.Proofs.StaticReferences

/-!
# What the passes decide

For each pass, the decision that it comes to at a node, read off the node and what is around it.
The passes keep a stack of the types or layers around the current node; that it is this stack is
all there is to say about their state.

The passes over static fields and over `this` decide about words.  The pass over returned values
decides about whole expressions, and these do not nest: a return statement inside of a returned
value is one of a lambda, which hides the method that returns the value.
-/

namespace LivePatch

open Token (Edges textOf)

theorem Tree.Regular.allPieces {t : Tree} (h : t.Regular) {n : Site}
    (hn : (Site.root t).Around n) : n.AllPieces :=
  fun w hw => h.pieces w (hn.mem_leaves hw)

/-! ## Static fields -/

theorem StaticFields.rewords {t : Tree} (ht : t.Regular) (visibility : FieldVisibility) :
    (Decision.ofSite (reference? visibility)).Rewords t := by
  intro n rebuilt p hn hnode hp
  obtain ⟨type, qualifier, name, hr, rfl⟩ := reference?_eq_some.mp hp
  obtain ⟨w, hw, rfl⟩ := Option.map_eq_some_iff.mp hr.named
  obtain ⟨hmem, hkind⟩ := Site.boundName?_eq_some hw
  have htype := (hn.of_mem_ancestors (List.mem_of_find?_eq_some hr.nearest)).1
  have hname : Mode.Settled w.text.toList :=
    Mode.settled_name ((ht.allPieces hn).isNameText (Site.mem_leaves_of_mem_tokens hmem) hkind)
  have hqualifier := Site.settled_qualifyingName (ht.allPieces htype) hr.qualified
  refine ⟨by rw [hr.kind]; rfl, settled_memberText hqualifier hname, w, ?_, hname, ?_⟩
  · exact Site.isWord_name (hn.sound ht.sound) hnode hr.kind hw hr.plain
  · exact ⟨(qualifier ++ ".").toList, [], by simp [memberText]⟩

/-! ## The object itself -/

namespace SelfReference

/-- What should be put in place of a node, by its place. -/
def cast? (n : Site) : Option Proposal :=
  propose n ((n :: n.ancestors).filter (·.kind.isTypeDeclaration))

/-- The pass over `this` tracks its surroundings on every tree. -/
theorem tracks (t : Tree) : selfReferenceRules.Tracks t
    (fun around types => types = around.filter (·.kind.isTypeDeclaration)) (.ofSite cast?) where
  start := rfl
  enter := by
    rintro n _ - rfl
    show SelfReference.enter n _ = _
    by_cases hn : n.kind.isTypeDeclaration = true <;> simp [SelfReference.enter, hn]
  leave := by
    rintro n _ - rfl
    show SelfReference.leave n _ = _
    by_cases hn : n.kind.isTypeDeclaration = true <;> simp [SelfReference.leave, hn]
  propose := by
    rintro n _ - rfl _
    rfl

/-- A cast of `this` names a type around it. -/
theorem cast?_eq_some {n : Site} {p : Proposal} (h : cast? n = some p) :
    n.kind = .thisExpression ∧ ∃ type ∈ n.ancestors, ∃ target,
      type.qualifyingName? = some target ∧
        (p.template = castText target "this" ∨ p.template = parenthesizedCastText target "this") := by
  simp only [cast?, propose, bind, Option.bind_eq_some_iff, Option.guard_eq_some', exists_const,
    beq_iff_eq] at h
  obtain ⟨hkind, type, htype, rule, -, target, htarget, hp⟩ := h
  refine ⟨hkind, type, ?_, target, htarget, ?_⟩
  · have hmem := List.mem_of_mem_head? htype
    obtain ⟨hmem, hdecl⟩ := List.mem_filter.mp hmem
    rcases List.mem_cons.mp hmem with rfl | hmem
    · rw [hkind] at hdecl
      cases hdecl
    · exact hmem
  · split at hp
    · obtain rfl := Option.some.inj hp
      exact .inr rfl
    · obtain rfl := Option.some.inj hp
      exact .inl rfl

theorem rewords {t : Tree} (ht : t.Regular) : (Decision.ofSite cast?).Rewords t := by
  intro n rebuilt p hn hnode hp
  obtain ⟨hkind, type, hmem, target, htarget, htemplate⟩ := cast?_eq_some hp
  have htype := (hn.of_mem_ancestors hmem).1
  have hsettled := Site.settled_qualifyingName (ht.allPieces htype) htarget
  have hword := Tree.isWord_this (hn.sound ht.sound) hnode hkind
  refine ⟨by rw [hkind]; rfl, ?_, _, hword, settled_this, ?_⟩
  · rcases htemplate with h | h
    · rw [h]
      exact settled_castText hsettled settled_this
    · rw [h]
      exact settled_parenthesizedCastText hsettled settled_this
  · rcases htemplate with h | h
    · exact ⟨("(" ++ target ++ ")(object)").toList, [], by simp [h, castText]⟩
    · exact ⟨("((" ++ target ++ ")(object)").toList, [')'], by
        simp [h, parenthesizedCastText, castText]⟩

end SelfReference

/-! ## Returned values -/

namespace ReturnValues

/-- What should be put in place of a node, by its place and with the replacements below made. -/
def cast? (n : Site) (rebuilt : Tree) : Option Proposal :=
  propose n rebuilt ((n :: n.ancestors).filterMap layer?)

/-- The pass over returned values tracks its surroundings on every tree. -/
theorem tracks (t : Tree) : returnValueRules.Tracks t
    (fun around layers => layers = around.filterMap layer?) cast? where
  start := rfl
  enter := by
    rintro n _ - rfl
    show ReturnValues.enter n _ = _
    cases hn : layer? n <;> simp [ReturnValues.enter, hn]
  leave := by
    rintro n _ - rfl
    show ReturnValues.leave n _ = _
    cases hn : layer? n <;> simp [ReturnValues.leave, hn]
  propose := by
    rintro n _ - rfl _
    rfl

/-- Where a value should be cast: inside of a type and, with no layer in between, of a method. -/
theorem exists_type_of_target? {sites : List Site} {target key : String}
    (h : target? (sites.filterMap layer?) = some (target, key)) :
    (∃ returnType layers, sites.filterMap layer? = .method returnType :: layers) ∧
      ∃ type ∈ sites, type.kind.isTypeDeclaration = true ∧ type.qualifyingName? = some target := by
  generalize hlayers : sites.filterMap layer? = layers at h
  unfold target? at h
  split at h
  swap
  · cases h
  rename_i returnType rest
  refine ⟨⟨returnType, rest, rfl⟩, ?_⟩
  obtain ⟨hnear, -⟩ := Option.filter_eq_some_iff.mp h
  obtain ⟨layer, hmem, hlayer⟩ := List.exists_of_findSome?_eq_some hnear
  rw [← hlayers] at hmem
  obtain ⟨type, htype, hmade⟩ := List.mem_filterMap.mp hmem
  refine ⟨type, htype, ?_⟩
  -- Only a type makes a layer that names one.
  cases layer with
  | method returnType => cases hlayer
  | opaqueBody => cases hlayer
  | type name key' =>
    obtain ⟨rfl, rfl⟩ := Prod.mk.inj (Option.some.inj hlayer)
    unfold layer? at hmade
    split at hmade
    · rename_i hkind
      obtain ⟨q, hq, hname⟩ := Option.map_eq_some_iff.mp hmade
      cases hname
      exact ⟨hkind, hq⟩
    · split at hmade <;> cases hmade

/-- Where a value is cast: in a return statement, inside of a type and, with no layer in between,
of a method. -/
theorem cast?_eq_some {n : Site} {rebuilt : Tree} {p : Proposal} (h : cast? n rebuilt = some p) :
    (∃ parent, n.parent? = some parent ∧ parent.kind = .returnStatement) ∧
      n.kind.isExpression = true ∧
      (∃ returnType layers, (n :: n.ancestors).filterMap layer? = .method returnType :: layers) ∧
      ∃ type ∈ n :: n.ancestors, ∃ target, type.qualifyingName? = some target ∧
        p.template = castText target (operandText n.kind rebuilt) := by
  simp only [cast?, propose, bind, Option.bind_eq_some_iff, Option.guard_eq_some', exists_const,
    Bool.and_eq_true, beq_iff_eq] at h
  obtain ⟨parent, hparent, ⟨hreturn, hexpr⟩, ⟨target, key⟩, htarget, -, hp⟩ := h
  obtain rfl := Option.some.inj hp
  obtain ⟨hlayers, type, htype, -, hq⟩ := exists_type_of_target? htarget
  exact ⟨⟨parent, hparent, hreturn⟩, hexpr, hlayers, type, htype, target, hq, rfl⟩

/-! ### Nothing is cast inside of a returned value -/

/-- Neither a method nor a type. -/
theorem layer?_of_within {n : Site} (hn : n.tree.isNode = true) (h : n.tree.Within .plain) :
    layer? n = none ∨ layer? n = some .opaqueBody := by
  cases htree : n.tree with
  | token w =>
    rw [htree] at hn
    cases hn
  | node k ts =>
    rw [htree] at h
    have hk := (Tree.within_node.mp h).1
    have hkind : n.kind = k := by rw [Site.kind, htree]; rfl
    have htype : k.isTypeDeclaration = false := by
      have hall : ∀ k : Kind, Level.ofKind k ≤ .plain → k.isTypeDeclaration = false := by
        intro k hk
        cases k <;> first | rfl | exact absurd hk (by decide)
      exact hall k hk
    unfold layer?
    rw [hkind, htype]
    simp only [Bool.false_eq_true, if_false]
    split
    · exact absurd hk (by decide)
    iterate 8 exact .inr rfl
    exact .inl rfl

/-- Below a returned value, the level is still that of one, or the nearest layer is that of a
function inside of it. -/
theorem quiet_or_opaque {n b : Site} (hn : n.tree.Within .quiet) (h : n.Around b) :
    b.tree.Within .quiet ∨ (b.tree.Within .plain ∧
      ∃ rest, b.ancestors.filterMap layer? = .opaqueBody :: rest) := by
  induction h with
  | refl => exact .inl hn
  | @part b p hb hp ih =>
    have hbnode := Site.isNode_of_mem_parts hp
    have hmem := Site.tree_mem_of_mem_parts hp
    have hanc := Site.ancestors_of_mem_parts hp
    have hlevel : ∀ l, b.tree.Within l → p.tree.Within (Level.below b.kind l) := by
      intro l hl
      cases htree : b.tree with
      | token w =>
        rw [htree] at hbnode
        cases hbnode
      | node k ts =>
        rw [htree] at hl hmem
        rw [Site.kind, htree]
        exact (Tree.within_node.mp hl).2 p.tree hmem
    rcases ih with hquiet | ⟨hplain, rest, hrest⟩
    · have hp := hlevel _ hquiet
      by_cases hlambda : b.kind = .lambdaExpression
      · refine .inr ⟨by rwa [hlambda] at hp, b.ancestors.filterMap layer?, ?_⟩
        have hlayer : layer? b = some .opaqueBody := by
          simp [layer?, hlambda, Kind.isTypeDeclaration]
        rw [hanc, List.filterMap_cons_some hlayer]
      · exact .inl (by rwa [Level.below, if_neg hlambda] at hp)
    · refine .inr ⟨?_, ?_⟩
      · have hp := hlevel _ hplain
        unfold Level.below at hp
        split at hp
        · exact hp
        · exact hp
      · rw [hanc]
        rcases layer?_of_within hbnode hplain with hnone | hopaque
        · exact ⟨rest, by rw [List.filterMap_cons_none hnone, hrest]⟩
        · exact ⟨_, List.filterMap_cons_some hopaque⟩

/-- **Inside of a returned value nothing is cast.** -/
theorem silent_of_quiet {t : Tree} {n q : Site} (hn : (Site.root t).Around n)
    (hquiet : n.tree.Within .quiet) (hq : q ∈ n.parts) : Decision.Silent cast? q := by
  intro m hm hnode rebuilt
  by_contra hne
  obtain ⟨p, hp⟩ := Option.ne_none_iff_exists'.mp hne
  obtain ⟨⟨parent, hparent, hreturn⟩, -, ⟨returnType, layers, hlayers⟩, -⟩ := cast?_eq_some hp
  have hmplace := (hn.part hq).trans hm
  obtain ⟨-, hpart⟩ := hmplace.of_parent hparent
  have hanc := Site.ancestors_of_mem_parts hpart
  have haround : n.Around parent := by
    cases hm with
    | refl =>
      rw [Site.ancestors_of_mem_parts hq] at hanc
      obtain ⟨rfl, -⟩ := List.cons.inj hanc
      exact .refl
    | part hqb hb =>
      rw [Site.ancestors_of_mem_parts hb] at hanc
      obtain ⟨rfl, -⟩ := List.cons.inj hanc
      exact .of_part hq hqb
  have hparentNode := Site.isNode_of_mem_parts hpart
  rcases quiet_or_opaque hquiet haround with h | ⟨hplain, rest, hrest⟩
  · -- A return statement is not quiet.
    cases htree : parent.tree with
    | token w =>
      rw [htree] at hparentNode
      cases hparentNode
    | node k ts =>
      rw [htree] at h
      obtain rfl : k = .returnStatement := by rwa [Site.kind, htree] at hreturn
      exact absurd (Tree.within_node.mp h).1 (by decide)
  · -- So the nearest layer is not the method.
    have hmlevel : m.tree.Within .plain := by
      have hmem := Site.tree_mem_of_mem_parts hpart
      cases htree : parent.tree with
      | token w =>
        rw [htree] at hparentNode
        cases hparentNode
      | node k ts =>
        rw [htree] at hmem hplain
        obtain rfl : k = .returnStatement := by rwa [Site.kind, htree] at hreturn
        exact (Tree.within_node.mp hplain).2 m.tree hmem
    have hreturnLayer : layer? parent = none := by
      simp [layer?, hreturn, Kind.isTypeDeclaration]
    rw [hanc] at hlayers
    rcases layer?_of_within hnode hmlevel with hnone | hopaque
    · rw [List.filterMap_cons_none hnone, List.filterMap_cons_none hreturnLayer, hrest] at hlayers
      cases hlayers
    · rw [List.filterMap_cons_some hopaque] at hlayers
      cases hlayers

/-! ### Casting inserts -/

/-- An expression in a return statement is a value that can be returned. -/
theorem value_of_returned {t : Tree} (ht : t.Regular) {n parent : Site}
    (hn : (Site.root t).Around n) (hnode : n.tree.isNode = true) (hparent : n.parent? = some parent)
    (hreturn : parent.kind = .returnStatement) (hexpr : n.kind.isExpression = true) :
    n.tree.Within .quiet ∧ n.tree.isSolid = true ∧ n.tree.IsValue := by
  obtain ⟨hplace, hpart⟩ := hn.of_parent hparent
  have hmem := Site.tree_mem_of_mem_parts hpart
  have hsound : parent.tree.Sound := hplace.sound ht.sound
  have hreturns : parent.tree.ReturnsValues := hplace.returnsValues ht.returns
  cases htree : parent.tree with
  | token w => simp [htree, Tree.children] at hmem
  | node k ts =>
    rw [htree] at hmem hsound hreturns
    obtain rfl : k = .returnStatement := by rwa [Site.kind, htree] at hreturn
    obtain ⟨hwithin, hshown⟩ := (Tree.sound_node.mp hsound).1 n.tree hmem
    cases hreturns with
    | node hvalues _ =>
      exact ⟨hwithin, hshown hnode hexpr, hvalues rfl n.tree hmem hnode hexpr⟩

/-- A value that is cast stands in a return statement. -/
theorem value_of_cast? {t : Tree} (ht : t.Regular) {n : Site} {rebuilt : Tree} {p : Proposal}
    (hn : (Site.root t).Around n) (hnode : n.tree.isNode = true)
    (hp : cast? n rebuilt = some p) :
    n.tree.Within .quiet ∧ n.tree.isSolid = true ∧ n.tree.IsValue := by
  obtain ⟨⟨parent, hparent, hreturn⟩, hexpr, -⟩ := cast?_eq_some hp
  exact value_of_returned ht hn hnode hparent hreturn hexpr

theorem isTrivia_step_closing {m : Mode} (h : m.isTrivia = false) :
    (m.step ')').isTrivia = false := by
  have hfresh : ∀ b, Mode.fresh b ')' = .code := by decide
  cases m with
  | space _ | line | commentEnd => cases h
  | quoted quote escaped =>
    cases escaped with
    | true => rfl
    | false =>
      rw [Mode.step]
      split <;> rfl
  | comment star => cases star <;> rfl
  | interpolated isVerbatim place escaped =>
    cases escaped with
    | true => rfl
    | false =>
      rcases place with (_ | depth) | depth <;> rfl
  | brace isVerbatim => rfl
  | verbatim => rfl
  | _ => simp [Mode.step, hfresh, Mode.isTrivia]

/-- Behind a returned value, and behind the parenthesis that may close it, no trivia is open. -/
theorem isTrivia_operand {k : Kind} {e : Tree} (hsolid : e.isSolid = true) (he : e.IsValue) :
    (Mode.code.scan (operandText k e).toList).isTrivia = false := by
  have hcore : (Mode.code.scan e.coreText.toList).isTrivia = false := by
    obtain ⟨front, w, hlast, hw⟩ := (Tree.edges_of_isSolid hsolid).last
    have hfollows := he.follows
    have hmem : w ∈ e.coreLeaves := by rw [hlast]; simp
    have hne := (he.pieces w (Tree.mem_leaves_of_mem_coreLeaves hsolid hmem)).ne_empty
    rw [Tree.coreText, hlast] at *
    rw [hfollows.isTrivia_last hne, hw]
  unfold operandText
  split
  · have hopen : Mode.code.step '(' = .code := by decide
    simp only [String.toList_append, Mode.scan_append]
    show ((Mode.code.step '(').scan e.coreText.toList |>.step ')').isTrivia = false
    rw [hopen]
    exact isTrivia_step_closing hcore
  · exact hcore

theorem coreText_infix_operandText (k : Kind) (e : Tree) :
    e.coreText.toList <:+: (operandText k e).toList := by
  unfold operandText
  split
  · exact ⟨['('], [')'], by simp⟩
  · exact List.infix_refl _

/-- Casting returned values only inserts. -/
theorem inserts {t : Tree} (ht : t.Regular) : Decision.Inserts cast? t := by
  refine ⟨?_, ?_⟩
  · intro n hn rebuilt p hp q hq
    have hquiet := (value_of_cast? ht hn (Site.isNode_of_mem_parts hq) hp).1
    exact silent_of_quiet hn hquiet hq
  · intro n p made hn hnode hp hmade
    obtain ⟨-, hsolid, hvalue⟩ := value_of_cast? ht hn hnode hp
    obtain ⟨-, hexpr, -, type, htype, target, htarget, htemplate⟩ := cast?_eq_some hp
    have hplace : (Site.root t).Around type := by
      rcases List.mem_cons.mp htype with rfl | hmem
      · exact hn
      · exact (hn.of_mem_ancestors hmem).1
    have hfront := settled_castFront (Site.settled_qualifyingName (ht.allPieces hplace) htarget)
    have hchars : p.template.toList =
        ("(" ++ target ++ ")(object)").toList ++ (operandText n.kind n.tree).toList := by
      rw [htemplate, castText, String.toList_append]
    refine ⟨hexpr, hsolid, ?_, ?_, ?_⟩
    · obtain ⟨w, rest, hfirst, -⟩ := (Tree.edges_of_isSolid hsolid).first
      have hmem : w ∈ n.tree.coreLeaves := by rw [hfirst]; simp
      have hne := (hvalue.pieces w (Tree.mem_leaves_of_mem_coreLeaves hsolid hmem)).ne_empty
      rw [Tree.coreText, hfirst, Token.textOf_cons]
      intro hempty
      exact hne (String.append_eq_empty_iff.mp hempty).1
    · rw [hchars]
      exact (coreText_infix_operandText _ _).trans (List.suffix_append _ _).isInfix
    · refine (synthesized_of_ok hmade).spells ?_ ?_
      · have hparen : p.template.toList =
            '(' :: (target ++ ")(object)" ++ operandText n.kind n.tree).toList := by
          simp [htemplate, castText]
        rw [hparen]
        exact .inl (by decide)
      · rw [hchars, Mode.scan_append, hfront.scan _ rfl]
        exact isTrivia_operand hsolid hvalue

/-- A value that is cast can again be returned. -/
theorem keepsValues {t : Tree} (ht : t.Regular) {comments : Bool} :
    Decision.KeepsValues cast? comments t := by
  intro n t' es hn hnode hexpr hwithin hsolid hvalue hrev
  rcases Decision.keep_or_replace hnode (fun q hq => silent_of_quiet hn hwithin hq) hrev with
    rfl | ⟨p, made, hp, hmade, rfl⟩
  · exact hvalue.follows
  · have hspells := ((inserts ht).insertion hn hnode hp hmade).spells
    have hedges := Tree.edges_of_isSolid hsolid
    have hleaves := Tree.leaves_finish comments p.rule hedges
      (synthesized_of_ok hmade).isNode
    generalize n.tree.leadingTrivia = lead at hedges hleaves
    generalize n.tree.trailingTrivia = trail at hedges hleaves
    have hnew : Edges (finish comments p.rule n.tree made).leaves lead made.leaves
        (Tree.mark comments p.rule ++ trail) := by
      refine ⟨by rw [hleaves]; simp, hedges.lead, ?_, hspells.edges.first, hspells.edges.last⟩
      exact List.forall_mem_append.mpr ⟨Tree.isTrivia_mark, hedges.trail⟩
    rw [Tree.coreLeaves_of_edges hnew]
    exact hspells.follows.core hspells.edges fun w hw => (hspells.isPiece w hw).ne_empty

end ReturnValues

end LivePatch
