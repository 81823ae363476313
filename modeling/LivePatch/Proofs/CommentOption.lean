import LivePatch.Proofs.Annotations
import LivePatch.Proofs.Uncommented

/-!
# The option for comments

Comments are for the reader of a patched text.  The passes run one after the other, though, and the
pass over returned values reads the text of a value again, with the comments that the passes before
it have left in it.  Still they change nothing but themselves: with and without comments the same
rules are applied, and the trees that are left differ in comments of rules only.
-/

namespace LivePatch

open Lexer (SamePieces EndsWord piecesFrom)
open Token (Annotated Leafy Edges charsOf isRuleComment)
open Decision (fills)

/-! ## Substitutions that differ in comments -/

namespace Tree

theorem withoutAll_eq_filter {p : Token → Bool} (ts : List Tree) :
    withoutAll p ts = (ts.map (without p)).filter fun t => !t.token?.any p := by
  induction ts with
  | nil => simp
  | cons t ts ih =>
    cases t with
    | token w =>
      rw [withoutAll_token, List.map_cons, without_token, ih]
      cases hw : p w <;> simp [token?, hw]
    | node k us => simp [ih, token?]

theorem filter_mark (comments : Bool) (rule : PatchRule) :
    (mark comments rule).filter (!isRuleComment ·) = [] :=
  List.filter_eq_nil_iff.mpr fun w hw => by simp [isRuleComment_of_mem_mark hw]

/-- A replacement without comments of rules. -/
theorem uncommented_finish {t made : Tree} {lead core trail : List Token} (comments : Bool)
    (rule : PatchRule) (h : Edges t.leaves lead core trail) (hmade : made.isNode = true) :
    (finish comments rule t made).uncommented =
      .node made.uncommented.kind ((lead.filter (!isRuleComment ·)).map .token ++
        made.uncommented.children ++ (trail.filter (!isRuleComment ·)).map .token) := by
  cases made with
  | token w => cases hmade
  | node k parts =>
    rw [finish_node h, uncommented, uncommented, without_node, without_node]
    simp only [withoutAll_append, withoutAll_tokens, List.filter_append, filter_mark,
      List.nil_append]
    rfl

end Tree

namespace Substitution

variable {F F' : Substitution} {root : Tree} {n : Site}

theorem uncommented_treeAt
    (hsame : ∀ n, (Site.root root).Around n → n.tree.isNode = true →
      (F n).map Tree.uncommented = (F' n).map Tree.uncommented)
    (hn : (Site.root root).Around n) : (F.treeAt n).uncommented = (F'.treeAt n).uncommented := by
  obtain ⟨t, start, trail⟩ := n
  induction t using Tree.inductionOn generalizing start trail with
  | leaf w => rw [treeAt_token, treeAt_token]
  | part k ts ih =>
    have hself := hsame _ hn rfl
    cases hF : F ⟨.node k ts, start, trail⟩ with
    | some t =>
      rw [hF, Option.map_some, eq_comm, Option.map_eq_some_iff] at hself
      obtain ⟨t', hF', hself⟩ := hself
      rw [treeAt_of_some rfl hF, treeAt_of_some rfl hF', hself]
    | none =>
      rw [hF, Option.map_none, eq_comm, Option.map_eq_none_iff] at hself
      rw [treeAt_eq rfl hF, treeAt_eq rfl hself, Tree.uncommented, Tree.uncommented,
        Tree.without_node, Tree.without_node, Tree.withoutAll_eq_filter, Tree.withoutAll_eq_filter,
        List.map_map, List.map_map]
      refine congrArg (fun ts => Tree.node _ (List.filter _ ts)) (List.map_congr_left fun p hp => ?_)
      exact ih p.tree (Site.tree_mem_of_mem_parts hp) p.start p.trail (hn.part hp)

/-- Both substitutions put the same trees in place of words, the first one with comments behind
them. -/
structure Annotates (F F' : Substitution) (root : Tree) : Prop where
  rewords : F.Rewords root
  rewords' : F'.Rewords root
  same : ∀ n, (Site.root root).Around n → n.tree.isNode = true →
    (F n).map Tree.uncommented = (F' n).map Tree.uncommented
  tokens : ∃ R, Annotated.Grafted R ∧ ∀ n, (Site.root root).Around n →
    Annotated R n.leavesBefore n.tree.leaves (F.treeAt n).leaves (F'.treeAt n).leaves

theorem Rewords.isExpression_image (h : F.Rewords root) (hn : (Site.root root).Around n)
    (hnode : n.tree.isNode = true) : (F.image n).kind.isExpression = n.kind.isExpression := by
  cases hF : F n with
  | none => rw [Keeps.kind_eq ⟨hn, hnode, hF⟩]
  | some t =>
    have hall : ∀ k : Kind, k.isSwapped = true → k.isExpression = true := by
      intro k hk
      cases k <;> first | rfl | cases hk
    obtain ⟨hold, hnew⟩ := h.isSwapped_of_some hn hnode hF
    rw [hall _ hold, hall _ hnew]

namespace Annotates

variable (h : F.Annotates F' root)

include h

/-- A node and those around it show the same in both trees. -/
theorem map_uncommented (hn : (Site.root root).Around n) :
    (F.image n :: (F.image n).ancestors).map (·.tree.uncommented) =
      (F'.image n :: (F'.image n).ancestors).map (·.tree.uncommented) := by
  have hsame {m : Site} (hm : (Site.root root).Around m) :
      (F.image m).tree.uncommented = (F'.image m).tree.uncommented := by
    rw [image_tree, image_tree, uncommented_treeAt h.same hm]
  rw [image_ancestors, image_ancestors, List.map_cons, List.map_cons, List.map_map, List.map_map,
    hsame hn]
  exact congrArg _ (List.map_congr_left fun m hm => hsame (hn.of_mem_ancestors hm).1)

theorem castTarget?_eq (hn : (Site.root root).Around n) :
    ReturnValues.castTarget? (F.image n) = ReturnValues.castTarget? (F'.image n) :=
  ReturnValues.castTarget?_of_uncommented (h.map_uncommented hn)

theorem kind_eq (hn : (Site.root root).Around n) : (F.image n).kind = (F'.image n).kind :=
  Site.kind_of_uncommented (List.cons.inj (h.map_uncommented hn)).1

end Annotates

end Substitution

/-! ## Returned values -/

/-- The tokens of a node are cut one after the other, angle brackets apart, if the text ends behind
them. -/
theorem Site.Around.exists_leafy {source : String} (hlexical : lexicalFaults source = [])
    {root : Tree} (hdivides : Token.Divides (lex source) root.leaves) {n : Site}
    (hn : (Site.root root).Around n) (hsolid : n.tree.isSolid = true)
    (hpieces : ∀ w ∈ n.tree.leaves, w.IsPiece) :
    ∃ lineStart after, Leafy lineStart (n.tree.leaves ++ after) [] := by
  obtain ⟨vs, hvs, hdivides⟩ := Token.Divides.concat (t := Token.endOfText) nofun hdivides
  have hleafy := (Token.lexes_lexed hlexical).leafy hdivides
  obtain ⟨front, back, hleaves⟩ := hn.exists_leaves
  obtain ⟨w, hw, -⟩ := Tree.isSolid_iff.mp hsolid
  -- The end of the text stands behind the node.
  obtain ⟨after, rfl⟩ : ∃ after, back = after ++ [Token.endOfText] := by
    have hlast := congrArg List.getLast? (hvs.symm.trans hleaves)
    rw [List.getLast?_concat] at hlast
    rcases back.eq_nil_or_concat with rfl | ⟨after, u, rfl⟩
    · rw [List.append_nil, List.getLast?_append_of_ne_nil _ (List.ne_nil_of_mem hw)] at hlast
      exact absurd rfl (hpieces _ (List.mem_of_getLast? hlast.symm)).ne_eof
    · rw [List.concat_eq_append, ← List.append_assoc, List.getLast?_concat] at hlast
      exact ⟨after, by rw [List.concat_eq_append, ← Option.some.inj hlast]⟩
  have hvs' : vs = front ++ (n.tree.leaves ++ after) := by
    have hall := hvs.symm.trans hleaves
    rw [← List.append_assoc] at hall
    rw [List.append_cancel_right hall, List.append_assoc]
  rw [hvs', Token.leafy_append] at hleafy
  exact ⟨_, after, hleafy.2⟩

namespace ReturnValues

/-- Casts of operands that are cut alike are cut alike. -/
theorem samePieces_castText {t : Token} {us : List Token} (hnames : Nameable t us) (k : Kind)
    {e e' : Tree} {lead lead' core core' trail trail' : List Token}
    (he : Edges e.leaves lead core trail) (he' : Edges e'.leaves lead' core' trail')
    (hsame : ∀ tail, EndsWord tail → SamePieces (piecesFrom false 0 (charsOf core ++ tail))
      (piecesFrom false 0 (charsOf core' ++ tail))) :
    SamePieces (Lexer.pieces (castText (Token.textOf (Token.qualifier t us)) (operandText k e)))
      (Lexer.pieces (castText (Token.textOf (Token.qualifier t us)) (operandText k e'))) := by
  have hcasts (operand : String) :
      Lexer.pieces (castText (Token.textOf (Token.qualifier t us)) operand) =
        (Token.casts (Token.qualifier t us)).map (fun w => ⟨.ok w.kind, w.text⟩) ++
          piecesFrom false 0 operand.toList := by
    rw [Lexer.pieces, Token.charsOf_castText,
      Token.piecesFrom_append (Token.lexes_casts hnames.cut hnames.parameters),
      Token.lineStartOf_casts]
  rw [hcasts, hcasts]
  refine SamePieces.append rfl ?_
  rw [operandText, operandText, Tree.coreText, Tree.coreText, Tree.coreLeaves_of_edges he,
    Tree.coreLeaves_of_edges he']
  split
  · have hopen (ws : List Token) : piecesFrom false 0 ("(" ++ Token.textOf ws ++ ")").toList =
        [⟨.ok Token.openParen.kind, Token.openParen.text⟩] ++
          piecesFrom false 0 (charsOf ws ++ [')']) := by
      have hcut : Token.Lexes false [Token.openParen] (charsOf ws ++ [')']) :=
        Token.lexes_singleton.mpr Token.cut_openParen
      have hchars : ("(" ++ Token.textOf ws ++ ")").toList =
          charsOf [Token.openParen] ++ (charsOf ws ++ [')']) := by
        simp [charsOf, Token.openParen]
      rw [hchars, Token.piecesFrom_append hcut]
      rfl
    rw [hopen, hopen]
    exact SamePieces.append rfl (hsame [')'] rfl)
  · have hplain := hsame [] rfl
    rwa [List.append_nil, List.append_nil] at hplain

end ReturnValues

namespace Decision

variable {f : Site → Option Proposal} {s s' : Site} {p p' : Proposal}

/-- The two proposals apply the same rule, with templates that are read alike, to nodes with the
same edges, comments apart. -/
structure Matches (s s' : Site) (p p' : Proposal) : Prop where
  rule : p.rule = p'.rule
  pieces : SamePieces (Lexer.pieces p.template) (Lexer.pieces p'.template)
  edges : ∃ lead core core' trail trail', Edges s.tree.leaves lead core trail ∧
    Edges s'.tree.leaves lead core' trail' ∧
    trail.filter (!isRuleComment ·) = trail'.filter (!isRuleComment ·)

/-- Nothing is decided at either place, or the two proposals match. -/
def Agree (f : Site → Option Proposal) (s s' : Site) : Prop :=
  (f s = none ∧ f s' = none) ∨ ∃ p p', f s = some p ∧ f s' = some p' ∧ Matches s s' p p'

theorem Agree.symm (h : Agree f s s') : Agree f s' s := by
  rcases h with ⟨hnone, hnone'⟩ | ⟨p, p', hp, hp', hmatches⟩
  · exact .inl ⟨hnone', hnone⟩
  · obtain ⟨lead, core, core', trail, trail', hedges, hedges', htrail⟩ := hmatches.edges
    exact .inr ⟨p', p, hp', hp, hmatches.rule.symm, hmatches.pieces.symm, lead, core', core, trail',
      trail, hedges', hedges, htrail.symm⟩

/-- If the template at the one place can be read, then so can that at the other. -/
theorem Agree.exists_made (h : Agree f s s')
    (hmade : ∀ p, f s = some p → ∃ made, synthesize p.template = .ok made)
    (hp' : f s' = some p') : ∃ made, synthesize p'.template = .ok made := by
  rcases h with ⟨-, hnone⟩ | ⟨p, q, hp, hq, hmatches⟩
  · rw [hnone] at hp'
    cases hp'
  · obtain rfl := Option.some.inj (hq.symm.trans hp')
    obtain ⟨made, hok⟩ := hmade p hp
    rcases synthesize_of_samePieces hmatches.pieces with ⟨-, made', -, hok', -⟩ | ⟨_, _, herror, -⟩
    · exact ⟨made', hok'⟩
    · rw [hok] at herror
      cases herror

/-- What is put there, and by which rules. -/
theorem Agree.fills_eq (h : Agree f s s') (comments comments' : Bool) :
    (fills comments f s).map Tree.uncommented = (fills comments' f s').map Tree.uncommented ∧
      (edit? f s).map (·.rule) = (edit? f s').map (·.rule) := by
  rcases h with ⟨hnone, hnone'⟩ | ⟨p, p', hp, hp', hmatches⟩
  · rw [fills_of_none hnone, fills_of_none hnone', edit?, edit?, hnone, hnone']
    exact ⟨rfl, rfl⟩
  rcases synthesize_of_samePieces hmatches.pieces with
    ⟨made, made', hmade, hmade', hsame⟩ | ⟨fault, fault', herror, herror'⟩
  · obtain ⟨lead, core, core', trail, trail', hedges, hedges', htrail⟩ := hmatches.edges
    rw [fills_of_ok hp hmade, fills_of_ok hp' hmade', edit?, edit?, hp, hp']
    simp only [hmade, hmade', Option.map_some, Edit.record, hmatches.rule, and_true]
    rw [Tree.uncommented_finish comments _ hedges (synthesized_of_ok hmade).isNode,
      Tree.uncommented_finish comments' _ hedges' (synthesized_of_ok hmade').isNode, hsame, htrail]
  · rw [fills, fills, edit?, edit?, hp, hp']
    simp only [herror, herror', Option.map_none, and_self]

end Decision

namespace Substitution

open Decision (Agree edit?)
open ReturnValues (value? castTarget?)

variable {F F' : Substitution} {root : Tree} {n : Site}

/-- A type to which a value is cast is named by words of the text. -/
theorem Rewords.exists_nameable (h : F.Rewords root) (hroot : root.Readable)
    (hn : (Site.root root).Around n) (hnode : n.tree.isNode = true) {target : String}
    (htarget : castTarget? (F.image n) = some target) :
    ∃ t us, Nameable t us ∧ Token.textOf (Token.qualifier t us) = target := by
  obtain ⟨-, hexpr, type', hmem, hkind, hq⟩ := ReturnValues.of_castTarget? htarget
  rw [image_ancestors, ← List.map_cons] at hmem
  obtain ⟨type, htype, rfl⟩ := List.mem_map.mp hmem
  have hkept : F.Keeps root type := by
    rcases List.mem_cons.mp htype with rfl | htype
    · have hall : ∀ k : Kind, k.isTypeDeclaration = true → k.isExpression = false := by
        intro k hk
        cases k <;> first | rfl | cases hk
      rw [hall _ hkind] at hexpr
      cases hexpr
    · exact h.keeps_of_mem_ancestors hn hnode htype
  rw [hkept.qualifyingName?_eq h] at hq
  obtain ⟨t, us, hnames, htext, -⟩ := Site.exists_nameable (hroot.allNamesCut hkept.around) hq
  exact ⟨t, us, hnames, htext⟩

/-- **The pass over returned values decides the same with and without comments.** -/
theorem Annotates.agree_value? (h : F.Annotates F' root) (hroot : root.Readable) {source : String}
    (hlexical : lexicalFaults source = []) (hdivides : Token.Divides (lex source) root.leaves)
    (hn : (Site.root root).Around n) (hnode : n.tree.isNode = true) :
    Agree value? (F.image n) (F'.image n) := by
  have hvalue (s : Site) : value? s = _ := ReturnValues.cast?_eq s s.tree
  have htargets := h.castTarget?_eq hn
  cases htarget : castTarget? (F.image n) with
  | none => exact .inl ⟨by rw [hvalue, htarget]; rfl, by rw [hvalue, ← htargets, htarget]; rfl⟩
  | some target =>
    rw [htarget] at htargets
    -- The value stands in a return statement of the text.
    obtain ⟨⟨parent', hparent', hreturn⟩, hexpr, -⟩ := ReturnValues.of_castTarget? htarget
    rw [image_parent?] at hparent'
    obtain ⟨parent, hparent, rfl⟩ := Option.map_eq_some_iff.mp hparent'
    have hkept := h.rewords.keeps_of_mem_ancestors hn hnode (List.mem_of_mem_head? hparent)
    rw [hkept.kind_eq] at hreturn
    rw [h.rewords.isExpression_image hn hnode] at hexpr
    obtain ⟨-, hsolid, hreturned⟩ :=
      ReturnValues.value_of_returned hroot.toRegular hn hnode hparent hreturn hexpr
    obtain ⟨lead, core, trail, hedges⟩ := Token.exists_edges (Tree.isSolid_iff.mp hsolid)
    obtain ⟨R, hR, hall⟩ := h.tokens
    obtain ⟨comments, rule, core₁, core₂, hedges₁, hedges₂, hcores⟩ :=
      (hall n hn).exists_edges hR hedges
    rw [← image_tree] at hedges₁ hedges₂
    -- So its tokens are cut as they are in the text, but for the grafts.
    obtain ⟨lineStart, after, hleafy⟩ := hn.exists_leafy hlexical hdivides hsolid hreturned.pieces
    rw [hedges.eq, List.append_assoc, List.append_assoc, Token.leafy_append] at hleafy
    obtain ⟨w, rest, hcore, hw⟩ := hedges.first
    have hbehind : Leafy false ([] ++ (core ++ (trail ++ after))) [] := by
      rw [hcore] at hleafy ⊢
      exact hleafy.2.of_lineStart hw
    obtain ⟨t, us, hnames, rfl⟩ := h.rewords.exists_nameable hroot hn hnode htarget
    have hp := hvalue (F.image n)
    have hp' := hvalue (F'.image n)
    rw [htarget, Option.map_some] at hp
    rw [← htargets, Option.map_some] at hp'
    refine .inr ⟨_, _, hp, hp', rfl, ?_, lead, core₁, core₂, _, trail, hedges₁, hedges₂, ?_⟩
    · rw [h.kind_eq hn]
      exact ReturnValues.samePieces_castText hnames _ hedges₁ hedges₂ fun tail htail =>
        hcores.samePieces hR hbehind htail
    · rw [List.filter_append, Tree.filter_mark, List.nil_append]

/-- Below a graft no value is cast. -/
theorem Rewords.value?_inside (h : F.Rewords root) {t : Tree} (hn : (Site.root root).Around n)
    (hnode : n.tree.isNode = true) (hF : F n = some t) {q m : Site} (hq : q ∈ (F.image n).parts)
    (hm : q.Around m) : value? m = none := by
  by_contra hne
  obtain ⟨p, hp⟩ := Option.ne_none_iff_exists'.mp hne
  obtain ⟨⟨b, hb, hreturn⟩, -⟩ := ReturnValues.cast?_eq_some hp
  -- The return statement around the value would belong to the graft.
  obtain ⟨c, hc, hpart⟩ : ∃ c, (F.image n).Around c ∧ m ∈ c.parts := by
    cases hm with
    | refl => exact ⟨_, .refl, hq⟩
    | part hqc hmc => exact ⟨_, .of_part hq hqc, hmc⟩
  obtain rfl : c = b := by
    rw [Site.parent?, Site.ancestors_of_mem_parts hpart] at hb
    exact Option.some.inj hb
  have hmem := hc.mem_kinds (Site.isNode_of_mem_parts hpart)
  rw [image_tree, treeAt_of_some hnode hF, hreturn] at hmem
  have hinserted : Kind.isInserted .returnStatement = true := h.inside hn hnode hF _ hmem
  cases hinserted

/-- All values that are cast after the substitution have templates that can be read. -/
def AllRead (F : Substitution) (root : Tree) : Prop :=
  ∀ n, (Site.root root).Around n → n.tree.isNode = true → ∀ p, value? (F.image n) = some p →
    ∃ made, synthesize p.template = .ok made

/-- **The pass over returned values after a substitution.**  It succeeds if all templates can be
read, and fails with one that cannot be read otherwise. -/
theorem Rewords.run_value? (h : F.Rewords root) (hregular : (F.run root).Regular)
    (comments : Bool) :
    (F.AllRead root → ∃ o, (Decision.ofSite value?).run comments (F.run root) = .ok o ∧
      o.tree = (F.andThen (fills comments value?)).run root ∧
      o.edits.map (·.rule) = (Site.root root).descendants.filterMap
        fun n => (edit? value? (F.image n)).map (·.rule)) ∧
    (¬F.AllRead root → ∃ template fault, (Decision.ofSite value?).run comments (F.run root) =
      .error (.synthesis template fault)) := by
  have hapart := ReturnValues.apart_value? hregular
  constructor
  · intro hread
    have hmade : ∀ m, (Site.root (F.run root)).Around m → m.tree.isNode = true → ∀ p,
        value? m = some p → ∃ made, synthesize p.template = .ok made := by
      intro m' hm' hnode' p hp
      rcases h.image_or_inside hm' hnode' with ⟨m, hm, hnode, rfl⟩ | ⟨n, t, hn, hnode, hF, hnm⟩
      · exact hread m hm hnode p hp
      · rcases hnm.eq_or_exists_part with rfl | ⟨q, hq, hqm⟩
        · exact hread n hn hnode p hp
        · rw [h.value?_inside hn hnode hF hq hqm] at hp
          cases hp
    refine ⟨_, Decision.run_ofSite comments hapart hmade, ?_, ?_⟩
    · exact (treeAt_andThen (n := Site.root root) h (fills comments value?) .refl).symm
    · have hrules := h.filterMap_descendants_image (n := Site.root root)
        (g := fun n => (edit? value? n).map (·.rule)) (fun n t hn hnode hF q hq m hm => ?_) .refl
      · rw [← hrules, List.map_filterMap]
        rfl
      · have hnone := h.value?_inside hn hnode hF hq (Site.mem_descendants.mp hm).1
        rw [edit?, hnone]
        rfl
  · intro hread
    rw [Decision.run]
    cases hrev : (Decision.ofSite value?).revise comments [] 0 (F.run root) with
    | error e =>
      obtain ⟨n, -, p, -, hfail⟩ := Decision.exists_failure hrev
      rcases synthesize_cases p.template with ⟨-, e', -, hok⟩ | ⟨-, fault, herror⟩
      · rw [hfail] at hok
        cases hok
      · obtain rfl := Except.error.inj (hfail.symm.trans herror)
        exact ⟨p.template, fault, rfl⟩
    | ok revised =>
      -- Then all templates would have been read.
      obtain ⟨tree, edits⟩ := revised
      refine absurd (fun n hn hnode p hp => ?_) hread
      have hnode' := (h.isNode_image hn).trans hnode
      exact Decision.exists_made hrev _
        (Site.mem_descendants.mpr ⟨h.around_image hn hnode, hnode'⟩) p hp

end Substitution

/-! ## Runs that differ in comments -/

/-- The two runs differ in comments only: both succeed, with trees that are the same without the
comments of rules and by the same rules in the same order, or both fail because a template cannot
be read. -/
def SameButComments (run run' : Except PatchError Outcome) : Prop :=
  (∃ o o', run = .ok o ∧ run' = .ok o' ∧ o.tree.uncommented = o'.tree.uncommented ∧
    o.edits.map (·.rule) = o'.edits.map (·.rule)) ∨
  ∃ template fault template' fault', run = .error (.synthesis template fault) ∧
    run' = .error (.synthesis template' fault')

namespace Substitution

open ReturnValues (value?)

variable {F F' : Substitution} {root : Tree} {n : Site}

/-- Also with casts of the returned values, the two trees are the same, comments apart. -/
theorem Annotates.andThen_same (h : F.Annotates F' root)
    (hagree : ∀ n, (Site.root root).Around n → n.tree.isNode = true →
      Decision.Agree value? (F.image n) (F'.image n))
    (comments comments' : Bool) (hn : (Site.root root).Around n) (hnode : n.tree.isNode = true) :
    (F.andThen (fills comments value?) n).map Tree.uncommented =
      (F'.andThen (fills comments' value?) n).map Tree.uncommented := by
  have hsame := h.same n hn hnode
  have hfills := ((hagree n hn hnode).fills_eq comments comments').1
  cases hF : F n with
  | none =>
    rw [hF, Option.map_none, eq_comm, Option.map_eq_none_iff] at hsame
    rw [andThen, andThen, hF, hsame]
    exact hfills
  | some t =>
    rw [hF, Option.map_some, eq_comm, Option.map_eq_some_iff] at hsame
    obtain ⟨t', hF', -⟩ := hsame
    rw [andThen, andThen, hF, hF']
    refine congrArg some ?_
    cases hG : fills comments value? (F.image n) with
    | some u =>
      rw [hG, Option.map_some, eq_comm, Option.map_eq_some_iff] at hfills
      obtain ⟨u', hG', hu⟩ := hfills
      rw [treeAt_of_some ((h.rewords.isNode_image hn).trans hnode) hG,
        treeAt_of_some ((h.rewords'.isNode_image hn).trans hnode) hG', hu]
    | none =>
      -- The graft stays as it is.
      rw [hG, Option.map_none, eq_comm, Option.map_eq_none_iff] at hfills
      have hsilent {E : Substitution} {u : Tree} {c : Bool} (hE : E.Rewords root)
          (hu : E n = some u) (hself : fills c value? (E.image n) = none) :
          (fills c value?).Silent (E.image n) := by
        intro m hm _
        rcases hm.eq_or_exists_part with rfl | ⟨q, hq, hqm⟩
        · exact hself
        · exact Decision.fills_of_none (hE.value?_inside hn hnode hu hq hqm)
      rw [treeAt_of_silent (hsilent h.rewords hF hG),
        treeAt_of_silent (hsilent h.rewords' hF' hfills), image_tree, image_tree,
        uncommented_treeAt h.same hn]

/-- **Comments in front of the pass over returned values** change nothing but comments behind it. -/
theorem Annotates.run_value? (h : F.Annotates F' root)
    (hagree : ∀ n, (Site.root root).Around n → n.tree.isNode = true →
      Decision.Agree value? (F.image n) (F'.image n))
    (hregular : (F.run root).Regular) (hregular' : (F'.run root).Regular)
    (comments comments' : Bool) :
    SameButComments ((Decision.ofSite value?).run comments (F.run root))
      ((Decision.ofSite value?).run comments' (F'.run root)) := by
  obtain ⟨hok, hfail⟩ := h.rewords.run_value? hregular comments
  obtain ⟨hok', hfail'⟩ := h.rewords'.run_value? hregular' comments'
  have hread : F.AllRead root ↔ F'.AllRead root := by
    constructor
    · exact fun hall n hn hnode p hp => (hagree n hn hnode).exists_made (hall n hn hnode) hp
    · exact fun hall n hn hnode p hp => (hagree n hn hnode).symm.exists_made (hall n hn hnode) hp
  by_cases hall : F.AllRead root
  · obtain ⟨o, hrun, htree, hrules⟩ := hok hall
    obtain ⟨o', hrun', htree', hrules'⟩ := hok' (hread.mp hall)
    refine .inl ⟨o, o', hrun, hrun', ?_, ?_⟩
    · rw [htree, htree']
      exact uncommented_treeAt (n := Site.root root)
        (fun n hn hnode => h.andThen_same hagree comments comments' hn hnode) .refl
    · rw [hrules, hrules']
      refine List.filterMap_congr fun n hn => ?_
      obtain ⟨hplace, hnode⟩ := Site.mem_descendants.mp hn
      exact ((hagree n hplace hnode).fills_eq comments comments').2
  · obtain ⟨template, fault, hrun⟩ := hfail hall
    obtain ⟨template', fault', hrun'⟩ := hfail' (mt hread.mpr hall)
    exact .inr ⟨template, fault, template', fault', hrun, hrun'⟩

end Substitution

/-! ## Patching with and without comments -/

/-- The passes over words, with and without comments. -/
theorem annotates_wordDecision {source : String} (hclean : (parse source).isClean = true)
    (visibility : FieldVisibility) :
    (fills true (wordDecision visibility)).Annotates (fills false (wordDecision visibility))
      (parse source).tree := by
  have hrecasts := recasts_wordDecision (readable_parse hclean) visibility
  have hgrafted := grafted_wordDecision hclean visibility
  generalize (parse source).tree = root at hrecasts hgrafted
  refine ⟨hrecasts.rewords true, hrecasts.rewords false, fun n hn hnode => ?_,
    _, hgrafted, fun n hn => hrecasts.annotated hn⟩
  cases hp : wordDecision visibility n with
  | none => rw [Decision.fills_of_none hp, Decision.fills_of_none hp]
  | some p =>
    obtain ⟨made, hmade⟩ := hrecasts.exists_made hn hnode hp
    obtain ⟨w, hw⟩ := hrecasts.isWord hn hnode hp
    obtain ⟨lead, trail, hedges⟩ := hw.edges
    have hmadeNode := (synthesized_of_ok hmade).isNode
    rw [Decision.fills_of_ok hp hmade, Decision.fills_of_ok hp hmade, Option.map_some,
      Option.map_some, Tree.uncommented_finish true _ hedges hmadeNode,
      Tree.uncommented_finish false _ hedges hmadeNode]

namespace Pass

/-- The last pass, after the others, with and without comments. -/
theorem returnType_sameButComments (options : PatchOptions) {source : String}
    (hclean : (parse source).isClean = true) :
    SameButComments
      (returnType.run { options with comments := true }
        ((fills true (wordDecision options.visibility)).run (parse source).tree))
      (returnType.run { options with comments := false }
        ((fills false (wordDecision options.visibility)).run (parse source).tree)) := by
  have hroot := readable_parse hclean
  have hannotates := annotates_wordDecision hclean options.visibility
  have hdivides := divides_parse source
  generalize (parse source).tree = root at hroot hannotates hdivides
  have hregular := (run_fields_casts { options with comments := true } hroot).1
  have hregular' := (run_fields_casts { options with comments := false } hroot).1
  cases hreturns : options.castReturns with
  | false =>
    refine .inl ⟨_, _, rfl, rfl, ?_, rfl⟩
    exact Substitution.uncommented_treeAt (n := Site.root root) hannotates.same .refl
  | true =>
    rw [ReturnValues.run_returnType hregular rfl, ReturnValues.run_returnType hregular' rfl]
    refine hannotates.run_value? (fun n hn hnode => ?_) hregular hregular' true false
    exact hannotates.agree_value? hroot (Parsed.lexicalFaults_eq_nil hclean) hdivides hn hnode

end Pass

/-- **The option for comments changes nothing but comments.**  On a text without problems, patching
with comments and patching without them both succeed or both fail because a template cannot be read.
When they succeed, the trees that they leave are the same without the comments of rules, and the
same rules were applied in the same order. -/
theorem patch_sameButComments (options : PatchOptions) (source : String)
    (hclean : (parse source).isClean = true) :
    SameButComments (patch { options with comments := true } source)
      (patch { options with comments := false } source) := by
  have hlast := Pass.returnType_sameButComments options hclean
  have hroot := readable_parse hclean
  rw [patch, patch, if_pos hclean, if_pos hclean]
  generalize (parse source).tree = root at hroot hlast
  obtain ⟨-, es, hrun, hchanges⟩ := Pass.run_fields_casts { options with comments := true } hroot
  obtain ⟨-, es', hrun', hchanges'⟩ :=
    Pass.run_fields_casts { options with comments := false } hroot
  have hrules : es.map (·.rule) = es'.map (·.rule) := by
    have hfirst := congrArg (List.map Prod.fst) (hchanges.trans hchanges'.symm)
    rwa [List.map_map, List.map_map] at hfirst
  rw [show Pass.all = [.staticFieldAccess, .selfReference] ++ [.returnType] from rfl,
    Pass.runAll_append_eq hrun, Pass.runAll_append_eq hrun']
  rcases hlast with ⟨o, o', hok, hok', htree, hedits⟩ | ⟨template, fault, template', fault', hfail,
    hfail'⟩
  · refine .inl ⟨⟨o.tree, es ++ o.edits⟩, ⟨o'.tree, es' ++ o'.edits⟩, ?_, ?_, htree, ?_⟩
    · rw [Pass.runAll_singleton hok]
      rfl
    · rw [Pass.runAll_singleton hok']
      rfl
    · rw [List.map_append, List.map_append, hrules, hedits]
  · refine .inr ⟨template, fault, template', fault', ?_, ?_⟩
    · rw [Pass.runAll, hfail]
      rfl
    · rw [Pass.runAll, hfail']
      rfl

/-- Two returned values with something to replace for each of the passes. -/
def commentedValues : String :=
  "class A \x7b public static A x; A M(A a) \x7b if (a.P) return x; return a.N(x, this); \x7d \x7d"

/-- There the pass over returned values finds comments at the end of a value and inside of one. -/
theorem patch_sameButComments_commentedValues : (parse commentedValues).isClean = true ∧
    SameButComments (patch { castReturns := true, comments := true } commentedValues)
      (patch { castReturns := true, comments := false } commentedValues) ∧
    ∃ o, patch { castReturns := true, comments := true } commentedValues = .ok o ∧
      o.text = "class A \x7b public static A x; A M(A a) \x7b if (a.P) return (A)(object)A.x" ++
        "/*ReturnTypeRewriter:ReturnValue*//*StaticFieldAccessRewriter:BareIdentifier*/; " ++
        "return (A)(object)a.N(A.x/*StaticFieldAccessRewriter:BareIdentifier*/, " ++
        "(A)(object)this/*SelfReferenceRewriter:Argument*/)/*ReturnTypeRewriter:ReturnValue*/; " ++
        "\x7d \x7d" := by
  obtain ⟨hclean, htext⟩ : (parse commentedValues).isClean = true ∧
      (patch { castReturns := true, comments := true } commentedValues).toOption.map Outcome.text =
        some ("class A \x7b public static A x; A M(A a) \x7b if (a.P) return (A)(object)A.x" ++
          "/*ReturnTypeRewriter:ReturnValue*//*StaticFieldAccessRewriter:BareIdentifier*/; " ++
          "return (A)(object)a.N(A.x/*StaticFieldAccessRewriter:BareIdentifier*/, " ++
          "(A)(object)this/*SelfReferenceRewriter:Argument*/)/*ReturnTypeRewriter:ReturnValue*/; " ++
          "\x7d \x7d") := by
    decide +kernel
  exact ⟨hclean, patch_sameButComments { castReturns := true } commentedValues hclean,
    Outcome.exists_of_text htext⟩

end LivePatch
