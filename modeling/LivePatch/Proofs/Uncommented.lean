import LivePatch.Proofs.Annotations
import LivePatch.Proofs.ReturnScopes
import LivePatch.Proofs.CastOperands

/-!
# What does not depend on comments of rules

The passes see comments that earlier passes have left.  What they look at is the same without them:
the kinds of nodes, the names that are declared, the types of casts.  So the type to which a value
should be cast is the same for two places that differ in comments of rules only, themselves and in
what is around them.  And two templates that differ in such comments only are read alike.
-/

namespace LivePatch

open Lexer (SamePieces Lexeme)
open Token (isRuleComment)

/-! ## Trees without comments of rules -/

namespace Tree

/-- The tree without the comments of rules. -/
def uncommented (t : Tree) : Tree := t.without isRuleComment

variable {p : Token → Bool}

mutual

theorem significantLeaves_without (hp : ∀ w, p w = true → w.isTrivia = true) (t : Tree) :
    (t.without p).significantLeaves = t.significantLeaves := by
  cases t with
  | token w => rw [without_token]
  | node k ts =>
    rw [without_node, significantLeaves, significantLeaves, leaves_node, leaves_node,
      filter_leavesAll_withoutAll hp ts]

theorem filter_leavesAll_withoutAll (hp : ∀ w, p w = true → w.isTrivia = true) (ts : List Tree) :
    (leavesAll (withoutAll p ts)).filter Token.isSignificant =
      (leavesAll ts).filter Token.isSignificant := by
  cases ts with
  | nil => rw [withoutAll_nil]
  | cons t ts =>
    have ih := filter_leavesAll_withoutAll hp ts
    cases t with
    | token w =>
      rw [withoutAll_token, leavesAll_cons, leaves_token, List.filter_append]
      split
      · rename_i hw
        simp [Token.isSignificant, hp w hw, ih]
      · rw [leavesAll_cons, leaves_token, List.filter_append, ih]
    | node k us =>
      have hself : ((node k us).without p).significantLeaves = (node k us).significantLeaves :=
        significantLeaves_without hp (node k us)
      rw [without_node] at hself
      rw [withoutAll_node, leavesAll_cons, leavesAll_cons, List.filter_append, List.filter_append, ih]
      exact congrArg (· ++ _) hself

end

theorem bareText_of_uncommented {s t : Tree} (h : s.uncommented = t.uncommented) :
    s.bareText = t.bareText := by
  have hsame := congrArg significantLeaves h
  rw [uncommented, uncommented, significantLeaves_without fun _ => Token.isTrivia_of_isRuleComment,
    significantLeaves_without fun _ => Token.isTrivia_of_isRuleComment] at hsame
  rw [bareText, bareText, hsame]

theorem kind_of_uncommented {s t : Tree} (h : s.uncommented = t.uncommented) : s.kind = t.kind := by
  rw [← kind_without (p := isRuleComment) s, ← kind_without (p := isRuleComment) t]
  exact congrArg kind h

end Tree

/-! ## What a node shows -/

theorem filterMap_eq_of_map_eq {α β γ : Type} {f : α → Option β} {g : α → γ} {l l' : List α}
    (h : l.map g = l'.map g) (hf : ∀ a b, g a = g b → f a = f b) : l.filterMap f = l'.filterMap f := by
  induction l generalizing l' with
  | nil =>
    rw [List.map_nil, eq_comm, List.map_eq_nil_iff] at h
    rw [h]
  | cons a l ih =>
    rw [List.map_cons, eq_comm] at h
    obtain ⟨b, l', rfl, hb, hl⟩ := List.map_eq_cons_iff.mp h
    rw [List.filterMap_cons, List.filterMap_cons, hf a b hb.symm, ih hl.symm]

namespace Site

variable {s s' : Site}

theorem cases_of_uncommented {o o' : Option Site}
    (h : o.map (·.tree.uncommented) = o'.map (·.tree.uncommented)) :
    (o = none ∧ o' = none) ∨ ∃ n n', o = some n ∧ o' = some n' ∧
      n.tree.uncommented = n'.tree.uncommented := by
  cases o with
  | none =>
    rw [Option.map_none, eq_comm, Option.map_eq_none_iff] at h
    exact .inl ⟨rfl, h⟩
  | some n =>
    rw [Option.map_some, eq_comm, Option.map_eq_some_iff] at h
    obtain ⟨n', hn', hsame⟩ := h
    exact .inr ⟨n, n', rfl, hn', hsame.symm⟩

variable (h : s.tree.uncommented = s'.tree.uncommented)

include h

theorem kind_of_uncommented : s.kind = s'.kind := Tree.kind_of_uncommented h

/-- The nodes among the parts. -/
theorem nodesWith_of_uncommented (q : Kind → Bool) :
    (s.nodesWith q).map (·.tree.uncommented) = (s'.nodesWith q).map (·.tree.uncommented) := by
  have hnodes (n : Site) : (n.nodesWith q).map (·.tree.uncommented) =
      n.tree.uncommented.children.filter fun t => t.isNode && q t.kind := by
    have hall := congrArg (List.map Tree.uncommented) (n.nodesWith_map_tree q)
    rw [List.map_map] at hall
    rw [Tree.uncommented, Tree.children_without, Tree.filter_withoutAll]
    exact hall
  rw [hnodes, hnodes, h]

theorem head?_nodesWith_of_uncommented (q : Kind → Bool) :
    (s.nodesWith q).head?.map (·.tree.uncommented) =
      (s'.nodesWith q).head?.map (·.tree.uncommented) := by
  rw [← List.head?_map, ← List.head?_map, nodesWith_of_uncommented h]

omit h in
theorem head?_nodesWith_root {t t' : Tree} (h : t.uncommented = t'.uncommented) (q : Kind → Bool) :
    ((root t).nodesWith q).head?.map (·.tree.uncommented) =
      ((root t').nodesWith q).head?.map (·.tree.uncommented) :=
  @head?_nodesWith_of_uncommented (root t) (root t') h q

theorem declaredName?_of_uncommented : s.declaredName? = s'.declaredName? := by
  have hidentifiers (n : Site) : n.identifiers =
      (n.tree.uncommented.children.filterMap Tree.token?).filter (·.kind == .identifier) := by
    rw [Tree.uncommented, ← n.tokens_filter, List.filter_filter, identifiers]
    refine List.filter_congr fun w _ => ?_
    cases hw : w.isRuleComment with
    | false => simp
    | true =>
      have hkind := beq_iff_eq.mp (Bool.and_eq_true_iff.mp hw).1
      simp [hkind]
  rw [declaredName?, declaredName?, hidentifiers, hidentifiers, h]

theorem typeParameterNames_of_uncommented : s.typeParameterNames = s'.typeParameterNames := by
  unfold typeParameterNames node? nodesOf
  rcases cases_of_uncommented (head?_nodesWith_of_uncommented h (· == .typeParameterList)) with
    ⟨hs, hs'⟩ | ⟨l, l', hs, hs', hl⟩
  · rw [hs, hs']
  · rw [hs, hs']
    exact filterMap_eq_of_map_eq (nodesWith_of_uncommented hl (· == .typeParameter))
      fun n n' hn => by rw [declaredName?_of_uncommented hn]

theorem qualifyingName?_of_uncommented : s.qualifyingName? = s'.qualifyingName? := by
  rw [qualifyingName?, qualifyingName?, declaredName?_of_uncommented h,
    typeParameterNames_of_uncommented h]

end Site

namespace ReturnValues

variable {s s' : Site}

theorem castType_of_uncommented (h : s.tree.uncommented = s'.tree.uncommented) :
    castType s = castType s' := by
  unfold castType Site.node? Site.nodesOf
  rcases Site.cases_of_uncommented (Site.head?_nodesWith_of_uncommented h (· == .type)) with
    ⟨hs, hs'⟩ | ⟨r, r', hs, hs', hr⟩
  · rw [hs, hs']
  · rw [hs, hs', Option.elim_some, Option.elim_some, Tree.bareText_of_uncommented hr]

theorem layer?_of_uncommented (h : s.tree.uncommented = s'.tree.uncommented) :
    layer? s = layer? s' := by
  have htype : returnText s = returnText s' := castType_of_uncommented h
  cases hk : s.kind.isTypeDeclaration with
  | true =>
    rw [layer?_of_type hk, layer?_of_type (Site.kind_of_uncommented h ▸ hk),
      Site.qualifyingName?_of_uncommented h]
  | false =>
    rw [layer?_of_not_type hk, layer?_of_not_type (Site.kind_of_uncommented h ▸ hk), htype,
      Site.kind_of_uncommented h]

theorem isCastThrough_of_uncommented (h : s.tree.uncommented = s'.tree.uncommented) (key : String) :
    isCastThrough s key = isCastThrough s' key := by
  have hinner : s.expression?.map (·.tree.uncommented) = s'.expression?.map (·.tree.uncommented) :=
    Site.head?_nodesWith_of_uncommented h Kind.isExpression
  rw [isCastThrough, isCastThrough, Site.kind_of_uncommented h]
  rcases Site.cases_of_uncommented hinner with ⟨hs, hs'⟩ | ⟨e, e', hs, hs', he⟩
  · rw [hs, hs']
    rfl
  · rw [hs, hs', Option.any_some, Option.any_some, castType_of_uncommented h,
      castType_of_uncommented he, Site.kind_of_uncommented he]

/-- The type to which a value should be cast, if any. -/
def castTarget? (s : Site) : Option String := do
  let parent ← s.parent?
  guard (parent.kind == .returnStatement && s.kind.isExpression)
  let (target, key) ← target? ((s :: s.ancestors).filterMap layer?)
  guard (!isCastThrough s key)
  return target

theorem cast?_eq (s : Site) (rebuilt : Tree) : cast? s rebuilt = (castTarget? s).map fun target =>
    ⟨.sameTypedReturn, castText target (operandText s.kind rebuilt)⟩ := by
  simp only [cast?, propose, castTarget?, bind, Option.map_bind, Function.comp_def]
  rfl

/-- Where a value should be cast, and to what. -/
theorem of_castTarget? {target : String} (h : castTarget? s = some target) :
    (∃ parent, s.parent? = some parent ∧ parent.kind = .returnStatement) ∧
      s.kind.isExpression = true ∧ ∃ type ∈ s :: s.ancestors,
        type.kind.isTypeDeclaration = true ∧ type.qualifyingName? = some target := by
  simp only [castTarget?, bind, Option.bind_eq_some_iff, Option.guard_eq_some', exists_const,
    Bool.and_eq_true, beq_iff_eq] at h
  obtain ⟨parent, hparent, ⟨hreturn, hexpr⟩, ⟨target, key⟩, htarget, -, htext⟩ := h
  obtain rfl := Option.some.inj htext
  exact ⟨⟨parent, hparent, hreturn⟩, hexpr, (exists_type_of_target? htarget).2⟩

/-- **What is decided about a value does not depend on comments.** -/
theorem castTarget?_of_uncommented
    (h : (s :: s.ancestors).map (·.tree.uncommented) =
      (s' :: s'.ancestors).map (·.tree.uncommented)) : castTarget? s = castTarget? s' := by
  obtain ⟨hself, hancestors⟩ := List.cons.inj h
  have hlayers : (s :: s.ancestors).filterMap layer? = (s' :: s'.ancestors).filterMap layer? :=
    filterMap_eq_of_map_eq h fun _ _ => layer?_of_uncommented
  have hparent : s.parent?.map (·.tree.uncommented) = s'.parent?.map (·.tree.uncommented) := by
    rw [Site.parent?, Site.parent?, ← List.head?_map, ← List.head?_map, hancestors]
  unfold castTarget?
  rw [hlayers, Site.kind_of_uncommented hself]
  simp only [isCastThrough_of_uncommented hself]
  rcases Site.cases_of_uncommented hparent with ⟨hs, hs'⟩ | ⟨b, b', hs, hs', hb⟩
  · rw [hs, hs']
  · simp only [hs, hs', bind, Option.bind_some, Site.kind_of_uncommented hb]

end ReturnValues

/-! ## Synthesis -/

/-- The two ways in which a template is read. -/
theorem synthesize_cases (template : String) :
    ((parseExpression template).diagnostics = [] ∧
      ∃ e, (Site.root (parseExpression template).tree).expression? = some e ∧
        synthesize template = .ok e.tree) ∨
    ((parseExpression template).diagnostics = [] →
        (Site.root (parseExpression template).tree).expression? = none) ∧
      ∃ fault, synthesize template = .error (.synthesis template fault) := by
  unfold synthesize
  generalize parseExpression template = q
  cases hq : q.diagnostics with
  | cons d ds =>
    refine .inr ⟨nofun, .rejected d.problem, ?_⟩
    simp only [hq]
  | nil =>
    cases he : (Site.root q.tree).expression? with
    | none =>
      refine .inr ⟨fun _ => rfl, .noExpression, ?_⟩
      simp only [hq, he]
    | some e =>
      refine .inl ⟨rfl, e, rfl, ?_⟩
      simp only [hq, he]

section

variable {template template' : String}
  (h : SamePieces (Lexer.pieces template) (Lexer.pieces template'))

include h

theorem filter_lex_of_samePieces :
    (lex template).filter (!isRuleComment ·) = (lex template').filter (!isRuleComment ·) := by
  have htokens := congrArg (List.map Lexeme.token) h
  rw [lex, lex, List.filter_append, List.filter_append, List.filter_map, List.filter_map]
  exact congrArg (· ++ _) htokens

theorem lexicalFaults_of_samePieces :
    lexicalFaults template = [] ↔ lexicalFaults template' = [] := by
  -- A comment is no fault.
  have hall (ls : List Lexeme) : (∀ l ∈ ls, ∃ k, l.outcome = .ok k) ↔
      ∀ l ∈ ls.filter (!·.token.isRuleComment), ∃ k, l.outcome = .ok k := by
    refine ⟨fun hls l hl => hls l (List.mem_filter.mp hl).1, fun hls l hl => ?_⟩
    by_cases hcomment : l.token.isRuleComment = true
    · cases hl : l.outcome with
      | ok k => exact ⟨k, rfl⟩
      | error fault =>
        rw [Lexeme.token, hl] at hcomment
        cases hcomment
    · exact hls l (List.mem_filter.mpr ⟨hl, by simpa using hcomment⟩)
  rw [lexicalFaults, lexicalFaults, Token.faultsFrom_eq_nil_iff, Token.faultsFrom_eq_nil_iff,
    hall (Lexer.pieces template), hall (Lexer.pieces template'), h]

/-- **Templates with the same pieces** are read alike: both make an expression or neither does, and
the two expressions differ in comments only. -/
theorem synthesize_of_samePieces :
    (∃ made made', synthesize template = .ok made ∧ synthesize template' = .ok made' ∧
      made.uncommented = made'.uncommented) ∨
    ∃ fault fault', synthesize template = .error (.synthesis template fault) ∧
      synthesize template' = .error (.synthesis template' fault') := by
  have hagree := agree_parseExpression (fun _ => Token.isTrivia_of_isRuleComment)
    (filter_lex_of_samePieces h)
  obtain ⟨found, found', hfound, hfound', hproblems⟩ := hagree.problems
  have hfaults : found = [] ↔ found' = [] := by
    have hnil := congrArg (· = []) hproblems
    simpa only [List.map_eq_nil_iff, eq_iff_iff] using hnil
  have hclean : (parseExpression template).diagnostics = [] ↔
      (parseExpression template').diagnostics = [] := by
    rw [hfound, hfound', List.append_eq_nil_iff, List.append_eq_nil_iff,
      lexicalFaults_of_samePieces h, hfaults]
  have hexpression :
      (Site.root (parseExpression template).tree).expression?.map (·.tree.uncommented) =
        (Site.root (parseExpression template').tree).expression?.map (·.tree.uncommented) :=
    Site.head?_nodesWith_root hagree.tree Kind.isExpression
  rcases synthesize_cases template with ⟨hq, e, he, hok⟩ | ⟨hnone, fault, herror⟩
  · rcases synthesize_cases template' with ⟨-, e', he', hok'⟩ | ⟨hnone, -⟩
    · rw [he, he'] at hexpression
      exact .inl ⟨_, _, hok, hok', Option.some.inj hexpression⟩
    · rw [he, hnone (hclean.mp hq)] at hexpression
      cases hexpression
  · rcases synthesize_cases template' with ⟨hq', e', he', -⟩ | ⟨-, fault', herror'⟩
    · rw [hnone (hclean.mpr hq'), he'] at hexpression
      cases hexpression
    · exact .inr ⟨fault, fault', herror, herror'⟩

end

end LivePatch
