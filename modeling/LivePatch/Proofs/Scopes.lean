import LivePatch.Proofs.Captures
import Mathlib.Data.List.TakeWhile

/-!
# What hides a field

The pass over static fields asks the nodes between a name and its type, one by one, whether they
bind the name.  Here its answer is taken apart (`isShadowed_iff`) and set against the scopes of the
language: names that a node binds as a whole, `boundNames`; variables and functions that the
statements of a block or switch section declare, `declaredNames`; and variables that expressions
declare, which end with the innermost node that bounds them.

The answer is right for what a node binds and for the statements that stand directly in a block or
section around the name (`locals_missed`).  It misses a declaration under a label and one in
another section of the same switch statement.  On the other hand it takes a variable of an
expression to reach as far as the statement list around it (`references_missed`), although a loop,
an arm or a block that is itself the statement ends its scope.
-/

namespace LivePatch

namespace Site

/-! ## The scopes of the language -/

/-- The nodes between a node and the nearest type around it, nearest first. -/
def enclosing (n : Site) : List Site :=
  n.ancestors.takeWhile (fun s => !s.kind.isTypeDeclaration)

/-- The names of the parameters of a function, which stand in a list or, if a lambda has just one,
alone. -/
def parameterNames (f : Site) : List String :=
  let lists := f.nodesWith fun k => k == .parameterList || k == .bracketedParameterList
  (lists.flatMap (·.nodesOf .parameter) ++ f.nodesOf .parameter).filterMap
    (·.declaredName?.map (·.text))

/-- The names that a node binds as a whole: the parameters of a function, the exception of a
handler, the variables of a loop header, the resources of a using statement. -/
def boundNames (s : Site) : List String :=
  match s.kind with
  | .methodDeclaration | .constructorDeclaration | .operatorDeclaration | .indexerDeclaration
  | .localFunctionStatement | .lambdaExpression => s.parameterNames
  | .accessorDeclaration => if s.hasImplicitValue then ["value"] else []
  | .catchClause => ((s.node? .catchDeclaration).bind boundName?).toList.map (·.text)
  | .forStatement => (s.node? .forHeader).toList.flatMap ownVariableNames
  | .forEachStatement => s.loopNames
  | .usingStatement => s.ownVariableNames
  | _ => []

/-- The names that a statement declares for the statements behind it. -/
def declaredNames (statement : Site) : List String :=
  match statement.kind with
  | .localVariableDeclarationStatement => statement.ownVariableNames
  | .localFunctionStatement => statement.declaredName?.toList.map (·.text)
  | _ => []

/-- A block or switch section, which holds statements. -/
def isStatementList (s : Site) : Bool := s.kind == .block || s.kind == .switchSection

/-- `statement` is one of the statements of a list, directly or under labels. -/
inductive Lists (list : Site) : Site → Prop
  | direct {statement : Site} : statement ∈ list.nodes → Lists list statement
  | labelled {label statement : Site} : Lists list label → label.kind = .labeledStatement →
      statement ∈ label.nodes → Lists list statement

/-- The variables that the statements of `list` declare are known at `n`.  The sections of a switch
statement share one space of declarations. -/
inductive Reaches (n : Site) : Site → Prop
  | block {list : Site} : list ∈ n.enclosing → list.kind = .block → Reaches n list
  | switch {statement list : Site} : statement ∈ n.enclosing →
      statement.kind = .switchStatement → list ∈ statement.nodesOf .switchSection → Reaches n list

end Site

/-- Does a node of this kind end the scope of the variables that expressions in it declare? -/
def Kind.boundsVariables : Kind → Bool
  | .block | .lambdaExpression | .localFunctionStatement | .switchExpressionArm | .switchSection
  | .whileStatement | .forStatement | .forEachStatement | .lockStatement | .usingStatement => true
  | _ => false

namespace Site

/-- The node with which the scope of the variables of a declaration expression ends. -/
def variableScope? (d : Site) : Option Site := d.ancestors.find? (·.kind.boundsVariables)

/-- The name is that of a parameter or local variable at `n`. -/
inductive InScope (n : Site) (name : String) : Prop
  /-- A node around `n` binds the name.  What a loop over a collection binds is known in its body
  only. -/
  | bound {s : Site} : s ∈ n.enclosing → name ∈ s.boundNames →
      (s.kind = .forEachStatement → ∃ body, s.lastNode? = some body ∧ body.Around n) →
      InScope n name
  /-- A statement in front declares it. -/
  | declared {list statement : Site} : list ∈ n.enclosing → list.isStatementList = true →
      statement ∈ list.nodes → statement.start ≤ n.start → name ∈ statement.declaredNames →
      InScope n name
  /-- An expression declares it. -/
  | designated {list d scope : Site} : list ∈ n.enclosing → d ∈ list.descendants →
      d.kind = .declarationExpression → name ∈ d.designatedNames →
      d.variableScope? = some scope → scope.Around n → InScope n name

/-- A variable of the declaration expression `d` in a statement in front of `n`, whose scope ends
before `n`.  What ends it is no block and no lambda, unless it is the statement itself. -/
structure Overreaches (d n : Site) (name : String) (list statement scope : Site) : Prop where
  encloses : list ∈ n.enclosing
  isList : list.isStatementList = true
  listed : statement ∈ list.nodes
  before : statement.start ≤ n.start
  kind : d.kind = .declarationExpression
  declares : name ∈ d.designatedNames
  within : statement.Around d
  ends : d.variableScope? = some scope
  inside : statement.Around scope
  outside : ¬scope.Around n
  unseen : scope = statement ∨ (scope.kind ≠ .block ∧ scope.kind ≠ .lambdaExpression)

/-- A test for names in scope, which takes the collection of a loop for a part of its body. -/
def mayBeInScope (n : Site) (name : String) : Bool :=
  n.enclosing.any fun s => s.boundNames.contains name ||
    (s.isStatementList && s.nodes.any fun statement =>
      decide (statement.start ≤ n.start) && statement.declaredNames.contains name) ||
    s.descendants.any fun d => d.kind == .declarationExpression &&
      d.designatedNames.contains name &&
        d.variableScope?.any fun scope => decide (scope ∈ n :: n.ancestors)

theorem InScope.mayBeInScope {n : Site} {name : String} (h : n.InScope name) :
    n.mayBeInScope name = true := by
  rw [LivePatch.Site.mayBeInScope, List.any_eq_true]
  cases h with
  | bound hs hname _ => exact ⟨_, hs, by simp [hname]⟩
  | declared hlist hkind hs hbefore hname =>
    refine ⟨_, hlist, ?_⟩
    simp only [Bool.or_eq_true, Bool.and_eq_true, List.any_eq_true]
    exact .inl (.inr ⟨hkind, _, hs, by simp [hbefore, hname]⟩)
  | @designated list d scope hlist hd hkind hname hscope haround =>
    have hmem : scope ∈ n :: n.ancestors := by
      rcases haround.mem_ancestors with rfl | hmem
      · exact List.mem_cons_self
      · exact List.mem_cons_of_mem _ hmem
    refine ⟨_, hlist, ?_⟩
    simp only [Bool.or_eq_true, List.any_eq_true]
    exact .inr ⟨d, hd, by simp [hkind, hname, hscope, List.mem_cons.mp hmem]⟩

/-! ## The answer of the pass, taken apart -/

theorem hasParameter_iff {f : Site} {name : String} :
    f.hasParameter name = true ↔ name ∈ f.parameterNames := by
  simp only [hasParameter, parameterNames, List.any_eq_true, List.mem_flatMap,
    List.mem_filterMap, List.mem_append, Option.any_eq_true, beq_iff_eq, Option.map_eq_some_iff]
  refine exists_congr fun p => and_congr ?_ Iff.rfl
  constructor
  · rintro ⟨child, hchild, hp⟩
    split at hp
    · rename_i hkind
      exact .inl ⟨child, List.mem_filter.mpr ⟨hchild, by simp [hkind]⟩, hp⟩
    · rename_i hkind
      exact .inl ⟨child, List.mem_filter.mpr ⟨hchild, by simp [hkind]⟩, hp⟩
    · rename_i hkind
      rw [List.mem_singleton.mp hp]
      exact .inr (List.mem_filter.mpr ⟨hchild, by simp [hkind]⟩)
    · cases hp
  · rintro (⟨list, hlist, hp⟩ | hp)
    · obtain ⟨hchild, hkind⟩ := List.mem_filter.mp hlist
      refine ⟨list, hchild, ?_⟩
      rcases Bool.or_eq_true_iff.mp hkind with hkind | hkind
      · rw [beq_iff_eq.mp hkind]
        exact hp
      · rw [beq_iff_eq.mp hkind]
        exact hp
    · obtain ⟨hchild, hkind⟩ := List.mem_filter.mp hp
      refine ⟨p, hchild, ?_⟩
      rw [beq_iff_eq.mp hkind]
      exact List.mem_singleton_self p

theorem binds_iff {s n : Site} {name : String} :
    s.binds n name = true ↔
      name ∈ s.boundNames ∨ (s.isStatementList = true ∧ s.declaresBefore n name = true) := by
  unfold binds boundNames isStatementList
  split
  case h_7 hkind => simp [hkind, and_comm]
  case h_8 hkind => 
    simp only [hkind, Option.any_eq_true, List.mem_map, Option.mem_toList, Option.bind_eq_some_iff,
      beq_iff_eq]
    grind
  case h_9 hkind => simp [hkind, Option.any_eq_true]
  case h_14 hblock hsection =>
    simp only [List.not_mem_nil, false_or, Bool.false_eq_true, false_iff, Bool.or_eq_true,
      beq_iff_eq]
    rintro ⟨hkind | hkind, -⟩
    · exact hblock hkind
    · exact hsection hkind
  all_goals
    rename_i hkind
    simp [hkind, hasParameter_iff]

theorem declaresFor_iff {statement n : Site} {name : String} :
    statement.declaresFor n name = true ↔ name ∈ statement.declaredNames ∨
      ∃ d ∈ statement.descendants, d.kind = .declarationExpression ∧ name ∈ d.designatedNames ∧
        d.isVisibleFrom statement n = true := by
  have hnames : ((statement.kind == .localVariableDeclarationStatement &&
      statement.ownVariableNames.contains name) ||
      (statement.kind == .localFunctionStatement &&
        statement.declaredName?.any (·.text == name))) = true ↔
        name ∈ statement.declaredNames := by
    unfold declaredNames
    split
    case h_3 hvariable hfunction =>
      simp only [List.not_mem_nil, iff_false, Bool.or_eq_true, Bool.and_eq_true, beq_iff_eq]
      rintro (⟨hkind, -⟩ | ⟨hkind, -⟩)
      · exact hvariable hkind
      · exact hfunction hkind
    all_goals
      rename_i hkind
      simp [hkind, Option.any_eq_true]
  unfold declaresFor
  rw [Bool.or_eq_true, hnames]
  simp [List.any_eq_true, and_assoc]

theorem declaresBefore_iff {list n : Site} {name : String} :
    list.declaresBefore n name = true ↔ ∃ statement ∈ list.nodes, statement.start ≤ n.start ∧
      statement.declaresFor n name = true := by
  rw [declaresBefore, List.any_eq_true]
  constructor
  · rintro ⟨statement, hmem, hdeclares⟩
    refine ⟨statement, (List.takeWhile_sublist _).mem hmem, ?_, hdeclares⟩
    simpa using List.mem_takeWhile_imp hmem
  · rintro ⟨statement, hmem, hstart, hdeclares⟩
    exact ⟨statement, mem_takeWhile_nodes hmem hstart, hdeclares⟩

/-- **When a field is hidden.** -/
theorem isShadowed_iff {n : Site} {name : String} :
    n.isShadowed name = true ↔ (∃ s ∈ n.enclosing, name ∈ s.boundNames) ∨
      ∃ list ∈ n.enclosing, list.isStatementList = true ∧ ∃ statement ∈ list.nodes,
        statement.start ≤ n.start ∧ (name ∈ statement.declaredNames ∨
          ∃ d ∈ statement.descendants, d.kind = .declarationExpression ∧
            name ∈ d.designatedNames ∧ d.isVisibleFrom statement n = true) := by
  rw [isShadowed, List.any_eq_true]
  simp only [binds_iff, declaresBefore_iff, declaresFor_iff, and_or_left, exists_or]
  rfl

/-! ## Where the scope of a variable ends -/

theorem around_of_mem_enclosing {t : Tree} {n s : Site} (hn : (root t).Around n)
    (hs : s ∈ n.enclosing) : (root t).Around s ∧ s.Around n :=
  hn.of_mem_ancestors ((List.takeWhile_sublist _).mem hs)

theorem boundsVariables_of_isStatementList {s : Site} (h : s.isStatementList = true) :
    s.kind.boundsVariables = true := by
  rcases Bool.or_eq_true_iff.mp h with h | h
  · rw [beq_iff_eq.mp h]
    rfl
  · rw [beq_iff_eq.mp h]
    rfl

/-- The scope of a variable ends with a node in its statement, or with the list around it. -/
theorem exists_variableScope {list statement d : Site} (hlist : list.isStatementList = true)
    (hs : statement ∈ list.nodes) (hd : statement.Around d)
    (hkind : d.kind = .declarationExpression) : ∃ scope, d.variableScope? = some scope ∧
      (scope = list ∨ (statement.Around scope ∧ scope.Around d)) := by
  obtain ⟨between, hchain, hall⟩ := hd.chain
  rw [ancestors_of_mem_parts (mem_parts_of_mem_nodes hs)] at hchain
  -- The declaration expression itself ends no scope.
  have hown : d.kind.boundsVariables = false := by rw [hkind]; rfl
  have hfind : d.variableScope? = (d :: d.ancestors).find? (·.kind.boundsVariables) := by
    rw [List.find?_cons_of_neg (by simp [hown])]
    rfl
  rw [hchain, List.append_cons, List.find?_append,
    List.find?_cons_of_pos (by exact boundsVariables_of_isStatementList hlist)] at hfind
  cases hinner : (between ++ [statement]).find? (·.kind.boundsVariables) with
  | none => exact ⟨list, by rw [hfind, hinner]; rfl, .inl rfl⟩
  | some scope =>
    refine ⟨scope, by rw [hfind, hinner]; rfl, .inr ?_⟩
    rcases List.mem_append.mp (List.mem_of_find?_eq_some hinner) with hmem | hmem
    · exact hall scope hmem
    · rw [List.mem_singleton.mp hmem]
      exact ⟨.refl, hd⟩

/-- What stands strictly between a statement and a declaration in it is asked by the pass. -/
theorem mem_takeWhile_below {t : Tree} {statement b d : Site} (hs : (root t).Around statement)
    (hb : statement.Around b) (hbd : b.Around d) (hne : b ≠ statement) :
    b ∈ (d :: d.ancestors).takeWhile (!·.isSame statement) := by
  have hdiffers : ∀ c, b.Around c → (!c.isSame statement) = true := by
    intro c hc
    rw [Bool.not_eq_true', Bool.eq_false_iff]
    intro hsame
    have hroot := hs.trans hb
    obtain rfl := ((hroot.trans hc).isSame_iff hs).mp hsame
    exact hne (hc.antisymm hb)
  obtain ⟨between, hchain, hall⟩ := hbd.chain
  rw [hchain, List.takeWhile_append_of_pos fun c hc => hdiffers c (hall c hc).1,
    List.takeWhile_cons_of_pos (by exact hdiffers b .refl)]
  simp

end Site

namespace StaticFields

open Site (boundNames declaredNames)

/-! ## Locals -/

/-- **What hides a field is missed under a label, and in another section.**  The pass does what
the conditions of `Refers` say.  Where it puts the type in front of a name, no node between the
name and the type binds the name as a whole.  And if a statement in front of it, in a list that
reaches it, declares the name all the same, then the statement stands under a label, or the list
is a section of a switch statement that the name itself does not stand in. -/
theorem locals_missed (options : PatchOptions) (source : String) :
    Pass.staticFieldAccess.run options (parse source).tree =
      (Decision.ofSite (reference? options.visibility)).run options.comments (parse source).tree ∧
    ∀ n ∈ (Site.root (parse source).tree).descendants, ∀ type qualifier name,
      Refers options.visibility n type qualifier name →
        (∀ s ∈ n.enclosing, name ∉ s.boundNames) ∧
        ∀ list statement, n.Reaches list → list.Lists statement → statement.start ≤ n.start →
          name ∈ statement.declaredNames → statement ∉ list.nodes ∨ list ∉ n.enclosing := by
  generalize (parse source).tree = t
  refine ⟨(tracks options t).run_eq options.comments, ?_⟩
  intro n _ type qualifier name hr
  have hshown : ¬n.isShadowed name = true := by simp [hr.shown]
  rw [Site.isShadowed_iff, not_or] at hshown
  obtain ⟨hbound, hlisted⟩ := hshown
  refine ⟨fun s hs hname => hbound ⟨s, hs, hname⟩, ?_⟩
  intro list statement hreaches _ hbefore hname
  by_contra hcon
  obtain ⟨hdirect, hencloses⟩ : statement ∈ list.nodes ∧ list ∈ n.enclosing := by
    simpa only [not_or, not_not] using hcon
  have hlist : list.isStatementList = true := by
    cases hreaches with
    | block _ hkind => simp [Site.isStatementList, hkind]
    | switch _ _ hsection =>
      have hkind := (List.mem_filter.mp hsection).2
      simp [Site.isStatementList, beq_iff_eq.mp hkind]
  exact hlisted ⟨list, hencloses, hlist, statement, hdirect, hbefore, .inl hname⟩

/-- A local variable under a label. -/
def labelledLocal : String :=
  "class A { public static int x; void M() { L: int x = 1; x++; } }"

/-- A local variable of one section of a switch statement, and a reference in another. -/
def sharedSections : String :=
  "class A \x7b public static int x; void M(int k) \x7b " ++
    "switch (k) \x7b case 0: int x = 1; break; default: x++; break; \x7d \x7d \x7d"

/-- The reference, with the label and the declaration under it. -/
theorem labelledLocal_nodes :
    ((parse labelledLocal).isClean = true ∧
      (Pass.staticFieldAccess.run {} (parse labelledLocal).tree).toOption.map Outcome.text =
        some "class A { public static int x; void M() { L: int x = 1; A.x++; } }") ∧
      nodeAt labelledLocal 28 ∈ (Site.root (parse labelledLocal).tree).descendants ∧
      Refers .explicitPrivateOnly (nodeAt labelledLocal 28) (nodeAt labelledLocal 1) "A" "x" ∧
      nodeAt labelledLocal 16 ∈ (nodeAt labelledLocal 28).enclosing ∧
      (nodeAt labelledLocal 16).kind = .block ∧
      nodeAt labelledLocal 17 ∈ (nodeAt labelledLocal 16).nodes ∧
      (nodeAt labelledLocal 17).kind = .labeledStatement ∧
      nodeAt labelledLocal 18 ∈ (nodeAt labelledLocal 17).nodes ∧
      (nodeAt labelledLocal 18).start ≤ (nodeAt labelledLocal 28).start ∧
      "x" ∈ (nodeAt labelledLocal 18).declaredNames := by
  decide +kernel

/-- The reference, with the other section and the declaration in it. -/
theorem sharedSections_nodes :
    ((parse sharedSections).isClean = true ∧
      (Pass.staticFieldAccess.run {} (parse sharedSections).tree).toOption.map Outcome.text =
        some ("class A \x7b public static int x; void M(int k) \x7b " ++
          "switch (k) \x7b case 0: int x = 1; break; default: A.x++; break; \x7d \x7d \x7d")) ∧
      nodeAt sharedSections 39 ∈ (Site.root (parse sharedSections).tree).descendants ∧
      Refers .explicitPrivateOnly (nodeAt sharedSections 39) (nodeAt sharedSections 1) "A" "x" ∧
      nodeAt sharedSections 21 ∈ (nodeAt sharedSections 39).enclosing ∧
      (nodeAt sharedSections 21).kind = .switchStatement ∧
      nodeAt sharedSections 23 ∈ (nodeAt sharedSections 21).nodesOf .switchSection ∧
      nodeAt sharedSections 26 ∈ (nodeAt sharedSections 23).nodes ∧
      (nodeAt sharedSections 26).start ≤ (nodeAt sharedSections 39).start ∧
      "x" ∈ (nodeAt sharedSections 26).declaredNames := by
  decide +kernel

/-- What becomes of the two texts. -/
def capturedLocals : List (String × String) :=
  [(labelledLocal, "class A { public static int x; void M() { L: int x = 1; A.x++; } }"),
    (sharedSections, "class A \x7b public static int x; void M(int k) \x7b " ++
      "switch (k) \x7b case 0: int x = 1; break; default: A.x++; break; \x7d \x7d \x7d")]

/-- The type is put in front of a reference to a local variable under a label, and of one to a
local variable of another section. -/
theorem locals_captured : capturedLocals.Forall fun e =>
    ((parse e.1).isClean = true ∧
      (Pass.staticFieldAccess.run {} (parse e.1).tree).toOption.map Outcome.text = some e.2) ∧
    ∃ n ∈ (Site.root (parse e.1).tree).descendants, ∃ type qualifier name,
      Refers .explicitPrivateOnly n type qualifier name ∧
      ∃ list statement, n.Reaches list ∧ list.Lists statement ∧ statement.start ≤ n.start ∧
        name ∈ statement.declaredNames := by
  refine ⟨?_, ?_⟩
  · obtain ⟨htext, hn, hr, hlist, hblock, hlabel, hkind, hst, hbefore, hname⟩ :=
      labelledLocal_nodes
    exact ⟨htext, _, hn, _, _, _, hr, _, _, .block hlist hblock,
      .labelled (.direct hlabel) hkind hst, hbefore, hname⟩
  · obtain ⟨htext, hn, hr, hswitch, hkind, hlist, hst, hbefore, hname⟩ := sharedSections_nodes
    exact ⟨htext, _, hn, _, _, _, hr, _, _, .switch hswitch hkind hlist, .direct hst, hbefore,
      hname⟩

/-- In the one case the declaration is no statement of the block itself. -/
theorem locals_missed_labelledLocal :
    nodeAt labelledLocal 18 ∉ (nodeAt labelledLocal 16).nodes ∨
      nodeAt labelledLocal 16 ∉ (nodeAt labelledLocal 28).enclosing := by
  obtain ⟨-, hn, hr, hlist, hblock, hlabel, hkind, hst, hbefore, hname⟩ := labelledLocal_nodes
  exact ((locals_missed {} labelledLocal).2 _ hn _ _ _ hr).2 _ _ (.block hlist hblock)
    (.labelled (.direct hlabel) hkind hst) hbefore hname

/-! ## Missed references -/

/-- The name expression `n` is a bare name, without type arguments, of a field that its nearest
type declares; whether something hides the field is left open. -/
@[mk_iff]
structure Mentions (visibility : FieldVisibility) (n type : Site) (qualifier name : String) :
    Prop where
  kind : n.kind = .nameExpression
  named : n.boundName?.map (·.text) = some name
  plain : n.node? .typeArgumentList = none
  bare : n.nameContext = .bare
  nearest : n.ancestors.find? (·.kind.isTypeDeclaration) = some type
  qualified : type.qualifyingName? = some qualifier
  declared : ∃ field ∈ type.membersOf .fieldDeclaration, field.isPatchedField visibility = true ∧
    name ∈ field.ownVariableNames

instance (visibility : FieldVisibility) (n type : Site) (qualifier name : String) :
    Decidable (Mentions visibility n type qualifier name) :=
  decidable_of_iff _ (mentions_iff visibility n type qualifier name).symm

theorem Mentions.refers {visibility : FieldVisibility} {n type : Site} {qualifier name : String}
    (h : Mentions visibility n type qualifier name) (hshown : n.isShadowed name = false) :
    Refers visibility n type qualifier name :=
  ⟨h.kind, h.named, h.plain, h.bare, h.nearest, h.qualified, h.declared, hshown⟩

/-- A name without type arguments stands around nothing but itself. -/
theorem eq_of_around_word {n b : Site} {w : Token} (hword : n.tree.IsWord w) (h : n.Around b)
    (hb : b.tree.isNode = true) : n = b := by
  rcases h.eq_or_exists_part with rfl | ⟨p, hp, hpb⟩
  · rfl
  · have hpnode := hpb.isNode hb
    rw [hword.isNode_eq_false _ (Site.tree_mem_of_mem_parts hp)] at hpnode
    cases hpnode

section Missed

variable {t : Tree} {visibility : FieldVisibility} {n type : Site} {qualifier name : String}

/-- A block or lambda between a statement and a declaration in it that the pass takes to be seen
from the name stands around the name. -/
theorem Mentions.around_of_isVisibleFrom (h : Mentions visibility n type qualifier name)
    (ht : t.Regular) (hn : n ∈ (Site.root t).descendants) {statement b d : Site}
    (hs : (Site.root t).Around statement) (hd : d ∈ statement.descendants)
    (hvisible : d.isVisibleFrom statement n = true) (hb : statement.Around b) (hbd : b.Around d)
    (hne : b ≠ statement) (hkind : b.kind = .block ∨ b.kind = .lambdaExpression) :
    b.Around n := by
  obtain ⟨hn, hnode⟩ := Site.mem_descendants.mp hn
  have hasked := List.all_eq_true.mp hvisible b (Site.mem_takeWhile_below hs hb hbd hne)
  have hcontains : b.span.contains n.span = true := by
    rcases hkind with hk | hk <;> simpa [hk] using hasked
  obtain ⟨w, hw, -⟩ := Option.map_eq_some_iff.mp h.named
  obtain ⟨hmem, hwkind⟩ := Site.boundName?_eq_some hw
  have hwidth := Site.span_lt ht.pieces hn (Site.mem_leaves_of_mem_tokens hmem) hwkind
  rcases around_of_contains (hs.trans hb) hn hwidth hcontains with haround | haround
  · exact haround
  · exfalso
    have hword := Site.isWord_name (hn.sound ht.sound) hnode h.kind hw h.plain
    obtain rfl := eq_of_around_word hword haround (hbd.isNode (Site.mem_descendants.mp hd).2)
    rw [h.kind] at hkind
    rcases hkind with hk | hk <;> cases hk

/-- A variable that hides a field is in scope, or the pass takes its scope to be too large. -/
theorem Mentions.inScope_or_overreaches (h : Mentions visibility n type qualifier name)
    (ht : t.Regular) (hn : n ∈ (Site.root t).descendants) {list statement d : Site}
    (hlist : list ∈ n.enclosing) (hkind : list.isStatementList = true)
    (hs : statement ∈ list.nodes) (hbefore : statement.start ≤ n.start)
    (hd : d ∈ statement.descendants) (hdkind : d.kind = .declarationExpression)
    (hname : name ∈ d.designatedNames) (hvisible : d.isVisibleFrom statement n = true) :
    n.InScope name ∨ ∃ scope, Site.Overreaches d n name list statement scope := by
  obtain ⟨hroot, hlistn⟩ := Site.around_of_mem_enclosing (Site.mem_descendants.mp hn).1 hlist
  have hpart := Site.mem_parts_of_mem_nodes hs
  obtain ⟨hsd, hdnode⟩ := Site.mem_descendants.mp hd
  obtain ⟨scope, hscope, hplace⟩ := Site.exists_variableScope hkind hs hsd hdkind
  by_cases hscopen : scope.Around n
  · have hdlist := Site.mem_descendants.mpr ⟨.of_part hpart hsd, hdnode⟩
    exact .inl (.designated hlist hdlist hdkind hname hscope hscopen)
  · right
    obtain ⟨hinside, hscoped⟩ : statement.Around scope ∧ scope.Around d := by
      rcases hplace with rfl | hplace
      · exact absurd hlistn hscopen
      · exact hplace
    refine ⟨scope, hlist, hkind, hs, hbefore, hdkind, hname, hsd, hscope, hinside, hscopen, ?_⟩
    by_cases hne : scope = statement
    · exact .inl hne
    · right
      by_contra hnested
      have hsome : scope.kind = .block ∨ scope.kind = .lambdaExpression := by
        by_contra hneither
        exact hnested (not_or.mp hneither)
      exact hscopen (h.around_of_isVisibleFrom ht hn (hroot.part hpart) hd hvisible hinside hscoped
        hne hsome)

end Missed

/-- **Which references are missed.**  The pass does what the conditions of `Refers` say.  A bare
name of a field of the nearest type meets them, unless it is that of a parameter or variable that
is in scope, or stands in the collection of a loop that binds the name, or the scope of a variable
of the name ends before it with a node that the pass does not heed. -/
theorem references_missed (options : PatchOptions) (source : String) :
    Pass.staticFieldAccess.run options (parse source).tree =
      (Decision.ofSite (reference? options.visibility)).run options.comments (parse source).tree ∧
    ∀ n ∈ (Site.root (parse source).tree).descendants, ∀ type qualifier name,
      Mentions options.visibility n type qualifier name →
        Refers options.visibility n type qualifier name ∨ n.InScope name ∨
        (∃ loop ∈ n.enclosing, loop.kind = .forEachStatement ∧ name ∈ loop.loopNames ∧
          ∀ body, loop.lastNode? = some body → ¬body.Around n) ∨
        ∃ d list statement scope, Site.Overreaches d n name list statement scope := by
  have ht := regular_parse source
  generalize (parse source).tree = t at ht
  refine ⟨(tracks options t).run_eq options.comments, ?_⟩
  intro n hn type qualifier name h
  cases hshown : n.isShadowed name with
  | false => exact .inl (h.refers hshown)
  | true =>
    right
    rcases Site.isShadowed_iff.mp hshown with ⟨s, hs, hname⟩ |
      ⟨list, hlist, hkind, statement, hstatement, hbefore, hname | ⟨d, hd, hdkind, hname, hvis⟩⟩
    · by_cases hbody : s.kind = .forEachStatement →
          ∃ body, s.lastNode? = some body ∧ body.Around n
      · exact .inl (.bound hs hname hbody)
      · obtain ⟨hloop, hnone⟩ := Classical.not_imp.mp hbody
        refine .inr (.inl ⟨s, hs, hloop, ?_, fun body hlast hin => hnone ⟨body, hlast, hin⟩⟩)
        rwa [boundNames, hloop] at hname
    · exact .inl (.declared hlist hkind hstatement hbefore hname)
    · rcases h.inScope_or_overreaches ht hn hlist hkind hstatement hbefore hd hdkind hname hvis with
        hin | ⟨scope, hover⟩
      · exact .inl hin
      · exact .inr (.inr ⟨d, list, statement, scope, hover⟩)

/-- A variable of a block in front of the reference. -/
def nestedBlock : String :=
  "class A { public static int x; void M() { { F(out var x); } x++; } }"

/-- A variable of one arm of a switch expression, and a reference in another. -/
def otherArm : String :=
  "class A \x7b public static int x; int M(object o) \x7b " ++
    "return o switch \x7b int x => x, _ => x \x7d; \x7d \x7d"

/-- A variable of the header of a loop in front of the reference. -/
def loopHeader : String :=
  "class A { public static int x; void M(object o) { while (o is int x) { } x++; } }"

/-- The texts with the number of the node that refers to the field. -/
def missedNodes : List (String × Nat) := [(nestedBlock, 28), (otherArm, 31), (loopHeader, 30)]

theorem missedNodes_mention : ∀ e ∈ missedNodes, (parse e.1).isClean = true ∧
    (Pass.staticFieldAccess.run {} (parse e.1).tree).toOption.map Outcome.text = some e.1 ∧
    nodeAt e.1 e.2 ∈ (Site.root (parse e.1).tree).descendants ∧
    Mentions .explicitPrivateOnly (nodeAt e.1 e.2) (nodeAt e.1 1) "A" "x" ∧
    ¬Refers .explicitPrivateOnly (nodeAt e.1 e.2) (nodeAt e.1 1) "A" "x" ∧
    (nodeAt e.1 e.2).mayBeInScope "x" = false := by
  decide +kernel

/-- References out of the scope of each variable of their name, which the pass leaves alone. -/
theorem scopes_overreached : [nestedBlock, otherArm, loopHeader].Forall fun source =>
    (parse source).isClean = true ∧
    (Pass.staticFieldAccess.run {} (parse source).tree).toOption.map Outcome.text = some source ∧
    ∃ n ∈ (Site.root (parse source).tree).descendants, ∃ type qualifier name,
      Mentions .explicitPrivateOnly n type qualifier name ∧
      ¬Refers .explicitPrivateOnly n type qualifier name ∧ ¬n.InScope name := by
  refine List.forall_iff_forall_mem.mpr fun source hsource => ?_
  obtain ⟨e, he, rfl⟩ : ∃ e ∈ missedNodes, e.1 = source := List.mem_map.mp hsource
  obtain ⟨hclean, htext, hn, hmentions, hnot, hscope⟩ := missedNodes_mention e he
  refine ⟨hclean, htext, _, hn, _, _, _, hmentions, hnot, fun h => ?_⟩
  rw [h.mayBeInScope] at hscope
  cases hscope

/-- Behind the nested block, the pass takes the variable of the block to be in scope. -/
theorem references_missed_nestedBlock :
    ∃ n ∈ (Site.root (parse nestedBlock).tree).descendants, ∃ type qualifier name,
      Mentions .explicitPrivateOnly n type qualifier name ∧
      (Refers .explicitPrivateOnly n type qualifier name ∨ n.InScope name ∨
        (∃ loop ∈ n.enclosing, loop.kind = .forEachStatement ∧ name ∈ loop.loopNames ∧
          ∀ body, loop.lastNode? = some body → ¬body.Around n) ∨
        ∃ d list statement scope, Site.Overreaches d n name list statement scope) := by
  obtain ⟨-, -, hn, hmentions, -⟩ := missedNodes_mention (nestedBlock, 28) List.mem_cons_self
  exact ⟨_, hn, _, _, _, hmentions, (references_missed {} nestedBlock).2 _ hn _ _ _ hmentions⟩

end StaticFields

end LivePatch
