import LivePatch.Proofs.CastPositions

/-!
# Exactly which returned values are cast

The pass over returned values keeps a stack of layers: types, methods, and whatever else has
returns of its own.  `ReturnValues.Returns` says without a stack which values it is after, by the
innermost such node around the value and the nearest type.  On the tree of a text without problems
every type has a name, so that the layers around a node are the nodes of these kinds around it, and
the pass casts the values that it should.

What is decided does not depend on what has been replaced below, and nothing below a value that is
cast is replaced.  So the pass does what a decision says that looks at the place alone.
-/

namespace LivePatch

open Decision (fills)

/-! ## Decisions that see what was replaced below -/

namespace Decision

variable {d : Decision} {comments : Bool} {root : Tree}

/-- Where nothing is decided, the parts of a node stay as they are. -/
theorem parts_eq_of_silent {n : Site} {index start : Nat} {ts ts' : List Tree} {es : List Edit}
    (hsilent : ∀ q ∈ n.partsFrom index start ts, d.Silent q)
    (h : d.reviseAll comments n index start ts = .ok (ts', es)) : ts' = ts := by
  induction ts generalizing index start ts' es with
  | nil =>
    rw [reviseAll] at h
    exact (Prod.mk.inj (Except.ok.inj h)).1.symm
  | cons t ts ih =>
    obtain ⟨ht, hts⟩ := List.forall_mem_cons.mp hsilent
    rw [reviseAll] at h
    split at h
    · cases h
    rename_i part first hfirst
    split at h
    · cases h
    rename_i parts rest hrest
    obtain ⟨rfl, -⟩ := Prod.mk.inj (Except.ok.inj h)
    obtain ⟨rfl, -⟩ := eq_of_silent ht hfirst
    rw [ih hts hrest]

/-- **A decision that does not nest**, and for which it makes no difference to decide at all what
has been replaced below, does what it says of the nodes as they were. -/
theorem revise_ofSite (hapart : d.Apart root)
    (hsame : ∀ n, (Site.root root).Around n → ∀ rebuilt, d n rebuilt = none ↔ d n n.tree = none)
    {t : Tree} {start : Nat} {trail : List Crumb} (hn : (Site.root root).Around ⟨t, start, trail⟩) :
    (ofSite fun n => d n n.tree).revise comments trail start t =
      d.revise comments trail start t := by
  induction t using Tree.inductionOn generalizing start trail with
  | leaf w => rw [revise, revise]
  | part k ts ih =>
    -- The parts first, by induction over those that are left.
    have hall : ∀ us, (∀ u ∈ us, u ∈ ts) → ∀ index start',
        (∀ q ∈ Site.partsFrom ⟨.node k ts, start, trail⟩ index start' us,
          (Site.root root).Around q) →
        (ofSite fun n => d n n.tree).reviseAll comments ⟨.node k ts, start, trail⟩ index start' us =
          d.reviseAll comments ⟨.node k ts, start, trail⟩ index start' us := by
      intro us
      induction us with
      | nil =>
        intro _ index start' _
        rw [reviseAll, reviseAll]
      | cons u us ihus =>
        intro hsub index start' hparts
        obtain ⟨hu, hus⟩ := List.forall_mem_cons.mp hparts
        rw [reviseAll, reviseAll, ih u (hsub u List.mem_cons_self) hu,
          ihus (fun v hv => hsub v (List.mem_cons_of_mem _ hv)) _ _ hus]
    rw [revise, revise, hall ts (fun u hu => hu) 0 start fun q hq => hn.part hq]
    cases hrev : d.reviseAll comments ⟨.node k ts, start, trail⟩ 0 start ts with
    | error e => rfl
    | ok revised =>
      obtain ⟨ts', es⟩ := revised
      simp only [settle, ofSite]
      cases hp : d ⟨.node k ts, start, trail⟩ (.node k ts) with
      | none => rw [(hsame _ hn _).mpr hp]
      | some p =>
        -- Where something is decided, nothing was replaced below.
        obtain rfl : ts' = ts := parts_eq_of_silent (hapart _ hn _ p hp) hrev
        rw [hp]

/-- So does a whole run. -/
theorem run_ofSite_eq (hapart : d.Apart root)
    (hsame : ∀ n, (Site.root root).Around n → ∀ rebuilt, d n rebuilt = none ↔ d n n.tree = none) :
    (ofSite fun n => d n n.tree).run comments root = d.run comments root := by
  have hrev : (ofSite fun n => d n n.tree).revise comments [] 0 root =
      d.revise comments [] 0 root := revise_ofSite hapart hsame .refl
  rw [run, run, hrev]

/-- **What a run that succeeds has done**: it has put trees in place of nodes and recorded their
edits. -/
theorem outcome_of_run {f : Site → Option Proposal} (hapart : (ofSite f).Apart root) {o : Outcome}
    (h : (ofSite f).run comments root = .ok o) : o.tree = (fills comments f).run root ∧
      o.edits = (Site.root root).descendants.filterMap (edit? f) ∧
      ∀ n ∈ (Site.root root).descendants, ∀ p, f n = some p →
        ∃ made, synthesize p.template = .ok made := by
  unfold run at h
  split at h
  · cases h
  · rename_i tree edits hrev
    obtain rfl := Except.ok.inj h
    exact ⟨treeAt_eq_of_revise hapart (n := Site.root root) .refl hrev,
      edits_eq hapart (n := Site.root root) .refl hrev, exists_made hrev⟩

end Decision

/-! ## Layers -/

/-- Is this the kind of a node that has returns of its own, or that hides the method around it? -/
def Kind.isReturnScope : Kind → Bool
  | .methodDeclaration | .lambdaExpression | .localFunctionStatement | .constructorDeclaration
  | .destructorDeclaration | .operatorDeclaration | .propertyDeclaration | .indexerDeclaration
  | .eventDeclaration => true
  | k => k.isTypeDeclaration

/-- A text without its white space. -/
def withoutBlanks (text : String) : String :=
  String.ofList (text.toList.filter fun c => !isBlank c)

namespace ReturnValues

/-- The return type that a method declares, as the pass compares it. -/
def returnText (method : Site) : String := (method.node? .type).elim "" (·.tree.bareText)

/-- Among the expression `e` and what is around it, the innermost node with returns of its own is
`method`, a method, and the type that this one returns is written like the name `target` of the
nearest type, white space apart. -/
structure Returns (e method type : Site) (target : String) : Prop where
  scope : (e :: e.ancestors).find? (·.kind.isReturnScope) = some method
  isMethod : method.kind = .methodDeclaration
  nearest : (e :: e.ancestors).find? (·.kind.isTypeDeclaration) = some type
  named : type.qualifyingName? = some target
  returns : ∃ r, method.node? .type = some r ∧ r.tree.bareText = withoutBlanks target

/-- The expression is a cast, to the type with the text `key`, of a cast to `object`. -/
def CastThrough (e : Site) (key : String) : Prop :=
  ∃ outer inner base operand : Site, e.kind = .castExpression ∧ e.nodes = [outer, inner] ∧
    outer.kind = .type ∧ outer.tree.bareText = key ∧ inner.kind = .castExpression ∧
    inner.nodes = [base, operand] ∧ base.kind = .type ∧ base.tree.bareText = "object"

/-! ## On well-formed trees -/

variable {e m type : Site} {target key : String}

theorem layer?_of_type (h : m.kind.isTypeDeclaration = true) :
    layer? m = m.qualifyingName?.map fun name => .type name (withoutBlanks name) := by
  rw [layer?, if_pos h]
  rfl

theorem layer?_of_not_type (h : m.kind.isTypeDeclaration = false) :
    layer? m = if m.kind.isReturnScope then
      some (if m.kind = .methodDeclaration then .method (returnText m) else .opaqueBody)
    else none := by
  unfold layer?
  rw [if_neg (by simp [h])]
  unfold returnText
  split
  case h_10 => simp_all [Kind.isReturnScope]
  all_goals
    rename_i hk
    rw [hk]
    rfl

/-- A node makes a layer exactly if it is of such a kind, since types have names. -/
theorem isSome_layer? (h : m.tree.WellFormed) (hnode : m.tree.isNode = true) :
    (layer? m).isSome = m.kind.isReturnScope := by
  cases hk : m.kind.isTypeDeclaration with
  | true =>
    obtain ⟨q, hq⟩ := Site.exists_qualifyingName? h hnode hk
    have hall : ∀ k : Kind, k.isTypeDeclaration = true → k.isReturnScope = true := by
      intro k hk
      cases k <;> first | rfl | cases hk
    rw [layer?_of_type hk, hq, hall _ hk]
    rfl
  | false =>
    rw [layer?_of_not_type hk]
    cases m.kind.isReturnScope <;> rfl

theorem layer?_eq_method {returnType : String} :
    layer? m = some (.method returnType) ↔
      m.kind = .methodDeclaration ∧ returnText m = returnType := by
  cases hk : m.kind.isTypeDeclaration with
  | true =>
    rw [layer?_of_type hk]
    refine ⟨fun h => ?_, fun h => ?_⟩
    · obtain ⟨q, -, hlayer⟩ := Option.map_eq_some_iff.mp h
      cases hlayer
    · rw [h.1] at hk
      cases hk
  | false =>
    rw [layer?_of_not_type hk]
    by_cases hmethod : m.kind = .methodDeclaration
    · simp [hmethod, Kind.isReturnScope]
    · simp [hmethod]

/-- The nearest type among the layers is the nearest type declaration. -/
theorem nearestType?_filterMap {l : List Site}
    (hwell : ∀ m ∈ l, m.tree.WellFormed ∧ m.tree.isNode = true) :
    nearestType? (l.filterMap layer?) = (l.find? (·.kind.isTypeDeclaration)).bind fun type =>
      type.qualifyingName?.map fun name => (name, withoutBlanks name) := by
  induction l with
  | nil => rfl
  | cons m l ih =>
    obtain ⟨⟨hm, hnode⟩, hl⟩ := List.forall_mem_cons.mp hwell
    cases hk : m.kind.isTypeDeclaration with
    | true =>
      obtain ⟨q, hq⟩ := Site.exists_qualifyingName? hm hnode hk
      have hlayer : layer? m = some (.type q (withoutBlanks q)) := by
        rw [layer?_of_type hk, hq, Option.map_some]
      simp only [List.filterMap_cons_some hlayer, List.find?_cons, hk, Option.bind_some, hq]
      rfl
    | false =>
      rw [List.find?_cons_of_neg (by simp [hk]), ← ih hl]
      have hlayer := layer?_of_not_type hk
      split at hlayer
      · rw [List.filterMap_cons_some hlayer]
        split <;> rfl
      · rw [List.filterMap_cons_none hlayer]

/-- **The layers tell which values are returned by a method of their type.** -/
theorem target?_eq_some_iff
    (hwell : ∀ m ∈ e :: e.ancestors, m.tree.WellFormed ∧ m.tree.isNode = true) :
    target? ((e :: e.ancestors).filterMap layer?) = some (target, key) ↔
      ∃ method type, Returns e method type target ∧ key = withoutBlanks target := by
  have hnear := nearestType?_filterMap hwell
  constructor
  · intro h
    generalize hlayers : (e :: e.ancestors).filterMap layer? = layers at h hnear
    unfold target? at h
    split at h
    swap
    · cases h
    rename_i returnType rest
    obtain ⟨front, method, back, hlist, hfront, hmethod, -⟩ := List.filterMap_eq_cons_iff.mp hlayers
    obtain ⟨hkind, rfl⟩ := layer?_eq_method.mp hmethod
    obtain ⟨hfound, hkey⟩ := Option.filter_eq_some_iff.mp h
    rw [hnear] at hfound
    obtain ⟨type, htype, hname⟩ := Option.bind_eq_some_iff.mp hfound
    obtain ⟨name, hq, hpair⟩ := Option.map_eq_some_iff.mp hname
    obtain ⟨rfl, rfl⟩ := Prod.mk.inj hpair
    refine ⟨method, type, ⟨?_, hkind, htype, hq, ?_⟩, rfl⟩
    · refine List.find?_eq_some_iff_append.mpr
        ⟨by rw [hkind]; rfl, front, back, hlist, fun m hm => ?_⟩
      obtain ⟨hwm, hnode⟩ := hwell m (hlist ▸ List.mem_append_left _ hm)
      have hnone := isSome_layer? hwm hnode
      rw [hfront m hm] at hnone
      rw [← hnone]
      rfl
    · obtain ⟨hwm, hnode⟩ := hwell method (hlist ▸ by simp)
      have hparts : method.kind.WantsParts (Tree.partsOf method.tree.children) :=
        hwm.wantsParts hnode
      rw [hkind] at hparts
      obtain ⟨r, hr⟩ := Site.exists_node?_of_part hparts.1
      refine ⟨r, hr, ?_⟩
      rw [returnText, hr] at hkey
      exact beq_iff_eq.mp hkey
  · rintro ⟨method, type, ⟨hscope, hkind, htype, hq, r, hr, htext⟩, rfl⟩
    obtain ⟨-, front, back, hlist, hfront⟩ := List.find?_eq_some_iff_append.mp hscope
    have hlayer : layer? method = some (.method (returnText method)) :=
      layer?_eq_method.mpr ⟨hkind, rfl⟩
    have hlayers : (e :: e.ancestors).filterMap layer? =
        .method (returnText method) :: back.filterMap layer? := by
      refine List.filterMap_eq_cons_iff.mpr ⟨front, method, back, hlist, fun m hm => ?_, hlayer, rfl⟩
      obtain ⟨hwm, hnode⟩ := hwell m (hlist ▸ List.mem_append_left _ hm)
      have hnone := isSome_layer? hwm hnode
      have hscoped : m.kind.isReturnScope = false := by simpa using hfront m hm
      rw [hscoped] at hnone
      exact Option.isSome_eq_false_iff.mp hnone |> Option.isNone_iff_eq_none.mp
    rw [htype, Option.bind_some, hq, Option.map_some] at hnear
    rw [hlayers] at hnear ⊢
    rw [target?, hnear, Option.filter_some, if_pos]
    rw [returnText, hr]
    exact beq_iff_eq.mpr htext

/-! ## Values that are cast already -/

theorem isCastThrough_iff {t : Tree} (ht : t.WellFormed) (he : (Site.root t).Around e)
    (hnode : e.tree.isNode = true) : isCastThrough e key = true ↔ CastThrough e key := by
  have hcast {c : Site} (hc : (Site.root t).Around c) (hcnode : c.tree.isNode = true)
      (hkind : c.kind = .castExpression) : ∃ outer inner, c.nodes = [outer, inner] ∧
        outer.kind = .type ∧ castType c = outer.tree.bareText ∧ c.expression? = some inner := by
    have hparts : c.kind.WantsParts (Tree.partsOf c.tree.children) :=
      (hc.wellFormed ht).wantsParts hcnode
    rw [hkind] at hparts
    obtain ⟨k, hk, hkinds⟩ := hparts
    obtain ⟨outer, inner, hnodes, houter, rfl⟩ := Site.exists_nodes_of_nodeKinds hkinds
    refine ⟨outer, inner, hnodes, houter, ?_, ?_⟩
    · simp [castType, Site.node?, Site.nodesOf, Site.nodesWith, hnodes, houter]
    · rw [Site.expression?, Site.expressions, Site.nodesWith, hnodes]
      simp only [List.filter_cons, houter, hk, List.filter_nil]
      rfl
  rw [isCastThrough, Bool.and_eq_true, beq_iff_eq]
  constructor
  · rintro ⟨hkind, hany⟩
    obtain ⟨outer, inner, hnodes, houter, htext, hexpr⟩ := hcast he hnode hkind
    simp only [hexpr, Option.any_some, Bool.and_eq_true, beq_iff_eq, htext] at hany
    obtain ⟨⟨hinner, hkey⟩, hobject⟩ := hany
    have hmem : inner ∈ e.nodes := by simp [hnodes]
    obtain ⟨hpart, hinode⟩ := List.mem_filter.mp hmem
    obtain ⟨base, operand, hinodes, hbase, hbtext, -⟩ := hcast (he.part hpart) hinode hinner
    exact ⟨outer, inner, base, operand, hkind, hnodes, houter, hkey, hinner, hinodes, hbase,
      hbtext ▸ hobject⟩
  · rintro ⟨outer, inner, base, operand, hkind, hnodes, -, hkey, hinner, hinodes, -, hobject⟩
    obtain ⟨outer', inner', hnodes', -, htext, hexpr⟩ := hcast he hnode hkind
    obtain ⟨rfl, rfl⟩ : outer = outer' ∧ inner = inner' := by
      simpa using hnodes.symm.trans hnodes'
    have hmem : inner ∈ e.nodes := by simp [hnodes]
    obtain ⟨hpart, hinode⟩ := List.mem_filter.mp hmem
    obtain ⟨base', operand', hinodes', -, hbtext, -⟩ := hcast (he.part hpart) hinode hinner
    obtain ⟨rfl, -⟩ : base = base' ∧ operand = operand' := by
      simpa using hinodes.symm.trans hinodes'
    refine ⟨hkind, ?_⟩
    simp [hexpr, hinner, htext, hkey, hbtext, hobject]

/-! ## The edits -/

/-- What the pass decides at a place. -/
def value? (n : Site) : Option Proposal := cast? n n.tree

/-- The edit that casts a returned value, if the pass decides so. -/
def valueEdit? (n : Site) : Option Edit :=
  (value? n).map fun p => ⟨p.rule, n.coreSpan, n.tree.coreText, p.template⟩

/-- `e` is a returned value that should be cast to the type that goes by `target`: it is returned
by a method of that type, and not cast already. -/
structure NeedsCast (e : Site) (target : String) : Prop where
  isExpression : e.kind.isExpression = true
  returned : ∃ s, e.parent? = some s ∧ s.kind = .returnStatement
  owned : ∃ method type, Returns e method type target
  uncast : ¬CastThrough e (withoutBlanks target)

/-- **What the pass decides**, whatever has been replaced below. -/
theorem cast?_eq_some_iff {t rebuilt : Tree} (ht : t.WellFormed) (he : (Site.root t).Around e)
    (hnode : e.tree.isNode = true) {p : Proposal} : cast? e rebuilt = some p ↔
      ∃ target, NeedsCast e target ∧
        p = ⟨.sameTypedReturn, castText target (operandText e.kind rebuilt)⟩ := by
  have hwell : ∀ m ∈ e :: e.ancestors, m.tree.WellFormed ∧ m.tree.isNode = true := by
    intro m hm
    rcases List.mem_cons.mp hm with rfl | hm
    · exact ⟨he.wellFormed ht, hnode⟩
    · obtain ⟨hplace, haround⟩ := he.of_mem_ancestors hm
      exact ⟨hplace.wellFormed ht, haround.isNode hnode⟩
  simp only [cast?, propose, bind, Option.bind_eq_some_iff, Option.guard_eq_some', exists_const,
    Bool.and_eq_true, beq_iff_eq, Bool.not_eq_true']
  constructor
  · rintro ⟨s, hs, ⟨hreturn, hexpr⟩, ⟨target, key⟩, htarget, huncast, hp⟩
    obtain ⟨method, type, hreturns, rfl⟩ := (target?_eq_some_iff hwell).mp htarget
    refine ⟨target, ⟨hexpr, ⟨s, hs, hreturn⟩, ⟨method, type, hreturns⟩, fun hcast => ?_⟩,
      (Option.some.inj hp).symm⟩
    rw [(isCastThrough_iff ht he hnode).mpr hcast] at huncast
    cases huncast
  · rintro ⟨target, ⟨hexpr, ⟨s, hs, hreturn⟩, ⟨method, type, hreturns⟩, huncast⟩, rfl⟩
    refine ⟨s, hs, ⟨hreturn, hexpr⟩, (target, withoutBlanks target),
      (target?_eq_some_iff hwell).mpr ⟨method, type, hreturns, rfl⟩, ?_, rfl⟩
    exact Bool.eq_false_iff.mpr fun h => huncast ((isCastThrough_iff ht he hnode).mp h)

/-- Whether a value is cast does not depend on what has been replaced below. -/
theorem cast?_eq_none_iff (n : Site) (rebuilt other : Tree) :
    cast? n rebuilt = none ↔ cast? n other = none := by
  simp [cast?, propose, Option.bind_eq_none_iff]

/-- Below a value that is cast, nothing is decided. -/
theorem apart_value? {t : Tree} (ht : t.Regular) : (Decision.ofSite value?).Apart t :=
  fun n hn _ p hp q hq m hm hnode _ => (inserts ht).apart n hn _ p hp q hq m hm hnode m.tree

/-- What the pass does is decided by looking at each place alone. -/
theorem run_returnType {t : Tree} (ht : t.Regular) {options : PatchOptions}
    (hreturns : options.castReturns = true) :
    Pass.returnType.run options t = (Decision.ofSite value?).run options.comments t := by
  have hplain : (Decision.ofSite value?).run options.comments t =
      Decision.run cast? options.comments t :=
    Decision.run_ofSite_eq (inserts ht).apart fun n _ rebuilt => cast?_eq_none_iff n rebuilt _
  rw [Pass.run, if_pos hreturns, (tracks t).run_eq options.comments, hplain]

/-- The edit that is recorded is that of the decision. -/
theorem edit?_eq_valueEdit? {t : Tree} (ht : t.Regular) (he : (Site.root t).Around e)
    (hnode : e.tree.isNode = true)
    (hmade : ∀ p, value? e = some p → ∃ made, synthesize p.template = .ok made) :
    Decision.edit? value? e = valueEdit? e := by
  cases hp : value? e with
  | none => rw [Decision.edit?, valueEdit?, hp, Option.map_none]
  | some p =>
    obtain ⟨made, hok⟩ := hmade p hp
    have hspells := ((inserts ht).insertion he hnode hp hok).spells
    rw [Decision.edit?_eq_some.mpr ⟨p, made, hp, hok, rfl⟩, valueEdit?, hp, Option.map_some,
      Edit.record, hspells.coreText_eq]

/-- **Exactly the values that a method of their type returns are cast.**  Without being asked for,
the pass does nothing.  Where it is and succeeds on a text without problems, it puts casts in place
of some nodes, for which it records one edit each, in reading order.  An expression in a return
statement is one of these exactly if the innermost node with returns of its own around it is a
method that returns the nearest type, and it is not already cast to that type by way of `object`. -/
theorem returns_exact (options : PatchOptions) (source : String)
    (hclean : (parse source).isClean = true) :
    let t := (parse source).tree
    (options.castReturns = false → Pass.returnType.run options t = .ok ⟨t, []⟩) ∧
    (options.castReturns = true → ∀ o, Pass.returnType.run options t = .ok o →
      o.tree = (fills options.comments value?).run t ∧
      o.edits = (Site.root t).descendants.filterMap valueEdit? ∧
      (∀ e ∈ (Site.root t).descendants,
        (∃ x, valueEdit? e = some x) ↔ ∃ target, NeedsCast e target) ∧
      ∀ e ∈ (Site.root t).descendants, ∀ target, NeedsCast e target → ∃ made,
        synthesize (castText target (operandText e.kind e.tree)) = .ok made ∧
        fills options.comments value? e =
          some (finish options.comments .sameTypedReturn e.tree made)) := by
  intro t
  have ht : t.Regular := regular_parse source
  have hwell : t.WellFormed := wellFormed_parse source hclean
  clear_value t
  refine ⟨fun hoff => by simp [Pass.run, hoff], fun hon o ho => ?_⟩
  rw [run_returnType ht hon] at ho
  obtain ⟨htree, hedits, hmade⟩ := Decision.outcome_of_run (apart_value? ht) ho
  refine ⟨htree, ?_, ?_, ?_⟩
  · rw [hedits]
    refine List.filterMap_congr fun e he => ?_
    obtain ⟨hplace, hnode⟩ := Site.mem_descendants.mp he
    exact edit?_eq_valueEdit? ht hplace hnode (hmade e he)
  · intro e he
    obtain ⟨hplace, hnode⟩ := Site.mem_descendants.mp he
    constructor
    · rintro ⟨x, hx⟩
      obtain ⟨p, hp, -⟩ := Option.map_eq_some_iff.mp hx
      obtain ⟨target, hneeds, -⟩ := (cast?_eq_some_iff hwell hplace hnode).mp hp
      exact ⟨target, hneeds⟩
    · rintro ⟨target, hneeds⟩
      have hp : value? e = some _ :=
        (cast?_eq_some_iff hwell hplace hnode).mpr ⟨target, hneeds, rfl⟩
      exact ⟨_, by rw [valueEdit?, hp, Option.map_some]⟩
  · intro e he target hneeds
    obtain ⟨hplace, hnode⟩ := Site.mem_descendants.mp he
    have hp : value? e = some _ :=
      (cast?_eq_some_iff hwell hplace hnode).mpr ⟨target, hneeds, rfl⟩
    obtain ⟨made, hok⟩ := hmade e he _ hp
    exact ⟨made, hok, Decision.fills_of_ok (p := ⟨.sameTypedReturn, _⟩) hp hok⟩

/-- A generic type with white space in its name, and returns of a property, of a method, and of a
lambda inside of it. -/
def ownReturns : String :=
  "class A<T,  U> \x7b A<T, U> P \x7b get \x7b return p; \x7d \x7d A< T,U > M() \x7b " ++
    "N(() => \x7b return y; \x7d); return x + y; \x7d \x7d"

/-- There the value that the method returns is cast. -/
theorem returns_exact_ownReturns : (parse ownReturns).isClean = true ∧
    ∃ o, Pass.returnType.run { castReturns := true } (parse ownReturns).tree = .ok o ∧
      o.text = "class A<T,  U> \x7b A<T, U> P \x7b get \x7b return p; \x7d \x7d A< T,U > M() " ++
        "\x7b N(() => \x7b return y; \x7d); return (A<T, U>)(object)(x + y); \x7d \x7d" ∧
      o.edits = (Site.root (parse ownReturns).tree).descendants.filterMap valueEdit? := by
  obtain ⟨hclean, htext⟩ : (parse ownReturns).isClean = true ∧
      (Pass.returnType.run { castReturns := true }
        (parse ownReturns).tree).toOption.map Outcome.text =
        some ("class A<T,  U> \x7b A<T, U> P \x7b get \x7b return p; \x7d \x7d A< T,U > M() " ++
          "\x7b N(() => \x7b return y; \x7d); return (A<T, U>)(object)(x + y); \x7d \x7d") := by
    decide +kernel
  obtain ⟨o, hrun, htext⟩ := Outcome.exists_of_text htext
  obtain ⟨-, hedits, -⟩ := (returns_exact _ ownReturns hclean).2 rfl o hrun
  exact ⟨hclean, o, hrun, htext, hedits⟩

end ReturnValues

end LivePatch
