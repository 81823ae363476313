import LivePatch.Proofs.Derivations
import LivePatch.Proofs.Kinds
import LivePatch.Proofs.Views
import LivePatch.Syntax.Grammar.Expressions

/-!
# What binds tighter

An operator binds to its two sides with certain powers (`Grammar.Binding`).  A tree respects them if
no operand of a node is torn apart by the operator of the node: the operator of the last operand
binds to its left at least as tightly as that of the node binds to its right, and the operator of
the first operand binds to its right tighter than that of the node binds to its left.  This is
`Tree.Ordered`, for a single node, and `Tree.WellOrdered`, for all nodes of a tree.

To know what a reading makes, `Action.Makes` follows an action with the words ahead and the trees
of the innermost frame, trivia left out, and asks that each node it makes is ordered.  Nearly all
actions make no node around an operator; for these `Action.Inert` is enough, which looks at the
text of an action alone.
-/

namespace LivePatch

open Grammar (Binding binding? conditionalBinding)

/-! ## Ordered trees -/

namespace Kind

/-- Is this the kind of nodes around an operator, or around a type test or conversion? -/
def isOperation : Kind → Bool
  | .binaryExpression | .assignmentExpression | .conditionalExpression => true
  | _ => false

/-- Is this the kind of nodes that no prefix may stand in front of? -/
def isLoose (k : Kind) : Bool := k.isOperation || k == .switchExpression

/-- Is this the kind of nodes around a prefix and its operand? -/
def isPrefixed : Kind → Bool
  | .prefixUnaryExpression | .awaitExpression | .castExpression => true
  | _ => false

/-- Is this the kind of nodes that are ordered whatever is in them? -/
def isOrdinary (k : Kind) : Bool := !k.isOperation && !k.isPrefixed

end Kind

namespace Tree

/-- The nodes among the parts of a node. -/
def operands (t : Tree) : List Tree := t.children.filter isNode

/-- The bindings of the operators between the operands of a node.  A prefix stands between none, even
where its word is an operator elsewhere. -/
def operators (t : Tree) : List Binding :=
  match t.kind with
  | .binaryExpression | .assignmentExpression =>
    t.children.filterMap fun u => u.token?.bind fun w => binding? w.kind
  | .conditionalExpression => [conditionalBinding]
  | _ => []

/-- Does the tree end in a braced initializer? -/
def isBraced (t : Tree) : Bool :=
  t.operands.getLast?.any fun u => u.kind == .initializerExpression

/-- The operators in the operands of a node respect the operator of the node.  What stands behind a
prefix has none at all. -/
structure Ordered (t : Tree) : Prop where
  last : ∀ u ∈ t.operands.getLast?, ∀ b ∈ t.operators, ∀ c ∈ u.operators, b.right ≤ c.left
  /-- A braced initializer has an end of its own, so anything may follow it. -/
  first : ∀ u ∈ t.operands.head?, u.isBraced = false →
    ∀ b ∈ t.operators, ∀ c ∈ u.operators, b.left < c.right
  prefixed : t.kind.isPrefixed = true → ∀ u ∈ t.operands, u.kind.isLoose = false

/-- A tree in which each node is ordered. -/
inductive WellOrdered : Tree → Prop
  | token (w : Token) : WellOrdered (.token w)
  | node {k : Kind} {ts : List Tree} (h : (Tree.node k ts).Ordered)
    (hts : ∀ t ∈ ts, WellOrdered t) : WellOrdered (.node k ts)

theorem WellOrdered.ordered {t : Tree} (h : t.WellOrdered) (hnode : t.isNode = true) :
    t.Ordered := by
  cases h with
  | token w => cases hnode
  | node h _ => exact h

variable {k : Kind} {ts us : List Tree}

theorem operators_of_not_isOperation {t : Tree} (h : t.kind.isOperation = false) :
    t.operators = [] := by
  rw [operators]
  split <;> simp_all [Kind.isOperation]

/-- Without operators only a prefix asks for something. -/
theorem ordered_of_operators_eq_nil {t : Tree} (h : t.operators = [])
    (hprefixed : t.kind.isPrefixed = true → ∀ u ∈ t.operands, u.kind.isLoose = false) :
    t.Ordered := by
  refine ⟨fun _ _ => ?_, fun _ _ _ => ?_, hprefixed⟩
  · rw [h]
    exact List.forall_mem_nil _
  · rw [h]
    exact List.forall_mem_nil _

theorem ordered_of_isOrdinary (h : k.isOrdinary = true) (ts : List Tree) :
    (node k ts).Ordered := by
  obtain ⟨hoperation, hprefixed⟩ := Bool.and_eq_true_iff.mp h
  rw [Bool.not_eq_true'] at hoperation hprefixed
  exact ordered_of_operators_eq_nil (operators_of_not_isOperation hoperation)
    fun hk => absurd (hprefixed.symm.trans hk) Bool.false_ne_true

/-! Trivia counts for nothing. -/

theorem binding?_of_isTrivia {w : Token} (h : w.isTrivia = true) : binding? w.kind = none := by
  have hall : ∀ k : Kind, k.isTrivia = true → binding? k = none := by
    intro k hk
    cases k <;> first | rfl | cases hk
  exact hall _ h

theorem operands_bare : (node k (bare ts)).operands = (node k ts).operands := by
  rw [operands, operands, children, children, bare, List.filter_filter]
  refine List.filter_congr fun t _ => ?_
  cases t <;> simp [isTriviaToken]

theorem operators_bare : (node k (bare ts)).operators = (node k ts).operators := by
  have hwords : (bare ts).filterMap (fun u => u.token?.bind fun w => binding? w.kind) =
      ts.filterMap fun u => u.token?.bind fun w => binding? w.kind := by
    rw [bare, List.filterMap_filter]
    refine List.filterMap_congr fun t _ => ?_
    cases t with
    | node k us => rfl
    | token w =>
      by_cases hw : w.isTrivia = true
      · simp [isTriviaToken, hw, token?, binding?_of_isTrivia hw]
      · simp [isTriviaToken, hw]
  rw [operators, operators, kind_node, kind_node, children, children, hwords]

/-! Operators between operands. -/

theorem ordered_of_operands {t u v : Tree} {m : List Tree} (hk : t.kind.isPrefixed = false)
    (h : t.operands = u :: (m ++ [v]))
    (hlast : ∀ b ∈ t.operators, ∀ c ∈ v.operators, b.right ≤ c.left)
    (hfirst : u.isBraced = false → ∀ b ∈ t.operators, ∀ c ∈ u.operators, b.left < c.right) :
    t.Ordered := by
  refine ⟨fun v' hv' => ?_, fun u' hu' => ?_, fun hp => absurd (hk.symm.trans hp) (by decide)⟩
  · rw [h, ← List.cons_append, List.getLast?_concat] at hv'
    cases hv'
    exact hlast
  · rw [h] at hu'
    cases hu'
    exact hfirst

theorem isBraced_of_operands {t v : Tree} {m : List Tree} (h : t.operands = m ++ [v]) :
    t.isBraced = (v.kind == .initializerExpression) := by
  rw [isBraced, h, List.getLast?_concat, Option.any_some]

/-- A node whose parts are two operands and the word between them. -/
theorem operands_binary {u v : Tree} {w : Token} (hu : u.isNode = true) (hv : v.isNode = true)
    (h : bare us = [u, .token w, v]) : (node k us).operands = [u, v] := by
  rw [← operands_bare, h, operands, children]
  simp [hu, hv]

theorem operators_binary {u v : Tree} {w : Token} (hu : u.isNode = true) (hv : v.isNode = true)
    (hk : k = .binaryExpression ∨ k = .assignmentExpression) (h : bare us = [u, .token w, v]) :
    (node k us).operators = (binding? w.kind).toList := by
  have hwords : (bare us).filterMap (fun t => t.token?.bind fun w => binding? w.kind) =
      (binding? w.kind).toList := by
    rw [h]
    cases u with
    | token w => cases hu
    | node ku us =>
      cases v with
      | token w => cases hv
      | node kv vs => cases hb : binding? w.kind <;> simp [token?, hb]
  rw [← operators_bare, operators, kind_node, children, hwords]
  rcases hk with rfl | rfl <;> rfl

end Tree

/-! ## Actions over trees -/

/-- The tree that the first word becomes. -/
def Words.firstTree (ws : List Token) : List Tree := Tree.bare ((ws.take 1).map .token)

theorem Words.firstTree_of_front {ws : List Token} {k : Kind} (h : front ws = k)
    (hk : k ≠ .eof) (ht : k.isTrivia = false) :
    ∃ w, w.kind = k ∧ firstTree ws = [.token w] := by
  cases ws with
  | nil => exact absurd h.symm hk
  | cons w ws =>
    obtain rfl : w.kind = k := h
    refine ⟨w, rfl, ?_⟩
    simp [firstTree, Tree.bare, Tree.isTriviaToken, Token.isTrivia, ht]

namespace Action

variable {R α β : Type}

/-- Each node that the action makes is ordered, when `ws` is ahead and the frame has the trees `ts`,
trivia left out; and then `Q` holds of its answer, the words it leaves and the trees.  `needs` says
what calls go on with, and `gives` what they leave. -/
def Makes (needs : R → List Token → List Tree → Prop)
    (gives : R → List Tree → List Token → List Tree → Prop) {α : Type} :
    Action R α → (α → List Token → List Tree → Prop) → List Token → List Tree → Prop
  | .pure a, Q, ws, ts => Q a ws ts
  | .bind first next, Q, ws, ts =>
    first.Makes needs gives (fun a ws ts => (next a).Makes needs gives Q ws ts) ws ts
  | .look decide _, Q, ws, ts => Q (decide ws) ws ts
  | .skipTrivia, Q, ws, ts => Q () ws ts
  | .take, Q, ws, ts => Q () ws.tail (ts ++ Words.firstTree ws)
  | .takeHalf, Q, _, _ => ∀ ws ts, Q () ws ts
  | .report _, Q, ws, ts => Q () ws ts
  | .opening _ _, Q, ws, ts => Q () ws ts
  | .enclose k, Q, ws, ts =>
    ∀ us, Tree.bare us = ts → (Tree.node k us).Ordered ∧ Q () ws [.node k us]
  | .frame body, Q, ws, ts => body.Makes needs gives (fun a ws us => Q a ws (ts ++ us)) ws []
  | .idle body, Q, ws, ts =>
    body.Makes needs gives (fun _ ws' ts => Q (ws'.length == ws.length) ws' ts) ws ts
  | .call r, Q, ws, ts => needs r ws ts ∧ ∀ b ws' ts', gives r ts ws' ts' → Q b ws' ts'

/-- The action makes only nodes that are ordered whatever is in them, and calls what needs nothing.
In frames inside it may make others. -/
def Inert (needs : R → List Token → List Tree → Prop)
    (gives : R → List Tree → List Token → List Tree → Prop) {α : Type} : Action R α → Prop
  | .bind first next => first.Inert needs gives ∧ ∀ a, (next a).Inert needs gives
  | .enclose k => k.isOrdinary = true
  | .frame body => body.Inert needs gives ∨ ∀ ws, body.Makes needs gives (fun _ _ _ => True) ws []
  | .idle body => body.Inert needs gives
  | .call r => ∀ ws ts, needs r ws ts
  | _ => True

/-- The action makes only such nodes until, in the end, it encloses what the frame has as a node of
a kind that satisfies `K`. -/
def Wraps (needs : R → List Token → List Tree → Prop)
    (gives : R → List Tree → List Token → List Tree → Prop) (K : Kind → Prop) {α : Type} :
    Action R α → Prop
  | .bind first next => first.Inert needs gives ∧ ∀ a, (next a).Wraps needs gives K
  | .enclose k => K k
  | _ => False

variable {needs : R → List Token → List Tree → Prop}
  {gives : R → List Tree → List Token → List Tree → Prop}

theorem Makes.mono {a : Action R α} {Q Q' : α → List Token → List Tree → Prop}
    (hQ : ∀ v ws ts, Q v ws ts → Q' v ws ts) {ws : List Token} {ts : List Tree}
    (h : a.Makes needs gives Q ws ts) : a.Makes needs gives Q' ws ts := by
  induction a generalizing ws ts with
  | bind first next ihf ihn => exact ihf (fun v ws ts hv => ihn v hQ hv) h
  | takeHalf => exact fun ws ts => hQ _ _ _ (h ws ts)
  | enclose k => exact fun us hus => (h us hus).imp_right (hQ _ _ _)
  | frame a ih | idle a ih => exact ih (fun v ws us hv => hQ _ _ _ hv) h
  | call r => exact ⟨h.1, fun b ws' ts' hgives => hQ _ _ _ (h.2 b ws' ts' hgives)⟩
  | _ => exact hQ _ _ _ h

/-- **Inert actions make ordered nodes**, whatever they make of words and trees. -/
theorem Inert.makes {a : Action R α} (h : a.Inert needs gives)
    {Q : α → List Token → List Tree → Prop} {ws : List Token} {ts : List Tree}
    (hQ : ∀ v ws' ts', Q v ws' ts') : a.Makes needs gives Q ws ts := by
  induction a generalizing ws ts with
  | bind first next ihf ihn => exact ihf h.1 fun v ws' ts' => ihn v (h.2 v) hQ
  | takeHalf => exact fun ws' ts' => hQ _ ws' ts'
  | enclose k => exact fun us _ => ⟨Tree.ordered_of_isOrdinary h us, hQ _ _ _⟩
  | frame a ih =>
    rcases h with h | h
    · exact ih h fun v ws' us => hQ _ _ _
    · exact (h ws).mono fun v ws' us _ => hQ _ _ _
  | idle a ih => exact ih h fun v ws' us => hQ _ _ _
  | call r => exact ⟨h ws ts, fun b ws' ts' _ => hQ b ws' ts'⟩
  | _ => exact hQ _ _ _

/-- In the end the frame has one node of a kind that is asked for. -/
theorem Wraps.makes {K : Kind → Prop} (hK : ∀ k, K k → k.isOrdinary = true) {a : Action R α}
    (h : a.Wraps needs gives K) {Q : α → List Token → List Tree → Prop} {ws : List Token}
    {ts : List Tree} (hQ : ∀ v ws' k us, K k → Q v ws' [.node k us]) :
    a.Makes needs gives Q ws ts := by
  induction a generalizing ws ts with
  | bind first next ihf ihn => exact Inert.makes h.1 fun v ws' ts' => ihn v (h.2 v) hQ
  | enclose k => exact fun us _ => ⟨Tree.ordered_of_isOrdinary (hK k h) us, hQ _ _ _ _ h⟩
  | _ => cases h

end Action

/-! ## Readings -/

namespace ReadState

/-- The trees of the innermost frame, trivia left out. -/
def trees (s : ReadState) : List Tree := Tree.bare s.built.reverse

/-- Each node built is ordered, and what stands in front of the words ahead is trivia. -/
structure WellOrdered (s : ReadState) : Prop where
  gaps : ∀ gap ∈ s.gaps, ∀ w ∈ gap, w.isTrivia = true
  built : ∀ t ∈ s.built, t.WellOrdered

variable {s : ReadState}

theorem WellOrdered.gap (h : s.WellOrdered) : ∀ w ∈ s.gap, w.isTrivia = true := by
  unfold ReadState.gap
  cases hg : s.gaps with
  | nil => exact List.forall_mem_nil _
  | cons gap gaps => exact h.gaps gap (hg ▸ List.mem_cons_self)

theorem WellOrdered.skipTrivia (h : s.WellOrdered) : s.skipTrivia.WellOrdered := by
  refine ⟨?_, fun t ht => ?_⟩
  · rw [ReadState.skipTrivia]
    cases hg : s.gaps with
    | nil => exact List.forall_mem_nil _
    | cons gap gaps =>
      refine List.forall_mem_cons.mpr ⟨List.forall_mem_nil _, fun gap' hgap => h.gaps gap' ?_⟩
      rw [hg]
      exact List.mem_cons_of_mem _ hgap
  · rcases List.mem_append.mp ht with ht | ht
    · obtain ⟨w, -, rfl⟩ := List.mem_map.mp ht
      exact .token w
    · exact h.built t ht

theorem WellOrdered.trees_skipTrivia (h : s.WellOrdered) : s.skipTrivia.trees = s.trees := by
  rw [trees, ReadState.skipTrivia, List.reverse_append, ← List.map_reverse, List.reverse_reverse,
    Tree.bare_append, Tree.bare_tokens h.gap, List.append_nil, trees]

theorem WellOrdered.take (h : s.WellOrdered) : s.take.WellOrdered := by
  have hskip := h.skipTrivia
  rw [ReadState.take]
  split
  · exact hskip
  · refine ⟨fun gap hgap => hskip.gaps gap (List.mem_of_mem_drop hgap), ?_⟩
    exact List.forall_mem_cons.mpr ⟨.token _, hskip.built⟩

theorem WellOrdered.trees_take (h : s.WellOrdered) :
    s.take.trees = s.trees ++ Words.firstTree s.words := by
  rw [← h.trees_skipTrivia, ReadState.take]
  have hwords : s.skipTrivia.words = s.words := rfl
  rw [← hwords]
  cases hw : s.skipTrivia.words with
  | nil => simp [Words.firstTree]
  | cons w ws => simp [trees, Words.firstTree]

theorem WellOrdered.splitShift (h : s.WellOrdered) : s.splitShift.WellOrdered := by
  unfold ReadState.splitShift
  split
  · refine ⟨fun gap hgap => ?_, h.built⟩
    simp only [List.mem_cons] at hgap
    rcases hgap with rfl | rfl | hgap
    · exact h.gap
    · exact List.forall_mem_nil _
    · exact h.gaps gap (List.mem_of_mem_drop hgap)
  · exact h

end ReadState

namespace Action

variable {R α : Type} {needs : R → List Token → List Tree → Prop}
  {gives : R → List Tree → List Token → List Tree → Prop}

/-- A way to answer calls leaves ordered trees, and makes of what is there what `gives` says. -/
def Ordering (needs : R → List Token → List Tree → Prop)
    (gives : R → List Tree → List Token → List Tree → Prop)
    (partly : R → ReadState → Option (Bool × ReadState)) : Prop :=
  ∀ ⦃r s v t⦄, partly r s = some (v, t) → s.WellOrdered → needs r s.words s.trees →
    t.WellOrdered ∧ gives r s.trees t.words t.trees

/-- **One run of an action that makes ordered nodes.** -/
theorem wellOrdered_of_complete {partly : R → ReadState → Option (Bool × ReadState)}
    (hpartly : Ordering needs gives partly) (a : Action R α)
    {Q : α → List Token → List Tree → Prop} {s t : ReadState} {v : α} (hs : s.WellOrdered)
    (h : a.complete partly s = some (v, t)) (hmakes : a.Makes needs gives Q s.words s.trees) :
    t.WellOrdered ∧ Q v t.words t.trees := by
  induction a generalizing s t with
  | bind first next ihf ihn =>
    obtain ⟨⟨w, u⟩, hfirst, hnext⟩ := Option.bind_eq_some_iff.mp h
    obtain ⟨hu, hmakes'⟩ := ihf hs hfirst hmakes
    exact ihn w hu hnext hmakes'
  | pure | look | opening =>
    obtain ⟨rfl, rfl⟩ := Prod.mk.inj (Option.some.inj h)
    exact ⟨hs, hmakes⟩
  | skipTrivia =>
    obtain ⟨rfl, rfl⟩ := Prod.mk.inj (Option.some.inj h)
    exact ⟨hs.skipTrivia, hs.trees_skipTrivia ▸ hmakes⟩
  | report problem =>
    obtain ⟨rfl, rfl⟩ := Prod.mk.inj (Option.some.inj h)
    refine ⟨⟨hs.skipTrivia.gaps, hs.skipTrivia.built⟩, ?_⟩
    have htrees : (s.report problem).trees = s.trees := hs.trees_skipTrivia
    rw [htrees]
    exact hmakes
  | take =>
    obtain ⟨rfl, rfl⟩ := Prod.mk.inj (Option.some.inj h)
    refine ⟨hs.take, ?_⟩
    rw [hs.trees_take, ReadState.take_words]
    exact hmakes
  | takeHalf =>
    obtain ⟨rfl, rfl⟩ := Prod.mk.inj (Option.some.inj h)
    exact ⟨hs.splitShift.take, hmakes _ _⟩
  | enclose k =>
    obtain ⟨rfl, rfl⟩ := Prod.mk.inj (Option.some.inj h)
    obtain ⟨hordered, hQ⟩ := hmakes s.built.reverse rfl
    refine ⟨⟨hs.gaps, List.forall_mem_singleton.mpr (.node hordered fun t ht => ?_)⟩, hQ⟩
    exact hs.built t (List.mem_reverse.mp ht)
  | frame a ih =>
    obtain ⟨⟨w, u⟩, hinner, heq⟩ := Option.map_eq_some_iff.mp h
    obtain ⟨rfl, rfl⟩ := Prod.mk.inj heq
    have hempty : ReadState.WellOrdered { s with built := [] } :=
      ⟨hs.gaps, List.forall_mem_nil _⟩
    obtain ⟨hu, hQ⟩ := ih hempty hinner hmakes
    refine ⟨⟨hu.gaps, fun t ht => (List.mem_append.mp ht).elim (hu.built t) (hs.built t)⟩, ?_⟩
    rw [ReadState.trees, List.reverse_append, Tree.bare_append]
    exact hQ
  | idle a ih =>
    obtain ⟨⟨w, u⟩, hinner, heq⟩ := Option.map_eq_some_iff.mp h
    obtain ⟨rfl, rfl⟩ := Prod.mk.inj heq
    exact ih hs.skipTrivia hinner (hs.trees_skipTrivia.symm ▸ hmakes)
  | call r =>
    obtain ⟨ht, hgives⟩ := hpartly h hs hmakes.1
    exact ⟨ht, hmakes.2 _ _ _ hgives⟩

/-- **All calls leave ordered trees**, if every production makes them. -/
theorem ordering_completeRule {body : R → Action R Bool}
    (hbody : ∀ r ws ts, needs r ws ts →
      (body r).Makes needs gives (fun _ ws' ts' => gives r ts ws' ts') ws ts) (depth : Nat) :
    Ordering needs gives (completeRule body depth) := by
  induction depth with
  | zero => nofun
  | succ depth ih =>
    intro r s v t h hs hneeds
    exact wellOrdered_of_complete ih (body r) hs h (hbody r s.words s.trees hneeds)

end Action

end LivePatch
