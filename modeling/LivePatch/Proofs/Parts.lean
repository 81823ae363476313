import LivePatch.Proofs.Derivations
import LivePatch.Syntax.View

/-!
# What the nodes of a tree are made of

A `Part` is what one sees of a tree from the node around it: a word or a node, of some kind; trivia
is not seen.  A tree is `WellFormed` if no part of it is an error and each node has the parts that
its kind calls for, as far as `Kind.WantsParts` says so.

To know what a reading makes, actions are run over parts instead of trees.  `Action.Forms` follows
an action word by word and asks that each node is made of the right parts, unless a problem has been
noted before.  Most actions make no node that calls for anything; for these `Action.Plain` is
enough, which looks at the text of an action alone.
-/

namespace LivePatch

/-! ## Parts -/

/-- A word or node among the parts of a node. -/
inductive Part where
  | word (kind : Kind)
  | node (kind : Kind)
deriving DecidableEq, Repr

namespace Part

/-- The kind, if the part is a node. -/
def nodeKind? : Part → Option Kind
  | .word _ => none
  | .node k => some k

/-- The kinds of the nodes among the parts, in order. -/
def nodeKinds (ps : List Part) : List Kind := ps.filterMap nodeKind?

@[simp] theorem nodeKinds_nil : nodeKinds [] = [] := rfl

@[simp] theorem nodeKinds_word (k : Kind) (ps : List Part) :
    nodeKinds (.word k :: ps) = nodeKinds ps := rfl

@[simp] theorem nodeKinds_node (k : Kind) (ps : List Part) :
    nodeKinds (.node k :: ps) = k :: nodeKinds ps := rfl

@[simp] theorem nodeKinds_append (ps qs : List Part) :
    nodeKinds (ps ++ qs) = nodeKinds ps ++ nodeKinds qs := List.filterMap_append

end Part

namespace Tree

/-- What a tree is among the parts of the node around it; trivia is no part. -/
def part? : Tree → Option Part
  | .token t => if t.isTrivia then none else some (.word t.kind)
  | .node k _ => some (.node k)

/-- The parts that some trees are. -/
def partsOf (ts : List Tree) : List Part := ts.filterMap part?

@[simp] theorem partsOf_nil : partsOf [] = [] := rfl

@[simp] theorem partsOf_append (ts us : List Tree) :
    partsOf (ts ++ us) = partsOf ts ++ partsOf us := List.filterMap_append

theorem partsOf_trivia {ts : List Token} (h : ∀ t ∈ ts, t.isTrivia = true) :
    partsOf (ts.map .token) = [] := by
  refine List.filterMap_eq_nil_iff.mpr fun u hu => ?_
  obtain ⟨t, ht, rfl⟩ := List.mem_map.mp hu
  exact if_pos (h t ht)

end Tree

/-- The parts that a node of the kind must have.  No node may be an error; the names, types and
parameters of declarations must be there, and the operands of expressions. -/
def Kind.WantsParts (k : Kind) (ps : List Part) : Prop :=
  match k with
  | .error => False
  | .classDeclaration | .structDeclaration | .interfaceDeclaration | .typeParameter
  | .variableDeclarator | .nameExpression => .word .identifier ∈ ps
  -- The first identifier is the word `record` itself.
  | .recordDeclaration => 2 ≤ ps.count (.word .identifier)
  | .fieldDeclaration => Part.nodeKinds ps = [.modifiers, .variableDeclaration]
  | .variableDeclaration => Part.nodeKinds ps = [.type, .variableDeclaratorList]
  | .variableDeclaratorList => .node .variableDeclarator ∈ ps
  | .methodDeclaration => .node .type ∈ ps ∧ .word .identifier ∈ ps ∧ .node .parameterList ∈ ps
  | .memberAccessExpression =>
    ∃ e : Kind, e.isExpression = true ∧ Part.nodeKinds ps = [e, .nameExpression]
  | .assignmentExpression => ∃ e f : Kind, e.isExpression = true ∧ f.isExpression = true ∧
      Part.nodeKinds ps = [e, f]
  | .invocationExpression =>
    ∃ e : Kind, e.isExpression = true ∧ Part.nodeKinds ps = [e, .argumentList]
  | .argument => ∃ e : Kind, e.isExpression = true ∧ Part.nodeKinds ps = [e]
  | .castExpression => ∃ e : Kind, e.isExpression = true ∧ Part.nodeKinds ps = [.type, e]
  | _ => True

/-- The kinds of nodes that want no parts. -/
def Kind.isFree : Kind → Bool
  | .error | .classDeclaration | .structDeclaration | .interfaceDeclaration | .recordDeclaration
  | .typeParameter | .variableDeclarator | .nameExpression | .fieldDeclaration
  | .variableDeclaration | .variableDeclaratorList | .methodDeclaration | .memberAccessExpression
  | .assignmentExpression | .invocationExpression | .argument | .castExpression => false
  | _ => true

theorem Kind.wantsParts_of_isFree {k : Kind} (h : k.isFree = true) (ps : List Part) :
    k.WantsParts ps := by
  unfold WantsParts
  split <;> simp_all [isFree]

/-- A tree in which each node has the parts that it wants, and which has no error in it. -/
inductive Tree.WellFormed : Tree → Prop
  | token {w : Token} (h : w.kind ≠ .error) : WellFormed (.token w)
  | node {k : Kind} {ts : List Tree} (h : k.WantsParts (partsOf ts))
    (hts : ∀ t ∈ ts, WellFormed t) : WellFormed (.node k ts)

/-! ## Actions over parts -/

/-- The part that the first word becomes. -/
def Words.firstPart (ws : List Token) : List Part := Tree.partsOf ((ws.take 1).map .token)

theorem Words.firstPart_of_front {ws : List Token} {k : Kind} (h : front ws = k)
    (hk : k ≠ .eof) (ht : k.isTrivia = false) : firstPart ws = [.word k] := by
  cases ws with
  | nil => exact absurd h.symm hk
  | cons w ws =>
    obtain rfl : w.kind = k := h
    show [Tree.token w].filterMap Tree.part? = _
    simp [Tree.part?, Token.isTrivia, ht]

namespace Action

variable {R α β : Type}

/-- Each node that the action makes has the parts that it wants, when `ws` is ahead and the frame
has the parts `ps`; and then `Q` holds of its answer, the words it leaves and the parts.  `needs`
says what parts calls go on with, and `gives` what they make of them.  Behind a problem nothing is
asked for. -/
def Forms (needs : R → List Part → Prop) (gives : R → List Part → List Part → Prop) {α : Type} :
    Action R α → (α → List Token → List Part → Prop) → List Token → List Part → Prop
  | .pure a, Q, ws, ps => Q a ws ps
  | .bind first next, Q, ws, ps =>
    first.Forms needs gives (fun a ws ps => (next a).Forms needs gives Q ws ps) ws ps
  | .look decide _, Q, ws, ps => Q (decide ws) ws ps
  | .skipTrivia, Q, ws, ps => Q () ws ps
  | .take, Q, ws, ps => Q () ws.tail (ps ++ Words.firstPart ws)
  | .takeHalf, Q, _, ps => ∀ ws new, Q () ws (ps ++ new)
  | .report _, _, _, _ => True
  | .opening _ _, Q, ws, ps => Q () ws ps
  | .enclose k, Q, ws, ps => k.WantsParts ps ∧ Q () ws [.node k]
  | .frame body, Q, ws, ps => body.Forms needs gives (fun a ws new => Q a ws (ps ++ new)) ws []
  | .idle body, Q, ws, ps =>
    body.Forms needs gives (fun _ ws' ps => Q (ws'.length == ws.length) ws' ps) ws ps
  | .call r, Q, _, ps => needs r ps ∧ ∀ b ws' ps', gives r ps ps' → Q b ws' ps'

/-- Done in a frame of its own, the action makes each node of the right parts. -/
def Formed (needs : R → List Part → Prop) (gives : R → List Part → List Part → Prop)
    (a : Action R α) : Prop :=
  ∀ ws, a.Forms needs gives (fun _ _ _ => True) ws []

/-- The action makes only nodes that want no parts, and calls what needs none.  Unless it stands in
a frame of its own it encloses nothing, nor does what it calls.  In frames inside it may make other
nodes, if these are `Formed`. -/
def Plain (needs : R → List Part → Prop) (gives : R → List Part → List Part → Prop) {α : Type} :
    Bool → Action R α → Prop
  | inner, .bind first next =>
    first.Plain needs gives inner ∧ ∀ a, (next a).Plain needs gives inner
  | inner, .enclose k => inner = true ∧ k.isFree = true
  | _, .frame body => body.Plain needs gives true ∨ body.Formed needs gives
  | inner, .idle body => body.Plain needs gives inner
  | inner, .call r => (∀ ps, needs r ps) ∧ (inner = true ∨ ∀ ps ps', gives r ps ps' → ps <+: ps')
  | _, _ => True

/-- The action puts parts behind those of its frame until, in the end, it encloses all of them as a
node of a kind that satisfies `K`. -/
def Closes (needs : R → List Part → Prop) (gives : R → List Part → List Part → Prop)
    (K : Kind → Prop) {α : Type} : Action R α → Prop
  | .bind first next =>
    first.Plain needs gives false ∧ ∀ a, (next a).Closes needs gives K
  | .report _ => True
  | .enclose k => K k
  | _ => False

variable {needs : R → List Part → Prop} {gives : R → List Part → List Part → Prop}

theorem Forms.mono {a : Action R α} {Q Q' : α → List Token → List Part → Prop}
    (hQ : ∀ v ws ps, Q v ws ps → Q' v ws ps) {ws : List Token} {ps : List Part}
    (h : a.Forms needs gives Q ws ps) : a.Forms needs gives Q' ws ps := by
  induction a generalizing ws ps with
  | bind first next ihf ihn => exact ihf (fun v ws ps hv => ihn v hQ hv) h
  | takeHalf => exact fun ws new => hQ _ _ _ (h ws new)
  | report => trivial
  | enclose => exact ⟨h.1, hQ _ _ _ h.2⟩
  | frame a ih | idle a ih => exact ih (fun v ws new hv => hQ _ _ _ hv) h
  | call r => exact ⟨h.1, fun b ws' ps' hgives => hQ _ _ _ (h.2 b ws' ps' hgives)⟩
  | _ => exact hQ _ _ _ h

/-- **Plain actions form their nodes.**  An action that encloses nothing puts further parts behind
those that are there; in a frame of its own any parts may come of it. -/
theorem Plain.forms {a : Action R α} {inner : Bool} (h : a.Plain needs gives inner)
    {Q : α → List Token → List Part → Prop} {ws : List Token} {ps : List Part}
    (hQ : ∀ v ws' ps', inner = true ∨ ps <+: ps' → Q v ws' ps') : a.Forms needs gives Q ws ps := by
  induction a generalizing inner ws ps with
  | bind first next ihf ihn =>
    refine ihf h.1 fun v ws' ps' hps' => ihn v (h.2 v) fun v' ws'' ps'' hps'' => hQ _ _ _ ?_
    rcases hps' with hinner | hps'
    · exact .inl hinner
    · exact hps''.imp_right hps'.trans
  | take => exact hQ _ _ _ (.inr (List.prefix_append ps _))
  | takeHalf => exact fun ws' new => hQ _ _ _ (.inr (List.prefix_append ps new))
  | report => trivial
  | enclose k => exact ⟨k.wantsParts_of_isFree h.2 ps, hQ _ _ _ (.inl h.1)⟩
  | frame a ih =>
    have hframe : ∀ v ws' new, Q v ws' (ps ++ new) :=
      fun v ws' new => hQ _ _ _ (.inr (List.prefix_append ps new))
    rcases h with h | h
    · exact ih h fun v ws' new _ => hframe v ws' new
    · exact (h ws).mono fun v ws' new _ => hframe v ws' new
  | idle a ih => exact ih h fun v ws' ps' hps' => hQ _ _ _ hps'
  | call r =>
    refine ⟨h.1 ps, fun b ws' ps' hgives => hQ _ _ _ ?_⟩
    exact h.2.imp_right fun happends => happends ps ps' hgives
  | _ => exact hQ _ _ _ (.inr List.prefix_rfl)

/-- **Nodes around what is there.**  The node has the parts that its kind wants, if it does so
whatever further parts there are. -/
theorem Closes.forms {K : Kind → Prop} {a : Action R α} (h : a.Closes needs gives K)
    {Q : α → List Token → List Part → Prop} {ws : List Token} {ps : List Part}
    (hQ : ∀ v ws' ps' k, ps <+: ps' → K k → k.WantsParts ps' ∧ Q v ws' [.node k]) :
    a.Forms needs gives Q ws ps := by
  induction a generalizing ws ps with
  | bind first next ihf ihn =>
    refine Plain.forms h.1 fun v ws' ps' hps' => ihn v (h.2 v) fun v' ws'' ps'' k hps'' => ?_
    exact hQ v' ws'' ps'' k ((hps'.resolve_left nofun).trans hps'')
  | enclose k => exact hQ () ws ps k List.prefix_rfl h
  | report => trivial
  | _ => cases h

end Action

/-! ## Readings -/

namespace ReadState

/-- The parts of the innermost frame. -/
def parts (s : ReadState) : List Part := Tree.partsOf s.built.reverse

/-- Neither the words ahead nor the trees built have an error in them, and each node built has the
parts that it wants. -/
structure WellFormed (s : ReadState) : Prop where
  words : ∀ w ∈ s.words, w.kind ≠ .error
  gaps : ∀ gap ∈ s.gaps, ∀ w ∈ gap, w.isTrivia = true
  built : ∀ t ∈ s.built, t.WellFormed

variable {s : ReadState}

theorem wellFormed_trivia {w : Token} (h : w.isTrivia = true) : (Tree.token w).WellFormed :=
  .token fun hk => by
    rw [Token.isTrivia, hk] at h
    cases h

theorem WellFormed.gap (h : s.WellFormed) : ∀ w ∈ s.gap, w.isTrivia = true := by
  unfold ReadState.gap
  cases hg : s.gaps with
  | nil => exact List.forall_mem_nil _
  | cons gap gaps => exact h.gaps gap (by simp [hg])

theorem WellFormed.skipTrivia (h : s.WellFormed) : s.skipTrivia.WellFormed := by
  refine ⟨h.words, ?_, fun t ht => ?_⟩
  · rw [ReadState.skipTrivia]
    cases hg : s.gaps with
    | nil => exact List.forall_mem_nil _
    | cons gap gaps =>
      refine List.forall_mem_cons.mpr ⟨List.forall_mem_nil _, fun gap' hgap => h.gaps gap' ?_⟩
      rw [hg]
      exact List.mem_cons_of_mem _ hgap
  · rcases List.mem_append.mp ht with ht | ht
    · obtain ⟨w, hw, rfl⟩ := List.mem_map.mp ht
      exact wellFormed_trivia (h.gap w (List.mem_reverse.mp hw))
    · exact h.built t ht

theorem WellFormed.parts_skipTrivia (h : s.WellFormed) : s.skipTrivia.parts = s.parts := by
  rw [parts, ReadState.skipTrivia, List.reverse_append, ← List.map_reverse, List.reverse_reverse,
    Tree.partsOf_append, Tree.partsOf_trivia h.gap, List.append_nil, parts]

theorem WellFormed.take (h : s.WellFormed) : s.take.WellFormed := by
  have hskip := h.skipTrivia
  cases hw : s.skipTrivia.words with
  | nil =>
    simp only [ReadState.take, hw]
    exact hskip
  | cons w ws =>
    simp only [ReadState.take, hw]
    have hwords : ∀ v ∈ w :: ws, v.kind ≠ .error := hw ▸ hskip.words
    refine ⟨fun v hv => hwords v (List.mem_cons_of_mem w hv), fun gap hgap => ?_, ?_⟩
    · exact hskip.gaps gap (List.mem_of_mem_drop hgap)
    · exact List.forall_mem_cons.mpr ⟨.token (hwords w List.mem_cons_self), hskip.built⟩

theorem WellFormed.parts_take (h : s.WellFormed) :
    s.take.parts = s.parts ++ Words.firstPart s.words := by
  rw [← h.parts_skipTrivia, ReadState.take]
  have hwords : s.skipTrivia.words = s.words := rfl
  rw [← hwords]
  cases hw : s.skipTrivia.words with
  | nil => simp [Words.firstPart]
  | cons w ws => simp [parts, Words.firstPart]

theorem WellFormed.splitShift (h : s.WellFormed) : s.splitShift.WellFormed := by
  unfold ReadState.splitShift
  split
  · rename_i text ws hw
    refine ⟨fun v hv => ?_, fun gap hgap => ?_, h.built⟩
    · simp only [List.mem_cons] at hv
      rcases hv with rfl | rfl | hv
      · decide
      · decide
      · exact h.words v (hw ▸ List.mem_cons_of_mem _ hv)
    · simp only [List.mem_cons] at hgap
      rcases hgap with rfl | rfl | hgap
      · exact h.gap
      · exact List.forall_mem_nil _
      · exact h.gaps gap (List.mem_of_mem_drop hgap)
  · exact h

theorem parts_splitShift : s.splitShift.parts = s.parts := by
  unfold ReadState.splitShift
  split <;> rfl

end ReadState

namespace Action

variable {R α : Type} {needs : R → List Part → Prop} {gives : R → List Part → List Part → Prop}

/-- A way to answer calls notes problems and forgets none, and while there are none it leaves
well-formed trees and makes of the parts what `gives` says. -/
def Forming (needs : R → List Part → Prop) (gives : R → List Part → List Part → Prop)
    (partly : R → ReadState → Option (Bool × ReadState)) : Prop :=
  ∀ ⦃r s v t⦄, partly r s = some (v, t) →
    s.found <:+ t.found ∧ (s.WellFormed → needs r s.parts → t.found = [] →
      t.WellFormed ∧ gives r s.parts t.parts)

/-- **One run of an action that forms its nodes.**  If no problem has been noted in the end, there
was none on the way. -/
theorem wellFormed_of_complete {partly : R → ReadState → Option (Bool × ReadState)}
    (hpartly : Forming needs gives partly) (a : Action R α) {Q : α → List Token → List Part → Prop}
    {s t : ReadState} {v : α} (hs : s.WellFormed) (h : a.complete partly s = some (v, t))
    (hforms : a.Forms needs gives Q s.words s.parts) (hfound : t.found = []) :
    t.WellFormed ∧ Q v t.words t.parts := by
  induction a generalizing s t with
  | bind first next ihf ihn =>
    obtain ⟨⟨w, u⟩, hfirst, hnext⟩ := Option.bind_eq_some_iff.mp h
    have hnone : u.found = [] :=
      List.suffix_nil.mp (hfound ▸ found_suffix_of_complete (fun h => (hpartly h).1) (next w) hnext)
    obtain ⟨hu, hforms'⟩ := ihf hs hfirst hforms hnone
    exact ihn w hu hnext hforms' hfound
  | pure | look | opening =>
    obtain ⟨rfl, rfl⟩ := Prod.mk.inj (Option.some.inj h)
    exact ⟨hs, hforms⟩
  | skipTrivia =>
    obtain ⟨rfl, rfl⟩ := Prod.mk.inj (Option.some.inj h)
    exact ⟨hs.skipTrivia, hs.parts_skipTrivia ▸ hforms⟩
  | take =>
    obtain ⟨rfl, rfl⟩ := Prod.mk.inj (Option.some.inj h)
    refine ⟨hs.take, ?_⟩
    rw [hs.parts_take, ReadState.take_words]
    exact hforms
  | takeHalf =>
    obtain ⟨rfl, rfl⟩ := Prod.mk.inj (Option.some.inj h)
    refine ⟨hs.splitShift.take, ?_⟩
    rw [ReadState.takeHalf, hs.splitShift.parts_take, ReadState.parts_splitShift]
    exact hforms _ _
  | report problem =>
    obtain ⟨rfl, rfl⟩ := Prod.mk.inj (Option.some.inj h)
    cases hfound
  | enclose k =>
    obtain ⟨rfl, rfl⟩ := Prod.mk.inj (Option.some.inj h)
    obtain ⟨hparts, hQ⟩ := hforms
    refine ⟨⟨hs.words, hs.gaps, ?_⟩, hQ⟩
    refine List.forall_mem_singleton.mpr (.node hparts fun t ht => hs.built t ?_)
    exact List.mem_reverse.mp ht
  | frame a ih =>
    obtain ⟨⟨w, u⟩, hinner, heq⟩ := Option.map_eq_some_iff.mp h
    obtain ⟨rfl, rfl⟩ := Prod.mk.inj heq
    have hempty : ReadState.WellFormed { s with built := [] } :=
      ⟨hs.words, hs.gaps, List.forall_mem_nil _⟩
    obtain ⟨hu, hQ⟩ := ih hempty hinner hforms hfound
    refine ⟨⟨hu.words, hu.gaps, fun t ht => ?_⟩, ?_⟩
    · exact (List.mem_append.mp ht).elim (hu.built t) (hs.built t)
    · rw [ReadState.parts, List.reverse_append, Tree.partsOf_append]
      exact hQ
  | idle a ih =>
    obtain ⟨⟨w, u⟩, hinner, heq⟩ := Option.map_eq_some_iff.mp h
    obtain ⟨rfl, rfl⟩ := Prod.mk.inj heq
    exact ih hs.skipTrivia hinner (hs.parts_skipTrivia.symm ▸ hforms) hfound
  | call r =>
    obtain ⟨ht, hgives⟩ := (hpartly h).2 hs hforms.1 hfound
    exact ⟨ht, hforms.2 _ _ _ hgives⟩

/-- **All calls leave well-formed trees**, if every production forms its nodes. -/
theorem forming_completeRule {body : R → Action R Bool}
    (hbody : ∀ r ws ps, needs r ps →
      (body r).Forms needs gives (fun _ _ ps' => gives r ps ps') ws ps) (depth : Nat) :
    Forming needs gives (completeRule body depth) := by
  induction depth with
  | zero => nofun
  | succ depth ih =>
    intro r s v t h
    exact ⟨found_suffix_of_complete (fun h => (ih h).1) (body r) h, fun hs hneeds hfound =>
      wellFormed_of_complete ih (body r) hs h (hbody r s.words s.parts hneeds) hfound⟩

end Action

end LivePatch
