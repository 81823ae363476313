import LivePatch.Syntax.View
import LivePatch.Proofs.Reading
import Mathlib.Order.Lattice
import Mathlib.Order.MinMax

/-!
# What a frame has built

The trees that the grammar builds are more regular than `Tree` says, and the passes over them lean
on it: the parts of a name or of `this` are tokens, the value that a return statement returns has
something to show, and no method, type or return statement hides inside of it but in a lambda.
`Tree.Sound` says this of a whole tree.

A `Frame` is the little that has to be known about the innermost frame of a reading for a proof
that the grammar builds only sound trees.  `Frame.Describes` ties it to the state, and for each
step there is an operation on frames that follows it.
-/

namespace LivePatch

/-! ## Levels -/

/-- How much a tree may hold of what the pass over returned values looks for. -/
inductive Level where
  /-- Neither methods nor types, and return statements in lambdas only. -/
  | quiet
  /-- Neither methods nor types. -/
  | plain
  /-- Anything. -/
  | free
deriving DecidableEq, Repr

namespace Level

/-- The place of a level in their order. -/
def rank : Level → Nat
  | .quiet => 0
  | .plain => 1
  | .free => 2

theorem rank_injective : Function.Injective rank := by
  intro l m h
  cases l <;> cases m <;> first | rfl | cases h

instance : LinearOrder Level := LinearOrder.lift' rank rank_injective

@[simp] theorem quiet_le (l : Level) : quiet ≤ l := Nat.zero_le _

@[simp] theorem le_free (l : Level) : l ≤ free := by cases l <;> decide

/-- The level of a node of kind `k` by itself. -/
def ofKind : Kind → Level
  | .returnStatement => .plain
  | .methodDeclaration | .classDeclaration | .structDeclaration | .interfaceDeclaration
  | .recordDeclaration => .free
  | _ => .quiet

/-- The level that the parts of a node of kind `k` may have when the node may have `l`. -/
def below (k : Kind) (l : Level) : Level := if k = .lambdaExpression then max l plain else l

/-- The level of a node of kind `k` whose parts have `l`. -/
def around (k : Kind) (l : Level) : Level :=
  if k = .lambdaExpression ∧ l ≤ plain then quiet else max l (ofKind k)

theorem ofKind_le_around (k : Kind) (l : Level) : ofKind k ≤ around k l := by
  unfold around
  split
  · rename_i h
    rw [h.1]
    exact quiet_le _
  · exact le_max_right _ _

theorem le_below_around (k : Kind) (l : Level) : l ≤ below k (around k l) := by
  unfold below around
  by_cases hk : k = .lambdaExpression
  · simp only [hk, true_and, if_true]
    split
    · rename_i h
      exact le_max_of_le_right h
    · exact le_max_of_le_left (le_max_left _ _)
  · simp [hk]

theorem below_mono (k : Kind) {l m : Level} (h : l ≤ m) : below k l ≤ below k m := by
  unfold below
  split
  · exact max_le_max_right _ h
  · exact h

end Level

namespace Tree

mutual

/-- Is the tree of at most the given level? -/
def Within : Level → Tree → Prop
  | _, .token _ => True
  | l, .node k parts => Level.ofKind k ≤ l ∧ WithinAll (Level.below k l) parts

/-- Are all trees of at most the given level? -/
def WithinAll : Level → List Tree → Prop
  | _, [] => True
  | l, t :: ts => Within l t ∧ WithinAll l ts

end

theorem withinAll_iff {l : Level} {ts : List Tree} : WithinAll l ts ↔ ∀ t ∈ ts, t.Within l := by
  induction ts with
  | nil => simp [WithinAll]
  | cons t ts ih => simp [WithinAll, ih]

@[simp] theorem within_token (l : Level) (t : Token) : (token t).Within l := by
  simp [Within]

theorem within_node {l : Level} {k : Kind} {ts : List Tree} :
    (node k ts).Within l ↔ Level.ofKind k ≤ l ∧ ∀ t ∈ ts, t.Within (Level.below k l) := by
  rw [Within, withinAll_iff]

theorem Within.mono {t : Tree} {l m : Level} (h : t.Within l) (hle : l ≤ m) : t.Within m := by
  induction t using inductionOn generalizing l m with
  | leaf w => exact within_token m w
  | part k ts ih =>
    obtain ⟨hk, hts⟩ := within_node.mp h
    exact within_node.mpr ⟨hk.trans hle, fun t ht => ih t ht (hts t ht) (Level.below_mono k hle)⟩

/-! ## Sound trees -/

/-- Is the tree an identifier or a type argument list? -/
def IsNamePart : Tree → Prop
  | .token t => t.kind = .identifier
  | .node k _ => k = .typeArgumentList

/-- What a name consists of: nothing, an identifier, or also type arguments. -/
def IsName (parts : List Tree) : Prop :=
  parts = [] ∨ (∃ t, parts = [.token t] ∧ t.kind = .identifier) ∨
    ((∀ p ∈ parts, p.IsNamePart) ∧ ∃ p ∈ parts, p.isNode = true)

/-- A tree that has something to show if it is an expression. -/
def IsShown (t : Tree) : Prop := t.isNode = true → t.kind.isExpression = true → t.isSolid = true

/-- What the parts of a node of kind `k` are known to be. -/
def HasParts (k : Kind) (parts : List Tree) : Prop :=
  match k with
  | .thisExpression => bare parts = [.token ⟨.thisKw, "this"⟩]
  | .nameExpression => IsName (bare parts)
  | .returnStatement => ∀ t ∈ parts, t.Within .quiet ∧ t.IsShown
  | _ => True

mutual

/-- Are the parts of each node what they should be? -/
def Sound : Tree → Prop
  | .token _ => True
  | .node k parts => HasParts k parts ∧ SoundAll parts

/-- Is each of the trees sound? -/
def SoundAll : List Tree → Prop
  | [] => True
  | t :: ts => Sound t ∧ SoundAll ts

end

theorem soundAll_iff {ts : List Tree} : SoundAll ts ↔ ∀ t ∈ ts, t.Sound := by
  induction ts with
  | nil => simp [SoundAll]
  | cons t ts ih => simp [SoundAll, ih]

@[simp] theorem sound_token (t : Token) : (token t).Sound := by
  simp [Sound]

theorem sound_node {k : Kind} {ts : List Tree} :
    (node k ts).Sound ↔ HasParts k ts ∧ ∀ t ∈ ts, t.Sound := by
  rw [Sound, soundAll_iff]

end Tree

/-! ## Shapes -/

/-- What is known about the trees in a frame, trivia apart. -/
inductive Shape where
  /-- There are none. -/
  | trivia
  /-- One word of the given kind. -/
  | word (kind : Kind)
  /-- Identifiers and at least one type argument list. -/
  | name
  /-- One expression with something to show, or an error node that goes with a problem. -/
  | value
  /-- Anything in which each expression has something to show. -/
  | values
  /-- Anything. -/
  | mixed
deriving DecidableEq

namespace Shape

/-- Does each expression have something to show? -/
def isLight : Shape → Bool
  | .mixed => false
  | _ => true

/-- Do the trees have the shape?  `noted` says whether a problem was found. -/
def Fits (noted : Prop) : Shape → List Tree → Prop
  | .trivia, ts => ts = []
  | .word k, ts => ∃ t : Token, ts = [.token t] ∧ t.kind = k ∧ t.IsPiece
  | .name, ts => (∀ t ∈ ts, t.IsNamePart) ∧ ∃ t ∈ ts, t.isNode = true
  | .value, ts => ∃ k parts, ts = [.node k parts] ∧
      ((k.isExpression = true ∧ (Tree.node k parts).isSolid = true) ∨ (k = .error ∧ noted))
  | .values, ts => ∀ t ∈ ts, t.IsShown
  | .mixed, _ => True

/-- The shape with one more word. -/
def take (k : Kind) : Shape → Shape
  | .trivia => .word k
  | .mixed => .mixed
  | _ => .values

/-- The shape of trees with further trees behind them. -/
def merge : Shape → Shape → Shape
  | .trivia, s => s
  | s, .trivia => s
  | .word .identifier, .name => .name
  | s, t => if s.isLight && t.isLight then .values else .mixed

/-- The shape of one node around everything; `solid` says whether it has something to show. -/
def enclosed (k : Kind) (solid : Bool) : Shape :=
  if k.isExpression && solid || k == .error then .value
  else if k == .typeArgumentList then .name
  else .mixed

theorem isShown_token (t : Token) : (Tree.token t).IsShown := nofun

theorem Fits.isShown {noted : Prop} {s : Shape} {ts : List Tree} (h : s.Fits noted ts)
    (hl : s.isLight = true) : ∀ t ∈ ts, t.IsShown := by
  cases s with
  | trivia => rw [show ts = [] from h]; simp
  | word k =>
    obtain ⟨t, rfl, -⟩ := h
    simpa using isShown_token t
  | name =>
    intro t ht hn he
    have hp := h.1 t ht
    cases t with
    | token w => cases hn
    | node k parts =>
      obtain rfl : k = .typeArgumentList := hp
      cases he
  | value =>
    obtain ⟨k, parts, rfl, ⟨-, hs⟩ | ⟨rfl, -⟩⟩ := h
    · exact List.forall_mem_singleton.mpr fun _ _ => hs
    · exact List.forall_mem_singleton.mpr fun _ he => nomatch he
  | values => exact h
  | mixed => cases hl

theorem Fits.mono {p q : Prop} (hpq : p → q) {s : Shape} {ts : List Tree} (h : s.Fits p ts) :
    s.Fits q ts := by
  cases s with
  | value =>
    obtain ⟨k, parts, hts, hk | hk⟩ := h
    · exact ⟨k, parts, hts, .inl hk⟩
    · exact ⟨k, parts, hts, .inr ⟨hk.1, hpq hk.2⟩⟩
  | _ => exact h

theorem Fits.take {noted : Prop} {s : Shape} {ts : List Tree} (h : s.Fits noted ts) {w : Token}
    (hw : w.IsPiece) : (s.take w.kind).Fits noted (ts ++ [.token w]) := by
  have shown (hl : s.isLight = true) : ∀ t ∈ ts ++ [.token w], t.IsShown := by
    intro t ht
    rcases List.mem_append.mp ht with ht | ht
    · exact h.isShown hl t ht
    · rw [List.mem_singleton.mp ht]
      exact isShown_token w
  cases s with
  | trivia =>
    rw [show ts = [] from h]
    exact ⟨w, rfl, rfl, hw⟩
  | mixed => trivial
  | word | name | value | values => exact shown rfl

theorem Fits.merge {noted : Prop} {s s' : Shape} {ts us : List Tree} (h : s.Fits noted ts)
    (k : s'.Fits noted us) : (s.merge s').Fits noted (ts ++ us) := by
  have light : (if s.isLight && s'.isLight then values else mixed).Fits noted (ts ++ us) := by
    split
    · rename_i hl
      obtain ⟨hl, hl'⟩ := Bool.and_eq_true_iff.mp hl
      intro t ht
      rcases List.mem_append.mp ht with ht | ht
      · exact h.isShown hl t ht
      · exact k.isShown hl' t ht
    · trivial
  unfold Shape.merge
  split
  · rwa [show ts = [] from h]
  · rw [show us = [] from k, List.append_nil]
    exact h
  · obtain ⟨t, rfl, ht, -⟩ := h
    obtain ⟨hall, p, hp, hn⟩ := k
    exact ⟨by simpa using ⟨ht, hall⟩, p, by simp [hp], hn⟩
  · exact light

end Shape

/-! ## Frames -/

/-- What is known about the innermost frame of a reading. -/
structure Frame where
  shape : Shape
  /-- The level of all trees in it. -/
  level : Level
  /-- Has it something to show? -/
  solid : Bool
  /-- Was a problem found, here or before? -/
  noted : Bool

namespace Frame

/-- The frame with one more word. -/
def take (k : Kind) (x : Frame) : Frame := { x with shape := x.shape.take k, solid := true }

/-- The frame after a problem. -/
def note (x : Frame) : Frame := { x with noted := true }

/-- The frame with everything in one node. -/
def enclose (k : Kind) (x : Frame) : Frame :=
  { x with shape := .enclosed k x.solid, level := .around k x.level }

/-- A new frame inside. -/
def inner (x : Frame) : Frame := ⟨.trivia, .quiet, false, x.noted⟩

/-- The frame with what a frame inside has built. -/
def merge (x y : Frame) : Frame :=
  ⟨x.shape.merge y.shape, max x.level y.level, x.solid || y.solid, y.noted⟩

/-- May all that is in the frame become one node of kind `k`? -/
def Allows (k : Kind) (x : Frame) : Prop :=
  match k with
  | .thisExpression => x.shape = .word .thisKw
  | .nameExpression => x.shape = .trivia ∨ x.shape = .word .identifier ∨ x.shape = .name
  | .returnStatement => x.shape.isLight = true ∧ x.level = .quiet
  | .error => x.noted = true
  | _ => True

/-- What the frame says is true of the state. -/
structure Describes (x : Frame) (s : ReadState) : Prop where
  shape : x.shape.Fits (s.found ≠ []) (Tree.bare s.built.reverse)
  within : ∀ t ∈ s.built, t.Within x.level
  sound : ∀ t ∈ s.built, t.Sound
  solid : x.solid = true → ∃ t ∈ s.built, t.isSolid = true
  noted : x.noted = true → s.found ≠ []

namespace Describes

open ReadState (Orderly)

variable {x y : Frame} {s : ReadState}

theorem inner (h : x.Describes s) : x.inner.Describes { s with built := [] } :=
  ⟨rfl, List.forall_mem_nil _, List.forall_mem_nil _, nofun, h.noted⟩

theorem skipTrivia (h : x.Describes s) (ho : s.Orderly) : x.Describes s.skipTrivia := by
  have hgap : ∀ t ∈ s.gap, t.isTrivia = true := by
    intro t ht
    cases hg : s.gaps with
    | nil => simp [ReadState.gap, hg] at ht
    | cons gap gaps =>
      rw [ReadState.gap, hg] at ht
      exact ho.trivia gap (hg ▸ List.mem_cons_self) t ht
  have hbare : Tree.bare s.skipTrivia.built.reverse = Tree.bare s.built.reverse := by
    simp [ReadState.skipTrivia, ← List.map_reverse, Tree.bare_tokens hgap]
  have hmem : ∀ t ∈ s.skipTrivia.built, (∃ w, t = .token w) ∨ t ∈ s.built := by
    intro t ht
    rcases List.mem_append.mp ht with ht | ht
    · obtain ⟨w, -, rfl⟩ := List.mem_map.mp ht
      exact .inl ⟨w, rfl⟩
    · exact .inr ht
  refine ⟨hbare ▸ h.shape, fun t ht => ?_, fun t ht => ?_, fun hs => ?_, h.noted⟩
  · rcases hmem t ht with ⟨w, rfl⟩ | ht
    exacts [Tree.within_token _ w, h.within t ht]
  · rcases hmem t ht with ⟨w, rfl⟩ | ht
    exacts [Tree.sound_token w, h.sound t ht]
  · obtain ⟨t, ht, hs⟩ := h.solid hs
    exact ⟨t, List.mem_append_right _ ht, hs⟩

/-- One more word, after the trivia in front of it. -/
theorem push (h : x.Describes s) {w : Token} (hw : w.IsPiece) (hs : w.isTrivia = false)
    {words : List Token} {gaps : List (List Token)} {offset : Nat} :
    (x.take w.kind).Describes ⟨words, gaps, offset, .token w :: s.built, s.found⟩ := by
  have hbare : Tree.bare (Tree.token w :: s.built).reverse =
      Tree.bare s.built.reverse ++ [.token w] := by
    simp [Tree.bare, Tree.isTriviaToken, hs]
  refine ⟨hbare ▸ h.shape.take hw, ?_, ?_, fun _ => ?_, h.noted⟩
  · exact List.forall_mem_cons.mpr ⟨Tree.within_token _ w, h.within⟩
  · exact List.forall_mem_cons.mpr ⟨Tree.sound_token w, h.sound⟩
  · exact ⟨.token w, List.mem_cons_self, by simp [Tree.isSolid, Token.isSignificant, hs]⟩

theorem take (h : x.Describes s) (ho : s.Orderly) (he : Words.front s.words ≠ .eof) :
    (x.take (Words.front s.words)).Describes s.take := by
  obtain ⟨w, ws, gap, gaps, hw, hg, hp, ht, -⟩ := ho.uncons he
  have hskip := h.skipTrivia ho
  simp only [ReadState.skipTrivia, ReadState.gap, hg, List.headD_cons] at hskip
  rw [ReadState.take_of_cons hw hg, hw]
  exact hskip.push hp ht

theorem takeHalf (h : x.Describes s) (ho : s.Orderly)
    (he : Words.front s.words = .rightShift) : (x.take .greater).Describes s.takeHalf := by
  obtain ⟨w, ws, gap, gaps, -, hg, -⟩ := ho.uncons (by rw [he]; decide)
  obtain ⟨ws', hw⟩ := ho.eq_shift he
  have hskip := h.skipTrivia ho
  simp only [ReadState.skipTrivia, ReadState.gap, hg, List.headD_cons] at hskip
  rw [ReadState.takeHalf_of_cons hw hg]
  exact hskip.push Token.isPiece_closingAngle rfl

theorem report (h : x.Describes s) (ho : s.Orderly) (problem : Problem) :
    x.note.Describes (s.report problem) := by
  have hskip := h.skipTrivia ho
  exact ⟨hskip.shape.mono fun _ => List.cons_ne_nil _ _, hskip.within, hskip.sound, hskip.solid,
    fun _ => List.cons_ne_nil _ _⟩

/-- The parts of the node that a frame becomes are what they should be. -/
theorem hasParts (h : x.Describes s) {k : Kind} (ha : x.Allows k) :
    Tree.HasParts k s.built.reverse := by
  have hshape := h.shape
  unfold Tree.HasParts
  split
  · rw [show x.shape = .word .thisKw from ha] at hshape
    obtain ⟨t, hb, hk, hp⟩ := hshape
    rw [hb, hp.eq_this hk]
  · obtain ha | ha | ha := ha
    · exact .inl (by rwa [ha] at hshape)
    · rw [ha] at hshape
      obtain ⟨t, hb, hk, -⟩ := hshape
      exact .inr (.inl ⟨t, hb, hk⟩)
    · exact .inr (.inr (by rwa [ha] at hshape))
  · obtain ⟨hl, hq⟩ := ha
    intro t ht
    refine ⟨hq ▸ h.within t (List.mem_reverse.mp ht), ?_⟩
    cases hb : t.isTriviaToken with
    | false => exact hshape.isShown hl t (Tree.mem_bare.mpr ⟨ht, hb⟩)
    | true =>
      cases t with
      | token w => exact Shape.isShown_token w
      | node => cases hb
  · trivial

theorem enclose (h : x.Describes s) {k : Kind} (ha : x.Allows k) :
    (x.enclose k).Describes (s.enclose k) := by
  have hsolid : x.solid = true → (Tree.node k s.built.reverse).isSolid = true := by
    intro hs
    obtain ⟨t, ht, hs⟩ := h.solid hs
    exact Tree.isSolid_node.mpr ⟨t, List.mem_reverse.mpr ht, hs⟩
  refine ⟨?_, ?_, ?_, fun hs => ⟨_, List.mem_singleton_self _, hsolid hs⟩, h.noted⟩
  · show (Shape.enclosed k x.solid).Fits _ [Tree.node k s.built.reverse]
    unfold Shape.enclosed
    split
    · rename_i hk
      refine ⟨k, _, rfl, ?_⟩
      simp only [Bool.or_eq_true, Bool.and_eq_true, beq_iff_eq] at hk
      rcases hk with ⟨hk, hs⟩ | rfl
      · exact .inl ⟨hk, hsolid hs⟩
      · exact .inr ⟨rfl, h.noted ha⟩
    · split
      · rename_i hk
        exact ⟨List.forall_mem_singleton.mpr (beq_iff_eq.mp hk), _, List.mem_singleton_self _, rfl⟩
      · trivial
  · refine List.forall_mem_singleton.mpr (Tree.within_node.mpr ⟨Level.ofKind_le_around k _, ?_⟩)
    intro t ht
    exact (h.within t (List.mem_reverse.mp ht)).mono (Level.le_below_around k _)
  · refine List.forall_mem_singleton.mpr (Tree.sound_node.mpr ⟨h.hasParts ha, ?_⟩)
    exact fun t ht => h.sound t (List.mem_reverse.mp ht)

theorem merge (h : x.Describes s) {s' : ReadState} (hy : y.Describes s')
    (hf : s.found <:+ s'.found) :
    (x.merge y).Describes { s' with built := s'.built ++ s.built } := by
  have hne : s.found ≠ [] → s'.found ≠ [] := by
    rintro hs hnil
    rw [hnil] at hf
    exact hs (List.suffix_nil.mp hf)
  refine ⟨?_, fun t ht => ?_, fun t ht => ?_, fun hs => ?_, hy.noted⟩
  · show (x.shape.merge y.shape).Fits _ (Tree.bare (s'.built ++ s.built).reverse)
    rw [List.reverse_append, Tree.bare_append]
    exact (h.shape.mono hne).merge hy.shape
  · rcases List.mem_append.mp ht with ht | ht
    · exact (hy.within t ht).mono (le_max_right _ _)
    · exact (h.within t ht).mono (le_max_left _ _)
  · rcases List.mem_append.mp ht with ht | ht
    exacts [hy.sound t ht, h.sound t ht]
  · rcases Bool.or_eq_true_iff.mp hs with hs | hs
    · obtain ⟨t, ht, hs⟩ := h.solid hs
      exact ⟨t, List.mem_append_right _ ht, hs⟩
    · obtain ⟨t, ht, hs⟩ := hy.solid hs
      exact ⟨t, List.mem_append_left _ ht, hs⟩

end Describes

end Frame

end LivePatch
