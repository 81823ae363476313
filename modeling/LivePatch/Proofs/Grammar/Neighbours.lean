import LivePatch.Proofs.Leaves
import LivePatch.Syntax.Parse
import Mathlib.Data.List.Chain

/-!
# What stands next to a name

In a text without problems, names do not stand side by side: behind a name or `this` there comes
an operator, a bracket or a word of the grammar before the next name begins.  And the names that a
designation declares are bare words, not nodes.

Both are facts about how the words of a tree are arranged, so the leaves are given *marks*: a word
that is the whole of a name expression, one that is the whole of `this`, and all others.  To prove
them, each production is followed with two flags and no words at all: is the last word one of the
others, and are all words of the innermost frame?
-/

namespace LivePatch

/-- What a word stands for. -/
inductive Mark where
  /-- The word is a name expression. -/
  | name
  /-- The word is a reference to the object itself. -/
  | self
  /-- The word is part of something else. -/
  | other
deriving DecidableEq, Repr

/-- May a word with the second mark stand right behind one with the first?  A name stands behind
others only. -/
def Mark.Precedes (a b : Mark) : Prop := a = .other ∨ b ≠ .name

theorem Mark.getLastD_append (a : Mark) (as bs : List Mark) :
    (as ++ bs).getLastD a = bs.getLastD (as.getLastD a) := by
  cases bs <;> simp [List.getLastD_eq_getLast?]

theorem Mark.isChain_append {a : Mark} {as bs : List Mark} :
    (a :: (as ++ bs)).IsChain Precedes ↔
      (a :: as).IsChain Precedes ∧ (as.getLastD a :: bs).IsChain Precedes := by
  induction as generalizing a with
  | nil => simp
  | cons b as ih =>
    rw [List.cons_append, List.isChain_cons_cons, ih, List.isChain_cons_cons, List.getLastD_cons,
      and_assoc]

namespace Tree

mutual

/-- The marks of the words of a tree, in order. -/
def marks : Tree → List Mark
  | .token w => if w.isTrivia then [] else [.other]
  | .node k ts =>
    match k, bare ts with
    | .nameExpression, [.token _] => [.name]
    | .thisExpression, [.token _] => [.self]
    | _, _ => marksAll ts

/-- The marks of the words of several trees, in order. -/
def marksAll : List Tree → List Mark
  | [] => []
  | t :: ts => marks t ++ marksAll ts

end

@[simp] theorem marksAll_nil : marksAll [] = [] := by rw [marksAll]

@[simp] theorem marksAll_cons (t : Tree) (ts : List Tree) :
    marksAll (t :: ts) = marks t ++ marksAll ts := by rw [marksAll]

@[simp] theorem marksAll_append (ts us : List Tree) :
    marksAll (ts ++ us) = marksAll ts ++ marksAll us := by
  induction ts with
  | nil => simp
  | cons t ts ih => simp [ih]

theorem marks_token (w : Token) : marks (.token w) = if w.isTrivia then [] else [.other] := by
  rw [marks]

theorem marksAll_trivia {ws : List Token} (h : ∀ w ∈ ws, w.isTrivia = true) :
    marksAll (ws.map token) = [] := by
  induction ws with
  | nil => simp
  | cons w ws ih =>
    obtain ⟨hw, hws⟩ := List.forall_mem_cons.mp h
    simp [marks_token, hw, ih hws]

theorem marksAll_bare (ts : List Tree) : marksAll (bare ts) = marksAll ts := by
  induction ts with
  | nil => rfl
  | cons t ts ih =>
    by_cases ht : t.isTriviaToken = true
    · have hmarks : marks t = [] := by
        cases t with
        | token w => rw [marks_token, if_pos (by simpa [isTriviaToken] using ht)]
        | node k us => cases ht
      simpa [bare, ht, hmarks] using ih
    · simpa [bare, ht] using ih

/-- A node that is no single name or `this` has the marks of its parts. -/
theorem marks_node (k : Kind) (ts : List Tree) : marks (.node k ts) = marksAll ts ∨
    (∃ w, bare ts = [.token w]) ∧ marksAll ts = [.other] ∧
      (k = .nameExpression ∧ marks (.node k ts) = [.name] ∨
        k = .thisExpression ∧ marks (.node k ts) = [.self]) := by
  have hone : ∀ w, bare ts = [.token w] → marksAll ts = [.other] := by
    intro w hw
    have hmem : token w ∈ bare ts := by simp [hw]
    have htrivia : w.isTrivia = false := by simpa [isTriviaToken] using (mem_bare.mp hmem).2
    rw [← marksAll_bare, hw]
    simp [marks_token, htrivia]
  unfold marks
  split
  · rename_i w hw
    exact .inr ⟨⟨w, hw⟩, hone w hw, .inl ⟨rfl, rfl⟩⟩
  · rename_i w hw
    exact .inr ⟨⟨w, hw⟩, hone w hw, .inr ⟨rfl, rfl⟩⟩
  · exact .inl rfl

/-- In the tree, what a designation holds are bare words. -/
inductive Designates : Tree → Prop
  | token (w : Token) : Designates (.token w)
  | node {k : Kind} {ts : List Tree} :
      (k = .parenthesizedVariableDesignation → ∀ a ∈ marksAll ts, a = .other) →
      (∀ t ∈ ts, Designates t) → Designates (.node k ts)

end Tree

open LivePatch.Tree (marks marksAll)

/-! ## Following an action -/

namespace Rule

/-- Must the word in front of a call be one of the others?  It must unless the production starts
with such a word itself. -/
def opens : Rule → Bool
  | .operators _ | .moreTupleValues _ | .patternOperators | .moreDeclarators => false
  | _ => true

/-- Does a call behind one of the others end with one of them? -/
def closes : Rule → Bool
  | .expression _ | .arguments _ | .expressionList | .initializerElements | .primaryPattern
  | .pattern | .switchArms | .parameters _ | .enumMembers | .operators _ | .moreTupleValues _
  | .patternOperators | .moreDeclarators => false
  | _ => true

/-- Does a call build neither names nor `this`? -/
def plain : Rule → Bool
  | .designation | .designated => true
  | _ => false

end Rule

namespace Action

variable {α : Type}

/-- What the action needs for `Q` to hold of its answer and the flags that it leaves.  The flags
are: the word in front of the frame is one of the others (`e`), the last word is (`c`), and all
words of the frame are (`q`). -/
def Spaced {α : Type} : Action Rule α → (α → Bool → Bool → Prop) → Bool → Bool → Bool → Prop
  | .pure a, Q, _, c, q => Q a c q
  | .bind first next, Q, e, c, q => first.Spaced (fun a c q => (next a).Spaced Q e c q) e c q
  | .look decide _, Q, _, c, q => ∀ ws, Q (decide ws) c q
  | .skipTrivia, Q, _, c, q => Q () c q
  | .take, Q, _, _, q => Q () true q
  | .takeHalf, Q, _, _, q => Q () true q
  | .report _, Q, _, _, q => Q () true q
  | .opening _ _, Q, _, c, q => Q () c q
  | .enclose k, Q, e, c, q =>
    (k = .nameExpression → e = true) ∧ (k = .parenthesizedVariableDesignation → q = true) ∧
      if k = .nameExpression ∨ k = .thisExpression then Q () false false else Q () c q
  | .frame body, Q, _, c, q => body.Spaced (fun a c q' => Q a c (q && q')) c c true
  | .idle body, Q, e, c, q => body.Spaced (fun _ c q => ∀ b, Q b c q) e c q
  | .call r, Q, _, c, q => (r.opens = true → c = true) ∧ ∀ b, Q b (c && r.closes) (q && r.plain)

end Action

namespace ReadState

variable {m : Mark} {e c q : Bool} {s : ReadState}

/-- The marks of what the innermost frame has built, in order. -/
def marks (s : ReadState) : List Mark := marksAll s.built.reverse

/-- What the flags say of a state, when `m` is the mark in front of the innermost frame.  Where
names stand is of interest only as long as no problem was found; and where no word is left, none
can be taken. -/
structure Marked (m : Mark) (e c q : Bool) (s : ReadState) : Prop where
  gaps : ∀ gap ∈ s.gaps, ∀ w ∈ gap, w.isTrivia = true
  words : ∀ w ∈ s.words, w.isTrivia = false
  entry : s.found = [] → e = true → m = .other ∨ s.words = [] ∧ s.marks = []
  chain : s.found = [] → (m :: s.marks).IsChain Mark.Precedes
  last : s.found = [] → c = true → s.marks.getLastD m = .other ∨ s.words = []
  plain : q = true → ∀ a ∈ s.marks, a = .other
  designates : ∀ t ∈ s.built, t.Designates

/-- The second state is one that comes after the first: problems stay, and where no word is left
none is taken. -/
structure Precedes (s s' : ReadState) : Prop where
  found : s'.found = [] → s.found = []
  words : s.words = [] → s'.words = []
  marks : s.words = [] → s.marks = [] → s'.marks = []

theorem Precedes.refl (s : ReadState) : s.Precedes s := ⟨id, id, fun _ => id⟩

theorem Precedes.trans {s' s'' : ReadState} (h : s.Precedes s') (k : s'.Precedes s'') :
    s.Precedes s'' :=
  ⟨fun hf => h.found (k.found hf), fun hw => k.words (h.words hw),
    fun hw hm => k.marks (h.words hw) (h.marks hw hm)⟩

theorem marks_merge (s s' : ReadState) :
    marks { s' with built := s'.built ++ s.built } = s.marks ++ s'.marks := by
  simp [marks]

theorem marks_enclose (k : Kind) : (s.enclose k).marks = Tree.marks (.node k s.built.reverse) := by
  simp [marks, enclose]

theorem precedes_enclose (k : Kind) : s.Precedes (s.enclose k) := by
  refine ⟨id, id, fun _ hnil => ?_⟩
  rcases Tree.marks_node k s.built.reverse with hsame | ⟨-, hone, -⟩
  · rw [marks_enclose, hsame]
    exact hnil
  · rw [show marksAll s.built.reverse = s.marks from rfl, hnil] at hone
    cases hone

theorem Precedes.merge {s' : ReadState} (h : ({ s with built := [] } : ReadState).Precedes s') :
    s.Precedes { s' with built := s'.built ++ s.built } := by
  refine ⟨h.found, h.words, fun hw hm => ?_⟩
  rw [marks_merge, hm, h.marks hw rfl]
  rfl

namespace Marked

theorem trivia_gap (h : s.Marked m e c q) : ∀ w ∈ s.gap, w.isTrivia = true := by
  intro w hw
  unfold gap at hw
  cases hg : s.gaps with
  | nil => simp [hg] at hw
  | cons g gs =>
    rw [hg] at hw
    exact h.gaps g (by simp [hg]) w hw

theorem marks_skipTrivia (h : s.Marked m e c q) : s.skipTrivia.marks = s.marks := by
  have hgap : ∀ w ∈ s.gap, w.isTrivia = true := h.trivia_gap
  simp only [marks, skipTrivia, List.reverse_append, Tree.marksAll_append, ← List.map_reverse,
    List.reverse_reverse]
  rw [Tree.marksAll_trivia hgap, List.append_nil]

theorem skipTrivia (h : s.Marked m e c q) : s.skipTrivia.Marked m e c q := by
  have hmarks := h.marks_skipTrivia
  refine ⟨?_, h.words, ?_, ?_, ?_, ?_, ?_⟩
  · intro gap hgap
    simp only [ReadState.skipTrivia] at hgap
    cases hg : s.gaps with
    | nil => simp [hg] at hgap
    | cons g gs =>
      rw [hg] at hgap
      rcases List.mem_cons.mp hgap with rfl | hgap
      · simp
      · exact h.gaps gap (by simp [hg, hgap])
  · rw [hmarks]
    exact h.entry
  · rw [hmarks]
    exact h.chain
  · rw [hmarks]
    exact h.last
  · rw [hmarks]
    exact h.plain
  · intro t ht
    simp only [ReadState.skipTrivia, List.mem_append, List.mem_map] at ht
    rcases ht with ⟨w, -, rfl⟩ | ht
    · exact .token w
    · exact h.designates t ht

theorem precedes_skipTrivia (h : s.Marked m e c q) : s.Precedes s.skipTrivia :=
  ⟨id, id, fun _ hm => by rw [h.marks_skipTrivia, hm]⟩

theorem precedes_take (h : s.Marked m e c q) : s.Precedes s.take := by
  have hskip := h.precedes_skipTrivia
  unfold ReadState.take
  dsimp only
  split
  · exact hskip
  · rename_i w ws hw
    have hsome : s.words ≠ [] := by
      intro hnil
      rw [hskip.words hnil] at hw
      cases hw
    exact ⟨id, fun hnil => absurd hnil hsome, fun hnil => absurd hnil hsome⟩

theorem take (h : s.Marked m e c q) : s.take.Marked m e true q := by
  have hskip := h.skipTrivia
  unfold ReadState.take
  dsimp only
  split
  · rename_i hnil
    exact { hskip with last := fun _ _ => .inr hnil }
  · rename_i w ws hw
    have hword : w.isTrivia = false := hskip.words w (by simp [hw])
    generalize s.skipTrivia = s' at hskip hw
    have hmarks : ∀ (gaps : List (List Token)) (offset : Nat), marks { s' with
        words := ws, gaps := gaps, offset := offset, built := Tree.token w :: s'.built } =
        s'.marks ++ [.other] := by
      intro gaps offset
      simp [marks, Tree.marks_token, hword]
    refine ⟨?_, ?_, ?_, ?_, ?_, ?_, ?_⟩
    · intro gap hgap
      exact hskip.gaps gap (List.mem_of_mem_drop hgap)
    · intro v hv
      exact hskip.words v (by simp [hw, hv])
    · intro hfound he
      rcases hskip.entry hfound he with hm | ⟨hnil, -⟩
      · exact .inl hm
      · rw [hw] at hnil
        cases hnil
    · intro hfound
      rw [hmarks, Mark.isChain_append]
      exact ⟨hskip.chain hfound, by simp [Mark.Precedes]⟩
    · intro _ _
      rw [hmarks]
      exact .inl (by simp)
    · intro hq a ha
      rw [hmarks] at ha
      rcases List.mem_append.mp ha with ha | ha
      · exact hskip.plain hq a ha
      · exact List.mem_singleton.mp ha
    · intro t ht
      rcases List.mem_cons.mp ht with rfl | ht
      · exact .token w
      · exact hskip.designates t ht

theorem splitShift (h : s.Marked m e c q) : s.splitShift.Marked m e c q := by
  unfold ReadState.splitShift
  split
  · rename_i text ws hw
    refine ⟨?_, ?_, ?_, h.chain, ?_, h.plain, h.designates⟩
    · intro gap hgap
      rcases List.mem_cons.mp hgap with rfl | hgap
      · exact h.trivia_gap
      rcases List.mem_cons.mp hgap with rfl | hgap
      · simp
      · exact h.gaps gap (List.mem_of_mem_drop hgap)
    · intro v hv
      rcases List.mem_cons.mp hv with rfl | hv
      · rfl
      rcases List.mem_cons.mp hv with rfl | hv
      · rfl
      · exact h.words v (by simp [hw, hv])
    · intro hfound he
      rcases h.entry hfound he with hm | ⟨hnil, -⟩
      · exact .inl hm
      · rw [hw] at hnil
        cases hnil
    · intro hfound hc
      rcases h.last hfound hc with hlast | hnil
      · exact .inl hlast
      · rw [hw] at hnil
        cases hnil
  · exact h

theorem precedes_takeHalf (h : s.Marked m e c q) : s.Precedes s.takeHalf := by
  have htake := h.splitShift.precedes_take
  unfold ReadState.takeHalf
  unfold ReadState.splitShift at htake ⊢
  split
  · rename_i text ws hw
    rw [hw] at htake
    have hsome : s.words ≠ [] := by
      rw [hw]
      nofun
    exact ⟨htake.found, fun hnil => absurd hnil hsome, fun hnil => absurd hnil hsome⟩
  · exact h.precedes_take

theorem precedes_report (h : s.Marked m e c q) (problem : Problem) :
    s.Precedes (s.report problem) :=
  ⟨nofun, h.precedes_skipTrivia.words, h.precedes_skipTrivia.marks⟩

theorem report (h : s.Marked m e c q) (problem : Problem) :
    (s.report problem).Marked m e true q := by
  have hskip := h.skipTrivia
  exact ⟨hskip.gaps, hskip.words, nofun, nofun, nofun, hskip.plain, hskip.designates⟩

/-- A node around all that the frame has built. -/
theorem enclose (h : s.Marked m e c q) {k : Kind} (hname : k = .nameExpression → e = true)
    (hdesignates : k = .parenthesizedVariableDesignation → q = true) :
    (s.enclose k).Marked m e
      (if k = .nameExpression ∨ k = .thisExpression then false else c)
      (if k = .nameExpression ∨ k = .thisExpression then false else q) := by
  have hall : ∀ t ∈ (s.enclose k).built, t.Designates := by
    intro t ht
    rw [List.mem_singleton.mp ht]
    exact .node (fun hk => h.plain (hdesignates hk)) fun t ht =>
      h.designates t (List.mem_reverse.mp ht)
  have hmarks := marks_enclose (s := s) k
  rcases Tree.marks_node k s.built.reverse with hsame | ⟨-, hone, hk⟩
  · rw [show marksAll s.built.reverse = s.marks from rfl, ← hmarks] at hsame
    refine ⟨h.gaps, h.words, ?_, ?_, ?_, ?_, hall⟩
    · rw [hsame]
      exact h.entry
    · rw [hsame]
      exact h.chain
    · rw [hsame]
      intro hfound hc
      refine h.last hfound ?_
      split at hc
      · cases hc
      · exact hc
    · rw [hsame]
      intro hq
      refine h.plain ?_
      split at hq
      · cases hq
      · exact hq
  · -- The one word of the frame becomes a name or `this`.
    have hword : s.marks = [.other] := hone
    have hflag : k = .nameExpression ∨ k = .thisExpression := hk.imp And.left And.left
    rw [if_pos hflag, if_pos hflag]
    have hentry : s.found = [] → e = true → m = .other := by
      intro hfound he
      rcases h.entry hfound he with hm | ⟨-, hnil⟩
      · exact hm
      · rw [hword] at hnil
        cases hnil
    refine ⟨h.gaps, h.words, fun hfound he => .inl (hentry hfound he), ?_, nofun, nofun, hall⟩
    intro hfound
    rw [hmarks]
    rcases hk with ⟨hk, hname'⟩ | ⟨-, hthis⟩
    · rw [hname']
      simp [Mark.Precedes, hentry hfound (hname hk)]
    · rw [hthis]
      simp [Mark.Precedes]

/-- A frame of its own starts behind the last word. -/
theorem inner (h : s.Marked m e c q) :
    ({ s with built := [] } : ReadState).Marked (s.marks.getLastD m) c c true := by
  refine ⟨h.gaps, h.words, ?_, ?_, ?_, ?_, ?_⟩
  · intro hfound hc
    exact (h.last hfound hc).imp_right fun hnil => ⟨hnil, rfl⟩
  · intro _
    exact List.isChain_singleton _
  · exact h.last
  · intro _ a ha
    cases ha
  · intro t ht
    cases ht

/-- What a frame has built is put behind what stood in front of it. -/
theorem merge {s' : ReadState} {c' q' : Bool} (h : s.Marked m e c q)
    (h' : s'.Marked (s.marks.getLastD m) c c' q')
    (hnext : ({ s with built := [] } : ReadState).Precedes s') :
    ({ s' with built := s'.built ++ s.built } : ReadState).Marked m e c' (q && q') := by
  have hfound : s'.found = [] → s.found = [] := hnext.found
  have hall := marks_merge s s'
  refine ⟨h'.gaps, h'.words, ?_, ?_, ?_, ?_, ?_⟩
  · intro hf he
    refine (h.entry (hfound hf) he).imp_right fun ⟨hnil, hempty⟩ => ?_
    rw [hall, hempty, hnext.marks hnil rfl]
    exact ⟨hnext.words hnil, rfl⟩
  · intro hf
    rw [hall, Mark.isChain_append]
    exact ⟨h.chain (hfound hf), h'.chain hf⟩
  · intro hf hc
    rw [hall]
    exact (h'.last hf hc).imp_left fun hlast => by rw [Mark.getLastD_append, hlast]
  · intro hq a ha
    obtain ⟨hq, hq'⟩ := Bool.and_eq_true_iff.mp hq
    rw [hall] at ha
    rcases List.mem_append.mp ha with ha | ha
    · exact h.plain hq a ha
    · exact h'.plain hq' a ha
  · intro t ht
    rcases List.mem_append.mp ht with ht | ht
    · exact h'.designates t ht
    · exact h.designates t ht

end Marked

end ReadState

/-! ## Running an action -/

open ReadState (Marked)

/-- The flags are kept by a way to answer calls of `r`. -/
def ReadState.Keeps (answer : Rule → ReadState → Bool × ReadState) (r : Rule) : Prop :=
  ∀ ⦃m e c q s⦄, s.Marked m e c q → (r.opens = true → c = true) →
    s.Precedes (answer r s).2 ∧ (answer r s).2.Marked m e (c && r.closes) (q && r.plain)

namespace Action

variable {α : Type} {answer : Rule → ReadState → Bool × ReadState}

/-- **One run of an action** leaves the flags as `Spaced` says. -/
theorem Spaced.run (hanswer : ∀ r, ReadState.Keeps answer r) (a : Action Rule α)
    {Q : α → Bool → Bool → Prop} {m : Mark} {e c q : Bool} {s : ReadState}
    (hs : s.Marked m e c q) (h : a.Spaced Q e c q) :
    s.Precedes (a.run answer s).2 ∧ ∃ c' q', Q (a.run answer s).1 c' q' ∧
      (a.run answer s).2.Marked m e c' q' := by
  induction a generalizing m e c q s with
  | pure | opening => exact ⟨.refl s, c, q, h, hs⟩
  | look => exact ⟨.refl s, c, q, h _, hs⟩
  | bind first next ihf ihn =>
    obtain ⟨hnext, c', q', hQ, hs'⟩ := ihf hs h
    obtain ⟨hnext', hrest⟩ := ihn _ hs' hQ
    exact ⟨hnext.trans hnext', hrest⟩
  | skipTrivia => exact ⟨hs.precedes_skipTrivia, c, q, h, hs.skipTrivia⟩
  | take => exact ⟨hs.precedes_take, true, q, h, hs.take⟩
  | takeHalf => exact ⟨hs.precedes_takeHalf, true, q, h, hs.splitShift.take⟩
  | report problem => exact ⟨hs.precedes_report problem, true, q, h, hs.report problem⟩
  | enclose k =>
    obtain ⟨hname, hdesignates, hQ⟩ := h
    refine ⟨ReadState.precedes_enclose k, _, _, ?_, hs.enclose hname hdesignates⟩
    split at hQ
    · rename_i hk
      rwa [if_pos hk, if_pos hk]
    · rename_i hk
      rwa [if_neg hk, if_neg hk]
  | frame body ih =>
    obtain ⟨hnext, c', q', hQ, hs'⟩ := ih hs.inner h
    exact ⟨hnext.merge, c', q && q', hQ, hs.merge hs' hnext⟩
  | idle body ih =>
    obtain ⟨hnext, c', q', hQ, hs'⟩ := ih hs.skipTrivia h
    exact ⟨hs.precedes_skipTrivia.trans hnext, c', q', hQ _, hs'⟩
  | call r =>
    obtain ⟨hopens, hQ⟩ := h
    obtain ⟨hnext, hs'⟩ := hanswer r hs hopens
    exact ⟨hnext, _, _, hQ _, hs'⟩

/-- **All calls keep the flags**, if every production does as long as the others do. -/
theorem keeps_runRule {body : Rule → Action Rule Bool}
    (hbody : ∀ r e c q, (r.opens = true → c = true) → (body r).Spaced
      (fun _ c' q' => (c && r.closes → c') ∧ (q && r.plain → q')) e c q) (depth : Nat) (r : Rule) :
    ReadState.Keeps (runRule body depth) r := by
  induction depth generalizing r with
  | zero =>
    intro m e c q s hs _
    exact ⟨.refl s, hs.gaps, hs.words, hs.entry, hs.chain,
      fun hf hc => hs.last hf (Bool.and_eq_true_iff.mp hc).1,
      fun hq => hs.plain (Bool.and_eq_true_iff.mp hq).1, hs.designates⟩
  | succ depth ih =>
    intro m e c q s hs hopens
    obtain ⟨hnext, c', q', ⟨hc, hq⟩, hs'⟩ := Spaced.run ih (body r) hs (hbody r e c q hopens)
    exact ⟨hnext, hs'.gaps, hs'.words, hs'.entry, hs'.chain, fun hf h => hs'.last hf (hc h),
      fun h => hs'.plain (hq h), hs'.designates⟩

end Action

end LivePatch
