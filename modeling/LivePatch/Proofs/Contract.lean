import LivePatch.Proofs.Frames

/-!
# Contracts between productions

The productions of a grammar call each other without end, so what each of them does is said in a
`Contract` first: what a call needs, what it makes of the frame, and where it leaves the words.
Then every production is looked at by itself, with calls as good as their contract:

* `Action.Safe` follows a production word by word.  It asks that the end of the text is never
  taken, that nodes are put around the right parts, and that calls get what they need.
* `Action.Leads` follows a production only up to its first word.  It asks that what is called
  before has a smaller *rank*.  A production that takes a word before it comes to itself again
  cannot run on forever, and it cannot exhaust the calls that `Action.runRule` allows for.

`Contract.holds_runRule` is the step from all productions to the whole grammar: if each of them
keeps the contract as long as the others do, then all of them keep it.
-/

namespace LivePatch

open Token (closingAngle widthOf)
open Words (Ended Reaches)

/-- What productions agree on. -/
structure Contract (R : Type) where
  /-- What the words and the frame must be like in front of a call. -/
  needs : R → List Token → Frame → Prop
  /-- The shape of the frame behind a call. -/
  shape : R → Shape → Shape
  /-- The level of what a call builds. -/
  level : R → Level
  /-- Does a call take at least one word? -/
  moves : R → List Token → Bool
  /-- Does a call leave nothing but the end of the text? -/
  exhausts : R → Bool
  /-- How far a call may be from the first word taken, counted in calls. -/
  rank : R → List Token → Nat
  /-- A bound on all ranks. -/
  bound : Nat
  rank_lt : ∀ r ws, rank r ws < bound

namespace Contract

variable {R : Type} (c : Contract R)

/-- The frame behind a call. -/
def gives (r : R) (ws : List Token) (x : Frame) : Frame :=
  ⟨c.shape r x.shape, max x.level (c.level r), x.solid || c.moves r ws, x.noted⟩

/-- How deep calls may nest below one of `r`, itself included. -/
def need (r : R) (ws : List Token) : Nat := c.bound * widthOf ws + c.rank r ws

/-- The contract, said of one call: the reading advances, and the frame is as agreed. -/
structure Kept (r : R) (x : Frame) (s s' : ReadState) : Prop where
  advances : s.Advances s'
  describes : (c.gives r s.words x).Describes s'
  moves : c.moves r s.words = true → s'.words ≠ s.words
  exhausts : c.exhausts r = true → Words.front s'.words = .eof

/-- The contract, said of a way to answer calls, for the calls of `r` in the state `s`. -/
def Holds (answer : R → ReadState → Bool × ReadState) (r : R) (s : ReadState) : Prop :=
  ∀ x : Frame, s.Orderly → x.Describes s → c.needs r s.words x → c.Kept r x s (answer r s).2

end Contract

namespace Action

variable {R α : Type} (c : Contract R)

/-- The action is safe when `ws` is ahead in the frame `x`, and then `Q` holds of its answer, the
words it leaves and the frame. -/
def Safe {α : Type} : Action R α → (α → List Token → Frame → Prop) → List Token → Frame → Prop
  | .pure a, Q, ws, x => Q a ws x
  | .bind first next, Q, ws, x => first.Safe (fun a ws x => (next a).Safe Q ws x) ws x
  | .look decide _, Q, ws, x => Q (decide ws) ws x
  | .skipTrivia, Q, ws, x => Q () ws x
  | .take, Q, ws, x => Words.front ws ≠ .eof ∧ Q () ws.tail (x.take (Words.front ws))
  | .takeHalf, Q, ws, x =>
    Words.front ws = .rightShift ∧ Q () (closingAngle :: ws.tail) (x.take .greater)
  | .report _, Q, ws, x => Q () ws x.note
  | .opening _ _, Q, ws, x => Q () ws x
  | .enclose k, Q, ws, x => x.Allows k ∧ Q () ws (x.enclose k)
  | .frame body, Q, ws, x => body.Safe (fun a ws y => Q a ws (x.merge y)) ws x.inner
  | .idle body, Q, ws, x => body.Safe (fun _ ws' y => Q (ws'.length == ws.length) ws' y) ws x
  | .call r, Q, ws, x => c.needs r ws x ∧ ∀ b ws', Reaches ws ws' →
      (c.exhausts r = true → Words.front ws' = .eof) → Q b ws' (c.gives r ws x)

/-- Whatever the action calls before it takes a word of `ws` has a rank below `n`; if it takes
none, then `P` holds of its answer. -/
def Leads {α : Type} (n : Nat) (ws : List Token) : Action R α → (α → Prop) → Prop
  | .pure a, P => P a
  | .bind first next, P => first.Leads n ws (fun a => (next a).Leads n ws P)
  | .look decide _, P => P (decide ws)
  | .skipTrivia, P => P ()
  | .take, _ => True
  | .takeHalf, _ => True
  | .report _, P => P ()
  | .opening _ _, P => P ()
  | .enclose _, P => P ()
  | .frame body, P => body.Leads n ws P
  | .idle body, P => body.Leads n ws fun _ => P true
  | .call r, P => c.rank r ws < n ∧ (c.moves r ws = true ∨ ∀ b, P b)

variable {c}

theorem Safe.mono {a : Action R α} {Q Q' : α → List Token → Frame → Prop}
    (hQ : ∀ v ws x, Q v ws x → Q' v ws x) {ws : List Token} {x : Frame}
    (h : a.Safe c Q ws x) : a.Safe c Q' ws x := by
  induction a generalizing ws x with
  | pure | look | skipTrivia | report | opening => exact hQ _ _ _ h
  | bind first next ihf ihn => exact ihf (fun v ws x hv => ihn v hQ hv) h
  | take | takeHalf | enclose => exact ⟨h.1, hQ _ _ _ h.2⟩
  | frame body ih | idle body ih => exact ih (fun v ws y hv => hQ _ _ _ hv) h
  | call r => exact ⟨h.1, fun b ws' hr he => hQ _ _ _ (h.2 b ws' hr he)⟩

theorem Leads.mono {a : Action R α} {P P' : α → Prop} (hP : ∀ v, P v → P' v) {n : Nat}
    {ws : List Token} (h : a.Leads c n ws P) : a.Leads c n ws P' := by
  induction a with
  | pure | look | skipTrivia | report | opening | enclose => exact hP _ h
  | bind first next ihf ihn => exact ihf (fun v hv => ihn v hP hv) h
  | take | takeHalf => trivial
  | frame body ih => exact ih hP h
  | idle body ih => exact ih (fun _ => hP true) h
  | call r => exact ⟨h.1, h.2.imp_right fun hall b => hP _ (hall b)⟩

end Action

/-! ## Running an action -/

namespace ReadState

theorem take_words (s : ReadState) : s.take.words = s.words.tail := by
  cases hw : s.words with
  | nil => simp [take, skipTrivia, hw]
  | cons w ws => simp [take, skipTrivia, hw]

theorem takeHalf_words {s : ReadState} (h : s.Orderly)
    (he : Words.front s.words = .rightShift) :
    s.takeHalf.words = closingAngle :: s.words.tail := by
  obtain ⟨w, ws, gap, gaps, -, hg, -⟩ := h.uncons (by rw [he]; decide)
  obtain ⟨ws', hw⟩ := h.eq_shift he
  rw [takeHalf_of_cons hw hg, hw]
  rfl

/-- The words are still those of `ws`, or fewer. -/
theorem Advances.eq_or_widthOf_lt {s s' : ReadState} (h : s.Advances s') (ho : s.Orderly) :
    s'.words = s.words ∨ widthOf s'.words < widthOf s.words :=
  h.words.eq_or_widthOf_lt ho.ended

/-- There is something to show when a token that the grammar sees is among the leaves built. -/
theorem exists_solid_iff {s : ReadState} : (∃ t ∈ s.built, t.isSolid = true) ↔
    ∃ w ∈ Tree.leavesAll s.built.reverse, w.isSignificant = true := by
  simp only [Tree.mem_leavesAll, List.mem_reverse, Tree.isSolid_iff]
  constructor
  · rintro ⟨t, ht, w, hw, hs⟩
    exact ⟨w, ⟨t, ht, hw⟩, hs⟩
  · rintro ⟨w, ⟨t, ht, hw⟩, hs⟩
    exact ⟨t, ht, w, hw, hs⟩

theorem Advances.keeps_solid {s s' : ReadState} (h : s.Advances s')
    (hs : ∃ t ∈ s.built, t.isSolid = true) : ∃ t ∈ s'.built, t.isSolid = true := by
  obtain ⟨taken, hl, -⟩ := h.leaves
  obtain ⟨w, hw, hsig⟩ := exists_solid_iff.mp hs
  exact exists_solid_iff.mpr ⟨w, hl ▸ List.mem_append_left _ hw, hsig⟩

/-- A step that leaves other words has taken something to show. -/
theorem Advances.exists_solid {s s' : ReadState} (h : s.Advances s') (ho : s.Orderly)
    (hne : s'.words ≠ s.words) : ∃ t ∈ s'.built, t.isSolid = true := by
  have hlt := (h.eq_or_widthOf_lt ho).resolve_left hne
  obtain ⟨taken, hl, hd⟩ := h.leaves
  have hwords := hd.filter_isSignificant.widthOf_eq
  rw [List.filter_append, h.orderly.filter_ahead, ho.filter_ahead, Token.widthOf_append] at hwords
  -- If trivia alone had been taken, all words would still be ahead.
  cases hsig : taken.filter Token.isSignificant with
  | nil =>
    rw [hsig, Token.widthOf_nil] at hwords
    omega
  | cons w rest =>
    obtain ⟨hw, hs⟩ := List.mem_filter.mp (hsig ▸ List.mem_cons_self : w ∈ taken.filter _)
    exact exists_solid_iff.mpr ⟨w, hl ▸ List.mem_append_right _ hw, hs⟩

theorem Advances.keeps_found {s s' : ReadState} (h : s.Advances s') (hs : s.found ≠ []) :
    s'.found ≠ [] := by
  intro hnil
  have hf := h.found
  rw [hnil] at hf
  exact hs (List.suffix_nil.mp hf)

end ReadState

namespace Contract

variable {R α : Type} {c : Contract R} {answer : R → ReadState → Bool × ReadState}

/-- Where an action that started with `start` ahead stands: behind the first word, or in front of
it still and then `P` holds. -/
def Under (start : List Token) (P : Prop) (s : ReadState) : Prop :=
  widthOf s.words < widthOf start ∨ s.words = start ∧ P

/-- What one run of an action comes to. -/
structure Ran (start : List Token) (Q : α → List Token → Frame → Prop) (P : α → Prop)
    (s : ReadState) (v : α) (s' : ReadState) : Prop where
  advances : s.Advances s'
  frame : ∃ y : Frame, y.Describes s' ∧ Q v s'.words y
  under : Under start (P v) s'

theorem Under.advances {start : List Token} {P : Prop} {s s' : ReadState} (h : Under start P s)
    (ho : s.Orderly) (ha : s.Advances s') : widthOf s'.words ≤ widthOf start := by
  have hs : widthOf s.words ≤ widthOf start := by
    rcases h with h | h
    · exact h.le
    · rw [h.1]
  rcases ha.eq_or_widthOf_lt ho with h | h
  · rwa [h]
  · omega

/-- Behind a step that leaves other words, the reading is behind the first word. -/
theorem Under.of_moved {start : List Token} {P Q : Prop} {s s' : ReadState} (h : Under start P s)
    (ho : s.Orderly) (ha : s.Advances s') (hne : s'.words ≠ s.words) : Under start Q s' := by
  have hlt := (ha.eq_or_widthOf_lt ho).resolve_left hne
  have hle := h.advances ho (ReadState.Advances.refl ho)
  exact .inl (by omega)

/-- A step that need not have taken a word. -/
theorem Under.step {start : List Token} {P Q : Prop} {s s' : ReadState} (h : Under start P s)
    (ho : s.Orderly) (ha : s.Advances s') (hQ : s'.words = s.words → P → Q) :
    Under start Q s' := by
  by_cases hne : s'.words = s.words
  · rcases h with h | h
    · exact .inl (hne ▸ h)
    · exact .inr ⟨hne.trans h.1, hQ hne h.2⟩
  · exact h.of_moved ho ha hne

theorem Under.imp {start : List Token} {P Q : Prop} {s : ReadState} (h : Under start P s)
    (hPQ : P → Q) : Under start Q s :=
  Or.imp_right (And.imp_right hPQ) h

/-- What is called behind the first word, or in front of it with a rank below `n`, needs less than
`n` above `start`. -/
theorem Under.need_lt {start : List Token} {n : Nat} {r : R} {s : ReadState}
    (h : Under start (c.rank r start < n) s) :
    c.need r s.words < c.bound * widthOf start + n := by
  unfold need
  rcases h with h | ⟨h, hrank⟩
  · have hmul : c.bound * (widthOf s.words + 1) ≤ c.bound * widthOf start :=
      Nat.mul_le_mul_left _ h
    have := c.rank_lt r s.words
    rw [Nat.mul_add, Nat.mul_one] at hmul
    omega
  · rw [h]
    omega

/-- **One run of an action.**  A safe action, run with answers that keep the contract wherever
less is needed than `n` above `start`, advances the reading and leaves it as `Safe` and `Leads`
say.  The induction is on the action; what it calls is covered by the hypothesis. -/
theorem ran_run {n : Nat} {start : List Token}
    (hanswer : ∀ r s, c.need r s.words < c.bound * widthOf start + n → c.Holds answer r s)
    (a : Action R α) {Q : α → List Token → Frame → Prop} {P : α → Prop} {s : ReadState} {x : Frame}
    (ho : s.Orderly) (hd : x.Describes s) (hsafe : a.Safe c Q s.words x)
    (hlead : Under start (a.Leads c n start P) s) :
    Ran start Q P s (a.run answer s).1 (a.run answer s).2 := by
  induction a generalizing s x with
  | pure | opening => exact ⟨.refl ho, ⟨x, hd, hsafe⟩, hlead⟩
  | look =>
    refine ⟨.refl ho, ⟨x, hd, hsafe⟩, ?_⟩
    rcases hlead with h | ⟨rfl, hP⟩
    · exact .inl h
    · exact .inr ⟨rfl, hP⟩
  | bind first next ihf ihn =>
    obtain ⟨ha, ⟨y, hy, hQ⟩, hu⟩ := ihf ho hd hsafe hlead
    obtain ⟨ha', hf, hu'⟩ := ihn _ ha.orderly hy hQ hu
    exact ⟨ha.trans ha', hf, hu'⟩
  | skipTrivia =>
    have ha := ReadState.advances_skipTrivia ho
    exact ⟨ha, ⟨x, hd.skipTrivia ho, hsafe⟩, hlead.step ho ha fun _ hP => hP⟩
  | take =>
    obtain ⟨he, hQ⟩ := hsafe
    have ha := ReadState.advances_take ho he
    rw [← ReadState.take_words] at hQ
    refine ⟨ha, ⟨_, hd.take ho he, hQ⟩, hlead.of_moved ho ha fun hw => ?_⟩
    obtain ⟨w, ws, -, -, hws, -⟩ := ho.uncons he
    have := congrArg List.length (ReadState.take_words s ▸ hw)
    simp [hws] at this
  | takeHalf =>
    obtain ⟨he, hQ⟩ := hsafe
    have ha := ReadState.advances_takeHalf ho he
    rw [← ReadState.takeHalf_words ho he] at hQ
    refine ⟨ha, ⟨_, hd.takeHalf ho he, hQ⟩, hlead.of_moved ho ha fun hw => ?_⟩
    have hfront : Kind.greater = Words.front s.words :=
      congrArg Words.front ((ReadState.takeHalf_words ho he).symm.trans hw)
    rw [he] at hfront
    cases hfront
  | report problem =>
    have ha := ReadState.advances_report ho problem
    exact ⟨ha, ⟨_, hd.report ho problem, hsafe⟩, hlead.step ho ha fun _ hP => hP⟩
  | enclose k =>
    have ha := ReadState.advances_enclose ho k
    exact ⟨ha, ⟨_, hd.enclose hsafe.1, hsafe.2⟩, hlead.step ho ha fun _ hP => hP⟩
  | frame body ih =>
    have ho' : ({ s with built := [] } : ReadState).Orderly := ⟨ho.aligned, ho.trivia, ho.ended⟩
    obtain ⟨ha, ⟨y, hy, hQ⟩, hu⟩ := ih ho' hd.inner hsafe hlead
    exact ⟨ha.frame, ⟨_, hd.merge hy ha.found, hQ⟩, hu⟩
  | idle body ih =>
    have ha := ReadState.advances_skipTrivia ho
    obtain ⟨ha', ⟨y, hy, hQ⟩, hu⟩ := ih ha.orderly (hd.skipTrivia ho) hsafe hlead
    refine ⟨ha.trans ha', ⟨y, hy, hQ⟩, ?_⟩
    -- Where no word has been taken, as many are ahead as there were.
    rcases hlead with hbehind | ⟨hstart, -⟩
    · exact Under.step (P := False) (.inl hbehind) ho (ha.trans ha') fun _ hP => hP.elim
    · refine hu.imp_right fun ⟨hwords, hP⟩ => ⟨hwords, ?_⟩
      have hsame : ((body.run answer s.skipTrivia).2.words.length ==
          s.skipTrivia.words.length) = true := by
        rw [hwords, show s.skipTrivia.words = start from hstart]
        exact beq_self_eq_true _
      show P (_ == _)
      rw [hsame]
      exact hP
  | call r =>
    obtain ⟨hneeds, hQ⟩ := hsafe
    have hk := hanswer r s (hlead.imp And.left).need_lt x ho hd hneeds
    refine ⟨hk.advances, ⟨_, hk.describes, hQ _ _ hk.advances.words hk.exhausts⟩, ?_⟩
    by_cases hm : c.moves r s.words = true
    · exact hlead.of_moved ho hk.advances (hk.moves hm)
    · rcases hlead with h | ⟨h, -, hP⟩
      · exact Under.step (P := False) (.inl h) ho hk.advances fun _ hP => hP.elim
      · have hall := hP.resolve_left (h ▸ hm)
        exact Under.step (P := True) (.inr ⟨h, trivial⟩) ho hk.advances fun _ _ => hall _

/-! ## All productions together -/

/-- What a production called in the frame `x` must leave behind: the words `ws` and a frame `y`
in which there is what the contract says. -/
structure Leaves (c : Contract R) (r : R) (x : Frame) (ws : List Token) (y : Frame) : Prop where
  shape : c.shape r x.shape = .mixed ∨ y.shape = c.shape r x.shape
  level : y.level ≤ max x.level (c.level r)
  exhausts : c.exhausts r = true → Words.front ws = .eof

/-- Every production is safe and leads on, with calls as good as their contract. -/
structure Met (c : Contract R) (body : R → Action R Bool) : Prop where
  safe : ∀ r ws x, Ended ws → c.needs r ws x →
    (body r).Safe c (fun _ ws' y => c.Leaves r x ws' y) ws x
  leads : ∀ r ws, Ended ws → (body r).Leads c (c.rank r ws) ws (fun _ => c.moves r ws = false)

/-- **The contract is kept.**  Calls that may nest deep enough keep it.  The induction is on the
depth: a call below has less need, since its rank is smaller or a word has been taken. -/
theorem holds_runRule {body : R → Action R Bool} (hmet : c.Met body) (depth : Nat) (r : R)
    (s : ReadState) (hneed : c.need r s.words < depth) :
    c.Holds (Action.runRule body depth) r s := by
  induction depth generalizing r s with
  | zero => omega
  | succ depth ih =>
    intro x ho hd hneeds
    have hanswer : ∀ r' s', c.need r' s'.words < c.bound * widthOf s.words + c.rank r s.words →
        c.Holds (Action.runRule body depth) r' s' :=
      fun r' s' h => ih r' s' (by rw [need] at hneed; omega)
    obtain ⟨ha, ⟨y, hy, hshape, hlevel, hex⟩, hu⟩ :=
      ran_run hanswer (body r) ho hd (hmet.safe r s.words x ho.ended hneeds)
        (.inr ⟨rfl, hmet.leads r s.words ho.ended⟩)
    rw [← Action.runRule] at ha hy hex hu
    generalize (Action.runRule body (depth + 1) r s).2 = s' at ha hy hex hu ⊢
    have hmoves : c.moves r s.words = true → s'.words ≠ s.words := by
      rintro hm hw
      rcases hu with hlt | ⟨-, hf⟩
      · rw [hw] at hlt
        exact absurd hlt (lt_irrefl _)
      · rw [hm] at hf
        cases hf
    refine ⟨ha, ⟨?_, ?_, hy.sound, ?_, ?_⟩, hmoves, hex⟩
    · show (c.shape r x.shape).Fits _ _
      rcases hshape with h | h
      · rw [h]
        trivial
      · exact h ▸ hy.shape
    · exact fun t ht => (hy.within t ht).mono hlevel
    · intro hs
      rcases Bool.or_eq_true_iff.mp hs with hs | hm
      · exact ha.keeps_solid (hd.solid hs)
      · exact ha.exists_solid ho (hmoves hm)
    · exact fun hn => ha.keeps_found (hd.noted hn)

end Contract

end LivePatch
