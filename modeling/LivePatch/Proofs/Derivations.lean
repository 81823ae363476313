import LivePatch.Proofs.Contract

/-!
# Readings without a bound

`Action.runRule` is total because calls may nest only so deep, and deeper calls do nothing.  Whether
that ever takes part in what is read is the question here.  `Action.complete` does what an action
does, but has no answer if a call is left undone; so `Action.Does` says what an action comes to
without any bound.

A contract that is met by all productions makes readings complete: what is run within a bound large
enough has left nothing undone (`Contract.complete_run`).  And it says what calls are made on the
way (`Action.Asks`): whenever a production asks for another one, or for itself again, a word has
been taken before, or else the rank has fallen.
-/

namespace LivePatch

open Token (Divides widthOf)

namespace Action

variable {R α : Type}

/-- What an action answers and where it leaves the reading, if every call it makes is answered. -/
def complete (answer : R → ReadState → Option (Bool × ReadState)) {α : Type} :
    Action R α → ReadState → Option (α × ReadState)
  | .pure a, s => some (a, s)
  | .bind first next, s =>
    (first.complete answer s).bind fun (a, s) => (next a).complete answer s
  | .look decide _, s => some (decide s.words, s)
  | .skipTrivia, s => some ((), s.skipTrivia)
  | .take, s => some ((), s.take)
  | .takeHalf, s => some ((), s.takeHalf)
  | .report problem, s => some ((), s.report problem)
  | .opening _ _, s => some ((), s)
  | .enclose kind, s => some ((), s.enclose kind)
  | .frame body, s =>
    (body.complete answer { s with built := [] }).map fun (a, inner) =>
      (a, { inner with built := inner.built ++ s.built })
  | .idle body, s =>
    (body.complete answer s.skipTrivia).map fun (_, after) =>
      (after.words.length == s.skipTrivia.words.length, after)
  | .call rule, s => answer rule s

/-- What the production `rule` comes to, if no more than `depth` calls nest. -/
def completeRule (body : R → Action R Bool) : Nat → R → ReadState → Option (Bool × ReadState)
  | 0, _, _ => none
  | depth + 1, rule, s => (body rule).complete (completeRule body depth) s

/-- From `s` the action comes to the answer `v` and the state `t`, however deep calls have to nest
for it. -/
def Does (body : R → Action R Bool) (a : Action R α) (s : ReadState) (v : α) (t : ReadState) : Prop :=
  ∃ depth, a.complete (completeRule body depth) s = some (v, t)

/-- Doing the action from `s`, the production `r` is called in the state `t`. -/
def Asks (body : R → Action R Bool) {α : Type} :
    Action R α → ReadState → R → ReadState → Prop
  | .bind first next, s, r, t => first.Asks body s r t ∨
      ∃ v u, first.Does body s v u ∧ (next v).Asks body u r t
  | .frame a, s, r, t => a.Asks body { s with built := [] } r t
  | .idle a, s, r, t => a.Asks body s.skipTrivia r t
  | .call rule, s, r, t => r = rule ∧ t = s
  | _, _, _, _ => False

variable {body : R → Action R Bool} {answer answer' : R → ReadState → Option (Bool × ReadState)}

/-- More answers complete no less. -/
theorem complete_mono (hanswer : ∀ r s p, answer r s = some p → answer' r s = some p)
    (a : Action R α) {s : ReadState} {p : α × ReadState} (h : a.complete answer s = some p) :
    a.complete answer' s = some p := by
  induction a generalizing s with
  | bind first next ihf ihn =>
    obtain ⟨⟨v, t⟩, hfirst, hnext⟩ := Option.bind_eq_some_iff.mp h
    exact Option.bind_eq_some_iff.mpr ⟨(v, t), ihf hfirst, ihn v hnext⟩
  | frame a ih | idle a ih =>
    obtain ⟨⟨v, t⟩, hinner, rfl⟩ := Option.map_eq_some_iff.mp h
    exact Option.map_eq_some_iff.mpr ⟨(v, t), ih hinner, rfl⟩
  | call r => exact hanswer r s p h
  | _ => exact h

theorem completeRule_mono {depth depth' : Nat} (hle : depth ≤ depth') {r : R} {s : ReadState}
    {p : Bool × ReadState} (h : completeRule body depth r s = some p) :
    completeRule body depth' r s = some p := by
  induction depth generalizing depth' r s p with
  | zero => cases h
  | succ depth ih =>
    obtain ⟨depth', rfl⟩ : ∃ n, depth' = n + 1 := ⟨depth' - 1, by omega⟩
    exact complete_mono (fun r s p h => ih (by omega) h) (body r) h

/-- What is complete is what is run. -/
theorem run_of_complete {reply : R → ReadState → Bool × ReadState}
    (hanswer : ∀ r s p, answer r s = some p → reply r s = p) (a : Action R α) {s : ReadState}
    {p : α × ReadState} (h : a.complete answer s = some p) : a.run reply s = p := by
  induction a generalizing s with
  | bind first next ihf ihn =>
    obtain ⟨⟨v, t⟩, hfirst, hnext⟩ := Option.bind_eq_some_iff.mp h
    rw [run, ihf hfirst]
    exact ihn v hnext
  | frame a ih | idle a ih =>
    obtain ⟨⟨v, t⟩, hinner, rfl⟩ := Option.map_eq_some_iff.mp h
    rw [run, ih hinner]
  | call r => exact hanswer r s p h
  | _ => exact Option.some.inj h

theorem runRule_of_completeRule {depth : Nat} {r : R} {s : ReadState} {p : Bool × ReadState}
    (h : completeRule body depth r s = some p) : runRule body depth r s = p := by
  induction depth generalizing r s p with
  | zero => cases h
  | succ depth ih => exact run_of_complete (fun _ _ _ h => ih h) (body r) h

/-- **A reading comes to one thing only.** -/
theorem Does.unique {a : Action R α} {s t t' : ReadState} {v v' : α} (h : a.Does body s v t)
    (h' : a.Does body s v' t') : v = v' ∧ t = t' := by
  obtain ⟨m, hm⟩ := h
  obtain ⟨n, hn⟩ := h'
  have hboth : ∀ {k}, k ≤ max m n → ∀ {p}, a.complete (completeRule body k) s = some p →
      a.complete (completeRule body (max m n)) s = some p :=
    fun hk _ hp => complete_mono (fun _ _ _ h => completeRule_mono hk h) a hp
  have heq := (hboth (le_max_left m n) hm).symm.trans (hboth (le_max_right m n) hn)
  exact Prod.mk.inj (Option.some.inj heq)

end Action

/-! ## Problems are not forgotten -/

namespace ReadState

variable (s : ReadState)

theorem found_take : s.take.found = s.found := by
  unfold ReadState.take
  dsimp only
  split <;> rfl

theorem found_takeHalf : s.takeHalf.found = s.found := by
  rw [takeHalf, found_take, ReadState.splitShift]
  split <;> rfl

end ReadState

namespace Action

variable {R α : Type}

theorem found_suffix_of_complete {answer : R → ReadState → Option (Bool × ReadState)}
    (hanswer : ∀ {r s v t}, answer r s = some (v, t) → s.found <:+ t.found) (a : Action R α)
    {s t : ReadState} {v : α} (h : a.complete answer s = some (v, t)) : s.found <:+ t.found := by
  induction a generalizing s t with
  | bind first next ihf ihn =>
    obtain ⟨⟨w, u⟩, hfirst, hnext⟩ := Option.bind_eq_some_iff.mp h
    exact (ihf hfirst).trans (ihn w hnext)
  | frame a ih | idle a ih =>
    obtain ⟨⟨w, u⟩, hinner, heq⟩ := Option.map_eq_some_iff.mp h
    obtain ⟨rfl, rfl⟩ := Prod.mk.inj heq
    have hsuffix := ih hinner
    exact hsuffix
  | call r => exact hanswer h
  | report problem =>
    obtain ⟨rfl, rfl⟩ := Prod.mk.inj (Option.some.inj h)
    exact List.suffix_cons _ _
  | take =>
    obtain ⟨rfl, rfl⟩ := Prod.mk.inj (Option.some.inj h)
    exact s.found_take ▸ List.suffix_rfl
  | takeHalf =>
    obtain ⟨rfl, rfl⟩ := Prod.mk.inj (Option.some.inj h)
    exact s.found_takeHalf ▸ List.suffix_rfl
  | _ =>
    obtain ⟨rfl, rfl⟩ := Prod.mk.inj (Option.some.inj h)
    exact List.suffix_rfl

theorem found_suffix_of_completeRule {body : R → Action R Bool} (depth : Nat) {r : R}
    {s t : ReadState} {v : Bool} (h : completeRule body depth r s = some (v, t)) :
    s.found <:+ t.found := by
  induction depth generalizing r s t v with
  | zero => cases h
  | succ depth ih => exact found_suffix_of_complete ih (body r) h

end Action

theorem Token.widthOf_filter_le (p : Token → Bool) (ts : List Token) :
    widthOf (ts.filter p) ≤ widthOf ts := by
  induction ts with
  | nil => rfl
  | cons t ts ih =>
    rw [List.filter_cons, widthOf_cons]
    split
    · rw [widthOf_cons]
      omega
    · omega

namespace ReadState

/-- What is still ahead in `t` is what `s` has ahead behind some tokens, but that a shift may have
become two closing angle brackets. -/
def Passes (s t : ReadState) : Prop := ∃ taken, Divides s.ahead (taken ++ t.ahead)

theorem Passes.refl (s : ReadState) : s.Passes s := ⟨[], .refl _⟩

theorem Passes.trans {s t u : ReadState} (h : s.Passes t) (k : t.Passes u) : s.Passes u := by
  obtain ⟨taken, hd⟩ := h
  obtain ⟨more, hd'⟩ := k
  exact ⟨taken ++ more, List.append_assoc .. ▸ hd.trans (hd'.append_left taken)⟩

theorem Advances.passes {s t : ReadState} (h : s.Advances t) : s.Passes t :=
  let ⟨taken, _, hd⟩ := h.leaves
  ⟨taken, hd⟩

/-- A reading that has taken a word has fewer bytes ahead of it. -/
theorem Passes.widthOf_lt {s t : ReadState} (h : s.Passes t) (hs : s.Orderly) (ht : t.Orderly)
    (hlt : widthOf t.words < widthOf s.words) : widthOf t.ahead < widthOf s.ahead := by
  obtain ⟨taken, hd⟩ := h
  have hwords := hd.filter_isSignificant.widthOf_eq
  rw [List.filter_append, ht.filter_ahead, hs.filter_ahead, Token.widthOf_append] at hwords
  have hahead := hd.widthOf_eq
  rw [Token.widthOf_append] at hahead
  have hle := Token.widthOf_filter_le Token.isSignificant taken
  omega

end ReadState

namespace Contract

open LivePatch.Action (completeRule Does Asks)

variable {R α : Type} {c : Contract R} {body : R → Action R Bool}

/-- Calls of `r` in the state `s` are left with nothing undone, if they get what they need. -/
def Completes (c : Contract R) (partly : R → ReadState → Option (Bool × ReadState))
    (answer : R → ReadState → Bool × ReadState) (r : R) (s : ReadState) : Prop :=
  ∀ x : Frame, s.Orderly → x.Describes s → c.needs r s.words x → partly r s = some (answer r s)

/-- **What is run is complete**, if what it calls is.  The induction is that of `ran_run`, which
says where the first of two actions leaves the second. -/
theorem complete_run {answer : R → ReadState → Bool × ReadState}
    {partly : R → ReadState → Option (Bool × ReadState)} {n : Nat} {start : List Token}
    (hanswer : ∀ r s, c.need r s.words < c.bound * widthOf start + n → c.Holds answer r s)
    (hpartly : ∀ r s, c.need r s.words < c.bound * widthOf start + n →
      c.Completes partly answer r s)
    (a : Action R α) {Q : α → List Token → Frame → Prop} {P : α → Prop} {s : ReadState} {x : Frame}
    (ho : s.Orderly) (hd : x.Describes s) (hsafe : a.Safe c Q s.words x)
    (hlead : Under start (a.Leads c n start P) s) :
    a.complete partly s = some (a.run answer s) := by
  induction a generalizing s x with
  | bind first next ihf ihn =>
    obtain ⟨ha, ⟨y, hy, hQ⟩, hu⟩ := ran_run hanswer first ho hd hsafe hlead
    have hnext := ihn _ ha.orderly hy hQ hu
    rw [Action.complete, ihf ho hd hsafe hlead, Option.bind_some]
    exact hnext
  | frame a ih =>
    have ho' : ({ s with built := [] } : ReadState).Orderly := ⟨ho.aligned, ho.trivia, ho.ended⟩
    rw [Action.complete, ih ho' hd.inner hsafe hlead]
    rfl
  | idle a ih =>
    have ha := ReadState.advances_skipTrivia ho
    rw [Action.complete, ih ha.orderly (hd.skipTrivia ho) hsafe hlead]
    rfl
  | call r => exact hpartly r s (hlead.imp And.left).need_lt x ho hd hsafe.1
  | _ => rfl

/-- **Calls that may nest deep enough leave nothing undone.** -/
theorem completes_runRule (hmet : c.Met body) (depth : Nat) (r : R) (s : ReadState)
    (hneed : c.need r s.words < depth) :
    c.Completes (completeRule body depth) (Action.runRule body depth) r s := by
  induction depth generalizing r s with
  | zero => omega
  | succ depth ih =>
    intro x ho hd hneeds
    have hdeep : ∀ (r' : R) (s' : ReadState),
        c.need r' s'.words < c.bound * widthOf s.words + c.rank r s.words →
          c.need r' s'.words < depth := by
      intro r' s' h
      rw [need] at hneed
      omega
    exact complete_run (fun r' s' h => holds_runRule hmet depth r' s' (hdeep r' s' h))
      (fun r' s' h => ih r' s' (hdeep r' s' h)) (body r) ho hd
      (hmet.safe r s.words x ho.ended hneeds) (.inr ⟨rfl, hmet.leads r s.words ho.ended⟩)

/-- A state in which `r` may be called. -/
structure Ready (c : Contract R) (r : R) (s : ReadState) : Prop where
  orderly : s.Orderly
  frame : ∃ x : Frame, x.Describes s ∧ c.needs r s.words x

/-- **What an action asks for.**  Whatever production an action calls is called in a state that is
ready for it, further on in the text, behind the first word or with a rank below `n`. -/
theorem ready_of_asks (hmet : c.Met body) {n : Nat} {start : List Token} (a : Action R α)
    {Q : α → List Token → Frame → Prop} {P : α → Prop} {s t : ReadState} {r : R} {x : Frame}
    (h : a.Asks body s r t) (ho : s.Orderly) (hd : x.Describes s) (hsafe : a.Safe c Q s.words x)
    (hlead : Under start (a.Leads c n start P) s) :
    c.Ready r t ∧ s.Passes t ∧ Under start (c.rank r start < n) t := by
  induction a generalizing s x with
  | bind first next ihf ihn =>
    rcases h with h | ⟨v, u, hdoes, h⟩
    · exact ihf h ho hd hsafe hlead
    · -- What the first action does is what it runs to, within any bound that is large enough.
      have hanswer : ∀ r s, c.need r s.words < c.bound * widthOf start + n →
          c.Holds (Action.runRule body (c.bound * widthOf start + n)) r s :=
        fun r s h => holds_runRule hmet _ r s h
      obtain ⟨ha, ⟨y, hy, hQ⟩, hu⟩ := ran_run hanswer first ho hd hsafe hlead
      have hrun := complete_run hanswer (fun r s h => completes_runRule hmet _ r s h) first ho hd
        hsafe hlead
      obtain ⟨rfl, rfl⟩ := Does.unique ⟨_, hrun⟩ hdoes
      obtain ⟨hready, hpasses, hlast⟩ := ihn _ h ha.orderly hy hQ hu
      exact ⟨hready, ha.passes.trans hpasses, hlast⟩
  | frame a ih =>
    have hasks : a.Asks body { s with built := [] } r t := h
    have hready := ih hasks ⟨ho.aligned, ho.trivia, ho.ended⟩ hd.inner hsafe hlead
    exact hready
  | idle a ih =>
    have ha := ReadState.advances_skipTrivia ho
    obtain ⟨hready, hpasses, hunder⟩ := ih h ha.orderly (hd.skipTrivia ho) hsafe hlead
    exact ⟨hready, ha.passes.trans hpasses, hunder⟩
  | call =>
    obtain ⟨rfl, rfl⟩ := h
    exact ⟨⟨ho, x, hd, hsafe.1⟩, .refl _, hlead.imp And.left⟩
  | _ => cases h

/-- In the state `c.2` the production `c.1` calls the production `d.1` in the state `d.2`. -/
def Calls (body : R → Action R Bool) (c d : R × ReadState) : Prop :=
  (body c.1).Asks body c.2 d.1 d.2

/-- The call `d` comes after progress: a word has been taken since the call `c`, or else the rank
is smaller. -/
structure Progress (c : Contract R) (p q : R × ReadState) : Prop where
  passes : p.2.Passes q.2
  measure : widthOf q.2.words < widthOf p.2.words ∨
    q.2.words = p.2.words ∧ c.rank q.1 p.2.words < c.rank p.1 p.2.words

theorem Progress.trans {p q r : R × ReadState} (h : c.Progress p q) (k : c.Progress q r) :
    c.Progress p r := by
  refine ⟨h.passes.trans k.passes, ?_⟩
  rcases h.measure with h | ⟨hw, hrank⟩ <;> rcases k.measure with k | ⟨kw, krank⟩
  · exact .inl (k.trans h)
  · exact .inl (kw ▸ h)
  · exact .inl (hw ▸ k)
  · exact .inr ⟨kw.trans hw, (hw ▸ krank).trans hrank⟩

/-- **Calls make progress.**  A production calls others, or itself, only behind a word that it has
taken, or with a smaller rank. -/
theorem progress_of_calls (hmet : c.Met body) {p q : R × ReadState} (hready : c.Ready p.1 p.2)
    (h : Calls body p q) : c.Ready q.1 q.2 ∧ c.Progress p q := by
  obtain ⟨ho, x, hd, hneeds⟩ := hready
  obtain ⟨hready, hpasses, hunder⟩ :=
    ready_of_asks hmet (body p.1) h ho hd (hmet.safe p.1 p.2.words x ho.ended hneeds)
      (.inr ⟨rfl, hmet.leads p.1 p.2.words ho.ended⟩)
  exact ⟨hready, hpasses, hunder⟩

/-- The same for calls that come about through any number of others. -/
theorem progress_of_transGen (hmet : c.Met body) {p q : R × ReadState} (hready : c.Ready p.1 p.2)
    (h : Relation.TransGen (Calls body) p q) : c.Ready q.1 q.2 ∧ c.Progress p q := by
  induction h with
  | single h => exact progress_of_calls hmet hready h
  | tail _ h ih =>
    obtain ⟨hready', hprogress⟩ := progress_of_calls hmet ih.1 h
    exact ⟨hready', ih.2.trans hprogress⟩

/-- **Loops use up the text.**  When a call comes back to its own production, or to any other of no
smaller rank, then bytes of the text have been taken in between. -/
theorem widthOf_lt_of_transGen (hmet : c.Met body) {p q : R × ReadState}
    (hready : c.Ready p.1 p.2) (h : Relation.TransGen (Calls body) p q)
    (hrank : c.rank p.1 p.2.words ≤ c.rank q.1 p.2.words) :
    widthOf q.2.ahead < widthOf p.2.ahead := by
  obtain ⟨hready', hprogress⟩ := progress_of_transGen hmet hready h
  rcases hprogress.measure with hlt | ⟨-, hlt⟩
  · exact hprogress.passes.widthOf_lt hready.orderly hready'.orderly hlt
  · omega

end Contract

end LivePatch
