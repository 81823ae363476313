import LivePatch.Proofs.Derivations
import LivePatch.Proofs.TriviaIndependence

/-!
# Reciting words

To see what known words read as, one wants to compute, and a reading state is a poor thing to
compute with: there is trivia in it, and offsets, and problems that must not be there.
`Action.recite` is the instrument.  It does what an action does, with trivia left out and without
an answer as soon as a problem is noted.

It misses nothing.  A recital is what a run comes to (`Action.stands_run`), and whatever is read to
its end without a problem can be recited (`Action.recite_of_complete`).
-/

namespace LivePatch

namespace Action

variable {R α β : Type}

/-- What is left and what has been built after some words were read. -/
abbrev Recital (α : Type) : Type := Option (α × List Token × List Tree)

/-- The words with the shift at the front divided, if there is one. -/
def divideShift : List Token → List Token
  | ⟨.rightShift, _⟩ :: ws => Token.closingAngle :: Token.closingAngle :: ws
  | ws => ws

/-- What an action answers, the words it leaves and the trees that it has built in its frame, all
without trivia.  There is no answer if a problem is noted. -/
def recite (answer : R → List Token → List Tree → Recital Bool) {α : Type} :
    Action R α → List Token → List Tree → Recital α
  | .pure a, ws, ts => some (a, ws, ts)
  | .bind first next, ws, ts =>
    (first.recite answer ws ts).bind fun r => (next r.1).recite answer r.2.1 r.2.2
  | .look decide _, ws, ts => some (decide ws, ws, ts)
  | .skipTrivia, ws, ts => some ((), ws, ts)
  | .take, ws, ts => some ((), ws.drop 1, ts ++ (ws.take 1).map .token)
  | .takeHalf, ws, ts =>
    some ((), (divideShift ws).drop 1, ts ++ ((divideShift ws).take 1).map .token)
  | .report _, _, _ => none
  | .opening _ _, ws, ts => some ((), ws, ts)
  | .enclose k, ws, ts => some ((), ws, [.node k ts])
  | .frame body, ws, ts => (body.recite answer ws []).map fun r => (r.1, r.2.1, ts ++ r.2.2)
  | .idle body, ws, ts =>
    (body.recite answer ws ts).map fun r => (r.2.1.length == ws.length, r.2.1, r.2.2)
  | .call r, ws, ts => answer r ws ts

/-- What the production `rule` comes to when calls may nest `depth` deep. -/
def reciteRule (body : R → Action R Bool) : Nat → R → List Token → List Tree → Recital Bool
  | 0, _, _, _ => none
  | depth + 1, r, ws, ts => (body r).recite (reciteRule body depth) ws ts

variable {answer : R → List Token → List Tree → Recital Bool} {ws : List Token} {ts : List Tree}

@[simp] theorem recite_pure (a : α) :
    (Pure.pure a : Action R α).recite answer ws ts = some (a, ws, ts) := by
  show (Action.pure a).recite answer ws ts = _
  rw [recite]

@[simp] theorem recite_bind (first : Action R α) (next : α → Action R β) :
    (first >>= next).recite answer ws ts =
      (first.recite answer ws ts).bind fun r => (next r.1).recite answer r.2.1 r.2.2 := by
  show (Action.bind first next).recite answer ws ts = _
  rw [recite]

@[simp] theorem recite_look (decide : List Token → α) (scanned : Scanned decide) :
    (look decide scanned : Action R _).recite answer ws ts = some (decide ws, ws, ts) := by
  rw [recite]

@[simp] theorem recite_skipTrivia :
    (skipTrivia : Action R _).recite answer ws ts = some ((), ws, ts) := by
  rw [recite]

theorem recite_take_eq : (take : Action R _).recite answer ws ts =
    some ((), ws.drop 1, ts ++ (ws.take 1).map .token) := by
  rw [recite]

@[simp] theorem recite_take (w : Token) :
    (take : Action R _).recite answer (w :: ws) ts = some ((), ws, ts ++ [.token w]) :=
  recite_take_eq

theorem recite_takeHalf : (takeHalf : Action R _).recite answer ws ts =
    some ((), (divideShift ws).drop 1, ts ++ ((divideShift ws).take 1).map .token) := by
  rw [recite]

@[simp] theorem recite_report (problem : Problem) :
    (report problem : Action R _).recite answer ws ts = none := by
  rw [recite]

@[simp] theorem recite_enclose (k : Kind) :
    (enclose k : Action R _).recite answer ws ts = some ((), ws, [.node k ts]) := by
  rw [recite]

@[simp] theorem recite_frame (body : Action R α) :
    (frame body).recite answer ws ts =
      (body.recite answer ws []).map fun r => (r.1, r.2.1, ts ++ r.2.2) := by
  rw [recite]

@[simp] theorem recite_idle (body : Action R Unit) :
    (idle body).recite answer ws ts =
      (body.recite answer ws ts).map fun r => (r.2.1.length == ws.length, r.2.1, r.2.2) := by
  rw [recite]

@[simp] theorem recite_call (r : R) : (call r).recite answer ws ts = answer r ws ts := by
  rw [recite]

end Action

namespace ReadState

/-- The state has the words `ws` ahead and has built `ts` in its frame, trivia apart, without a
problem so far. -/
structure Stands (ws : List Token) (ts : List Tree) (s : ReadState) : Prop where
  words : s.words = ws
  shown : ∀ w ∈ ws, w.isTrivia = false
  trivia : ∀ gap ∈ s.gaps, ∀ t ∈ gap, t.isTrivia = true
  built : Tree.withoutAll Token.isTrivia s.built = ts.reverse
  found : s.found = []

namespace Stands

variable {ws : List Token} {ts us : List Tree} {s s' : ReadState}

theorem isTrivia_gap (h : s.Stands ws ts) : ∀ t ∈ s.gap, t.isTrivia = true := by
  unfold gap
  cases hg : s.gaps with
  | nil => exact List.forall_mem_nil _
  | cons gap gaps => exact h.trivia gap (hg ▸ List.mem_cons_self)

theorem skipTrivia (h : s.Stands ws ts) : s.skipTrivia.Stands ws ts := by
  have hgap : s.gap.filter (fun t => !t.isTrivia) = [] :=
    List.filter_eq_nil_iff.mpr fun t ht => by simp [h.isTrivia_gap t ht]
  refine ⟨h.words, h.shown, ?_, ?_, h.found⟩
  · have htrivia := h.trivia
    cases hg : s.gaps with
    | nil => simp [skipTrivia_gaps_nil hg]
    | cons gap gaps =>
      rw [hg] at htrivia
      simpa [skipTrivia_gaps_cons hg] using (List.forall_mem_cons.mp htrivia).2
  · show Tree.withoutAll _ (s.gap.reverse.map .token ++ s.built) = _
    rw [Tree.withoutAll_append, Tree.withoutAll_tokens, List.filter_reverse, hgap, h.built]
    rfl

theorem take (h : s.Stands ws ts) :
    s.take.Stands (ws.drop 1) (ts ++ (ws.take 1).map .token) := by
  have hskip := h.skipTrivia
  unfold ReadState.take
  simp only [hskip.words]
  cases ws with
  | nil => simpa using hskip
  | cons w ws =>
    obtain ⟨hw, hws⟩ := List.forall_mem_cons.mp h.shown
    refine ⟨rfl, hws, fun gap hgap => hskip.trivia gap (List.mem_of_mem_drop hgap), ?_,
      hskip.found⟩
    rw [Tree.withoutAll_token, hw, hskip.built]
    simp

theorem splitShift (h : s.Stands ws ts) : s.splitShift.Stands (Action.divideShift ws) ts := by
  have hgap := h.isTrivia_gap
  obtain ⟨rfl, hshown, htrivia, hbuilt, hfound⟩ := h
  unfold ReadState.splitShift
  split
  · rename_i text ws hws
    rw [hws] at hshown ⊢
    refine ⟨rfl, ?_, ?_, hbuilt, hfound⟩
    · intro w hw
      rcases List.mem_cons.mp hw with rfl | hw
      · rfl
      rcases List.mem_cons.mp hw with rfl | hw
      · rfl
      exact hshown w (List.mem_cons_of_mem _ hw)
    · exact List.forall_mem_cons.mpr ⟨hgap, List.forall_mem_cons.mpr
        ⟨List.forall_mem_nil _, fun gap hgap => htrivia gap (List.mem_of_mem_drop hgap)⟩⟩
  · rename_i hnone
    have hkept : Action.divideShift s.words = s.words := by
      unfold Action.divideShift
      split
      · rename_i hws
        exact absurd hws (hnone _ _)
      · rfl
    rw [hkept]
    exact ⟨rfl, hshown, htrivia, hbuilt, hfound⟩

theorem enclose (h : s.Stands ws ts) (k : Kind) : (s.enclose k).Stands ws [.node k ts] := by
  refine ⟨h.words, h.shown, h.trivia, ?_, h.found⟩
  show Tree.withoutAll _ [.node k s.built.reverse] = _
  simp [Tree.withoutAll_reverse, h.built]

theorem inner (h : s.Stands ws ts) : Stands ws [] { s with built := [] } :=
  ⟨h.words, h.shown, h.trivia, rfl, h.found⟩

theorem merge (h : s.Stands ws ts) {ws' : List Token} (k : s'.Stands ws' us) :
    Stands ws' (ts ++ us) { s' with built := s'.built ++ s.built } :=
  ⟨k.words, k.shown, k.trivia, by simp [h.built, k.built], k.found⟩

end Stands

end ReadState

namespace Action

variable {R α : Type} {answer : R → List Token → List Tree → Recital Bool}
  {ws ws' : List Token} {ts ts' : List Tree}

/-- **A recital is what a run comes to**, if the answers of calls are. -/
theorem stands_run {reply : R → ReadState → Bool × ReadState}
    (hanswer : ∀ r ws ts v ws' ts', answer r ws ts = some (v, ws', ts') →
      ∀ s, s.Stands ws ts → (reply r s).1 = v ∧ (reply r s).2.Stands ws' ts')
    (a : Action R α) {v : α} {s : ReadState} (h : a.recite answer ws ts = some (v, ws', ts'))
    (hs : s.Stands ws ts) : (a.run reply s).1 = v ∧ (a.run reply s).2.Stands ws' ts' := by
  induction a generalizing ws ts ws' ts' s with
  | pure u =>
    rw [recite] at h
    cases h
    exact ⟨rfl, hs⟩
  | bind first next ihf ihn =>
    rw [recite, Option.bind_eq_some_iff] at h
    obtain ⟨⟨u, ws₁, ts₁⟩, hfirst, hnext⟩ := h
    obtain ⟨hu, hstands⟩ := ihf hfirst hs
    simp only [run]
    rw [hu]
    exact ihn u hnext hstands
  | look decide =>
    rw [recite] at h
    cases h
    exact ⟨congrArg decide hs.words, hs⟩
  | skipTrivia =>
    rw [recite] at h
    cases h
    exact ⟨rfl, hs.skipTrivia⟩
  | take =>
    rw [recite] at h
    cases h
    exact ⟨rfl, hs.take⟩
  | takeHalf =>
    rw [recite] at h
    cases h
    exact ⟨rfl, hs.splitShift.take⟩
  | report =>
    rw [recite] at h
    cases h
  | opening =>
    rw [recite] at h
    cases h
    exact ⟨rfl, hs⟩
  | enclose k =>
    rw [recite] at h
    cases h
    exact ⟨rfl, hs.enclose k⟩
  | frame body ih =>
    rw [recite, Option.map_eq_some_iff] at h
    obtain ⟨⟨u, ws₁, ts₁⟩, hbody, heq⟩ := h
    cases heq
    obtain ⟨hu, hstands⟩ := ih hbody hs.inner
    exact ⟨hu, hs.merge hstands⟩
  | idle body ih =>
    rw [recite, Option.map_eq_some_iff] at h
    obtain ⟨⟨u, ws₁, ts₁⟩, hbody, heq⟩ := h
    cases heq
    obtain ⟨-, hstands⟩ := ih hbody hs.skipTrivia
    refine ⟨?_, hstands⟩
    show ((body.run reply s.skipTrivia).2.words.length == s.skipTrivia.words.length) = _
    rw [hstands.words, hs.skipTrivia.words]
  | call r =>
    rw [recite] at h
    exact hanswer r ws ts v ws' ts' h s hs

theorem stands_runRule (body : R → Action R Bool) (depth : Nat) (r : R) (v : Bool)
    (h : reciteRule body depth r ws ts = some (v, ws', ts')) (s : ReadState)
    (hs : s.Stands ws ts) :
    (runRule body depth r s).1 = v ∧ (runRule body depth r s).2.Stands ws' ts' := by
  induction depth generalizing r ws ts ws' ts' v s with
  | zero =>
    rw [reciteRule] at h
    cases h
  | succ depth ih =>
    rw [reciteRule] at h
    exact stands_run (fun r ws ts v ws' ts' h s hs => ih r v h s hs) (body r) h hs

/-- **Whatever is read without a problem can be recited**, if the calls can. -/
theorem recite_of_complete {partly : R → ReadState → Option (Bool × ReadState)}
    (hfound : ∀ {r s v t}, partly r s = some (v, t) → s.found <:+ t.found)
    (hanswer : ∀ {r s v t ws ts}, partly r s = some (v, t) → s.Stands ws ts → t.found = [] →
      ∃ ws' ts', answer r ws ts = some (v, ws', ts') ∧ t.Stands ws' ts')
    (a : Action R α) {s t : ReadState} {v : α} (h : a.complete partly s = some (v, t))
    (hs : s.Stands ws ts) (hclean : t.found = []) :
    ∃ ws' ts', a.recite answer ws ts = some (v, ws', ts') ∧ t.Stands ws' ts' := by
  induction a generalizing s t ws ts with
  | bind first next ihf ihn =>
    obtain ⟨⟨u, m⟩, hfirst, hnext⟩ := Option.bind_eq_some_iff.mp h
    have hm : m.found = [] :=
      List.suffix_nil.mp (hclean ▸ found_suffix_of_complete hfound (next u) hnext)
    obtain ⟨ws₁, ts₁, hrecite, hstands⟩ := ihf hfirst hs hm
    obtain ⟨ws₂, ts₂, hrecite', hstands'⟩ := ihn u hnext hstands hclean
    exact ⟨ws₂, ts₂, by rw [recite, hrecite, Option.bind_some, hrecite'], hstands'⟩
  | look =>
    obtain ⟨rfl, rfl⟩ := Prod.mk.inj (Option.some.inj h)
    exact ⟨ws, ts, by rw [recite, hs.words], hs⟩
  | report problem =>
    obtain ⟨rfl, rfl⟩ := Prod.mk.inj (Option.some.inj h)
    cases hclean
  | frame body ih =>
    obtain ⟨⟨u, m⟩, hbody, heq⟩ := Option.map_eq_some_iff.mp h
    obtain ⟨rfl, rfl⟩ := Prod.mk.inj heq
    obtain ⟨ws₁, ts₁, hrecite, hstands⟩ := ih hbody hs.inner hclean
    exact ⟨ws₁, ts ++ ts₁, by rw [recite, hrecite, Option.map_some], hs.merge hstands⟩
  | idle body ih =>
    obtain ⟨⟨u, m⟩, hbody, heq⟩ := Option.map_eq_some_iff.mp h
    obtain ⟨rfl, rfl⟩ := Prod.mk.inj heq
    obtain ⟨ws₁, ts₁, hrecite, hstands⟩ := ih hbody hs.skipTrivia hclean
    refine ⟨ws₁, ts₁, ?_, hstands⟩
    rw [recite, hrecite, Option.map_some, hstands.words, hs.skipTrivia.words]
  | call r =>
    obtain ⟨ws₁, ts₁, hrecite, hstands⟩ := hanswer h hs hclean
    exact ⟨ws₁, ts₁, by rw [recite, hrecite], hstands⟩
  | pure | opening =>
    obtain ⟨rfl, rfl⟩ := Prod.mk.inj (Option.some.inj h)
    exact ⟨ws, ts, by rw [recite], hs⟩
  | skipTrivia =>
    obtain ⟨rfl, rfl⟩ := Prod.mk.inj (Option.some.inj h)
    exact ⟨ws, ts, by rw [recite], hs.skipTrivia⟩
  | take =>
    obtain ⟨rfl, rfl⟩ := Prod.mk.inj (Option.some.inj h)
    exact ⟨_, _, by rw [recite], hs.take⟩
  | takeHalf =>
    obtain ⟨rfl, rfl⟩ := Prod.mk.inj (Option.some.inj h)
    exact ⟨_, _, by rw [recite], hs.splitShift.take⟩
  | enclose k =>
    obtain ⟨rfl, rfl⟩ := Prod.mk.inj (Option.some.inj h)
    exact ⟨_, _, by rw [recite], hs.enclose k⟩

theorem reciteRule_of_completeRule {body : R → Action R Bool} (depth : Nat) {r : R}
    {s t : ReadState} {v : Bool} (h : completeRule body depth r s = some (v, t))
    (hs : s.Stands ws ts) (hclean : t.found = []) :
    ∃ ws' ts', reciteRule body depth r ws ts = some (v, ws', ts') ∧ t.Stands ws' ts' := by
  induction depth generalizing r s t v ws ts with
  | zero => cases h
  | succ depth ih =>
    have hbody : (body r).complete (completeRule body depth) s = some (v, t) := h
    refine recite_of_complete ?_ ?_ (body r) hbody hs hclean
    · exact fun h => found_suffix_of_completeRule depth h
    · exact fun h hs hclean => ih h hs hclean

/-- More answers recite no less. -/
theorem recite_mono {answer' : R → List Token → List Tree → Recital Bool}
    (hanswer : ∀ {r ws ts p}, answer r ws ts = some p → answer' r ws ts = some p)
    (a : Action R α) {p : α × List Token × List Tree} (h : a.recite answer ws ts = some p) :
    a.recite answer' ws ts = some p := by
  induction a generalizing ws ts with
  | bind first next ihf ihn =>
    rw [recite] at h ⊢
    obtain ⟨q, hfirst, hnext⟩ := Option.bind_eq_some_iff.mp h
    exact Option.bind_eq_some_iff.mpr ⟨q, ihf hfirst, ihn q.1 hnext⟩
  | frame body ih | idle body ih =>
    rw [recite] at h ⊢
    obtain ⟨q, hbody, rfl⟩ := Option.map_eq_some_iff.mp h
    exact Option.map_eq_some_iff.mpr ⟨q, ih hbody, rfl⟩
  | call r =>
    rw [recite] at h ⊢
    exact hanswer h
  | _ =>
    rw [recite] at h ⊢
    exact h

theorem reciteRule_mono {body : R → Action R Bool} {depth depth' : Nat} (hle : depth ≤ depth')
    {r : R} {p : Bool × List Token × List Tree} (h : reciteRule body depth r ws ts = some p) :
    reciteRule body depth' r ws ts = some p := by
  induction depth generalizing depth' r ws ts p with
  | zero => cases h
  | succ depth ih =>
    obtain ⟨depth', rfl⟩ : ∃ n, depth' = n + 1 := ⟨depth' - 1, by omega⟩
    exact recite_mono (fun h => ih (by omega) h) (body r) h

/-- **What can be recited is what a complete reading comes to**, however deep calls nest in it. -/
theorem stands_of_recite {body : R → Action R Bool} {a : Action R α} {depth depth' : Nat}
    {s t : ReadState} {u v : α} (h : a.complete (completeRule body depth) s = some (u, t))
    (hrecite : a.recite (reciteRule body depth') ws ts = some (v, ws', ts')) (hs : s.Stands ws ts) :
    u = v ∧ t.Stands ws' ts' := by
  have hcomplete := complete_mono (fun _ _ _ h => completeRule_mono (le_max_left depth depth') h) a h
  have hrun := run_of_complete (fun _ _ _ h => runRule_of_completeRule h) a hcomplete
  have hboth := stands_run
    (fun r ws ts v ws' ts' h s hs => stands_runRule body (max depth depth') r v h s hs) a
    (recite_mono (reciteRule_mono (le_max_right depth depth')) a hrecite) hs
  rwa [hrun] at hboth

end Action

end LivePatch
