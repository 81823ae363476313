import LivePatch.Proofs.TemplateTrees

/-!
# Recitals without a bound

A recital bounds how deep calls may nest, so that it can be computed.  Where words are not known
one by one, the bound is in the way: every statement about a recital would have to say how deep is
deep enough for it.  `Action.recount` is the recital that any bound comes to once it is large
enough.  It satisfies the equation that the productions suggest (`Action.recount_eq`), so a
recount is taken apart and put together with no bound in sight, and what holds of it is proved by
induction on the calls (`Action.recount_induction`).
-/

namespace LivePatch

namespace Action

variable {R α : Type} {body : R → Action R Bool} {ws ws' : List Token} {ts ts' : List Tree}

open Classical in
/-- What the production `r` comes to when calls may nest as deep as they have to. -/
noncomputable def recount (body : R → Action R Bool) (r : R) (ws : List Token) (ts : List Tree) :
    Recital Bool :=
  if h : ∃ p depth, reciteRule body depth r ws ts = some p then some h.choose else none

theorem recount_eq_some_iff {r : R} {p : Bool × List Token × List Tree} :
    recount body r ws ts = some p ↔ ∃ depth, reciteRule body depth r ws ts = some p := by
  constructor
  · intro h
    unfold recount at h
    split at h
    · rename_i hsome
      obtain rfl := Option.some.inj h
      exact hsome.choose_spec
    · cases h
  · rintro ⟨depth, h⟩
    have hsome : ∃ p depth, reciteRule body depth r ws ts = some p := ⟨p, depth, h⟩
    obtain ⟨depth', h'⟩ := hsome.choose_spec
    have hboth := (reciteRule_mono (le_max_left depth depth') h).symm.trans
      (reciteRule_mono (le_max_right depth depth') h')
    rw [recount, dif_pos hsome, hboth]

theorem recount_of_reciteRule {depth : Nat} {r : R} {p : Bool × List Token × List Tree}
    (h : reciteRule body depth r ws ts = some p) : recount body r ws ts = some p :=
  recount_eq_some_iff.mpr ⟨depth, h⟩

/-- An action makes finitely many calls, so there is a depth that is enough for all of them. -/
theorem recite_recount_iff (a : Action R α) {p : α × List Token × List Tree} :
    a.recite (recount body) ws ts = some p ↔
      ∃ depth, a.recite (reciteRule body depth) ws ts = some p := by
  constructor
  · intro h
    induction a generalizing ws ts with
    | bind first next ihf ihn =>
      rw [recite] at h
      obtain ⟨q, hfirst, hnext⟩ := Option.bind_eq_some_iff.mp h
      obtain ⟨depth, hfirst⟩ := ihf hfirst
      obtain ⟨depth', hnext⟩ := ihn q.1 hnext
      refine ⟨max depth depth', ?_⟩
      rw [recite]
      exact Option.bind_eq_some_iff.mpr
        ⟨q, recite_mono (reciteRule_mono (le_max_left depth depth')) first hfirst,
          recite_mono (reciteRule_mono (le_max_right depth depth')) _ hnext⟩
    | frame a ih | idle a ih =>
      rw [recite] at h
      obtain ⟨q, ha, rfl⟩ := Option.map_eq_some_iff.mp h
      obtain ⟨depth, ha⟩ := ih ha
      refine ⟨depth, ?_⟩
      rw [recite, ha]
      rfl
    | call r =>
      rw [recite] at h
      obtain ⟨depth, h⟩ := recount_eq_some_iff.mp h
      exact ⟨depth, by rw [recite, h]⟩
    | _ =>
      rw [recite] at h
      exact ⟨0, by rw [recite, h]⟩
  · rintro ⟨depth, h⟩
    exact recite_mono recount_of_reciteRule a h

/-- **A production comes to what its body comes to**, with the calls in it answered likewise. -/
theorem recount_eq (r : R) : recount body r ws ts = (body r).recite (recount body) ws ts := by
  refine Option.ext fun p => ?_
  rw [recount_eq_some_iff, recite_recount_iff]
  constructor
  · rintro ⟨depth, h⟩
    cases depth with
    | zero => cases h
    | succ depth => exact ⟨depth, h⟩
  · rintro ⟨depth, h⟩
    exact ⟨depth + 1, h⟩

/-- **Induction on calls.**  What holds of a production if it holds of all that it calls holds of
everything that can be recounted. -/
theorem recount_induction {P : R → List Token → List Tree → Bool × List Token × List Tree → Prop}
    (step : ∀ answer : R → List Token → List Tree → Recital Bool,
      (∀ r ws ts p, answer r ws ts = some p → P r ws ts p) →
      ∀ r ws ts p, (body r).recite answer ws ts = some p → P r ws ts p)
    {r : R} {p : Bool × List Token × List Tree} (h : recount body r ws ts = some p) :
    P r ws ts p := by
  have hdepth : ∀ depth r ws ts p, reciteRule body depth r ws ts = some p → P r ws ts p := by
    intro depth
    induction depth with
    | zero =>
      intro r ws ts p h
      cases h
    | succ depth ih => exact step _ ih
  obtain ⟨depth, h⟩ := recount_eq_some_iff.mp h
  exact hdepth depth r ws ts p h

/-! ## What a recount comes to -/

/-- If calls come to what `P` says of them, then whatever is recited from the words `ws` comes to an
answer and to words for which `Q` holds. -/
def Comes (P : R → List Token → Bool → List Token → Prop) {α : Type} :
    Action R α → (α → List Token → Prop) → List Token → Prop
  | .pure a, Q, ws => Q a ws
  | .bind first next, Q, ws => first.Comes P (fun a ws => (next a).Comes P Q ws) ws
  | .look decide _, Q, ws => Q (decide ws) ws
  | .skipTrivia, Q, ws => Q () ws
  | .take, Q, ws => Q () (ws.drop 1)
  | .takeHalf, Q, ws => Q () ((divideShift ws).drop 1)
  | .report _, _, _ => True
  | .opening _ _, Q, ws => Q () ws
  | .enclose _, Q, ws => Q () ws
  | .frame body, Q, ws => body.Comes P Q ws
  | .idle body, Q, ws => body.Comes P (fun _ ws' => Q (ws'.length == ws.length) ws') ws
  | .call r, Q, ws => ∀ b ws', P r ws b ws' → Q b ws'

section

variable {β : Type} {P : R → List Token → Bool → List Token → Prop} {Q : α → List Token → Prop}

@[simp ↓] theorem comes_pure (a : α) : (Pure.pure a : Action R α).Comes P Q ws ↔ Q a ws := Iff.rfl

@[simp ↓] theorem comes_bind (first : Action R α) (next : α → Action R β)
    {Q : β → List Token → Prop} : (first >>= next).Comes P Q ws ↔
      first.Comes P (fun a ws => (next a).Comes P Q ws) ws := Iff.rfl

@[simp ↓] theorem comes_skipTrivia {Q : Unit → List Token → Prop} :
    (skipTrivia : Action R _).Comes P Q ws ↔ Q () ws := Iff.rfl

@[simp ↓] theorem comes_take {Q : Unit → List Token → Prop} :
    (take : Action R _).Comes P Q ws ↔ Q () (ws.drop 1) := Iff.rfl

@[simp ↓] theorem comes_takeHalf {Q : Unit → List Token → Prop} :
    (takeHalf : Action R _).Comes P Q ws ↔ Q () ((divideShift ws).drop 1) := Iff.rfl

@[simp ↓] theorem comes_report (problem : Problem) {Q : Unit → List Token → Prop} :
    (report problem : Action R _).Comes P Q ws := trivial

@[simp ↓] theorem comes_enclose (k : Kind) {Q : Unit → List Token → Prop} :
    (enclose k : Action R _).Comes P Q ws ↔ Q () ws := Iff.rfl

@[simp ↓] theorem comes_frame (body : Action R α) :
    (frame body).Comes P Q ws ↔ body.Comes P Q ws := Iff.rfl

@[simp ↓] theorem comes_call (r : R) {Q : Bool → List Token → Prop} :
    (call r).Comes P Q ws ↔ ∀ b ws', P r ws b ws' → Q b ws' := Iff.rfl

theorem Comes.mono {a : Action R α} {Q' : α → List Token → Prop} (h : a.Comes P Q ws)
    (hQ : ∀ v ws, Q v ws → Q' v ws) : a.Comes P Q' ws := by
  induction a generalizing ws with
  | bind first next ihf ihn => exact ihf h fun v ws hv => ihn v hv hQ
  | report => trivial
  | frame body ih => exact ih h hQ
  | idle body ih => exact ih h fun _ _ => hQ _ _
  | call r => exact fun b ws' hb => hQ b ws' (h b ws' hb)
  | _ => exact hQ _ _ h

theorem comes_of_forall (a : Action R α) (hQ : ∀ v ws, Q v ws) : a.Comes P Q ws := by
  induction a generalizing ws with
  | bind first next ihf ihn => exact ihf fun v ws => ihn v hQ
  | report => trivial
  | frame body ih => exact ih hQ
  | idle body ih => exact ih fun _ _ => hQ _ _
  | call r => exact fun b ws' _ => hQ b ws'
  | _ => exact hQ _ _

theorem of_recite {answer : R → List Token → List Tree → Recital Bool}
    (hanswer : ∀ r ws ts v ws' ts', answer r ws ts = some (v, ws', ts') → P r ws v ws')
    (a : Action R α) {v : α} (h : a.recite answer ws ts = some (v, ws', ts'))
    (hcomes : a.Comes P Q ws) : Q v ws' := by
  induction a generalizing ws ts ws' ts' with
  | bind first next ihf ihn =>
    rw [recite, Option.bind_eq_some_iff] at h
    obtain ⟨⟨u, ws₁, ts₁⟩, hfirst, hnext⟩ := h
    exact ihn u hnext (ihf hfirst hcomes)
  | report =>
    rw [recite] at h
    cases h
  | frame body ih | idle body ih =>
    rw [recite, Option.map_eq_some_iff] at h
    obtain ⟨⟨u, ws₁, ts₁⟩, hbody, heq⟩ := h
    cases heq
    exact ih hbody hcomes
  | call r =>
    rw [recite] at h
    exact hcomes v ws' (hanswer r ws ts v ws' ts' h)
  | _ =>
    rw [recite] at h
    cases h
    exact hcomes

/-- **What every production comes to, every recount comes to.** -/
theorem of_recount (hbody : ∀ r ws, (body r).Comes P (P r ws) ws) {r : R} {v : Bool}
    (h : recount body r ws ts = some (v, ws', ts')) : P r ws v ws' := by
  refine recount_induction (P := fun r ws _ p => P r ws p.1 p.2.1) ?_ h
  intro answer hanswer r ws ts p hp
  exact of_recite (P := P) (fun r ws ts v ws' ts' h => hanswer r ws ts _ h) (body r) hp (hbody r ws)

end

/-! ## Recounts and readings -/

/-- What can be recited is read to its end, if the calls are. -/
theorem complete_of_recite {answer : R → List Token → List Tree → Recital Bool}
    {partly : R → ReadState → Option (Bool × ReadState)}
    (hanswer : ∀ r ws ts v ws' ts' s, answer r ws ts = some (v, ws', ts') → s.Stands ws ts →
      ∃ t, partly r s = some (v, t) ∧ t.Stands ws' ts')
    (a : Action R α) {s : ReadState} {v : α} (h : a.recite answer ws ts = some (v, ws', ts'))
    (hs : s.Stands ws ts) : ∃ t, a.complete partly s = some (v, t) ∧ t.Stands ws' ts' := by
  induction a generalizing s ws ts ws' ts' with
  | pure | opening =>
    rw [recite] at h
    cases h
    exact ⟨s, rfl, hs⟩
  | bind first next ihf ihn =>
    rw [recite, Option.bind_eq_some_iff] at h
    obtain ⟨⟨u, ws₁, ts₁⟩, hfirst, hnext⟩ := h
    obtain ⟨m, hm, hstands⟩ := ihf hfirst hs
    obtain ⟨t, ht, hstands'⟩ := ihn u hnext hstands
    exact ⟨t, by rw [complete, hm]; exact ht, hstands'⟩
  | look =>
    rw [recite] at h
    cases h
    exact ⟨s, by rw [complete, hs.words], hs⟩
  | skipTrivia =>
    rw [recite] at h
    cases h
    exact ⟨_, rfl, hs.skipTrivia⟩
  | take =>
    rw [recite] at h
    cases h
    exact ⟨_, rfl, hs.take⟩
  | takeHalf =>
    rw [recite] at h
    cases h
    exact ⟨_, rfl, hs.splitShift.take⟩
  | report =>
    rw [recite] at h
    cases h
  | enclose k =>
    rw [recite] at h
    cases h
    exact ⟨_, rfl, hs.enclose k⟩
  | frame body ih =>
    rw [recite, Option.map_eq_some_iff] at h
    obtain ⟨⟨u, ws₁, ts₁⟩, hbody, heq⟩ := h
    cases heq
    obtain ⟨t, ht, hstands⟩ := ih hbody hs.inner
    exact ⟨_, by rw [complete, ht, Option.map_some], hs.merge hstands⟩
  | idle body ih =>
    rw [recite, Option.map_eq_some_iff] at h
    obtain ⟨⟨u, ws₁, ts₁⟩, hbody, heq⟩ := h
    cases heq
    obtain ⟨t, ht, hstands⟩ := ih hbody hs.skipTrivia
    refine ⟨t, ?_, hstands⟩
    simp only [complete, ht, Option.map_some, hstands.words, hs.skipTrivia.words]
  | call r =>
    rw [recite] at h
    exact hanswer r ws ts v ws' ts' s h hs

/-- **What can be recounted is read so**, from every state that stands there. -/
theorem does_of_recount (a : Action R α) {s : ReadState} {v : α}
    (h : a.recite (recount body) ws ts = some (v, ws', ts')) (hs : s.Stands ws ts) :
    ∃ t, a.Does body s v t ∧ t.Stands ws' ts' := by
  obtain ⟨depth, h⟩ := (recite_recount_iff a).mp h
  have hrule : ∀ depth r ws ts v ws' ts' s, reciteRule body depth r ws ts = some (v, ws', ts') →
      s.Stands ws ts → ∃ t, completeRule body depth r s = some (v, t) ∧ t.Stands ws' ts' := by
    intro depth
    induction depth with
    | zero =>
      rintro r ws ts v ws' ts' s h -
      cases h
    | succ depth ih =>
      intro r ws ts v ws' ts' s h hs
      exact complete_of_recite ih (body r) h hs
  obtain ⟨t, ht, hstands⟩ := complete_of_recite (hrule depth) a h hs
  exact ⟨t, ⟨depth, ht⟩, hstands⟩

/-- **What is read without a problem can be recounted.** -/
theorem recount_of_does (a : Action R α) {s t : ReadState} {v : α} (h : a.Does body s v t)
    (hs : s.Stands ws ts) (hclean : t.found = []) :
    ∃ ws' ts', a.recite (recount body) ws ts = some (v, ws', ts') ∧ t.Stands ws' ts' := by
  obtain ⟨depth, h⟩ := h
  obtain ⟨ws', ts', hrecite, hstands⟩ := recite_of_complete
    (fun h => found_suffix_of_completeRule _ h)
    (fun h hs hclean => reciteRule_of_completeRule _ h hs hclean) a h hs hclean
  exact ⟨ws', ts', (recite_recount_iff a).mpr ⟨depth, hrecite⟩, hstands⟩

end Action

/-! ## Earlier problems -/

namespace ReadState

/-- The state, with the problems `earlier` found before all others. -/
def foundAfter (earlier : List Diagnostic) (s : ReadState) : ReadState :=
  { s with found := s.found ++ earlier }

variable (earlier : List Diagnostic) (s : ReadState)

theorem take_foundAfter : (s.foundAfter earlier).take = s.take.foundAfter earlier := by
  unfold ReadState.take foundAfter skipTrivia
  dsimp only
  split <;> rfl

theorem splitShift_foundAfter :
    (s.foundAfter earlier).splitShift = s.splitShift.foundAfter earlier := by
  unfold ReadState.splitShift foundAfter
  dsimp only
  split <;> rfl

end ReadState

namespace Action

open ReadState (foundAfter)

variable {R α : Type} {body : R → Action R Bool} (earlier : List Diagnostic)

/-- What was found before takes no part in what is read. -/
theorem complete_foundAfter {partly : R → ReadState → Option (Bool × ReadState)}
    (hpartly : ∀ r s, partly r (s.foundAfter earlier) =
      (partly r s).map (Prod.map id (foundAfter earlier)))
    (a : Action R α) (s : ReadState) : a.complete partly (s.foundAfter earlier) =
      (a.complete partly s).map (Prod.map id (foundAfter earlier)) := by
  induction a generalizing s with
  | bind first next ihf ihn =>
    rw [complete, complete, ihf]
    cases first.complete partly s with
    | none => rfl
    | some p => exact ihn p.1 p.2
  | frame body ih =>
    have hinner := ih { s with built := [] }
    rw [complete, complete]
    change (body.complete partly (foundAfter earlier { s with built := [] })).map _ = _
    rw [hinner]
    cases body.complete partly { s with built := [] } <;> rfl
  | idle body ih =>
    have hbody := ih s.skipTrivia
    rw [complete, complete]
    change (body.complete partly (foundAfter earlier s.skipTrivia)).map _ = _
    rw [hbody]
    cases body.complete partly s.skipTrivia <;> rfl
  | call r => exact hpartly r s
  | take => exact congrArg (fun t => some ((), t)) (s.take_foundAfter earlier)
  | takeHalf =>
    refine congrArg (fun t => some ((), t)) ?_
    rw [ReadState.takeHalf, s.splitShift_foundAfter]
    exact s.splitShift.take_foundAfter earlier
  | _ => rfl

theorem completeRule_foundAfter (depth : Nat) (r : R) (s : ReadState) :
    completeRule body depth r (s.foundAfter earlier) =
      (completeRule body depth r s).map (Prod.map id (foundAfter earlier)) := by
  induction depth generalizing r s with
  | zero => rfl
  | succ depth ih => exact complete_foundAfter earlier ih (body r) s

/-- **A reading goes on as if nothing had been found before.** -/
theorem does_foundAfter_iff {a : Action R α} {s t : ReadState} {v : α} :
    a.Does body (s.foundAfter earlier) v t ↔
      ∃ t', a.Does body s v t' ∧ t = t'.foundAfter earlier := by
  have hcalls (depth : Nat) (r : R) (s : ReadState) :
      completeRule body depth r (s.foundAfter earlier) = _ := completeRule_foundAfter earlier depth r s
  have heq (depth : Nat) := complete_foundAfter earlier (hcalls depth) a s
  constructor
  · rintro ⟨depth, h⟩
    rw [heq, Option.map_eq_some_iff] at h
    obtain ⟨⟨u, t'⟩, h, hpair⟩ := h
    obtain ⟨rfl, rfl⟩ := Prod.mk.inj hpair
    exact ⟨t', ⟨depth, h⟩, rfl⟩
  · rintro ⟨t', ⟨depth, h⟩, rfl⟩
    exact ⟨depth, by rw [heq, h]; rfl⟩

/-! ## Readings in the middle of a text -/

variable {s t : ReadState} {v : α} {ws' : List Token} {ts' : List Tree}

/-- The trees built so far, without trivia. -/
abbrev shownTrees (s : ReadState) : List Tree := (Tree.withoutAll Token.isTrivia s.built).reverse

/-- Apart from what was found before, an orderly state stands somewhere. -/
theorem stands_of_orderly (hs : s.Orderly) (hshown : ∀ w ∈ s.words, w.isTrivia = false) :
    ReadState.Stands s.words (shownTrees s) { s with found := [] } :=
  ⟨rfl, hshown, hs.trivia, (List.reverse_reverse _).symm, rfl⟩

/-- **What can be recounted is read so** in the middle of a text, and no problem is added. -/
theorem exists_does_of_recount {a : Action R α} (hs : s.Orderly)
    (hshown : ∀ w ∈ s.words, w.isTrivia = false)
    (h : a.recite (recount body) s.words (shownTrees s) = some (v, ws', ts')) :
    ∃ t, a.Does body s v t ∧ t.words = ws' ∧ shownTrees t = ts' ∧ t.found = s.found := by
  obtain ⟨t, hdoes, hstands⟩ := does_of_recount a h (stands_of_orderly hs hshown)
  have hs' : s = ReadState.foundAfter s.found { s with found := [] } := by
    simp [ReadState.foundAfter]
  refine ⟨t.foundAfter s.found, ?_, hstands.words, ?_, ?_⟩
  · rw [hs']
    exact (does_foundAfter_iff _).mpr ⟨t, hdoes, rfl⟩
  · exact List.reverse_eq_iff.mpr hstands.built
  · simp [ReadState.foundAfter, hstands.found]

/-- **What is read without another problem can be recounted.** -/
theorem exists_recount_of_does {a : Action R α} (hs : s.Orderly)
    (hshown : ∀ w ∈ s.words, w.isTrivia = false) (h : a.Does body s v t)
    (hfound : t.found = s.found) :
    a.recite (recount body) s.words (shownTrees s) = some (v, t.words, shownTrees t) := by
  have hs' : s = ReadState.foundAfter s.found { s with found := [] } := by
    simp [ReadState.foundAfter]
  rw [hs'] at h
  obtain ⟨t', hdoes, rfl⟩ := (does_foundAfter_iff _).mp h
  obtain ⟨ws', ts', hrecite, hstands⟩ := recount_of_does a hdoes (stands_of_orderly hs hshown)
    (by simpa [ReadState.foundAfter] using hfound)
  rw [hrecite]
  obtain rfl : t'.words = ws' := hstands.words
  obtain rfl : shownTrees t' = ts' := List.reverse_eq_iff.mpr hstands.built
  rfl

end Action

namespace Grammar

open LivePatch.Action (Comes)
open Words (front)

variable {P : Rule → List Token → Bool → List Token → Prop} {α : Type} {ws : List Token}
  {Q : α → List Token → Prop} {U : Unit → List Token → Prop} {B : Bool → List Token → Prop}

@[simp ↓] theorem comes_ite (p : Prop) [Decidable p] (a b : Step α) :
    (if p then a else b : Step α).Comes P Q ws ↔ if p then a.Comes P Q ws else b.Comes P Q ws := by
  split <;> rfl

@[simp ↓] theorem comes_ahead (decide : List Token → α) [Scanned decide] :
    (ahead decide).Comes P Q ws ↔ Q (decide ws) ws := Iff.rfl

@[simp ↓] theorem comes_current {Q : Kind → List Token → Prop} :
    current.Comes P Q ws ↔ Q (front ws) ws := Iff.rfl

@[simp ↓] theorem comes_sees (k : Kind) : (sees k).Comes P B ws ↔ B (front ws == k) ws := Iff.rfl

@[simp ↓] theorem comes_begins (k : Kind) : (begins k).Comes P U ws ↔ U () ws := Iff.rfl

@[simp ↓] theorem comes_missing (what : String) : (missing what).Comes P U ws := trivial

@[simp ↓] theorem comes_node (k : Kind) (body : Step Unit) :
    (node k body).Comes P U ws ↔ body.Comes P U ws := Iff.rfl

@[simp ↓] theorem comes_read (r : Rule) :
    (read r).Comes P U ws ↔ ∀ b ws', P r ws b ws' → U () ws' := Iff.rfl

@[simp ↓] theorem comes_silently (step : Step Unit) :
    (silently step).Comes P B ws ↔ step.Comes P (fun _ => B false) ws := Iff.rfl

@[simp ↓] theorem comes_eat (k : Kind) :
    (eat k).Comes P B ws ↔ if front ws = k then B true (ws.drop 1) else B false ws := by
  simp only [eat, Action.comes_bind, comes_sees, comes_ite, beq_iff_eq]
  rfl

@[simp ↓] theorem comes_takeIf (k : Kind) :
    (takeIf k).Comes P U ws ↔ if front ws = k then U () (ws.drop 1) else U () ws := by
  simp only [takeIf, Action.comes_bind, comes_sees, comes_ite, beq_iff_eq]
  rfl

@[simp ↓] theorem comes_expect (k : Kind) (what : String) :
    (expect k what).Comes P U ws ↔ (front ws = k → U () (ws.drop 1)) := by
  simp only [expect, Action.comes_bind, comes_sees, comes_ite, beq_iff_eq]
  by_cases hk : front ws = k <;> simp [hk]

end Grammar

end LivePatch
