import LivePatch.Patch.Pass
import LivePatch.Proofs.Places

/-!
# What a pass does, without its state

A pass walks over a tree with a state, copies only what changes, and collects its edits on the
way.  None of this matters for what comes out.  The reference here is `revise`: it goes over the
tree from below, asks a *decision* at each node, which sees the node at its place and nothing
else, and answers the new tree with the edits of its parts in order.

`PassRules.Tracks` is what connects the two.  It says that the state of a pass is known at each
place of a tree from what is around it, and that the proposals of the pass are then those of a
decision.  A pass that tracks its surroundings does what its decision says (`Tracks.run_eq`).
-/

namespace LivePatch

/-- What to put in place of a node, given at its place and with the replacements below made. -/
abbrev Decision : Type := Site → Tree → Option Proposal

namespace Decision

variable (d : Decision) (comments : Bool)

/-- The node at `site` when its parts have been revised to make `rebuilt`, with the edits so far. -/
def settle (site : Site) (rebuilt : Tree) (edits : List Edit) :
    Except PatchError (Tree × List Edit) :=
  match d site rebuilt with
  | none => .ok (rebuilt, edits)
  | some proposal =>
    match synthesize proposal.template with
    | .error e => .error e
    | .ok made =>
      .ok (finish comments proposal.rule rebuilt made,
        edits ++ [Edit.record proposal.rule site made])

mutual

/-- Revise one tree: first its parts, then the node itself. -/
def revise (trail : List Crumb) (start : Nat) : Tree → Except PatchError (Tree × List Edit)
  | .token w => .ok (.token w, [])
  | .node k ts =>
    match reviseAll ⟨.node k ts, start, trail⟩ 0 start ts with
    | .error e => .error e
    | .ok (parts, edits) => d.settle comments ⟨.node k ts, start, trail⟩ (.node k parts) edits

/-- Revise some parts of the node at `site`, from the `index`-th on. -/
def reviseAll (site : Site) (index start : Nat) :
    List Tree → Except PatchError (List Tree × List Edit)
  | [] => .ok ([], [])
  | t :: ts =>
    match revise (⟨site.tree, site.start, index⟩ :: site.trail) start t with
    | .error e => .error e
    | .ok (part, first) =>
      match reviseAll site (index + 1) (start + t.width) ts with
      | .error e => .error e
      | .ok (parts, rest) => .ok (part :: parts, first ++ rest)

end

/-- Revise a whole tree. -/
def run (t : Tree) : Except PatchError Outcome :=
  match d.revise comments [] 0 t with
  | .error e => .error e
  | .ok (tree, edits) => .ok { tree, edits }

end Decision

/-- A run that leaves a text has succeeded. -/
theorem Outcome.exists_of_text {run : Except PatchError Outcome} {text : String}
    (h : run.toOption.map Outcome.text = some text) : ∃ o, run = .ok o ∧ o.text = text := by
  cases run with
  | error e => cases h
  | ok o => exact ⟨o, rfl, Option.some.inj h⟩

/-- So has a run of whose outcome anything holds. -/
theorem Outcome.exists_of_any {run : Except PatchError Outcome} {P : Outcome → Prop}
    [DecidablePred P] (h : run.toOption.any (fun o => decide (P o)) = true) :
    ∃ o, run = .ok o ∧ P o := by
  cases run with
  | error e => cases h
  | ok o => exact ⟨o, rfl, of_decide_eq_true h⟩

namespace Decision

/-! ## What a revision comes to -/

section

variable {d : Decision} {comments : Bool}

/-- **Induction over a revision that succeeds.**  `P` speaks of a site, the tree revised there and
the edits; `Q` of some parts of a node, from an index and a start on, and the same for these. -/
theorem revise_induction {P : Site → Tree → List Edit → Prop}
    {Q : Site → Nat → Nat → List Tree → List Tree → List Edit → Prop}
    (leaf : ∀ w start trail, P ⟨.token w, start, trail⟩ (.token w) [])
    (nil : ∀ n index start, Q n index start [] [] [])
    (cons : ∀ (n : Site) index start t ts t' ts' es fs,
      d.revise comments (⟨n.tree, n.start, index⟩ :: n.trail) start t = .ok (t', es) →
      P ⟨t, start, ⟨n.tree, n.start, index⟩ :: n.trail⟩ t' es →
      Q n (index + 1) (start + t.width) ts ts' fs →
      Q n index start (t :: ts) (t' :: ts') (es ++ fs))
    (keep : ∀ (n : Site) k ts ts' es, n.tree = .node k ts → Q n 0 n.start ts ts' es →
      d n (.node k ts') = none → P n (.node k ts') es)
    (replace : ∀ (n : Site) k ts ts' es p made, n.tree = .node k ts → Q n 0 n.start ts ts' es →
      d n (.node k ts') = some p → synthesize p.template = .ok made →
      P n (finish comments p.rule (.node k ts') made) (es ++ [Edit.record p.rule n made]))
    {trail : List Crumb} {start : Nat} {t t' : Tree} {es : List Edit}
    (h : d.revise comments trail start t = .ok (t', es)) : P ⟨t, start, trail⟩ t' es := by
  induction t using Tree.inductionOn generalizing trail start t' es with
  | leaf w =>
    rw [revise] at h
    obtain ⟨rfl, rfl⟩ := Prod.mk.inj (Except.ok.inj h)
    exact leaf w start trail
  | part k ts ih =>
    -- The parts first, by induction over those that are left.
    have hall : ∀ (n : Site) (us : List Tree), (∀ u ∈ us, u ∈ ts) → ∀ index start us' es',
        d.reviseAll comments n index start us = .ok (us', es') →
        Q n index start us us' es' := by
      intro n us
      induction us with
      | nil =>
        intro _ index start us' es' h
        rw [reviseAll] at h
        obtain ⟨rfl, rfl⟩ := Prod.mk.inj (Except.ok.inj h)
        exact nil n index start
      | cons u us ihus =>
        intro hsub index start us' es' h
        rw [reviseAll] at h
        split at h
        · cases h
        rename_i part first hfirst
        split at h
        · cases h
        rename_i parts rest hrest
        obtain ⟨rfl, rfl⟩ := Prod.mk.inj (Except.ok.inj h)
        exact cons n index start u us part parts first rest hfirst
          (ih u (hsub u List.mem_cons_self) hfirst)
          (ihus (fun v hv => hsub v (List.mem_cons_of_mem _ hv)) _ _ _ _ hrest)
    rw [revise] at h
    split at h
    · cases h
    rename_i parts edits hparts
    have hQ := hall _ ts (fun u hu => hu) _ _ _ _ hparts
    rw [settle] at h
    split at h
    · rename_i hnone
      obtain ⟨rfl, rfl⟩ := Prod.mk.inj (Except.ok.inj h)
      exact keep ⟨.node k ts, start, trail⟩ k ts parts edits rfl hQ hnone
    · rename_i proposal hsome
      split at h
      · cases h
      rename_i made hmade
      obtain ⟨rfl, rfl⟩ := Prod.mk.inj (Except.ok.inj h)
      exact replace ⟨.node k ts, start, trail⟩ k ts parts edits proposal made rfl hQ hsome hmade

/-! ## Decisions that do not nest -/

/-- Nothing is decided at the site or below it. -/
def Silent (d : Decision) (n : Site) : Prop :=
  ∀ m, n.Around m → m.tree.isNode = true → ∀ rebuilt, d m rebuilt = none

theorem partsFrom_children {n : Site} {k : Kind} {ts : List Tree} (h : n.tree = .node k ts) :
    n.partsFrom 0 n.start ts = n.parts := by
  rw [Site.parts, h]
  rfl

/-- Where nothing is decided, nothing changes. -/
theorem eq_of_silent {n : Site} {t' : Tree} {es : List Edit} (hn : d.Silent n)
    (h : d.revise comments n.trail n.start n.tree = .ok (t', es)) : t' = n.tree ∧ es = [] := by
  refine revise_induction (d := d) (P := fun n t' es => d.Silent n → t' = n.tree ∧ es = [])
    (Q := fun n index start ts ts' es =>
      (∀ q ∈ n.partsFrom index start ts, d.Silent q) → ts' = ts ∧ es = [])
    ?_ ?_ ?_ ?_ ?_ h hn
  · intro w start trail _
    exact ⟨rfl, rfl⟩
  · intro n index start _
    exact ⟨rfl, rfl⟩
  · intro n index start t ts t' ts' es fs _ hfirst hrest hparts
    obtain ⟨rfl, rfl⟩ := hfirst (hparts _ List.mem_cons_self)
    obtain ⟨rfl, rfl⟩ := hrest fun q hq => hparts q (List.mem_cons_of_mem _ hq)
    exact ⟨rfl, rfl⟩
  · intro n k ts ts' es htree hparts _ hn
    rw [partsFrom_children htree] at hparts
    obtain ⟨rfl, rfl⟩ := hparts fun q hq m hm => hn m (.of_part hq hm)
    exact ⟨htree.symm, rfl⟩
  · intro n k ts ts' es p made htree _ hp _ hn
    rw [hn n .refl (by rw [htree]; rfl)] at hp
    cases hp

/-- Where nothing is decided below a node, it is kept or replaced as it was. -/
theorem keep_or_replace {n : Site} {t' : Tree} {es : List Edit} (hn : n.tree.isNode = true)
    (hparts : ∀ q ∈ n.parts, d.Silent q)
    (h : d.revise comments n.trail n.start n.tree = .ok (t', es)) :
    t' = n.tree ∨ ∃ p made, d n n.tree = some p ∧ synthesize p.template = .ok made ∧
      t' = finish comments p.rule n.tree made := by
  refine revise_induction (d := d)
    (P := fun n t' _ => n.tree.isNode = true → (∀ q ∈ n.parts, d.Silent q) →
      t' = n.tree ∨ ∃ p made, d n n.tree = some p ∧ synthesize p.template = .ok made ∧
        t' = finish comments p.rule n.tree made)
    (Q := fun n index start ts ts' _ => (∀ q ∈ n.partsFrom index start ts, d.Silent q) → ts' = ts)
    ?_ ?_ ?_ ?_ ?_ h hn hparts
  · intro w start trail hnode
    cases hnode
  · intro n index start _
    rfl
  · intro n index start t ts t' ts' es fs hrev _ hrest hsilent
    obtain ⟨rfl, -⟩ := eq_of_silent (hsilent _ List.mem_cons_self) hrev
    rw [hrest fun q hq => hsilent q (List.mem_cons_of_mem _ hq)]
  · intro n k ts ts' es htree hparts _ _ hsilent
    rw [partsFrom_children htree] at hparts
    rw [hparts hsilent]
    exact .inl htree.symm
  · intro n k ts ts' es p made htree hparts hp hmade _ hsilent
    rw [partsFrom_children htree] at hparts
    rw [hparts hsilent, ← htree] at hp ⊢
    exact .inr ⟨p, made, hp, hmade, rfl⟩

variable {root : Tree}

/-- On the tree `root`, nothing is decided inside of a node for which something is decided. -/
def Apart (d : Decision) (root : Tree) : Prop :=
  ∀ n, (Site.root root).Around n → ∀ rebuilt p, d n rebuilt = some p →
    ∀ q ∈ n.parts, d.Silent q

/-- **Induction over a revision whose replacements do not nest.**  Then a node that is replaced
is replaced as it was, with no edit inside. -/
theorem revise_induction_of_apart (hd : d.Apart root) {P : Site → Tree → List Edit → Prop}
    {Q : Site → Nat → Nat → List Tree → List Tree → List Edit → Prop}
    (leaf : ∀ w start trail, P ⟨.token w, start, trail⟩ (.token w) [])
    (nil : ∀ n index start, Q n index start [] [] [])
    (cons : ∀ (n : Site) index start t ts t' ts' es fs,
      (Site.root root).Around ⟨t, start, ⟨n.tree, n.start, index⟩ :: n.trail⟩ →
      d.revise comments (⟨n.tree, n.start, index⟩ :: n.trail) start t = .ok (t', es) →
      P ⟨t, start, ⟨n.tree, n.start, index⟩ :: n.trail⟩ t' es →
      Q n (index + 1) (start + t.width) ts ts' fs →
      Q n index start (t :: ts) (t' :: ts') (es ++ fs))
    (keep : ∀ (n : Site) k ts ts' es, (Site.root root).Around n → n.tree = .node k ts →
      Q n 0 n.start ts ts' es → P n (.node k ts') es)
    (replace : ∀ (n : Site) p made, (Site.root root).Around n → n.tree.isNode = true →
      d n n.tree = some p → synthesize p.template = .ok made →
      P n (finish comments p.rule n.tree made) [Edit.record p.rule n made])
    {n : Site} {t' : Tree} {es : List Edit} (hn : (Site.root root).Around n)
    (h : d.revise comments n.trail n.start n.tree = .ok (t', es)) : P n t' es := by
  refine revise_induction (d := d)
    (P := fun n t' es => (Site.root root).Around n → P n t' es)
    (Q := fun n index start ts ts' es =>
      (∀ q ∈ n.partsFrom index start ts, (Site.root root).Around q) →
      Q n index start ts ts' es ∧
        ((∀ q ∈ n.partsFrom index start ts, d.Silent q) → ts' = ts ∧ es = []))
    ?_ ?_ ?_ ?_ ?_ h hn
  · intro w start trail _
    exact leaf w start trail
  · intro n index start _
    exact ⟨nil n index start, fun _ => ⟨rfl, rfl⟩⟩
  · intro n index start t ts t' ts' es fs hrev hfirst hrest hparts
    have ht := hparts _ List.mem_cons_self
    obtain ⟨hQ, hsames⟩ := hrest fun q hq => hparts q (List.mem_cons_of_mem _ hq)
    refine ⟨cons n index start t ts t' ts' es fs ht hrev (hfirst ht) hQ, fun hsilent => ?_⟩
    obtain ⟨rfl, rfl⟩ := eq_of_silent (hsilent _ List.mem_cons_self) hrev
    obtain ⟨rfl, rfl⟩ := hsames fun q hq => hsilent q (List.mem_cons_of_mem _ hq)
    exact ⟨rfl, rfl⟩
  · intro n k ts ts' es htree hQ _ hn
    rw [partsFrom_children htree] at hQ
    exact keep n k ts ts' es hn htree (hQ fun q hq => hn.part hq).1
  · intro n k ts ts' es p made htree hQ hp hmade hn
    rw [partsFrom_children htree] at hQ
    obtain ⟨rfl, rfl⟩ := (hQ fun q hq => hn.part hq).2 (hd n hn _ p hp)
    rw [← htree] at hp ⊢
    exact replace n p made hn (by rw [htree]; rfl) hp hmade

end

/-! ## Decisions that look at the place alone -/

/-- The decision that sees a node only at its place. -/
def ofSite (f : Site → Option Proposal) : Decision := fun n _ => f n

variable {f : Site → Option Proposal} {comments : Bool}

/-- The edit that a proposal at a site comes to, if its template is an expression. -/
def edit? (f : Site → Option Proposal) (n : Site) : Option Edit :=
  match f n with
  | none => none
  | some p =>
    match synthesize p.template with
    | .error _ => none
    | .ok made => some (Edit.record p.rule n made)

theorem edit?_eq_some {n : Site} {e : Edit} :
    edit? f n = some e ↔
      ∃ p made, f n = some p ∧ synthesize p.template = .ok made ∧
        e = Edit.record p.rule n made := by
  unfold edit?
  split
  · rename_i hnone
    simp [hnone]
  · rename_i p hsome
    split
    · rename_i hfail
      simp [hsome, hfail]
    · rename_i made hmade
      simp [hsome, hmade, eq_comm]

theorem filterMap_edit?_of_silent {n : Site} (h : (ofSite f).Silent n) :
    n.descendants.filterMap (edit? f) = [] := by
  refine List.filterMap_eq_nil_iff.mpr fun m hm => ?_
  obtain ⟨hnm, hnode⟩ := Site.mem_descendants.mp hm
  have hnone : f m = none := h m hnm hnode m.tree
  rw [edit?, hnone]

/-- **The edits of a revision** are those of the nodes, each once, in reading order. -/
theorem edits_eq {root t' : Tree} {es : List Edit} (hd : (ofSite f).Apart root) {n : Site}
    (hn : (Site.root root).Around n)
    (h : (ofSite f).revise comments n.trail n.start n.tree = .ok (t', es)) :
    es = n.descendants.filterMap (edit? f) := by
  refine revise_induction (d := ofSite f)
    (P := fun n _ es => (Site.root root).Around n → es = n.descendants.filterMap (edit? f))
    (Q := fun n index start ts _ es =>
      (∀ q ∈ n.partsFrom index start ts, (Site.root root).Around q) →
      es = ((n.partsFrom index start ts).flatMap Site.descendants).filterMap (edit? f))
    ?_ ?_ ?_ ?_ ?_ h hn
  · intro w start trail _
    rw [Site.descendants_token]
    rfl
  · intro n index start _
    rfl
  · intro n index start t ts t' ts' es fs _ hes hfs hparts
    rw [Site.partsFrom, List.flatMap_cons, List.filterMap_append,
      hes (hparts _ List.mem_cons_self), hfs fun q hq => hparts q (List.mem_cons_of_mem _ hq)]
  · rintro ⟨t, start, trail⟩ k ts ts' es rfl hes hnone hn
    have hown : edit? f ⟨.node k ts, start, trail⟩ = none := by
      rw [edit?, show f _ = none from hnone]
    rw [Site.descendants_node, List.filterMap_cons_none hown]
    exact hes fun q hq => hn.part hq
  · rintro ⟨t, start, trail⟩ k ts ts' es p made rfl hes hsome hmade hn
    have hown : edit? f ⟨.node k ts, start, trail⟩ =
        some (Edit.record p.rule ⟨.node k ts, start, trail⟩ made) :=
      edit?_eq_some.mpr ⟨p, made, hsome, hmade, rfl⟩
    have hparts : ((Site.parts ⟨.node k ts, start, trail⟩).flatMap Site.descendants).filterMap
        (edit? f) = [] := by
      rw [List.filterMap_flatMap]
      refine List.flatMap_eq_nil_iff.mpr fun q hq => ?_
      exact filterMap_edit?_of_silent (hd _ hn _ p hsome q hq)
    rw [Site.descendants_node, List.filterMap_cons_some hown, hparts]
    rw [show es = _ from hes fun q hq => hn.part hq]
    exact congrArg (· ++ _) hparts

/-- A revision that succeeds has made an expression of every template. -/
theorem exists_made {trail : List Crumb} {start : Nat} {t t' : Tree} {es : List Edit}
    (h : (ofSite f).revise comments trail start t = .ok (t', es)) :
    ∀ n ∈ Site.descendants ⟨t, start, trail⟩, ∀ p, f n = some p →
      ∃ made, synthesize p.template = .ok made := by
  refine revise_induction (d := ofSite f)
    (P := fun n _ _ => ∀ m ∈ n.descendants, ∀ p, f m = some p →
      ∃ made, synthesize p.template = .ok made)
    (Q := fun n index start ts _ _ => ∀ m ∈ (n.partsFrom index start ts).flatMap Site.descendants,
      ∀ p, f m = some p → ∃ made, synthesize p.template = .ok made)
    ?_ ?_ ?_ ?_ ?_ h
  · intro w start trail m hm
    rw [Site.descendants_token] at hm
    cases hm
  · intro n index start m hm
    cases hm
  · intro n index start t ts t' ts' es fs _ hes hfs m hm
    rw [Site.partsFrom, List.flatMap_cons] at hm
    rcases List.mem_append.mp hm with hm | hm
    · exact hes m hm
    · exact hfs m hm
  · rintro ⟨t, start, trail⟩ k ts ts' es rfl hes hnone m hm p hp
    rw [Site.descendants_node] at hm
    rcases List.mem_cons.mp hm with rfl | hm
    · rw [show f _ = none from hnone] at hp
      cases hp
    · exact hes m hm p hp
  · rintro ⟨t, start, trail⟩ k ts ts' es p made rfl hes hsome hmade m hm q hq
    rw [Site.descendants_node] at hm
    rcases List.mem_cons.mp hm with rfl | hm
    · rw [show f _ = some p from hsome] at hq
      cases hq
      exact ⟨made, hmade⟩
    · exact hes m hm q hq

/-- A revision fails only at a node whose template is no expression. -/
theorem exists_failure {trail : List Crumb} {start : Nat} {t : Tree} {e : PatchError}
    (h : (ofSite f).revise comments trail start t = .error e) :
    ∃ n ∈ Site.descendants ⟨t, start, trail⟩, ∃ p, f n = some p ∧
      synthesize p.template = .error e := by
  induction t using Tree.inductionOn generalizing trail start with
  | leaf w =>
    rw [revise] at h
    cases h
  | part k ts ih =>
    have hall : ∀ (n : Site) (us : List Tree), (∀ u ∈ us, u ∈ ts) → ∀ index start,
        (ofSite f).reviseAll comments n index start us = .error e →
        ∃ m ∈ (n.partsFrom index start us).flatMap Site.descendants, ∃ p, f m = some p ∧
          synthesize p.template = .error e := by
      intro n us
      induction us with
      | nil =>
        intro _ index start h
        rw [reviseAll] at h
        cases h
      | cons u us ihus =>
        intro hsub index start h
        rw [reviseAll] at h
        rw [Site.partsFrom, List.flatMap_cons]
        split at h
        · rename_i hfirst
          cases h
          obtain ⟨m, hm, hp⟩ := ih u (hsub u List.mem_cons_self) hfirst
          exact ⟨m, List.mem_append_left _ hm, hp⟩
        split at h
        · rename_i hrest
          cases h
          obtain ⟨m, hm, hp⟩ :=
            ihus (fun v hv => hsub v (List.mem_cons_of_mem _ hv)) _ _ hrest
          exact ⟨m, List.mem_append_right _ hm, hp⟩
        · cases h
    rw [Site.descendants_node]
    rw [revise] at h
    split at h
    · rename_i hparts
      cases h
      obtain ⟨m, hm, hp⟩ := hall _ ts (fun u hu => hu) _ _ hparts
      exact ⟨m, List.mem_cons_of_mem _ hm, hp⟩
    rw [settle] at h
    split at h
    · cases h
    rename_i proposal hsome
    split at h
    · rename_i hfail
      cases h
      exact ⟨_, List.mem_cons_self, proposal, hsome, hfail⟩
    · cases h

end Decision

/-! ## Passes -/

/-- The walk `answer`, which started with the edits `es`, comes to what `revised` says: a failure,
or a copy `changed` of `whole` with the edits added and a state for which `I` holds. -/
def Agrees {α σ : Type} (I : σ → Prop) (es : List Edit) (whole : α) :
    Except PatchError (α × List Edit) → Except PatchError (Option α) × (σ × List Edit) → Prop
  | .error e, answer => answer.1 = .error e
  | .ok (a, made), answer =>
    ∃ changed s, answer = (.ok changed, (s, es ++ made)) ∧ changed.getD whole = a ∧ I s

/-- A walk that is to fail does. -/
theorem Agrees.of_error {α σ : Type} {I : σ → Prop} {es : List Edit} {whole : α} {e : PatchError}
    {answer : Except PatchError (Option α) × (σ × List Edit)}
    (h : Agrees I es whole (.error e) answer) : ∃ state, answer = (.error e, state) := by
  obtain ⟨result, state⟩ := answer
  exact ⟨state, by rw [show result = .error e from h]⟩

namespace PassRules

variable {σ : Type} {p : PassRules σ} {t : Tree} {I : List Site → σ → Prop} {d : Decision}

/-- On the tree `t`, the state of the pass `p` inside of the nodes `around` satisfies `I around`,
and then the pass proposes what the decision `d` says. -/
structure Tracks (p : PassRules σ) (t : Tree) (I : List Site → σ → Prop) (d : Decision) :
    Prop where
  start : I [] p.start
  enter : ∀ {n : Site} {s : σ}, (Site.root t).Around n → I n.ancestors s →
    I (n :: n.ancestors) (p.enter n s)
  leave : ∀ {n : Site} {s : σ}, (Site.root t).Around n → I (n :: n.ancestors) s →
    I n.ancestors (p.leave n s)
  propose : ∀ {n : Site} {s : σ}, (Site.root t).Around n → I (n :: n.ancestors) s →
    ∀ rebuilt, p.propose n rebuilt s = d n rebuilt

namespace Tracks

variable (comments : Bool)

/-- Between the parts of a node: `front` are the parts revised so far. -/
theorem visitParts_agrees {n : Site} (ts : List Tree)
    (ih : ∀ u ∈ ts, ∀ trail start s es, (Site.root t).Around ⟨u, start, trail⟩ →
      I (Site.ofTrail trail) s → Agrees (I (Site.ofTrail trail)) es u
        (d.revise comments trail start u)
        ((p.replacer comments).visit trail start u (s, es)))
    (index start : Nat) (changed : Option (List Tree)) (front : List Tree) (s : σ)
    (es : List Edit) (hparts : ∀ q ∈ n.partsFrom index start ts, (Site.root t).Around q)
    (hindex : front.length = index) (hfront : changed.getD n.tree.children = front ++ ts)
    (hs : I (n :: n.ancestors) s) :
    Agrees (I (n :: n.ancestors)) es n.tree.children
      ((d.reviseAll comments n index start ts).map fun r => (front ++ r.1, r.2))
      ((p.replacer comments).visitParts n index start ts changed (s, es)) := by
  induction ts generalizing index start changed front s es with
  | nil => exact ⟨changed, s, by simp [Replacer.visitParts], hfront, hs⟩
  | cons u ts ihts =>
    have hfirst := ih u List.mem_cons_self _ _ s es (hparts _ List.mem_cons_self) hs
    have hrest := ihts (fun v hv => ih v (List.mem_cons_of_mem _ hv)) (index + 1)
      (start + u.width)
    rw [Decision.reviseAll, Replacer.visitParts]
    cases hrev : d.revise comments (⟨n.tree, n.start, index⟩ :: n.trail) start u with
    | error e =>
      rw [hrev] at hfirst
      obtain ⟨state, hvisit⟩ := hfirst.of_error
      rw [hvisit]
      rfl
    | ok revised =>
      obtain ⟨part, made⟩ := revised
      rw [hrev] at hfirst
      obtain ⟨replaced, s', hvisit, hpart, hs'⟩ := hfirst
      -- With or without a replacement, `part` now stands behind the parts so far.
      obtain ⟨changed', hchanged, hstep⟩ : ∃ changed' : Option (List Tree),
          changed'.getD n.tree.children = (front ++ [part]) ++ ts ∧
          (p.replacer comments).visitParts n index start (u :: ts) changed (s, es) =
            (p.replacer comments).visitParts n (index + 1) (start + u.width) ts changed'
              (s', es ++ made) := by
        rw [Replacer.visitParts, hvisit]
        cases replaced with
        | none =>
          obtain rfl : u = part := hpart
          exact ⟨changed, by simpa using hfront, rfl⟩
        | some replacement =>
          obtain rfl : replacement = part := hpart
          refine ⟨some ((changed.getD n.tree.children).set index replacement), ?_, rfl⟩
          simp [hfront, ← hindex]
      rw [← Replacer.visitParts, hstep]
      have hlast := hrest changed' (front ++ [part]) s' (es ++ made)
        (fun q hq => hparts q (List.mem_cons_of_mem _ hq)) (by simp [hindex]) hchanged hs'
      dsimp only
      cases hall : d.reviseAll comments n (index + 1) (start + u.width) ts with
      | error e =>
        rw [hall] at hlast
        exact hlast
      | ok all =>
        obtain ⟨parts, made'⟩ := all
        rw [hall] at hlast
        obtain ⟨changed'', s'', hvisit', hparts', hs''⟩ := hlast
        exact ⟨changed'', s'', by rw [hvisit', List.append_assoc], by simpa using hparts', hs''⟩

variable (h : p.Tracks t I d)

include h

/-- What the pass answers for a node whose parts have been walked. -/
theorem replace_agrees {n : Site} (hn : (Site.root t).Around n) {s : σ} (es made : List Edit)
    (rebuilt : Tree) (hs : I (n :: n.ancestors) s) :
    Agrees (I (n :: n.ancestors)) es rebuilt (d.settle comments n rebuilt made)
      ((p.replacer comments).replace n rebuilt (s, es ++ made)) := by
  simp only [replacer, Decision.settle, h.propose hn hs rebuilt]
  cases d n rebuilt with
  | none => exact ⟨none, s, rfl, rfl, hs⟩
  | some proposal =>
    dsimp only
    cases synthesize proposal.template with
    | error e => rfl
    | ok tree =>
      refine ⟨some (finish comments proposal.rule rebuilt tree), s, ?_, rfl, hs⟩
      rw [← List.append_assoc]

theorem visit_agrees (u : Tree) (trail : List Crumb) (start : Nat) (s : σ) (es : List Edit)
    (hu : (Site.root t).Around ⟨u, start, trail⟩) (hs : I (Site.ofTrail trail) s) :
    Agrees (I (Site.ofTrail trail)) es u (d.revise comments trail start u)
      ((p.replacer comments).visit trail start u (s, es)) := by
  induction u using Tree.inductionOn generalizing trail start s es with
  | leaf w => exact ⟨none, s, by simp [Replacer.visit], rfl, hs⟩
  | part k ts ih =>
    have hparts := visitParts_agrees comments (n := ⟨.node k ts, start, trail⟩) ts ih 0 start none []
      (p.enter ⟨.node k ts, start, trail⟩ s) es (fun q hq => hu.part hq) rfl rfl (h.enter hu hs)
    rw [Decision.revise, Replacer.visit]
    generalize hn : (⟨.node k ts, start, trail⟩ : Site) = n at hu hparts ⊢
    have henter : (p.replacer comments).enter n (s, es) = (p.enter n s, es) := rfl
    rw [henter]
    cases hall : d.reviseAll comments n 0 start ts with
    | error e =>
      rw [hall] at hparts
      obtain ⟨state, hvisit⟩ := Agrees.of_error hparts
      rw [hvisit]
      rfl
    | ok all =>
      obtain ⟨parts, made⟩ := all
      rw [hall] at hparts
      obtain ⟨changed, s', hvisit, hchanged, hs'⟩ := hparts
      obtain rfl : changed.getD ts = parts := by
        subst hn
        exact hchanged
      rw [hvisit]
      have hown := h.replace_agrees comments hu es made (.node k (changed.getD ts)) hs'
      have hleave : ∀ state, I (n :: n.ancestors) state →
          I (Site.ofTrail trail) (p.leave n state) := by
        intro state hstate
        subst hn
        exact h.leave hu hstate
      dsimp only
      cases hset : d.settle comments n (.node k (changed.getD ts)) made with
      | error e =>
        rw [hset] at hown
        obtain ⟨state, hrepl⟩ := hown.of_error
        rw [hrepl]
        rfl
      | ok settled =>
        obtain ⟨tree, edits⟩ := settled
        rw [hset] at hown
        obtain ⟨replaced, s'', hrepl, htree, hs''⟩ := hown
        rw [hrepl]
        cases replaced with
        | none =>
          refine ⟨changed.map (.node k), p.leave n s'', rfl, ?_, hleave _ hs''⟩
          rw [← htree]
          cases changed <;> rfl
        | some replacement => exact ⟨some replacement, p.leave n s'', rfl, htree, hleave _ hs''⟩

/-- **A pass does what its decision says**, on every tree on which it tracks its surroundings. -/
theorem run_eq : p.run comments t = d.run comments t := by
  have hvisit := h.visit_agrees comments t [] 0 p.start [] .refl h.start
  rw [PassRules.run, Replacer.run, Decision.run]
  cases hrev : d.revise comments [] 0 t with
  | error e =>
    rw [hrev] at hvisit
    obtain ⟨state, hanswer⟩ := hvisit.of_error
    rw [hanswer]
  | ok revised =>
    obtain ⟨tree, edits⟩ := revised
    rw [hrev] at hvisit
    obtain ⟨changed, s, hanswer, rfl, -⟩ := hvisit
    rw [hanswer]
    rfl

end Tracks

end PassRules

end LivePatch
