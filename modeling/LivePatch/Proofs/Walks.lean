import LivePatch.Patch.Traversal
import LivePatch.Proofs.Places

/-!
# Walking without copies

A replacer walks over a tree and copies only what changes: it exchanges the parts of a node one at a
time, by their index, in a copy of all of them, and keeps no copy where there was nothing to
exchange.  The reference here does without any of this.  `Replacer.rebuild` goes over the tree from
below and makes each node anew out of what came of its parts.

`run_eq_rebuild` says that the two answer the same and leave the same state, whatever the replacer
does.  What happens on a walk is seen by a replacer that writes down what it is told and what it
answers: each node of the given tree is entered once, in reading order, so what was put in is not
walked; nothing happens behind a failure; and where nothing was put in, the tree stays.
-/

namespace LivePatch

namespace Replacer

variable {ε σ : Type}

/-! ## The plain walk -/

/-- The parts `front` in front of those that a walk comes to. -/
def prepend (front : List Tree) (answer : Except ε (List Tree) × σ) : Except ε (List Tree) × σ :=
  (answer.1.map (front ++ ·), answer.2)

mutual

/-- Walk over one tree: enter the node, make its parts anew, ask what to put in its place, and
leave it. -/
def rebuild (r : Replacer ε σ) (trail : List Crumb) (start : Nat) : Tree → σ → Except ε Tree × σ
  | .token w, state => (.ok (.token w), state)
  | .node kind children, state =>
    let site : Site := ⟨.node kind children, start, trail⟩
    match rebuildParts r site 0 start children (r.enter site state) with
    | (.error e, state) => (.error e, state)
    | (.ok parts, state) =>
      match r.replace site (.node kind parts) state with
      | (.error e, state) => (.error e, state)
      | (.ok replacement, state) => (.ok (replacement.getD (.node kind parts)), r.leave site state)

/-- Walk over some parts of the node at `site`, from the `index`-th on. -/
def rebuildParts (r : Replacer ε σ) (site : Site) (index start : Nat) :
    List Tree → σ → Except ε (List Tree) × σ
  | [], state => (.ok [], state)
  | part :: parts, state =>
    match rebuild r (⟨site.tree, site.start, index⟩ :: site.trail) start part state with
    | (.error e, state) => (.error e, state)
    | (.ok first, state) =>
      prepend [first] (rebuildParts r site (index + 1) (start + part.width) parts state)

end

theorem prepend_prepend (front back : List Tree) (answer : Except ε (List Tree) × σ) :
    prepend front (prepend back answer) = prepend (front ++ back) answer := by
  obtain ⟨answer, state⟩ := answer
  cases answer <;> simp [prepend, Except.map]

theorem prepend_nil (answer : Except ε (List Tree) × σ) : prepend [] answer = answer := by
  obtain ⟨answer, state⟩ := answer
  cases answer <;> simp [prepend, Except.map]

/-! ## Copies are not seen -/

variable {r : Replacer ε σ}

/-- What a walk over `whole` comes to: the copy that it has made, or `whole` if it made none. -/
def outcome {α : Type} (whole : α) (answer : Except ε (Option α) × σ) : Except ε α × σ :=
  (answer.1.map (·.getD whole), answer.2)

/-- Between the parts of a node: `front` is what came of the parts so far. -/
theorem outcome_visitParts {n : Site} {ts : List Tree}
    (ih : ∀ u ∈ ts, ∀ trail start state,
      outcome u (r.visit trail start u state) = r.rebuild trail start u state)
    {index start : Nat} {changed : Option (List Tree)} {front : List Tree} {state : σ}
    (hindex : front.length = index) (hfront : changed.getD n.tree.children = front ++ ts) :
    outcome n.tree.children (r.visitParts n index start ts changed state) =
      prepend front (r.rebuildParts n index start ts state) := by
  induction ts generalizing index start changed front state with
  | nil => simp [outcome, visitParts, rebuildParts, prepend, Except.map, hfront]
  | cons u ts ihts =>
    have hfirst := ih u List.mem_cons_self (⟨n.tree, n.start, index⟩ :: n.trail) start state
    rw [visitParts, rebuildParts, ← hfirst]
    obtain ⟨answer, state'⟩ := r.visit (⟨n.tree, n.start, index⟩ :: n.trail) start u state
    cases answer with
    | error e => rfl
    | ok replaced =>
      -- With or without a replacement, what came of the part now stands behind the front.
      have hrest : ∀ changed' : Option (List Tree),
          changed'.getD n.tree.children = (front ++ [replaced.getD u]) ++ ts →
          outcome n.tree.children
              (r.visitParts n (index + 1) (start + u.width) ts changed' state') =
            prepend front (prepend [replaced.getD u]
              (r.rebuildParts n (index + 1) (start + u.width) ts state')) := by
        intro changed' hchanged
        rw [prepend_prepend]
        exact ihts (fun v hv => ih v (List.mem_cons_of_mem _ hv)) (by simp [hindex]) hchanged
      cases replaced with
      | none => exact hrest changed (by simpa using hfront)
      | some replacement => exact hrest _ (by simp [hfront, ← hindex])

/-- **A walk with copies comes to the plain walk.** -/
theorem outcome_visit (t : Tree) (trail : List Crumb) (start : Nat) (state : σ) :
    outcome t (r.visit trail start t state) = r.rebuild trail start t state := by
  induction t using Tree.inductionOn generalizing trail start state with
  | leaf w => simp [outcome, visit, rebuild, Except.map]
  | part k ts ih =>
    rw [visit, rebuild]
    generalize hn : (⟨.node k ts, start, trail⟩ : Site) = n
    have hchildren : n.tree.children = ts := by
      rw [← hn]
      rfl
    have hparts : outcome n.tree.children (r.visitParts n 0 start ts none (r.enter n state)) =
        prepend [] (r.rebuildParts n 0 start ts (r.enter n state)) :=
      outcome_visitParts ih rfl hchildren
    rw [prepend_nil, hchildren] at hparts
    rw [← hparts]
    obtain ⟨answer, state'⟩ := r.visitParts n 0 start ts none (r.enter n state)
    cases answer with
    | error e => rfl
    | ok changed =>
      dsimp only [outcome, Except.map]
      obtain ⟨answer, state''⟩ := r.replace n (.node k (changed.getD ts)) state'
      cases answer with
      | error e => rfl
      | ok replacement =>
        cases replacement with
        | some replacement => rfl
        | none => cases changed <;> rfl

theorem run_eq_rebuild (t : Tree) (state : σ) : r.run t state = r.rebuild [] 0 t state := by
  rw [← outcome_visit, run]
  obtain ⟨answer, state'⟩ := r.visit [] 0 t state
  cases answer <;> rfl

/-! ## What happens on a walk -/

/-- What a replacer is told on a walk, and what it answers. -/
inductive Event (ε : Type) where
  | entered (site : Site)
  | asked (site : Site) (rebuilt : Tree) (answer : Except ε (Option Tree))
  | left (site : Site)

/-- The replacer, writing down what happens. -/
def recorded (r : Replacer ε σ) : Replacer ε (σ × List (Event ε)) where
  enter site state := (r.enter site state.1, state.2 ++ [.entered site])
  leave site state := (r.leave site state.1, state.2 ++ [.left site])
  replace site rebuilt state :=
    let own := r.replace site rebuilt state.1
    (own.1, own.2, state.2 ++ [.asked site rebuilt own.1])

theorem recorded_enter (site : Site) (state : σ) (events : List (Event ε)) :
    r.recorded.enter site (state, events) = (r.enter site state, events ++ [.entered site]) := rfl

theorem recorded_leave (site : Site) (state : σ) (events : List (Event ε)) :
    r.recorded.leave site (state, events) = (r.leave site state, events ++ [.left site]) := rfl

theorem recorded_replace (site : Site) (rebuilt : Tree) (state : σ) (events : List (Event ε)) :
    r.recorded.replace site rebuilt (state, events) =
      ((r.replace site rebuilt state).1, (r.replace site rebuilt state).2,
        events ++ [.asked site rebuilt (r.replace site rebuilt state).1]) := rfl

namespace Event

/-- The node that is entered. -/
def entered? : Event ε → Option Site
  | .entered site => some site
  | _ => none

/-- The tree that is put in place of a node. -/
def replacement? : Event ε → Option Tree
  | .asked _ _ (.ok replacement) => replacement
  | _ => none

/-- The failure with which the walk ends. -/
def failure? : Event ε → Option ε
  | .asked _ _ (.error e) => some e
  | _ => none

end Event

/-- The record `events` tells of a walk over `whole`, whose nodes are `nodes`, that came to the
answer.  One that succeeds enters the nodes one after the other, meets no failure, and leaves
`whole` as it is if nothing is put in; one that fails stops at its first failure. -/
def Tells {α : Type} (nodes : List Site) (whole : α) (events : List (Event ε)) :
    Except ε α → Prop
  | .ok a => events.filterMap Event.entered? = nodes ∧ events.filterMap Event.failure? = [] ∧
      (events.filterMap Event.replacement? = [] → a = whole)
  | .error e => events.filterMap Event.entered? <+: nodes ∧
      ∃ front last, events = front ++ [last] ∧ last.failure? = some e ∧
        front.filterMap Event.failure? = []

section

variable {α β : Type} {nodes nodes' : List Site} {whole : α} {whole' : β}
  {events events' : List (Event ε)} {e : ε}

/-- A failure, with more to walk behind it. -/
theorem Tells.error_append (h : Tells nodes whole events (.error e)) :
    Tells (nodes ++ nodes') whole' events (.error e) :=
  ⟨h.1.trans (List.prefix_append _ _), h.2⟩

/-- A failure behind a walk that succeeds. -/
theorem Tells.ok_error {a : α} (h : Tells nodes whole events (.ok a))
    (h' : Tells nodes' whole' events' (.error e)) :
    Tells (nodes ++ nodes') whole' (events ++ events') (.error e) := by
  obtain ⟨hentered, hfailures, -⟩ := h
  obtain ⟨hsome, front, last, rfl, hlast, hfront⟩ := h'
  refine ⟨?_, events ++ front, last, by simp, hlast, by simp [hfailures, hfront]⟩
  rw [List.filterMap_append, hentered]
  exact (List.prefix_append_right_inj nodes).mpr hsome

/-- Two walks that succeed. -/
theorem Tells.ok_cons {t u : Tree} {ts us : List Tree} (h : Tells nodes t events (.ok u))
    (h' : Tells nodes' ts events' (.ok us)) :
    Tells (nodes ++ nodes') (t :: ts) (events ++ events') (.ok (u :: us)) := by
  obtain ⟨hentered, hfailures, hsame⟩ := h
  obtain ⟨hentered', hfailures', hsame'⟩ := h'
  refine ⟨by simp [hentered, hentered'], by simp [hfailures, hfailures'], fun hnone => ?_⟩
  rw [List.filterMap_append, List.append_eq_nil_iff] at hnone
  rw [hsame hnone.1, hsame' hnone.2]

/-- A failure among the parts of a node. -/
theorem Tells.error_enter {n : Site} (h : Tells nodes whole events (.error e)) :
    Tells (n :: nodes) whole' (.entered n :: events) (.error e) := by
  obtain ⟨hentered, front, last, rfl, hlast, hfront⟩ := h
  exact ⟨(List.prefix_cons_inj n).mpr hentered, .entered n :: front, last, rfl, hlast, hfront⟩

/-- A failure of the node itself. -/
theorem Tells.error_asked {n : Site} {a : α} (h : Tells nodes whole events (.ok a))
    (rebuilt : Tree) :
    Tells (n :: nodes) whole' (.entered n :: (events ++ [.asked n rebuilt (.error e)]))
      (.error e) := by
  obtain ⟨hentered, hfailures, -⟩ := h
  refine ⟨?_, .entered n :: events, _, rfl, rfl, hfailures⟩
  simp [Event.entered?, List.filterMap_cons, hentered]

/-- A walk over a node that succeeds. -/
theorem Tells.node {n : Site} {k : Kind} {ts parts : List Tree}
    (h : Tells nodes ts events (.ok parts)) (replacement : Option Tree) :
    Tells (n :: nodes) (.node k ts)
      (.entered n :: (events ++ [.asked n (.node k parts) (.ok replacement), .left n]))
      (.ok (replacement.getD (.node k parts))) := by
  obtain ⟨hentered, hfailures, hsame⟩ := h
  refine ⟨?_, ?_, fun hnone => ?_⟩
  · simp [Event.entered?, List.filterMap_cons, hentered]
  · simp [Event.failure?, List.filterMap_cons, hfailures]
  · rw [List.filterMap_cons_none rfl, List.filterMap_append, List.append_eq_nil_iff] at hnone
    obtain ⟨hparts, hown⟩ := hnone
    cases replacement with
    | none => rw [hsame hparts, Option.getD_none]
    | some t => simp [Event.replacement?] at hown

end

/-- The record of a walk over some parts of a node, if there is one of each part. -/
theorem exists_tells_parts {n : Site} {ts : List Tree}
    (ih : ∀ u ∈ ts, ∀ trail start state events, ∃ new,
      Tells (Site.descendants ⟨u, start, trail⟩) u new (r.rebuild trail start u state).1 ∧
        r.recorded.rebuild trail start u (state, events) =
          ((r.rebuild trail start u state).1, (r.rebuild trail start u state).2, events ++ new))
    (index start : Nat) (state : σ) (events : List (Event ε)) :
    ∃ new, Tells ((n.partsFrom index start ts).flatMap Site.descendants) ts new
        (r.rebuildParts n index start ts state).1 ∧
      r.recorded.rebuildParts n index start ts (state, events) =
        ((r.rebuildParts n index start ts state).1, (r.rebuildParts n index start ts state).2,
          events ++ new) := by
  induction ts generalizing index start state events with
  | nil => exact ⟨[], ⟨rfl, rfl, fun _ => rfl⟩, by simp [rebuildParts]⟩
  | cons u ts ihts =>
    obtain ⟨new, htells, hrecord⟩ := ih u List.mem_cons_self
      (⟨n.tree, n.start, index⟩ :: n.trail) start state events
    rw [Site.partsFrom, List.flatMap_cons, rebuildParts, rebuildParts, hrecord]
    generalize r.rebuild (⟨n.tree, n.start, index⟩ :: n.trail) start u state = plain at htells
    obtain ⟨_ | first, state'⟩ := plain
    · exact ⟨new, htells.error_append, rfl⟩
    obtain ⟨new', htells', hrecord'⟩ := ihts (fun v hv => ih v (List.mem_cons_of_mem _ hv))
      (index + 1) (start + u.width) state' (events ++ new)
    dsimp only
    rw [hrecord']
    generalize r.rebuildParts n (index + 1) (start + u.width) ts state' = plain at htells'
    refine ⟨new ++ new', ?_, by simp [prepend]⟩
    obtain ⟨_ | rest, state''⟩ := plain
    · exact htells.ok_error htells'
    · exact htells.ok_cons htells'

/-- **The record of a walk.** -/
theorem exists_tells (t : Tree) (trail : List Crumb) (start : Nat) (state : σ)
    (events : List (Event ε)) :
    ∃ new, Tells (Site.descendants ⟨t, start, trail⟩) t new (r.rebuild trail start t state).1 ∧
      r.recorded.rebuild trail start t (state, events) =
        ((r.rebuild trail start t state).1, (r.rebuild trail start t state).2, events ++ new) := by
  induction t using Tree.inductionOn generalizing trail start state events with
  | leaf w =>
    refine ⟨[], ⟨?_, rfl, fun _ => rfl⟩, by simp [rebuild]⟩
    rw [Site.descendants_token]
    rfl
  | part k ts ih =>
    rw [Site.descendants_node, rebuild, rebuild]
    generalize hn : (⟨.node k ts, start, trail⟩ : Site) = n
    obtain ⟨new, htells, hrecord⟩ := exists_tells_parts (n := n) ih 0 start (r.enter n state)
      (events ++ [.entered n])
    have hparts : n.partsFrom 0 start ts = n.parts := by
      rw [← hn]
      rfl
    rw [hparts] at htells
    rw [recorded_enter, hrecord]
    generalize r.rebuildParts n 0 start ts (r.enter n state) = plain at htells
    obtain ⟨_ | parts, state'⟩ := plain
    · exact ⟨_, htells.error_enter, by simp⟩
    dsimp only
    rw [recorded_replace]
    obtain ⟨_ | replacement, state''⟩ := r.replace n (.node k parts) state'
    · exact ⟨_, htells.error_asked (.node k parts), by simp⟩
    · exact ⟨_, htells.node replacement, by simp [recorded_leave]⟩

/-- **Walking is making anew, from below.**  For every replacer, every tree and every state, the
walk answers what the plain walk does and leaves the same state.  Writing down what happens changes
neither, and the record tells of one pass over the nodes of the tree, up to the first failure. -/
theorem run_makes_anew (r : Replacer ε σ) (t : Tree) (state : σ) :
    r.run t state = r.rebuild [] 0 t state ∧
    ∃ events, r.recorded.run t (state, []) = ((r.run t state).1, (r.run t state).2, events) ∧
      Tells (Site.root t).descendants t events (r.run t state).1 := by
  refine ⟨run_eq_rebuild t state, ?_⟩
  obtain ⟨events, htells, hrecord⟩ := exists_tells (r := r) t [] 0 state []
  rw [List.nil_append] at hrecord
  exact ⟨events, by rw [run_eq_rebuild, run_eq_rebuild, hrecord],
    by rwa [run_eq_rebuild]⟩

end Replacer

end LivePatch
