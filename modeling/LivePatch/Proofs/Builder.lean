import LivePatch.Proofs.Derivations

/-!
# Building trees with checkpoints

In a reading the trees of a frame become a node in one step, when all of them are known.  A builder
works otherwise.  It keeps one list of finished parts and a stack of open nodes; a *checkpoint* is a
place in that list, a node is started at a checkpoint, maybe long after the parts behind it were
finished, and to finish a node is to take all parts behind its start.  This can go wrong: a
checkpoint may lie behind the last part, or in front of the innermost open node; and there may be no
node to finish.

Here actions are run against such a builder.  The checkpoint of a frame is taken when it begins,
`opening` starts a node, and `enclose` finishes one, whatever node that may be.  An action is
`Balanced` if each node is finished where it was started, and then nothing goes wrong and the
builder has the tree of the reading (`Action.build_of_complete`).
-/

namespace LivePatch

/-! ## Parts in front of a frame -/

namespace ReadState

/-- The reading with further parts in front of those of the innermost frame. -/
def onTopOf (s : ReadState) (outer : List Tree) : ReadState := { s with built := s.built ++ outer }

variable (s : ReadState) (outer : List Tree)

theorem skipTrivia_onTopOf : (s.onTopOf outer).skipTrivia = s.skipTrivia.onTopOf outer := by
  simp only [onTopOf, skipTrivia, gap, List.append_assoc]

theorem take_onTopOf : (s.onTopOf outer).take = s.take.onTopOf outer := by
  unfold take
  rw [skipTrivia_onTopOf]
  cases hw : s.skipTrivia.words with
  | nil => simp only [onTopOf, hw]
  | cons w ws => simp only [onTopOf, hw, List.cons_append]

theorem splitShift_onTopOf : (s.onTopOf outer).splitShift = s.splitShift.onTopOf outer := by
  unfold splitShift onTopOf
  simp only
  split <;> rfl

theorem takeHalf_onTopOf : (s.onTopOf outer).takeHalf = s.takeHalf.onTopOf outer := by
  rw [takeHalf, splitShift_onTopOf, take_onTopOf, takeHalf]

theorem report_onTopOf (problem : Problem) :
    (s.onTopOf outer).report problem = (s.report problem).onTopOf outer := by
  unfold report
  rw [skipTrivia_onTopOf]
  rfl

end ReadState

/-! ## Builders -/

/-- A reading that hands its trees to a builder: `reading.built` are all parts that are finished,
last first. -/
structure Building where
  reading : ReadState
  /-- The nodes that are open, innermost first, each with the number of parts in front of it. -/
  openNodes : List (Kind × Nat)

namespace Building

/-- The number of finished parts, which is also the checkpoint behind the last of them. -/
def count (b : Building) : Nat := b.reading.built.length

/-- May a node be started at the checkpoint?  It must not lie behind the last part, nor in front of
the innermost open node. -/
def Accepts (b : Building) (checkpoint : Nat) : Prop :=
  checkpoint ≤ b.count ∧ ∀ n ∈ b.openNodes.head?, n.2 ≤ checkpoint

instance (b : Building) (checkpoint : Nat) : Decidable (b.Accepts checkpoint) :=
  inferInstanceAs (Decidable (_ ∧ _))

/-- Start a node at a checkpoint, unless it is not accepted. -/
def startNodeAt (checkpoint : Nat) (kind : Kind) (b : Building) : Option Building :=
  if b.Accepts checkpoint then some { b with openNodes := (kind, checkpoint) :: b.openNodes }
  else none

/-- Finish the innermost open node, unless there is none or its start is not there any more. -/
def finishNode (b : Building) : Option Building :=
  match b.openNodes with
  | [] => none
  | (kind, first) :: rest =>
    if first ≤ b.count then
      let parts := (b.reading.built.take (b.count - first)).reverse
      let before := b.reading.built.drop (b.count - first)
      some { reading := { b.reading with built := .node kind parts :: before }, openNodes := rest }
    else none

/-- The tree that is built, if no node is open and there is exactly one part. -/
def finish (b : Building) : Option Tree :=
  match b.openNodes, b.reading.built with
  | [], [t] => some t
  | _, _ => none

end Building

namespace Action

variable {R α β : Type}

/-- What an action answers and what it builds, with the checkpoints of the frames around it,
innermost first.  There is no answer if the builder refuses something, or if a call is left
undone. -/
def build (answer : R → List Nat → Building → Option (Bool × Building)) {α : Type} :
    Action R α → List Nat → Building → Option (α × Building)
  | .pure a, _, b => some (a, b)
  | .bind first next, checkpoints, b =>
    (first.build answer checkpoints b).bind fun (a, b) => (next a).build answer checkpoints b
  | .look decide _, _, b => some (decide b.reading.words, b)
  | .skipTrivia, _, b => some ((), { b with reading := b.reading.skipTrivia })
  | .take, _, b => some ((), { b with reading := b.reading.take })
  | .takeHalf, _, b => some ((), { b with reading := b.reading.takeHalf })
  | .report problem, _, b => some ((), { b with reading := b.reading.report problem })
  | .opening out kind, checkpoints, b =>
    (checkpoints[out]?.bind fun c => b.startNodeAt c kind).map fun b => ((), b)
  | .enclose _, _, b => b.finishNode.map fun b => ((), b)
  | .frame body, checkpoints, b => body.build answer (b.count :: checkpoints) b
  | .idle body, checkpoints, b =>
    let before := { b with reading := b.reading.skipTrivia }
    (body.build answer checkpoints before).map fun (_, after) =>
      (after.reading.words.length == before.reading.words.length, after)
  | .call rule, checkpoints, b => answer rule checkpoints b

/-- What the production `rule` builds, if no more than `depth` calls nest.  There is no answer
either if it does not return with the same nodes open with which it was called. -/
def buildRule (body : R → Action R Bool) :
    Nat → R → List Nat → Building → Option (Bool × Building)
  | 0, _, _, _ => none
  | depth + 1, rule, checkpoints, b =>
    ((body rule).build (buildRule body depth) checkpoints b).filter fun p =>
      p.2.openNodes = b.openNodes

/-! ## Balance -/

/-- A node that was opened: how many frames further out it starts, and its kind. -/
abbrev Opened : Type := Nat × Kind

/-- Opened nodes, seen from a frame inside. -/
def outward (opened : List Opened) : List Opened := opened.map fun n => (n.1 + 1, n.2)

/-- Opened nodes, seen from the frame around. -/
def inward (opened : List Opened) : List Opened := opened.map fun n => (n.1 - 1, n.2)

/-- None of the nodes starts in the innermost frame. -/
def StartOutside (opened : List Opened) : Prop := ∀ n ∈ opened, 1 ≤ n.1

/-- In the innermost of `frames` frames, in which the nodes `opened` are open, innermost first, the
action finishes only what was started in the same frame, and starts nothing outside of a node that
is open.  Behind it `Q` holds of its answer and the nodes that are open then. -/
def Balanced {α : Type} : Nat → Action R α → (α → List Opened → Prop) → List Opened → Prop
  | _, .pure a, Q, opened => Q a opened
  | frames, .bind first next, Q, opened =>
    first.Balanced frames (fun a opened => (next a).Balanced frames Q opened) opened
  | _, .look decide _, Q, opened => ∀ ws, Q (decide ws) opened
  | _, .skipTrivia, Q, opened => Q () opened
  | _, .take, Q, opened => Q () opened
  | _, .takeHalf, Q, opened => Q () opened
  | _, .report _, Q, opened => Q () opened
  | frames, .opening out kind, Q, opened =>
    out < frames ∧ (∀ n ∈ opened.head?, out ≤ n.1) ∧ Q () ((out, kind) :: opened)
  | _, .enclose kind, Q, opened => ∃ rest, opened = (0, kind) :: rest ∧ Q () rest
  | frames, .frame body, Q, opened =>
    body.Balanced (frames + 1) (fun a opened => StartOutside opened ∧ Q a (inward opened))
      (outward opened)
  | frames, .idle body, Q, opened => body.Balanced frames (fun _ opened => ∀ b, Q b opened) opened
  | _, .call _, Q, opened => ∀ b, Q b opened

end Action

/-! ## Building what is read -/

namespace Building

open LivePatch.Action (Opened StartOutside inward outward)

/-- An opened node as the builder knows it. -/
def node (checkpoints : List Nat) (n : Opened) : Kind × Nat := (n.2, checkpoints.getD n.1 0)

/-- The innermost `frames` checkpoints are in order, the first of them has the parts `outer` in
front of it, and none of them lies in front of the innermost of the open nodes `around`. -/
structure Framed (frames : Nat) (checkpoints : List Nat) (outer : List Tree)
    (around : List (Kind × Nat)) : Prop where
  pos : 0 < frames
  enough : frames ≤ checkpoints.length
  innermost : checkpoints.getD 0 0 = outer.length
  sorted : ∀ i j, i ≤ j → j < frames → checkpoints.getD j 0 ≤ checkpoints.getD i 0
  around : ∀ n ∈ around.head?, ∀ i < frames, n.2 ≤ checkpoints.getD i 0

/-- The builder stands where the reading `s` stands in its innermost frame: `outer` are the parts in
front of the frame, `opened` are the nodes opened in the frames at hand and `around` those opened
before. -/
structure Tracks (frames : Nat) (checkpoints : List Nat) (outer : List Tree)
    (around : List (Kind × Nat)) (opened : List Opened) (s : ReadState) (b : Building) : Prop where
  reading : b.reading = s.onTopOf outer
  openNodes : b.openNodes = opened.map (node checkpoints) ++ around
  within : ∀ n ∈ opened, n.1 < frames

variable {frames : Nat} {checkpoints : List Nat} {outer : List Tree} {around : List (Kind × Nat)}
  {opened : List Opened} {s t : ReadState} {b : Building}

theorem Tracks.count (h : Tracks frames checkpoints outer around opened s b) :
    b.count = s.built.length + outer.length := by
  rw [Building.count, h.reading, ReadState.onTopOf, List.length_append]

/-- A step that leaves the nodes alone. -/
theorem Tracks.step (h : Tracks frames checkpoints outer around opened s b)
    {f : ReadState → ReadState} (hf : f (s.onTopOf outer) = (f s).onTopOf outer) :
    Tracks frames checkpoints outer around opened (f s) { b with reading := f b.reading } :=
  ⟨(congrArg f h.reading).trans hf, h.openNodes, h.within⟩

/-- The innermost open node lies behind every checkpoint from which a node may be opened. -/
theorem Tracks.accepts (h : Tracks frames checkpoints outer around opened s b)
    (hframed : Framed frames checkpoints outer around) {out : Nat} (hout : out < frames)
    (hhead : ∀ n ∈ opened.head?, out ≤ n.1) : b.Accepts (checkpoints.getD out 0) := by
  refine ⟨?_, fun n hn => ?_⟩
  · have hle := hframed.sorted 0 out (Nat.zero_le _) hout
    rw [hframed.innermost] at hle
    rw [h.count]
    omega
  · rw [h.openNodes] at hn
    cases opened with
    | nil => exact hframed.around n hn out hout
    | cons m opened =>
      obtain rfl : node checkpoints m = n := Option.some.inj hn
      exact hframed.sorted out m.1 (hhead m rfl) (h.within m List.mem_cons_self)

theorem Tracks.opening (h : Tracks frames checkpoints outer around opened s b)
    (hframed : Framed frames checkpoints outer around) {out : Nat} {k : Kind} (hout : out < frames)
    (hhead : ∀ n ∈ opened.head?, out ≤ n.1) :
    ∃ b', (checkpoints[out]?.bind fun c => b.startNodeAt c k) = some b' ∧
      Tracks frames checkpoints outer around ((out, k) :: opened) s b' := by
  have hlt : out < checkpoints.length := hout.trans_le hframed.enough
  have hget : checkpoints.getD out 0 = checkpoints[out] := by simp [List.getD, hlt]
  have haccepts := h.accepts hframed hout hhead
  rw [hget] at haccepts
  refine ⟨{ b with openNodes := (k, checkpoints[out]) :: b.openNodes }, ?_, h.reading, ?_, ?_⟩
  · rw [List.getElem?_eq_getElem hlt, Option.bind_some, startNodeAt, if_pos haccepts]
  · show (k, checkpoints[out]) :: b.openNodes = _
    rw [h.openNodes, List.map_cons, node, hget]
    rfl
  · exact List.forall_mem_cons.mpr ⟨hout, h.within⟩

theorem Tracks.enclose {k : Kind} (h : Tracks frames checkpoints outer around ((0, k) :: opened) s b)
    (hframed : Framed frames checkpoints outer around) :
    ∃ b', b.finishNode = some b' ∧
      Tracks frames checkpoints outer around opened (s.enclose k) b' := by
  have hnodes := h.openNodes
  rw [List.map_cons, node, hframed.innermost, List.cons_append] at hnodes
  have hcount := h.count
  have hle : outer.length ≤ b.count := by omega
  have hmade : b.count - outer.length = s.built.length := by omega
  refine ⟨_, by rw [finishNode, hnodes]; exact if_pos hle, ?_, rfl,
    fun n hn => h.within n (List.mem_cons_of_mem _ hn)⟩
  simp only [hmade, h.reading, ReadState.onTopOf, List.take_left, List.drop_left]
  rfl

/-- A frame inside, with a checkpoint behind all that is finished. -/
theorem Framed.inner (hframed : Framed frames checkpoints outer around) (built : List Tree) :
    Framed (frames + 1) ((built.length + outer.length) :: checkpoints) (built ++ outer) around where
  pos := Nat.succ_pos _
  enough := Nat.succ_le_succ hframed.enough
  innermost := List.length_append.symm
  sorted i j hij hj := by
    cases j with
    | zero => rw [Nat.le_zero.mp hij]
    | succ j =>
      have hsorted := hframed.sorted
      cases i with
      | zero =>
        have hle := hsorted 0 j (Nat.zero_le _) (Nat.lt_of_succ_lt_succ hj)
        rw [hframed.innermost] at hle
        simp only [List.getD_cons_succ, List.getD_cons_zero]
        omega
      | succ i => exact hsorted i j (Nat.le_of_succ_le_succ hij) (Nat.lt_of_succ_lt_succ hj)
  around n hn i hi := by
    cases i with
    | zero =>
      have hle := hframed.around n hn 0 hframed.pos
      rw [hframed.innermost] at hle
      simp only [List.getD_cons_zero]
      omega
    | succ i => exact hframed.around n hn i (Nat.lt_of_succ_lt_succ hi)

theorem Tracks.inner (h : Tracks frames checkpoints outer around opened s b) :
    Tracks (frames + 1) (b.count :: checkpoints) (s.built ++ outer) around (outward opened)
      { s with built := [] } b where
  reading := h.reading
  openNodes := by
    rw [h.openNodes, outward, List.map_map]
    rfl
  within n hn := by
    obtain ⟨m, hm, rfl⟩ := List.mem_map.mp hn
    exact Nat.succ_lt_succ (h.within m hm)

/-- Behind a frame inside, in which all that was opened is finished. -/
theorem Tracks.merge {checkpoint : Nat}
    (h : Tracks (frames + 1) (checkpoint :: checkpoints) (s.built ++ outer) around opened t b)
    (hopened : StartOutside opened) :
    Tracks frames checkpoints outer around (inward opened)
      { t with built := t.built ++ s.built } b where
  reading := by rw [h.reading, ReadState.onTopOf, ReadState.onTopOf, List.append_assoc]
  openNodes := by
    rw [h.openNodes, inward, List.map_map]
    refine congrArg (· ++ around) (List.map_congr_left fun n hn => ?_)
    obtain ⟨i, k⟩ := n
    obtain ⟨i, rfl⟩ : ∃ j, i = j + 1 := ⟨i - 1, by have := hopened _ hn; simp at this; omega⟩
    rfl
  within n hn := by
    obtain ⟨m, hm, rfl⟩ := List.mem_map.mp hn
    have hlt := h.within m hm
    have hle := hopened m hm
    show m.1 - 1 < frames
    omega

/-- A call sees its caller's frame alone, and all that is open as opened before. -/
theorem Framed.call (hframed : Framed frames checkpoints outer around)
    (h : Tracks frames checkpoints outer around opened s b) :
    Framed 1 checkpoints outer b.openNodes where
  pos := Nat.one_pos
  enough := hframed.pos.trans_le hframed.enough
  innermost := hframed.innermost
  sorted i j hij hj := by
    obtain rfl : j = 0 := by omega
    obtain rfl : i = 0 := by omega
    exact le_rfl
  around n hn i hi := by
    obtain rfl : i = 0 := by omega
    exact (h.accepts hframed hframed.pos fun _ _ => Nat.zero_le _).2 n hn

end Building

namespace Action

open Building (Framed Tracks)

variable {R α : Type}

/-- A way to answer calls builds what another one reads, and leaves the open nodes as they are. -/
def Builds (answer : R → List Nat → Building → Option (Bool × Building))
    (partly : R → ReadState → Option (Bool × ReadState)) : Prop :=
  ∀ ⦃r s v t checkpoints outer around b⦄, partly r s = some (v, t) →
    Framed 1 checkpoints outer around → Tracks 1 checkpoints outer around [] s b →
    ∃ b', answer r checkpoints b = some (v, b') ∧ Tracks 1 checkpoints outer around [] t b'

/-- **One run of a balanced action.**  The builder refuses nothing, and it stands where the reading
stands. -/
theorem build_of_complete {answer : R → List Nat → Building → Option (Bool × Building)}
    {partly : R → ReadState → Option (Bool × ReadState)} (hanswer : Builds answer partly)
    (a : Action R α) {Q : α → List Opened → Prop} {frames : Nat} {checkpoints : List Nat}
    {outer : List Tree} {around : List (Kind × Nat)} {opened : List Opened} {s t : ReadState}
    {b : Building} {v : α} (hframed : Framed frames checkpoints outer around)
    (h : Tracks frames checkpoints outer around opened s b) (hbalanced : a.Balanced frames Q opened)
    (hrun : a.complete partly s = some (v, t)) :
    ∃ b' opened', a.build answer checkpoints b = some (v, b') ∧
      Tracks frames checkpoints outer around opened' t b' ∧ Q v opened' := by
  induction a generalizing frames checkpoints outer opened s t b with
  | pure =>
    obtain ⟨rfl, rfl⟩ := Prod.mk.inj (Option.some.inj hrun)
    exact ⟨b, opened, rfl, h, hbalanced⟩
  | look =>
    obtain ⟨rfl, rfl⟩ := Prod.mk.inj (Option.some.inj hrun)
    exact ⟨b, opened, by rw [build, h.reading]; rfl, h, hbalanced _⟩
  | skipTrivia =>
    obtain ⟨rfl, rfl⟩ := Prod.mk.inj (Option.some.inj hrun)
    exact ⟨_, opened, rfl, h.step (s.skipTrivia_onTopOf outer), hbalanced⟩
  | take =>
    obtain ⟨rfl, rfl⟩ := Prod.mk.inj (Option.some.inj hrun)
    exact ⟨_, opened, rfl, h.step (s.take_onTopOf outer), hbalanced⟩
  | takeHalf =>
    obtain ⟨rfl, rfl⟩ := Prod.mk.inj (Option.some.inj hrun)
    exact ⟨_, opened, rfl, h.step (s.takeHalf_onTopOf outer), hbalanced⟩
  | report problem =>
    obtain ⟨rfl, rfl⟩ := Prod.mk.inj (Option.some.inj hrun)
    exact ⟨_, opened, rfl, h.step (s.report_onTopOf outer problem), hbalanced⟩
  | bind first next ihf ihn =>
    obtain ⟨⟨w, u⟩, hfirst, hnext⟩ := Option.bind_eq_some_iff.mp hrun
    obtain ⟨b', opened', hb', htracks, hQ⟩ := ihf hframed h hbalanced hfirst
    obtain ⟨b'', opened'', hb'', hlast⟩ := ihn w hframed htracks hQ hnext
    refine ⟨b'', opened'', ?_, hlast⟩
    rw [build, hb', Option.bind_some]
    exact hb''
  | opening out k =>
    obtain ⟨rfl, rfl⟩ := Prod.mk.inj (Option.some.inj hrun)
    obtain ⟨hout, hhead, hQ⟩ := hbalanced
    obtain ⟨b', hb', htracks⟩ := h.opening hframed hout hhead (k := k)
    exact ⟨b', _, by rw [build, hb', Option.map_some], htracks, hQ⟩
  | enclose k =>
    obtain ⟨rfl, rfl⟩ := Prod.mk.inj (Option.some.inj hrun)
    obtain ⟨rest, rfl, hQ⟩ := hbalanced
    obtain ⟨b', hb', htracks⟩ := h.enclose hframed
    exact ⟨b', _, by rw [build, hb', Option.map_some], htracks, hQ⟩
  | frame a ih =>
    obtain ⟨⟨w, u⟩, hinner, heq⟩ := Option.map_eq_some_iff.mp hrun
    obtain ⟨rfl, rfl⟩ := Prod.mk.inj heq
    have hframed' := hframed.inner s.built
    rw [← h.count] at hframed'
    obtain ⟨b', opened', hb', htracks, hopened, hQ⟩ := ih hframed' h.inner hbalanced hinner
    exact ⟨b', _, hb', htracks.merge hopened, hQ⟩
  | idle a ih =>
    obtain ⟨⟨w, u⟩, hinner, heq⟩ := Option.map_eq_some_iff.mp hrun
    obtain ⟨rfl, rfl⟩ := Prod.mk.inj heq
    have hskip := h.step (s.skipTrivia_onTopOf outer)
    obtain ⟨b', opened', hb', htracks, hQ⟩ := ih hframed hskip hbalanced hinner
    refine ⟨b', opened', ?_, htracks, hQ _⟩
    have hbefore : b.reading.skipTrivia.words = s.skipTrivia.words := by rw [h.reading]; rfl
    have hafter : b'.reading.words = u.words := by rw [htracks.reading]; rfl
    rw [build, hb', Option.map_some]
    simp only [hbefore, hafter]
  | call r =>
    have hcall : Tracks 1 checkpoints outer b.openNodes [] s b := ⟨h.reading, rfl, List.forall_mem_nil _⟩
    obtain ⟨b', hb', htracks⟩ := hanswer hrun (hframed.call h) hcall
    exact ⟨b', opened, hb', ⟨htracks.reading, htracks.openNodes.trans h.openNodes, h.within⟩,
      hbalanced v⟩

/-- **All calls are built**, if every production is balanced. -/
theorem builds_buildRule {body : R → Action R Bool}
    (hbody : ∀ r, (body r).Balanced 1 (fun _ opened => opened = []) []) (depth : Nat) :
    Builds (buildRule body depth) (completeRule body depth) := by
  induction depth with
  | zero => nofun
  | succ depth ih =>
    intro r s v t checkpoints outer around b hrun hframed htracks
    obtain ⟨b', opened', hb', htracks', rfl⟩ :=
      build_of_complete ih (body r) hframed htracks (hbody r) hrun
    refine ⟨b', ?_, htracks'⟩
    rw [buildRule, hb', Option.filter_some_pos]
    exact decide_eq_true (htracks'.openNodes.trans htracks.openNodes.symm)

end Action

end LivePatch
