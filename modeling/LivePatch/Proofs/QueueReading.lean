import LivePatch.Proofs.Cursor.Tokens
import LivePatch.Proofs.Progress
import LivePatch.Syntax.Queue.Run

/-!
# The queue is read as the words are

Two things are read at once: the queue of all tokens, and the words ahead with the trivia in front
of each kept apart.  A queue `Shows` a state when what is ahead in the one is ahead in the other, in
the text as well.  Every single turn keeps that up, and the answers are the same: a scan through the
queue finds what its question asks about the words, and the queue is as long as before a round of a
loop if and only if there are as many words as before (`Near.length_ahead`).

So a reading of the words that leaves no call undone is one of the queue, too, and by
`Finishes.reads` every text has such a reading.
-/

namespace LivePatch

open Token (textOf widthOf shift closingAngle endOfText)
open Cursor (placed)

variable {ts gap : List Token} {t : Token} {offset : Nat}

/-! ## Queues and tokens -/

namespace QueueState

variable {q q' : QueueState} {α β : Type}

/-- One thing and then another. -/
theorem Turn.bind_eq {first : Turn α} {next : α → Turn β} {a : α} (h : first q = some (a, q')) :
    (first >>= next) q = next a q' := by
  show (first q).bind _ = _
  rw [h]
  rfl

/-- The queue holds the tokens `ts`, which stand in the text from byte `offset` to its end. -/
structure Holds (q : QueueState) (offset : Nat) (ts : List Token) : Prop where
  queue : q.queue = (Token.spans offset ts).map placed
  text : ∃ front, byteLength front = offset ∧ q.input = front ++ (textOf ts).toList

/-- Where a token of the queue stands in the text, the text has it. -/
theorem Holds.cut?_eq (h : q.Holds offset ts) {p : Token × Span} (hp : p ∈ Token.spans offset ts) :
    q.cut? (placed p) = some p.1 := by
  obtain ⟨front, hfront, htext⟩ := h.text
  rw [cut?, placed, htext, Token.slice?_of_mem_spans hp front hfront, Option.map_some,
    String.ofList_toList]

theorem Holds.moved (h : q.Holds offset (t :: ts)) :
    (q.moved t).Holds (offset + t.width) ts := by
  obtain ⟨front, hfront, htext⟩ := h.text
  refine ⟨?_, front ++ t.text.toList, ?_, ?_⟩
  · rw [QueueState.moved, h.queue]
    rfl
  · rw [byteLength_append, byteLength_toList, hfront, Token.width]
  · rw [QueueState.moved, htext, Token.textOf_cons, String.toList_append, List.append_assoc]

/-- The token at the front is taken. -/
theorem Holds.bumpAny_eq (h : q.Holds offset (t :: ts)) : bumpAny q = some ((), q.moved t) := by
  have hcut := h.cut?_eq List.mem_cons_self
  rw [bumpAny, h.queue]
  exact congrArg (Option.map _) hcut

/-- All tokens are in the queue. -/
theorem Holds.tokens_eq (h : q.Holds offset ts) : tokens q = some (ts, q) := by
  have hall : ∀ ps : List (Token × Span), (∀ p ∈ ps, q.cut? (placed p) = some p.1) →
      (ps.map placed).mapM q.cut? = some (ps.map Prod.fst) := by
    intro ps hps
    induction ps with
    | nil => rfl
    | cons p ps ih =>
      obtain ⟨hp, hps⟩ := List.forall_mem_cons.mp hps
      rw [List.map_cons, List.mapM_cons, hp, ih hps]
      rfl
  rw [tokens, h.queue, hall _ fun p hp => h.cut?_eq hp, Token.map_fst_spans]
  rfl

theorem Holds.length_queue (h : q.Holds offset ts) : q.queue.length = ts.length := by
  rw [h.queue, List.length_map, ← List.length_map Prod.fst, Token.map_fst_spans]

theorem Holds.foldl_moved (h : q.Holds offset (gap ++ ts)) :
    (gap.foldl QueueState.moved q).Holds (offset + widthOf gap) ts := by
  induction gap generalizing q offset with
  | nil => exact h
  | cons t gap ih =>
    rw [Token.widthOf_cons, ← Nat.add_assoc]
    exact ih h.moved

/-- **Trivia at the front is taken**, and no more than that. -/
theorem Holds.eatTrivia_eq (h : q.Holds offset (gap ++ ts)) (hgap : ∀ t ∈ gap, t.isTrivia = true)
    (hts : ∀ t ∈ ts.head?, t.isTrivia = false) :
    eatTrivia q = some ((), gap.foldl QueueState.moved q) := by
  induction gap generalizing q offset with
  | nil =>
    rw [eatTrivia]
    cases ts with
    | nil =>
      split
      · rfl
      · rename_i heq
        cases heq.symm.trans h.queue
    | cons t ts =>
      split
      · rfl
      · rename_i p queue heq
        obtain ⟨rfl, -⟩ := List.cons.inj (heq.symm.trans h.queue)
        have ht : t.kind.isTrivia = false := hts t rfl
        exact if_neg (by simp [placed, ht])
  | cons t gap ih =>
    obtain ⟨ht, hgap⟩ := List.forall_mem_cons.mp hgap
    rw [eatTrivia]
    split
    · rename_i heq
      cases heq.symm.trans h.queue
    · rename_i p queue heq
      obtain ⟨rfl, -⟩ := List.cons.inj (heq.symm.trans h.queue)
      have htrivia : (placed (t, Span.ofText offset t.text)).1.isTrivia = true := ht
      rw [if_pos htrivia, h.cut?_eq List.mem_cons_self]
      exact ih h.moved hgap

@[simp] theorem foldl_moved_built :
    (gap.foldl moved q).built = gap.reverse.map Tree.token ++ q.built := by
  induction gap generalizing q with
  | nil => rfl
  | cons t gap ih => simp [ih, moved]

@[simp] theorem foldl_moved_found : (gap.foldl moved q).found = q.found := by
  induction gap generalizing q with
  | nil => rfl
  | cons t gap ih => exact ih

/-- Where a word is noted. -/
theorem Holds.here_eq (h : q.Holds offset ts) :
    q.here = Span.ofText offset (ts.head?.elim "" (·.text)) := by
  obtain ⟨front, hfront, htext⟩ := h.text
  cases ts with
  | nil =>
    have hlength : byteLength q.input = offset := by
      rw [htext, byteLength_append, hfront]
      rfl
    rw [here, h.queue]
    exact congrArg₂ Span.mk hlength hlength
  | cons t ts =>
    rw [here, h.queue]
    rfl

/-- A shift at the front becomes two closing angle brackets. -/
theorem Holds.splitShift_eq (h : q.Holds offset (shift :: ts)) :
    ∃ q', splitShift q = some ((), q') ∧ q'.Holds offset (closingAngle :: closingAngle :: ts) ∧
      q'.built = q.built ∧ q'.found = q.found := by
  obtain ⟨front, hfront, htext⟩ := h.text
  refine ⟨_, rfl, ⟨?_, front, hfront, ?_⟩, ?_, ?_⟩ <;> rw [divided, h.queue]
  · rfl
  · rw [htext]
    rfl
  · rfl
  · rfl

/-- Anything else at the front stays what it is. -/
theorem Holds.splitShift_other (h : q.Holds offset ts)
    (hts : ∀ t ∈ ts.head?, t.kind ≠ .rightShift) : splitShift q = some ((), q) := by
  have hsame : q.divided = q := by
    unfold divided
    split
    · rename_i heq
      cases ts with
      | nil => cases heq.symm.trans h.queue
      | cons t ts =>
        obtain ⟨hplaced, -⟩ := List.cons.inj (heq.symm.trans h.queue)
        exact absurd (congrArg Prod.fst hplaced).symm (hts t rfl)
    · rfl
  exact congrArg (fun q => some ((), q)) hsame

end QueueState

/-! ## Queues and states -/

namespace ReadState

@[simp] theorem gap_skipTrivia (s : ReadState) : s.skipTrivia.gap = [] := by
  rw [gap, skipTrivia]
  cases s.gaps <;> rfl

/-- Only a shift is divided. -/
theorem splitShift_of_ne {s : ReadState} (h : ∀ w ∈ s.words.head?, w.kind ≠ .rightShift) :
    s.splitShift = s := by
  unfold splitShift
  split
  · rename_i hw
    exact absurd rfl (h _ (by rw [hw]; rfl))
  · rfl

theorem skipTrivia_skipTrivia (s : ReadState) : s.skipTrivia.skipTrivia = s.skipTrivia := by
  obtain ⟨words, gaps, offset, built, found⟩ := s
  cases gaps <;> simp [skipTrivia, gap]

/-- The trivia in front of a shift makes no difference to its division. -/
theorem takeHalf_skipTrivia (s : ReadState) : s.skipTrivia.splitShift.take = s.takeHalf := by
  by_cases hk : ∃ text ws, s.words = ⟨.rightShift, text⟩ :: ws
  · obtain ⟨text, ws, hw⟩ := hk
    have hskip : s.skipTrivia.words = ⟨.rightShift, text⟩ :: ws := hw
    obtain ⟨words, gaps, offset, built, found⟩ := s
    cases gaps <;> simp_all [takeHalf, splitShift, take, skipTrivia, gap]
  · have hother : ∀ w ∈ s.words.head?, w.kind ≠ .rightShift := by
      rintro ⟨k, text⟩ hw rfl
      obtain ⟨ws, hws⟩ := List.head?_eq_some_iff.mp hw
      exact hk ⟨text, ws, hws⟩
    have hskip : s.skipTrivia.splitShift = s.skipTrivia := splitShift_of_ne hother
    rw [takeHalf, splitShift_of_ne hother, hskip, take, take, skipTrivia_skipTrivia]

end ReadState

/-- The queue shows what is ahead of the reading in the state `s`, and both have built and found the
same. -/
structure QueueState.Shows (q : QueueState) (s : ReadState) : Prop where
  aligned : s.gaps.length = s.words.length
  trivia : ∀ gap ∈ s.gaps, ∀ t ∈ gap, t.isTrivia = true
  words : ∀ w ∈ s.words, w.isTrivia = false ∧ (w.kind = .rightShift → w = shift)
  ahead : q.Holds s.offset s.ahead
  built : q.built = s.built
  found : q.found = s.found

namespace QueueState.Shows

variable {q : QueueState} {s : ReadState}

theorem filter_ahead (h : q.Shows s) : s.ahead.filter Token.isSignificant = s.words :=
  ReadState.filter_weave h.aligned h.trivia fun w hw => (h.words w hw).1

/-- What a queue shows is at its end, or a word with a gap in front comes next. -/
theorem cases (h : q.Shows s) : s.words = [] ∧ s.gaps = [] ∨
    ∃ w ws gap gaps, s.words = w :: ws ∧ s.gaps = gap :: gaps := by
  have hlength := h.aligned
  cases hw : s.words with
  | nil =>
    rw [hw] at hlength
    exact .inl ⟨rfl, List.length_eq_zero_iff.mp hlength⟩
  | cons w ws =>
    rw [hw] at hlength
    obtain ⟨gap, gaps, hg⟩ := List.exists_cons_of_length_eq_add_one hlength
    exact .inr ⟨w, ws, gap, gaps, rfl, hg⟩

/-- At its end the queue is empty. -/
theorem ahead_nil (h : q.Shows s) (hw : s.words = []) (hg : s.gaps = []) : q.Holds s.offset [] := by
  have hahead := h.ahead
  rwa [ReadState.ahead, hw, hg, ReadState.weave] at hahead
  simp

theorem ahead_cons (h : q.Shows s) {w : Token} {ws : List Token} (hw : s.words = w :: ws)
    (hg : s.gaps = gap :: gaps) : q.Holds s.offset (gap ++ w :: ReadState.weave gaps ws) := by
  have hahead := h.ahead
  rwa [ReadState.ahead, hw, hg, ReadState.weave] at hahead

/-- The trivia in front of the next word is taken from both. -/
theorem eatTrivia (h : q.Shows s) :
    ∃ q', QueueState.eatTrivia q = some ((), q') ∧ q'.Shows s.skipTrivia := by
  obtain ⟨hw, hg⟩ | ⟨w, ws, gap, gaps, hw, hg⟩ := h.cases
  · have hnil := h.ahead_nil hw hg
    have hsame : s.skipTrivia = s := by
      cases s
      cases hg
      simp [ReadState.skipTrivia, ReadState.gap]
    rw [hsame]
    have hnone : q.Holds s.offset ([] ++ []) := hnil
    exact ⟨q, hnone.eatTrivia_eq (by simp) (by simp), h⟩
  · have hcons := h.ahead_cons hw hg
    have htrivia := h.trivia
    rw [hg] at htrivia
    obtain ⟨hgap, hgaps⟩ := List.forall_mem_cons.mp htrivia
    have hword := (h.words w (by rw [hw]; exact List.mem_cons_self)).1
    have hskip := ReadState.skipTrivia_gaps_cons hg
    refine ⟨_, hcons.eatTrivia_eq hgap (by simpa using hword), ?_, ?_, h.words, ?_, ?_, ?_⟩
    · rw [hskip, ReadState.skipTrivia_words, ← h.aligned, hg]
      rfl
    · rw [hskip]
      exact List.forall_mem_cons.mpr ⟨by simp, hgaps⟩
    · rw [ReadState.ahead, hskip, ReadState.skipTrivia_words, hw, ReadState.skipTrivia,
        ReadState.gap, hg]
      exact hcons.foldl_moved
    · rw [foldl_moved_built, h.built, ReadState.skipTrivia, ReadState.gap, hg]
      rfl
    · rw [foldl_moved_found, h.found]
      rfl

/-- The next word is taken from both, with the trivia in front of it. -/
theorem bump (h : q.Shows s) : ∃ q', QueueState.bump q = some ((), q') ∧ q'.Shows s.take := by
  obtain ⟨q₁, heat, h₁⟩ := h.eatTrivia
  have hbump : QueueState.bump q = bumpAny q₁ := Turn.bind_eq heat
  rw [hbump]
  obtain ⟨hw, hg⟩ | ⟨w, ws, gap, gaps, hw, hg⟩ := h₁.cases
  · have hnil := h₁.ahead_nil hw hg
    have hsame : s.take = s.skipTrivia := by
      rw [ReadState.take]
      simp [hw]
    rw [hsame]
    exact ⟨q₁, by rw [bumpAny, hnil.queue]; rfl, h₁⟩
  · have hgap : gap = [] := by
      have hempty := ReadState.gap_skipTrivia s
      rwa [ReadState.gap, hg] at hempty
    have hcons := h₁.ahead_cons hw hg
    rw [hgap, List.nil_append] at hcons
    have htake : s.take = { s.skipTrivia with
        words := ws
        gaps := gaps
        offset := s.skipTrivia.offset + w.width
        built := .token w :: s.skipTrivia.built } := by
      simp only [ReadState.take, hw, hg, List.drop_succ_cons, List.drop_zero]
    have haligned := h₁.aligned
    have htrivia := h₁.trivia
    have hwords := h₁.words
    rw [hw, hg] at haligned
    rw [hg] at htrivia
    rw [hw] at hwords
    rw [htake]
    refine ⟨_, hcons.bumpAny_eq, Nat.succ.inj haligned, (List.forall_mem_cons.mp htrivia).2,
      (List.forall_mem_cons.mp hwords).2, hcons.moved, ?_, h₁.found⟩
    rw [moved, h₁.built]

/-- A shift behind no trivia is divided in both. -/
theorem splitShift (h : q.Shows s) (hgap : s.gap = []) :
    ∃ q', QueueState.splitShift q = some ((), q') ∧ q'.Shows s.splitShift := by
  by_cases hk : ∃ ws, s.words = shift :: ws
  · obtain ⟨ws, hw⟩ := hk
    obtain ⟨hnil, -⟩ | ⟨_, _, gap, gaps, hcons, hg⟩ := h.cases
    · cases hw.symm.trans hnil
    obtain ⟨rfl, rfl⟩ := List.cons.inj (hw.symm.trans hcons)
    obtain rfl : gap = [] := by rwa [ReadState.gap, hg] at hgap
    obtain ⟨q', hq', hahead, hbuilt, hfound⟩ := (h.ahead_cons hw hg).splitShift_eq
    have hsplit : s.splitShift = { s with
        words := closingAngle :: closingAngle :: ws
        gaps := [] :: [] :: gaps } := by
      simp [ReadState.splitShift, hw, hg, ReadState.gap, shift, closingAngle]
    have haligned := h.aligned
    have htrivia := h.trivia
    have hwords := h.words
    rw [hw, hg] at haligned
    rw [hg] at htrivia
    rw [hw] at hwords
    have hangle : closingAngle.isTrivia = false ∧
        (closingAngle.kind = .rightShift → closingAngle = shift) := by decide
    rw [hsplit]
    refine ⟨q', hq', congrArg Nat.succ haligned, ?_, ?_, hahead, hbuilt.trans h.built,
      hfound.trans h.found⟩
    · exact List.forall_mem_cons.mpr ⟨by simp, htrivia⟩
    · exact List.forall_mem_cons.mpr ⟨hangle, List.forall_mem_cons.mpr
        ⟨hangle, (List.forall_mem_cons.mp hwords).2⟩⟩
  · have hother : ∀ w ∈ s.words.head?, w.kind ≠ .rightShift := by
      intro w hw hshift
      obtain ⟨ws, hws⟩ := List.head?_eq_some_iff.mp hw
      have hword := (h.words w (by rw [hws]; exact List.mem_cons_self)).2 hshift
      exact hk ⟨ws, hword ▸ hws⟩
    have hahead : ∀ w ∈ s.ahead.head?, w.kind ≠ .rightShift := by
      obtain ⟨hw, hg⟩ | ⟨w, ws, gap, gaps, hw, hg⟩ := h.cases
      · simp [ReadState.ahead, hw, hg, ReadState.weave]
      · obtain rfl : gap = [] := by rwa [ReadState.gap, hg] at hgap
        rw [hw] at hother
        rw [ReadState.ahead, hw, hg]
        exact hother
    rw [ReadState.splitShift_of_ne hother]
    exact ⟨q, h.ahead.splitShift_other hahead, h⟩

/-- Half of a shift is taken from both, with the trivia in front of it. -/
theorem takeHalf (h : q.Shows s) : ∃ q', (do
      QueueState.eatTrivia
      QueueState.splitShift
      QueueState.bump : Turn Unit) q = some ((), q') ∧ q'.Shows s.takeHalf := by
  obtain ⟨q₁, heat, h₁⟩ := h.eatTrivia
  obtain ⟨q₂, hsplit, h₂⟩ := h₁.splitShift s.gap_skipTrivia
  obtain ⟨q₃, hbump, h₃⟩ := h₂.bump
  refine ⟨q₃, (Turn.bind_eq heat).trans ((Turn.bind_eq hsplit).trans hbump), ?_⟩
  exact s.takeHalf_skipTrivia ▸ h₃

/-- A problem is noted at the same place in both. -/
theorem report (h : q.Shows s) (problem : Problem) :
    ∃ q', QueueState.report problem q = some ((), q') ∧ q'.Shows (s.report problem) := by
  obtain ⟨q', heat, h'⟩ := h.eatTrivia
  have hreport : QueueState.report problem q =
      some ((), { q' with found := ⟨problem, q'.here⟩ :: q'.found }) := Turn.bind_eq heat
  have hhead : s.skipTrivia.ahead.head?.elim "" (·.text) =
      s.skipTrivia.words.head?.elim "" (·.text) := by
    obtain ⟨hw, hg⟩ | ⟨w, ws, gap, gaps, hw, hg⟩ := h'.cases
    · rw [ReadState.ahead, hw, hg]
      rfl
    · obtain rfl : gap = [] := by
        have hempty := s.gap_skipTrivia
        rwa [ReadState.gap, hg] at hempty
      rw [ReadState.ahead, hw, hg]
      rfl
  refine ⟨_, hreport, h'.aligned, h'.trivia, h'.words, ?_, h'.built, ?_⟩
  · exact ⟨h'.ahead.queue, h'.ahead.text⟩
  · have hhere := h'.ahead.here_eq
    rw [hhead] at hhere
    cases hw : s.skipTrivia.words <;>
      simp [ReadState.report, hw, hhere, h'.found]

/-- What both have built becomes one node. -/
theorem enclose (h : q.Shows s) (k : Kind) :
    ∃ q', QueueState.enclose k q = some ((), q') ∧ q'.Shows (s.enclose k) := by
  refine ⟨_, rfl, h.aligned, h.trivia, h.words, ⟨h.ahead.queue, h.ahead.text⟩, ?_, h.found⟩
  show [Tree.node k q.built.reverse] = [Tree.node k s.built.reverse]
  rw [h.built]

/-- What is built is set aside, or other things are built. -/
theorem rebuilt (h : q.Shows s) {built built' : List Tree} (hbuilt : built = built') :
    Shows { q with built := built } { s with built := built' } :=
  ⟨h.aligned, h.trivia, h.words, ⟨h.ahead.queue, h.ahead.text⟩, hbuilt, h.found⟩

end QueueState.Shows

/-! ## Rounds of a loop -/

namespace ReadState

/-- What is ahead in `t` is what is ahead in `s`, or less. -/
structure Near (s t : ReadState) : Prop where
  aligned : t.gaps.length = t.words.length
  less : t.words.length = s.words.length ∧ t.gaps = s.gaps ∨
    t.words.length < s.words.length ∧ t.gaps.flatten.length ≤ s.gaps.flatten.length

variable {s t : ReadState}

theorem length_weave {gaps : List (List Token)} {ws : List Token}
    (h : gaps.length = ws.length) :
    (weave gaps ws).length = gaps.flatten.length + ws.length := by
  induction gaps generalizing ws with
  | nil =>
    rw [List.length_eq_zero_iff.mp h.symm]
    rfl
  | cons gap gaps ih =>
    obtain ⟨w, ws, rfl⟩ := List.exists_cons_of_length_eq_add_one h.symm
    rw [weave, List.length_append, List.length_cons, ih (Nat.succ.inj h), List.flatten_cons,
      List.length_append, List.length_cons]
    omega

/-- **Nothing is gone from the queue if and only if no word is gone.** -/
theorem Near.length_ahead (h : s.Near t) (hs : s.gaps.length = s.words.length) :
    (t.ahead.length == s.ahead.length) = (t.words.length == s.words.length) := by
  rw [Bool.eq_iff_iff, beq_iff_eq, beq_iff_eq, ahead, ahead, length_weave hs,
    length_weave h.aligned]
  obtain ⟨hwords, hgaps⟩ | ⟨hwords, hgaps⟩ := h.less
  · rw [hgaps]
    omega
  · omega

namespace Near

theorem refl (h : s.gaps.length = s.words.length) : s.Near s := ⟨h, .inl ⟨rfl, rfl⟩⟩

/-- What is built and found does not matter. -/
theorem of_eq (h : s.Near t) {u : ReadState} (hwords : u.words = t.words)
    (hgaps : u.gaps = t.gaps) : s.Near u := by
  obtain ⟨haligned, hless⟩ := h
  exact ⟨by rw [hwords, hgaps, haligned], by rwa [hwords, hgaps]⟩

theorem skipTrivia (h : s.Near t) (hs : s.gap = []) : s.Near t.skipTrivia := by
  cases hg : t.gaps with
  | nil => exact h.of_eq rfl (by rw [skipTrivia_gaps_nil hg, hg])
  | cons gap gaps =>
    have hskip := skipTrivia_gaps_cons hg
    have haligned := h.aligned
    rw [hg] at haligned
    refine ⟨by rw [hskip]; exact haligned, ?_⟩
    rw [hskip, skipTrivia_words]
    obtain ⟨hwords, hgaps⟩ | ⟨hwords, hgaps⟩ := h.less
    · have hsame : s.gaps = gap :: gaps := hgaps.symm.trans hg
      obtain rfl : gap = [] := by rwa [ReadState.gap, hsame] at hs
      exact .inl ⟨hwords, hsame.symm⟩
    · rw [hg, List.flatten_cons, List.length_append] at hgaps
      exact .inr ⟨hwords, by rw [List.flatten_cons, List.nil_append]; omega⟩

theorem take (h : s.Near t) (hs : s.gap = []) : s.Near t.take := by
  have hskip := h.skipTrivia hs
  cases hw : t.skipTrivia.words with
  | nil => exact hskip.of_eq (by simp [ReadState.take, hw]) (by simp [ReadState.take, hw])
  | cons w ws =>
    obtain ⟨haligned, hless⟩ := hskip
    obtain ⟨gap, gaps, hg⟩ :=
      List.exists_cons_of_length_eq_add_one (haligned.trans (by rw [hw]; rfl))
    rw [hw, hg, List.length_cons] at hless haligned
    have hwords : t.take.words = ws := by simp [ReadState.take, hw]
    have hgaps : t.take.gaps = gaps := by simp [ReadState.take, hw, hg]
    refine ⟨by rw [hwords, hgaps]; exact Nat.succ.inj haligned, .inr ?_⟩
    rw [hwords, hgaps]
    rw [List.flatten_cons, List.length_append] at hless
    obtain ⟨hlength, hsame⟩ | ⟨hlength, hle⟩ := hless
    · rw [← hsame, List.flatten_cons, List.length_append]
      omega
    · omega

theorem takeHalf (h : s.Near t) (hs : s.gap = []) : s.Near t.takeHalf := by
  by_cases hk : ∃ text ws, t.words = ⟨.rightShift, text⟩ :: ws
  · obtain ⟨text, ws, hw⟩ := hk
    obtain ⟨haligned, hless⟩ := h.skipTrivia hs
    obtain ⟨gap, gaps, hg⟩ :=
      List.exists_cons_of_length_eq_add_one (h.aligned.trans (by rw [hw]; rfl))
    rw [skipTrivia_gaps_cons hg, skipTrivia_words, hw] at haligned hless
    have hwords : t.takeHalf.words = ⟨.greater, ">"⟩ :: ws := by
      simp [ReadState.takeHalf, splitShift, ReadState.take, ReadState.skipTrivia, hw]
    have hgaps : t.takeHalf.gaps = [] :: gaps := by
      simp [ReadState.takeHalf, splitShift, ReadState.take, ReadState.skipTrivia, hw, hg]
    exact ⟨by rw [hwords, hgaps]; exact haligned, by rw [hwords, hgaps]; exact hless⟩
  · have hother : ∀ w ∈ t.words.head?, w.kind ≠ .rightShift := by
      rintro ⟨k, text⟩ hw rfl
      obtain ⟨ws, hws⟩ := List.head?_eq_some_iff.mp hw
      exact hk ⟨text, ws, hws⟩
    rw [ReadState.takeHalf, splitShift_of_ne hother]
    exact h.take hs

end Near

end ReadState

namespace Action

open QueueState (Turn)

variable {R α : Type}

/-- Nothing comes to the queue while an action is done, except that a shift is divided. -/
theorem near_of_complete {answer : R → ReadState → Option (Bool × ReadState)} {s : ReadState}
    (hs : s.gap = []) (hanswer : ∀ r t v u, answer r t = some (v, u) → s.Near t → s.Near u)
    (a : Action R α) {t u : ReadState} {v : α} (h : a.complete answer t = some (v, u))
    (ht : s.Near t) : s.Near u := by
  induction a generalizing t u with
  | pure | look | opening =>
    cases h
    exact ht
  | bind first next ihf ihn =>
    obtain ⟨⟨w, t'⟩, hfirst, hnext⟩ := Option.bind_eq_some_iff.mp h
    exact ihn w hnext (ihf hfirst ht)
  | skipTrivia =>
    cases h
    exact ht.skipTrivia hs
  | take =>
    cases h
    exact ht.take hs
  | takeHalf =>
    cases h
    exact ht.takeHalf hs
  | report problem =>
    cases h
    exact (ht.skipTrivia hs).of_eq rfl rfl
  | enclose k =>
    cases h
    exact ht.of_eq rfl rfl
  | frame body ih =>
    obtain ⟨⟨w, inner⟩, hbody, heq⟩ := Option.map_eq_some_iff.mp h
    cases heq
    exact (ih hbody (ht.of_eq rfl rfl)).of_eq rfl rfl
  | idle body ih =>
    obtain ⟨⟨w, after⟩, hbody, heq⟩ := Option.map_eq_some_iff.mp h
    cases heq
    exact ih hbody (ht.skipTrivia hs)
  | call r => exact hanswer r t v u h ht

theorem near_of_completeRule {body : R → Action R Bool} {s : ReadState} (hs : s.gap = [])
    (depth : Nat) (r : R) (t : ReadState) (v : Bool) (u : ReadState)
    (h : completeRule body depth r t = some (v, u)) (ht : s.Near t) : s.Near u := by
  induction depth generalizing r t v u with
  | zero => cases h
  | succ depth ih => exact near_of_complete hs ih (body r) h ht

/-! ## Readings -/

/-- **What an action does with the words, it does with the queue.** -/
theorem runQueue_of_complete {answer : R → ReadState → Option (Bool × ReadState)}
    {reply : R → Turn Bool}
    (hnear : ∀ s : ReadState, s.gap = [] → ∀ r t v u, answer r t = some (v, u) →
      s.Near t → s.Near u)
    (hanswer : ∀ r s v t q, answer r s = some (v, t) → q.Shows s →
      ∃ q', reply r q = some (v, q') ∧ q'.Shows t)
    (a : Action R α) {s t : ReadState} {v : α} {q : QueueState}
    (h : a.complete answer s = some (v, t)) (hq : q.Shows s) :
    ∃ q', a.runQueue reply q = some (v, q') ∧ q'.Shows t := by
  induction a generalizing s t q with
  | pure w =>
    cases h
    exact ⟨q, rfl, hq⟩
  | bind first next ihf ihn =>
    obtain ⟨⟨w, s'⟩, hfirst, hnext⟩ := Option.bind_eq_some_iff.mp h
    obtain ⟨q₁, hq₁, h₁⟩ := ihf hfirst hq
    obtain ⟨q₂, hq₂, h₂⟩ := ihn w hnext h₁
    exact ⟨q₂, (Turn.bind_eq hq₁).trans hq₂, h₂⟩
  | look decide scanned =>
    cases h
    have hscan : scanned.scan s.ahead = decide s.words := by
      rw [scanned.scan_eq, hq.filter_ahead]
    exact ⟨q, (Turn.bind_eq hq.ahead.tokens_eq).trans (by rw [hscan]; rfl), hq⟩
  | skipTrivia =>
    cases h
    exact hq.eatTrivia
  | take =>
    cases h
    exact hq.bump
  | takeHalf =>
    cases h
    exact hq.takeHalf
  | report problem =>
    cases h
    exact hq.report problem
  | opening =>
    cases h
    exact ⟨q, rfl, hq⟩
  | enclose k =>
    cases h
    exact hq.enclose k
  | frame body ih =>
    obtain ⟨⟨w, inner⟩, hbody, heq⟩ := Option.map_eq_some_iff.mp h
    cases heq
    obtain ⟨q₁, hq₁, h₁⟩ := ih hbody (hq.rebuilt rfl)
    refine ⟨{ q₁ with built := q₁.built ++ q.built }, ?_,
      h₁.rebuilt (by rw [h₁.built, hq.built])⟩
    show (body.runQueue reply >>= fun a => do
      modify fun inner => { inner with built := inner.built ++ q.built }
      return a : Turn _) { q with built := [] } = _
    exact Turn.bind_eq hq₁
  | idle body ih =>
    obtain ⟨⟨w, after⟩, hbody, heq⟩ := Option.map_eq_some_iff.mp h
    cases heq
    obtain ⟨q₁, hq₁, h₁⟩ := hq.eatTrivia
    obtain ⟨q₂, hq₂, h₂⟩ := ih hbody h₁
    have hsame : (q₂.queue.length == q₁.queue.length) =
        (t.words.length == s.skipTrivia.words.length) := by
      rw [h₁.ahead.length_queue, h₂.ahead.length_queue]
      exact (near_of_complete s.gap_skipTrivia (hnear _ s.gap_skipTrivia) body hbody
        (.refl h₁.aligned)).length_ahead h₁.aligned
    rw [← hsame]
    have hcount : QueueState.count q₁ = some (q₁.queue.length, q₁) := rfl
    refine ⟨q₂, (Turn.bind_eq hq₁).trans ((Turn.bind_eq hcount).trans ?_), h₂⟩
    exact Turn.bind_eq hq₂
  | call r => exact hanswer r s v t q h hq

theorem runQueueRule_of_completeRule {body : R → Action R Bool} (depth : Nat) (r : R)
    (s : ReadState) (v : Bool) (t : ReadState) (q : QueueState)
    (h : completeRule body depth r s = some (v, t)) (hq : q.Shows s) :
    ∃ q', runQueueRule body depth r q = some (v, q') ∧ q'.Shows t := by
  induction depth generalizing r s v t q with
  | zero => cases h
  | succ depth ih =>
    exact runQueue_of_complete (fun _ hs => near_of_completeRule hs depth) ih (body r) h hq

end Action

/-! ## Whole texts -/

/-- In the beginning the queue of all tokens shows all words. -/
theorem QueueState.shows_start (source : String) :
    Shows ⟨source.toList, (Token.spans 0 (lex source)).map placed, [], []⟩
      (.start (lex source)) := by
  have ho := ReadState.orderly_start source
  obtain ⟨front, hwords, hfront⟩ := ho.ended
  refine ⟨ho.aligned, ho.trivia, fun w hw => ?_, ?_, rfl, rfl⟩
  · rw [hwords] at hw
    rcases List.mem_append.mp hw with hw | hw
    · exact ⟨(hfront w hw).2, (hfront w hw).1.eq_shift⟩
    · rw [List.mem_singleton.mp hw]
      exact ⟨rfl, by decide⟩
  · rw [ReadState.ahead_start]
    refine ⟨rfl, [], rfl, ?_⟩
    rw [textOf_lex]
    rfl

namespace Queue

open Grammar (Step production compilationUnit expressionFragment Finishes)

/-- The reading, given how deep calls may nest, comes to `p` when they may nest deep enough. -/
def ComesTo (read : Nat → Option Parsed) (p : Parsed) : Prop :=
  ∃ bound, ∀ depth ≥ bound, read depth = some p

/-- **What is read by the words is read by the queue.** -/
theorem readWhole_eq {step : Step Unit} {source : String} {p : Parsed}
    (h : Finishes step source p) :
    ComesTo (readWhole step source) p := by
  obtain ⟨last, ⟨bound, hdoes⟩, -, hbuilt, hfound⟩ := h.reads
  refine ⟨bound, fun depth hdepth => ?_⟩
  have hcomplete := Action.complete_mono
    (fun _ _ _ h => Action.completeRule_mono hdepth h) step hdoes
  obtain ⟨q, hq, hshows⟩ := Action.runQueue_of_complete
    (fun _ hs => Action.near_of_completeRule hs depth)
    (Action.runQueueRule_of_completeRule depth) step hcomplete (QueueState.shows_start source)
  have hread : readWhole step source depth = some ⟨q.built.headD (.node .error []),
      lexicalFaults source ++ q.found.reverse⟩ := by
    rw [readWhole, Cursor.tokenize_eq]
    let ending (last : Unit × QueueState) : Option Parsed :=
      some ⟨last.2.built.headD (.node .error []), lexicalFaults source ++ last.2.found.reverse⟩
    exact congrArg (Option.bind · ending) hq
  rw [hread, hshows.built, hshows.found, hbuilt, ← hfound]
  rfl

theorem parse_eq (source : String) :
    ComesTo (parse source) (LivePatch.parse source) :=
  readWhole_eq (Grammar.finishes_parse source)

theorem parseExpression_eq (source : String) :
    ComesTo (parseExpression source) (LivePatch.parseExpression source) :=
  readWhole_eq (Grammar.finishes_parseExpression source)

end Queue

end LivePatch
