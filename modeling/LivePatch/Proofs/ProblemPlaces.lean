import LivePatch.Proofs.Reading
import LivePatch.Proofs.TokenPlaces

/-!
# Where problems are noted

A reading moves forward over the tokens of its text and notes a problem at the word it stands in
front of.  `Located` says what this comes to: the problems noted so far are in the order of their
places, and each has the place of a word of the text, or of a closing angle bracket that was half
of a shift, or the end of the text.

None of this depends on what a production does, so it is proved for every action.  The one thing
that is asked is a property of the problems that the action may report (`Action.Reports`).
-/

namespace LivePatch

open Token (Divides shift closingAngle endOfText widthOf spans)

/-! ## Spans of divided tokens -/

namespace Token

/-- A token of a divided list stands where it stood before, or it is half of a shift. -/
theorem Divides.mem_spans {ts us : List Token} (h : Divides ts us) {start : Nat}
    {p : Token × Span} (hp : p ∈ spans start us) :
    p ∈ spans start ts ∨ p.1 = closingAngle ∧ ∃ whole, (shift, whole) ∈ spans start ts ∧
      (p.2 = ⟨whole.start, whole.start + 1⟩ ∨ p.2 = ⟨whole.start + 1, whole.stop⟩) := by
  induction h generalizing start with
  | nil => exact .inl hp
  | keep t _ ih =>
    rcases List.mem_cons.mp hp with rfl | hp
    · exact .inl List.mem_cons_self
    · obtain hold | ⟨half, whole, hw, side⟩ := ih hp
      · exact .inl (List.mem_cons_of_mem _ hold)
      · exact .inr ⟨half, whole, List.mem_cons_of_mem _ hw, side⟩
  | divide _ ih =>
    rcases List.mem_cons.mp hp with rfl | hp
    · exact .inr ⟨rfl, _, List.mem_cons_self, .inl rfl⟩
    rcases List.mem_cons.mp hp with rfl | hp
    · exact .inr ⟨rfl, _, List.mem_cons_self, .inr rfl⟩
    · obtain hold | ⟨half, whole, hw, side⟩ := @ih (start + 2) hp
      · exact .inl (List.mem_cons_of_mem _ hold)
      · exact .inr ⟨half, whole, List.mem_cons_of_mem _ hw, side⟩

/-- Only shifts are divided, so any other token keeps its place. -/
theorem Divides.mem_spans_of_ne {ts us : List Token} (h : Divides ts us) {start : Nat}
    {p : Token × Span} (hp : p ∈ spans start ts) (hne : p.1 ≠ shift) : p ∈ spans start us := by
  induction h generalizing start with
  | nil => exact hp
  | keep t _ ih =>
    rcases List.mem_cons.mp hp with rfl | hp
    · exact List.mem_cons_self
    · exact List.mem_cons_of_mem _ (ih hp)
  | divide _ ih =>
    rcases List.mem_cons.mp hp with rfl | hp
    · exact absurd rfl hne
    · exact List.mem_cons_of_mem _ (List.mem_cons_of_mem _ (@ih (start + 2) hp))

/-- The span of a token behind others. -/
theorem mem_spans_append_cons (start : Nat) (ts us : List Token) (t : Token) :
    (t, Span.ofText (start + widthOf ts) t.text) ∈ spans start (ts ++ t :: us) := by
  rw [spans_append]
  exact List.mem_append_right _ List.mem_cons_self

end Token

/-! ## What an action may report -/

/-- All problems that the action itself reports have the property `P`; what its calls report is
left to them. -/
def Action.Reports {R : Type} (P : Problem → Prop) {α : Type} : Action R α → Prop
  | .bind first next => first.Reports P ∧ ∀ a, (next a).Reports P
  | .report problem => P problem
  | .frame body | .idle body => body.Reports P
  | _ => True

/-! ## Readings -/

/-- Where a problem may stand in a text with the tokens `ts`, of which some shifts have been
divided in `now`. -/
inductive Span.AtWord (ts now : List Token) (span : Span) : Prop
  | word {w : Token} (stands : (w, span) ∈ spans 0 ts) (significant : w.isTrivia = false)
  | half (stands : (closingAngle, span) ∈ spans 0 now)
  | atEnd (stands : span = ⟨widthOf ts, widthOf ts⟩)

theorem Span.AtWord.divides {ts now later : List Token} {span : Span} (h : span.AtWord ts now)
    (hdiv : Divides now later) : span.AtWord ts later := by
  cases h with
  | word stands significant => exact .word stands significant
  | half stands => exact .half (hdiv.mem_spans_of_ne stands (show closingAngle ≠ shift by decide))
  | atEnd stands => exact .atEnd stands

namespace ReadState

/-- The leaves of the trees built in the innermost frame. -/
def behind (s : ReadState) : List Token := Tree.leavesAll s.built.reverse

/-- The reading of `ts` stands in front of a word, with `outer` the leaves of the frames around,
and the problems found so far are those of `P`, each at a word and in order. -/
structure Located (P : Problem → Prop) (ts outer : List Token) (s : ReadState) : Prop where
  divides : Divides ts (outer ++ s.behind ++ s.ahead)
  offset : s.offset = widthOf (outer ++ s.behind)
  aligned : s.gaps.length = s.words.length
  words : ∀ w ∈ s.words, w.isTrivia = false ∧ (w.kind = .rightShift → w = shift)
  found : ∀ d ∈ s.found, P d.problem ∧ d.span.start ≤ s.offset ∧
    d.span.AtWord ts (outer ++ s.behind ++ s.ahead)
  ordered : s.found.Pairwise fun d e => e.span.start ≤ d.span.start

namespace Located

variable {P : Problem → Prop} {ts outer : List Token} {s s' : ReadState}

/-- What a step keeps that notes no problem: it moves tokens that are ahead behind the reading, and
it may divide shifts among them. -/
theorem step (h : s.Located P ts outer) (taken : List Token)
    (behind : s'.behind = s.behind ++ taken) (ahead : Divides s.ahead (taken ++ s'.ahead))
    (offset : s'.offset = s.offset + widthOf taken) (found : s'.found = s.found)
    (aligned : s'.gaps.length = s'.words.length)
    (words : ∀ w ∈ s'.words, w.isTrivia = false ∧ (w.kind = .rightShift → w = shift)) :
    s'.Located P ts outer := by
  have now : Divides (outer ++ s.behind ++ s.ahead) (outer ++ s'.behind ++ s'.ahead) := by
    rw [behind, ← List.append_assoc, List.append_assoc (outer ++ s.behind)]
    exact ahead.append_left _
  refine ⟨h.divides.trans now, ?_, aligned, words, ?_, found ▸ h.ordered⟩
  · rw [offset, h.offset, behind, ← List.append_assoc, Token.widthOf_append _ taken]
  · intro d hd
    obtain ⟨hP, before, place⟩ := h.found d (found ▸ hd)
    exact ⟨hP, by omega, place.divides now⟩

/-- A word ahead has its trivia. -/
theorem exists_gap (h : s.Located P ts outer) {w : Token} {ws : List Token}
    (hw : s.words = w :: ws) : ∃ gap gaps, s.gaps = gap :: gaps ∧ gaps.length = ws.length := by
  have len := h.aligned
  rw [hw, List.length_cons] at len
  obtain ⟨gap, gaps, hg⟩ := List.exists_cons_of_length_eq_add_one len
  rw [hg, List.length_cons] at len
  exact ⟨gap, gaps, hg, Nat.succ.inj len⟩

theorem eq_nil (h : s.Located P ts outer) (hw : s.words = []) : s.gaps = [] :=
  List.eq_nil_of_length_eq_zero (by rw [h.aligned, hw, List.length_nil])

theorem skipTrivia (h : s.Located P ts outer) : s.skipTrivia.Located P ts outer := by
  cases hw : s.words with
  | nil =>
    have none := h.eq_nil hw
    refine h.step [] ?_ ?_ ?_ rfl ?_ h.words
    · simp [behind, ReadState.skipTrivia, gap, none]
    · rw [ReadState.ahead, ReadState.ahead, skipTrivia_words, skipTrivia_gaps_nil none, none]
      exact .refl _
    · simp [ReadState.skipTrivia, gap, none]
    · rw [skipTrivia_gaps_nil none, skipTrivia_words, hw, List.length_nil, List.length_nil]
  | cons w ws =>
    obtain ⟨front, gaps, hg, len⟩ := h.exists_gap hw
    refine h.step front ?_ ?_ ?_ rfl ?_ h.words
    · simp [behind, ReadState.skipTrivia, gap, hg, ← List.map_reverse]
    · rw [ReadState.ahead, ReadState.ahead, skipTrivia_words, skipTrivia_gaps_cons hg, hg, hw,
        weave, weave, List.nil_append]
      exact .refl _
    · simp [ReadState.skipTrivia, gap, hg]
    · rw [skipTrivia_gaps_cons hg, skipTrivia_words, hw, List.length_cons, List.length_cons, len]

theorem take (h : s.Located P ts outer) : s.take.Located P ts outer := by
  cases hw : s.words with
  | nil =>
    have same : s.take = s.skipTrivia := by simp [ReadState.take, skipTrivia_words, hw]
    exact same ▸ h.skipTrivia
  | cons w ws =>
    obtain ⟨front, gaps, hg, len⟩ := h.exists_gap hw
    rw [take_of_cons hw hg]
    refine h.step (front ++ [w]) ?_ ?_ ?_ rfl len ?_
    · simp [behind, ← List.map_reverse]
    · rw [ReadState.ahead, hg, hw, weave]
      simpa [ReadState.ahead] using Divides.refl _
    · simp [Nat.add_assoc]
    · exact fun v hv => h.words v (by rw [hw]; exact List.mem_cons_of_mem _ hv)

theorem splitShift (h : s.Located P ts outer) : s.splitShift.Located P ts outer := by
  unfold ReadState.splitShift
  split
  · rename_i text ws hw
    obtain ⟨front, gaps, hg, len⟩ := h.exists_gap hw
    have hshift := (h.words _ (by rw [hw]; exact List.mem_cons_self)).2 rfl
    refine h.step [] (by simp [behind]) ?_ rfl rfl ?_ ?_
    · rw [ReadState.ahead, hg, hw, weave, hshift]
      have divided : Divides (shift :: weave gaps ws) (closingAngle :: closingAngle :: weave gaps ws) :=
        .divide (.refl _)
      simpa [ReadState.ahead, gap, hg, weave, closingAngle] using divided.append_left front
    · simp [hg, len]
    · have rest := h.words
      rw [hw] at rest
      have half : closingAngle.isTrivia = false ∧
          (closingAngle.kind = .rightShift → closingAngle = shift) :=
        ⟨rfl, fun isShift => absurd isShift (by decide)⟩
      refine List.forall_mem_cons.mpr ⟨half, List.forall_mem_cons.mpr ⟨half, ?_⟩⟩
      exact (List.forall_mem_cons.mp rest).2
  · exact h

theorem takeHalf (h : s.Located P ts outer) : s.takeHalf.Located P ts outer := h.splitShift.take

/-- Where a reading notes a problem: at the next word, or at the end of the text if no word is
left. -/
theorem atWord_report (h : s.Located P ts outer) (empty : s.gap = []) :
    (Span.ofText s.offset (match s.words with
      | [] => ""
      | w :: _ => w.text)).AtWord ts (outer ++ s.behind ++ s.ahead) := by
  cases hw : s.words with
  | nil =>
    have all : widthOf ts = s.offset := by
      have none : s.ahead = [] := by simp [ReadState.ahead, h.eq_nil hw, hw, weave]
      rw [h.offset, ← h.divides.widthOf_eq, none, List.append_nil]
    exact .atEnd (by rw [all]; rfl)
  | cons w ws =>
    obtain ⟨front, gaps, hg, -⟩ := h.exists_gap hw
    have front_nil : front = [] := by simpa [gap, hg] using empty
    have ahead_eq : s.ahead = w :: weave gaps ws := by
      rw [ReadState.ahead, hg, hw, front_nil, weave, List.nil_append]
    have stands := Token.mem_spans_append_cons 0 (outer ++ s.behind) (weave gaps ws) w
    rw [Nat.zero_add, ← h.offset, ← ahead_eq] at stands
    obtain hold | ⟨half, -⟩ := h.divides.mem_spans stands
    · exact .word hold (h.words w (by simp [hw])).1
    · obtain rfl : w = closingAngle := half
      exact .half stands

theorem report (h : s.Located P ts outer) {problem : Problem} (hP : P problem) :
    (s.report problem).Located P ts outer := by
  have moved := h.skipTrivia
  have noGap : s.skipTrivia.gap = [] := by
    cases hg : s.gaps with
    | nil => rw [gap, skipTrivia_gaps_nil hg]; rfl
    | cons front gaps => rw [gap, skipTrivia_gaps_cons hg]; rfl
  refine ⟨moved.divides, moved.offset, moved.aligned, moved.words, ?_, ?_⟩
  · exact List.forall_mem_cons.mpr
      ⟨⟨hP, Nat.le_refl _, moved.atWord_report noGap⟩, moved.found⟩
  · exact List.pairwise_cons.mpr ⟨fun d hd => (moved.found d hd).2.1, moved.ordered⟩

theorem enclose (h : s.Located P ts outer) (kind : Kind) : (s.enclose kind).Located P ts outer :=
  h.step [] (by simp [behind, ReadState.enclose]) (.refl _) rfl rfl h.aligned h.words

/-- A frame sees what was built before as built around it. -/
theorem inner (h : s.Located P ts outer) :
    ({ s with built := [] } : ReadState).Located P ts (outer ++ s.behind) := by
  have none : ({ s with built := [] } : ReadState).behind = [] := Tree.leavesAll_nil
  refine ⟨?_, ?_, h.aligned, h.words, ?_, h.ordered⟩
  · rw [none, List.append_nil]
    exact h.divides
  · rw [none, List.append_nil]
    exact h.offset
  · rw [none, List.append_nil]
    exact h.found

/-- What was built in a frame is built, behind it, after what stood before. -/
theorem merge {inner : ReadState} (h : inner.Located P ts (outer ++ s.behind)) :
    ({ inner with built := inner.built ++ s.built } : ReadState).Located P ts outer := by
  have both : ({ inner with built := inner.built ++ s.built } : ReadState).behind =
      s.behind ++ inner.behind := by simp [behind]
  refine ⟨?_, ?_, h.aligned, h.words, ?_, h.ordered⟩
  · rw [both, ← List.append_assoc]
    exact h.divides
  · rw [both, ← List.append_assoc]
    exact h.offset
  · rw [both, ← List.append_assoc]
    exact h.found

end Located

theorem located_start (P : Problem → Prop) (source : String) :
    (start (lex source)).Located P (lex source) [] := by
  have orderly := orderly_start source
  refine ⟨?_, rfl, orderly.aligned, fun w hw => ?_, List.forall_mem_nil _, .nil⟩
  · rw [ahead_start]
    exact .refl _
  · obtain ⟨front, words, pieces⟩ := orderly.ended
    rw [words] at hw
    rcases List.mem_append.mp hw with hw | hw
    · exact ⟨(pieces w hw).2, (pieces w hw).1.eq_shift⟩
    · obtain rfl := List.mem_singleton.mp hw
      exact ⟨rfl, nofun⟩

end ReadState

namespace Action

open ReadState (Located)

variable {R : Type} {P : Problem → Prop} {ts : List Token}
  {answer : R → ReadState → Bool × ReadState} {body : R → Action R Bool}

/-- **An action keeps the places of problems**, if its calls do and its own problems are of the
kind in question. -/
theorem Reports.located_run
    (calls : ∀ r outer s, s.Located P ts outer → (answer r s).2.Located P ts outer) {α : Type}
    {a : Action R α} (h : a.Reports P) {outer : List Token} {s : ReadState}
    (hs : s.Located P ts outer) : (a.run answer s).2.Located P ts outer := by
  induction a generalizing outer s with
  | pure a => exact hs
  | bind first next ihFirst ihNext => exact ihNext _ (h.2 _) (ihFirst h.1 hs)
  | look => exact hs
  | skipTrivia => exact hs.skipTrivia
  | take => exact hs.take
  | takeHalf => exact hs.takeHalf
  | report problem => exact hs.report h
  | opening out kind => exact hs
  | enclose kind => exact hs.enclose kind
  | frame body ih => exact (ih h hs.inner).merge
  | idle body ih => exact ih h hs.skipTrivia
  | call rule => exact calls rule outer s hs

/-- Productions keep the places of problems, however deep their calls may nest. -/
theorem located_runRule (h : ∀ r, (body r).Reports P) (depth : Nat) (r : R)
    (outer : List Token) (s : ReadState) (hs : s.Located P ts outer) :
    (runRule body depth r s).2.Located P ts outer := by
  induction depth generalizing r outer s with
  | zero => exact hs
  | succ depth ih => exact (h r).located_run ih hs

end Action

end LivePatch
