import LivePatch.Syntax.Action
import LivePatch.Syntax.Lookahead
import LivePatch.Proofs.Lexing

/-!
# One step of a reading

A reading stands in an *orderly* state: every word ahead has its trivia in front of it, and the
words end in the end of the text.  This file says what one step makes of such a state.  A step that
takes no end of text *advances* the reading:

* what it adds to the leaves already built, together with what is still ahead, is what was ahead
  before, but for divided shifts;
* the words that are left are reached by taking words and halves of shifts;
* problems are only added.

Advancing is reflexive and transitive and holds through frames, so that the same is true of whole
productions as soon as they never take the end of the text.
-/

namespace LivePatch

open Token (Divides endOfText shift closingAngle textOf widthOf)

/-! ## Words ahead -/

/-- There are other kinds than any one. -/
theorem Kind.exists_beq_eq_false (k : Kind) : ∃ j : Kind, (j == k) = false := by
  by_cases hk : k = .eof
  · exact ⟨.dot, by rw [hk]; rfl⟩
  · exact ⟨.eof, by simpa using Ne.symm hk⟩

namespace Words

/-- Words up to the end of the text: pieces that the grammar sees, and then the last token. -/
def Ended (ws : List Token) : Prop :=
  ∃ front, ws = front ++ [endOfText] ∧ ∀ w ∈ front, w.IsPiece ∧ w.isTrivia = false

theorem Ended.cons {w : Token} {ws : List Token} (hw : w.IsPiece) (ht : w.isTrivia = false)
    (h : Ended ws) : Ended (w :: ws) := by
  obtain ⟨front, rfl, hf⟩ := h
  refine ⟨w :: front, rfl, fun v hv => ?_⟩
  rcases List.mem_cons.mp hv with rfl | hv
  · exact ⟨hw, ht⟩
  · exact hf v hv

/-- Words up to the end are the end alone, or begin with a piece. -/
theorem Ended.cases {ws : List Token} (h : Ended ws) :
    ws = [endOfText] ∨ ∃ w rest, ws = w :: rest ∧ w.IsPiece ∧ w.isTrivia = false ∧ Ended rest := by
  obtain ⟨front, rfl, hf⟩ := h
  cases front with
  | nil => exact .inl rfl
  | cons w front =>
    have hw := hf w List.mem_cons_self
    exact .inr ⟨w, front ++ [endOfText], rfl, hw.1, hw.2, front, rfl,
      fun v hv => hf v (List.mem_cons_of_mem _ hv)⟩

theorem Ended.front_eq_eof {ws : List Token} (h : Ended ws) (he : front ws = .eof) :
    ws = [endOfText] := by
  rcases h.cases with rfl | ⟨w, rest, rfl, hw, -, -⟩
  · rfl
  · exact absurd he hw.ne_eof

/-- Where the front is not the end, a piece stands there. -/
theorem Ended.uncons {ws : List Token} (h : Ended ws) (he : front ws ≠ .eof) :
    ∃ w rest, ws = w :: rest ∧ w.IsPiece ∧ w.isTrivia = false ∧ Ended rest := by
  rcases h.cases with rfl | hw
  · exact absurd rfl he
  · exact hw

/-- `Reaches ws vs` means that taking words of `ws`, and halves of shifts, leaves `vs`; the end of
the text is never taken. -/
inductive Reaches : List Token → List Token → Prop
  | refl (ws : List Token) : Reaches ws ws
  | take {w : Token} {ws vs : List Token} : w.kind ≠ .eof → Reaches ws vs → Reaches (w :: ws) vs
  | half {ws vs : List Token} : Reaches (closingAngle :: ws) vs → Reaches (shift :: ws) vs

namespace Reaches

theorem trans {us ws vs : List Token} (h : Reaches us ws) (k : Reaches ws vs) : Reaches us vs := by
  induction h with
  | refl => exact k
  | take hw _ ih => exact .take hw (ih k)
  | half _ ih => exact .half (ih k)

theorem ended {ws vs : List Token} (h : Reaches ws vs) (he : Ended ws) : Ended vs := by
  induction h with
  | refl => exact he
  | take hw _ ih =>
    obtain ⟨_, _, hc, -, -, hr⟩ := he.uncons hw
    cases hc
    exact ih hr
  | half _ ih =>
    obtain ⟨_, _, hc, -, -, hr⟩ := he.uncons Kind.noConfusion
    cases hc
    exact ih (hr.cons Token.isPiece_closingAngle rfl)

/-- Whatever is taken makes the rest shorter. -/
theorem eq_or_widthOf_lt {ws vs : List Token} (h : Reaches ws vs) (he : Ended ws) :
    vs = ws ∨ widthOf vs < widthOf ws := by
  induction h with
  | refl => exact .inl rfl
  | take hw h ih =>
    obtain ⟨_, _, hc, hp, -, hr⟩ := he.uncons hw
    cases hc
    have hpos := hp.width_pos
    rw [Token.widthOf_cons]
    rcases ih hr with rfl | hlt
    · exact .inr (by omega)
    · exact .inr (by omega)
  | half h ih =>
    obtain ⟨_, _, hc, -, -, hr⟩ := he.uncons Kind.noConfusion
    cases hc
    have hhalf : closingAngle.width < shift.width := by decide
    have hle := ih (hr.cons Token.isPiece_closingAngle rfl)
    rw [Token.widthOf_cons] at hle ⊢
    rcases hle with rfl | hlt
    · exact .inr (by rw [Token.widthOf_cons]; omega)
    · exact .inr (by omega)

end Reaches

end Words

/-! ## Tokens ahead -/

namespace ReadState

open Words (Ended Reaches)

/-- The words with the trivia in front of each. -/
def weave : List (List Token) → List Token → List Token
  | gap :: gaps, w :: ws => gap ++ w :: weave gaps ws
  | _, ws => ws

/-- All tokens ahead, in order. -/
def ahead (s : ReadState) : List Token := weave s.gaps s.words

theorem length_separate (ts : List Token) :
    (separate ts).2.length = (separate ts).1.length := by
  induction ts with
  | nil => rfl
  | cons t ts ih =>
    simp only [separate]
    split
    · split <;> simp_all
    · simp [ih]

theorem separate_words (ts : List Token) : (separate ts).1 = ts.filter Token.isSignificant := by
  induction ts with
  | nil => rfl
  | cons t ts ih =>
    simp only [separate]
    split
    · rename_i ht
      split <;> simp [Token.isSignificant, ht, ih]
    · rename_i ht
      simp [Token.isSignificant, ht, ih]

theorem separate_gaps_trivia (ts : List Token) :
    ∀ gap ∈ (separate ts).2, ∀ t ∈ gap, t.isTrivia = true := by
  induction ts with
  | nil => simp [separate]
  | cons t ts ih =>
    simp only [separate]
    split
    · rename_i ht
      split
      · exact ih
      · rename_i gap gaps hg
        rw [hg] at ih
        have hrest := List.forall_mem_cons.mp ih
        simpa [ht] using hrest
    · simpa using ih

/-- Nothing is left out when the last token is no trivia. -/
theorem weave_separate (ts : List Token) {last : Token} (h : last.isTrivia = false) :
    weave (separate (ts ++ [last])).2 (separate (ts ++ [last])).1 = ts ++ [last] := by
  induction ts with
  | nil => simp [separate, weave, h]
  | cons t ts ih =>
    have hlen := length_separate (ts ++ [last])
    have hmem : (separate (ts ++ [last])).1 ≠ [] := by
      simp [separate_words, Token.isSignificant, h]
    simp only [List.cons_append, separate]
    split
    · split
      · rename_i hg
        rw [hg] at hlen
        exact absurd (List.length_eq_zero_iff.mp hlen.symm) hmem
      · rename_i gap gaps hg
        cases hw : (separate (ts ++ [last])).1 with
        | nil => exact absurd hw hmem
        | cons w ws =>
          rw [hg, hw, weave] at ih
          rw [weave, ← ih, List.cons_append]
    · rw [weave, ih, List.nil_append]

/-- The state is orderly: each word ahead has its trivia, and the words end in the end. -/
structure Orderly (s : ReadState) : Prop where
  aligned : s.gaps.length = s.words.length
  trivia : ∀ gap ∈ s.gaps, ∀ t ∈ gap, t.isTrivia = true
  ended : Ended s.words

theorem orderly_start (source : String) : (start (lex source)).Orderly where
  aligned := length_separate _
  trivia := separate_gaps_trivia _
  ended := by
    have hwords : (start (lex source)).words = (lex source).filter Token.isSignificant :=
      separate_words _
    rw [hwords, lex, List.filter_append]
    refine ⟨_, rfl, fun w hw => ?_⟩
    obtain ⟨hw, hs⟩ := List.mem_filter.mp hw
    obtain ⟨l, hl, rfl⟩ := List.mem_map.mp hw
    exact ⟨Lexer.Lexeme.isPiece_token hl, by simpa [Token.isSignificant] using hs⟩

theorem ahead_start (source : String) : (start (lex source)).ahead = lex source :=
  weave_separate _ rfl

theorem filter_weave {gaps : List (List Token)} {ws : List Token}
    (hlen : gaps.length = ws.length) (hg : ∀ gap ∈ gaps, ∀ t ∈ gap, t.isTrivia = true)
    (hw : ∀ w ∈ ws, w.isTrivia = false) : (weave gaps ws).filter Token.isSignificant = ws := by
  induction gaps generalizing ws with
  | nil => rw [List.length_eq_zero_iff.mp hlen.symm]; rfl
  | cons gap gaps ih =>
    obtain ⟨w, ws, rfl⟩ := List.exists_cons_of_length_eq_add_one hlen.symm
    obtain ⟨hgap, hgaps⟩ := List.forall_mem_cons.mp hg
    obtain ⟨hword, hwords⟩ := List.forall_mem_cons.mp hw
    have hnone : gap.filter Token.isSignificant = [] := by
      simpa [List.filter_eq_nil_iff] using hgap
    have hrest := ih (Nat.succ.inj hlen) hgaps hwords
    rw [weave, List.filter_append, hnone, List.nil_append,
      List.filter_cons_of_pos (by simp [Token.isSignificant, hword]), hrest]

/-- The words are what the grammar sees of the tokens ahead. -/
theorem Orderly.filter_ahead {s : ReadState} (h : s.Orderly) :
    s.ahead.filter Token.isSignificant = s.words := by
  refine filter_weave h.aligned h.trivia fun w hw => ?_
  obtain ⟨front, hf, hp⟩ := h.ended
  rw [hf] at hw
  rcases List.mem_append.mp hw with hw | hw
  · exact (hp w hw).2
  · rw [List.mem_singleton.mp hw]; rfl

/-- An orderly state in front of a word: its trivia, the word, and the rest. -/
theorem Orderly.uncons {s : ReadState} (h : s.Orderly) (he : Words.front s.words ≠ .eof) :
    ∃ w ws gap gaps, s.words = w :: ws ∧ s.gaps = gap :: gaps ∧ w.IsPiece ∧
      w.isTrivia = false ∧ Ended ws ∧ gaps.length = ws.length ∧
      (∀ t ∈ gap, t.isTrivia = true) ∧ ∀ g ∈ gaps, ∀ t ∈ g, t.isTrivia = true := by
  obtain ⟨w, ws, hw, hp, ht, hend⟩ := h.ended.uncons he
  have hlen := h.aligned
  rw [hw, List.length_cons] at hlen
  obtain ⟨gap, gaps, hg⟩ := List.exists_cons_of_length_eq_add_one hlen
  rw [hg, List.length_cons] at hlen
  have htriv := h.trivia
  rw [hg] at htriv
  exact ⟨w, ws, gap, gaps, hw, hg, hp, ht, hend, by omega, htriv gap List.mem_cons_self,
    fun g hm => htriv g (List.mem_cons_of_mem _ hm)⟩

/-! ## Advancing -/

/-- What a step that takes no end of text makes of the state. -/
structure Advances (s s' : ReadState) : Prop where
  leaves : ∃ taken, Tree.leavesAll s'.built.reverse = Tree.leavesAll s.built.reverse ++ taken ∧
    Divides s.ahead (taken ++ s'.ahead)
  words : Reaches s.words s'.words
  found : s.found <:+ s'.found
  orderly : s'.Orderly

namespace Advances

theorem refl {s : ReadState} (h : s.Orderly) : Advances s s :=
  ⟨⟨[], by simp, .refl _⟩, .refl _, List.suffix_refl _, h⟩

theorem trans {s s' s'' : ReadState} (h : Advances s s') (k : Advances s' s'') :
    Advances s s'' := by
  obtain ⟨taken, hl, hd⟩ := h.leaves
  obtain ⟨more, hl', hd'⟩ := k.leaves
  refine ⟨⟨taken ++ more, ?_, ?_⟩, h.words.trans k.words, h.found.trans k.found, k.orderly⟩
  · rw [hl', hl, List.append_assoc]
  · rw [List.append_assoc]
    exact hd.trans (hd'.append_left taken)

/-- What advances in a frame of its own advances around it. -/
theorem frame {s inner : ReadState} (h : Advances { s with built := [] } inner) :
    Advances s { inner with built := inner.built ++ s.built } := by
  obtain ⟨taken, hl, hd⟩ := h.leaves
  refine ⟨⟨taken, ?_, hd⟩, h.words, h.found, ⟨h.orderly.aligned, h.orderly.trivia, h.orderly.ended⟩⟩
  have hin : Tree.leavesAll inner.built.reverse = taken := by simpa using hl
  simp [hin]

end Advances

theorem skipTrivia_words (s : ReadState) : s.skipTrivia.words = s.words := rfl

theorem skipTrivia_gaps_nil {s : ReadState} (h : s.gaps = []) : s.skipTrivia.gaps = [] := by
  simp only [skipTrivia, h]

theorem skipTrivia_gaps_cons {s : ReadState} {gap : List Token} {gaps : List (List Token)}
    (h : s.gaps = gap :: gaps) : s.skipTrivia.gaps = [] :: gaps := by
  simp only [skipTrivia, h]

theorem advances_skipTrivia {s : ReadState} (h : s.Orderly) : Advances s s.skipTrivia := by
  obtain ⟨haligned, htrivia, hended⟩ := h
  refine ⟨⟨s.gap, ?_, ?_⟩, .refl _, List.suffix_refl _, ?_, ?_, hended⟩
  · simp [skipTrivia, ← List.map_reverse]
  · unfold ahead
    rw [skipTrivia_words, gap]
    cases hg : s.gaps with
    | nil => simpa [skipTrivia_gaps_nil hg, weave] using Divides.refl _
    | cons gap gaps =>
      obtain ⟨w, ws, hw⟩ :=
        List.exists_cons_of_length_eq_add_one (haligned.symm.trans (by rw [hg]; rfl))
      simpa [skipTrivia_gaps_cons hg, hw, weave] using Divides.refl _
  · rw [skipTrivia_words, ← haligned]
    cases hg : s.gaps with
    | nil => rw [skipTrivia_gaps_nil hg]
    | cons gap gaps => rw [skipTrivia_gaps_cons hg, List.length_cons, List.length_cons]
  · cases hg : s.gaps with
    | nil => simp [skipTrivia_gaps_nil hg]
    | cons gap gaps =>
      rw [hg] at htrivia
      simpa [skipTrivia_gaps_cons hg] using (List.forall_mem_cons.mp htrivia).2

/-- Taking a word, written out: the trivia in front of it and then the word. -/
theorem take_of_cons {s : ReadState} {w : Token} {ws gap : List Token} {gaps : List (List Token)}
    (hw : s.words = w :: ws) (hg : s.gaps = gap :: gaps) :
    s.take = { s with
      words := ws
      gaps := gaps
      offset := s.offset + widthOf gap + w.width
      built := .token w :: (gap.reverse.map Tree.token ++ s.built) } := by
  simp [take, skipTrivia, hw, hg, ReadState.gap]

theorem advances_take {s : ReadState} (h : s.Orderly) (he : Words.front s.words ≠ .eof) :
    Advances s s.take := by
  obtain ⟨w, ws, gap, gaps, hw, hg, -, -, hend, hlen, -, htriv⟩ := h.uncons he
  rw [take_of_cons hw hg]
  refine ⟨⟨gap ++ [w], ?_, ?_⟩, ?_, List.suffix_refl _, hlen, htriv, hend⟩
  · simp [← List.map_reverse]
  · rw [ahead, hw, hg, weave]
    simpa [ahead] using Divides.refl _
  · rw [hw] at he ⊢
    exact .take he (.refl _)

/-- Taking half of a shift, written out: the other half stays ahead. -/
theorem takeHalf_of_cons {s : ReadState} {ws gap : List Token} {gaps : List (List Token)}
    (hw : s.words = shift :: ws) (hg : s.gaps = gap :: gaps) :
    s.takeHalf = { s with
      words := closingAngle :: ws
      gaps := [] :: gaps
      offset := s.offset + widthOf gap + closingAngle.width
      built := .token closingAngle :: (gap.reverse.map Tree.token ++ s.built) } := by
  have hsplit : s.splitShift = { s with
      words := closingAngle :: closingAngle :: ws
      gaps := gap :: [] :: gaps } := by
    simp [splitShift, hw, hg, shift, closingAngle, ReadState.gap]
  rw [takeHalf, hsplit]
  exact take_of_cons rfl rfl

theorem Orderly.eq_shift {s : ReadState} (h : s.Orderly)
    (he : Words.front s.words = .rightShift) : ∃ ws, s.words = shift :: ws := by
  obtain ⟨w, ws, -, -, hw, -, hp, -⟩ := h.uncons (by rw [he]; decide)
  rw [hw] at he
  exact ⟨ws, by rw [hw, hp.eq_shift he]⟩

theorem advances_takeHalf {s : ReadState} (h : s.Orderly)
    (he : Words.front s.words = .rightShift) : Advances s s.takeHalf := by
  obtain ⟨w, ws, gap, gaps, hw, hg, hp, -, hend, hlen, -, htriv⟩ := h.uncons (by rw [he]; decide)
  obtain ⟨ws', hw'⟩ := h.eq_shift he
  cases hw.symm.trans hw'
  rw [takeHalf_of_cons hw hg]
  refine ⟨⟨gap ++ [closingAngle], ?_, ?_⟩, ?_, List.suffix_refl _, by simp [hlen], ?_,
    hend.cons Token.isPiece_closingAngle rfl⟩
  · simp [← List.map_reverse]
  · rw [ahead, hw, hg, weave]
    simpa [ahead, weave] using (Divides.divide (Divides.refl _)).append_left gap
  · rw [hw]
    exact .half (.refl _)
  · simpa using htriv

theorem advances_report {s : ReadState} (h : s.Orderly) (problem : Problem) :
    Advances s (s.report problem) := by
  obtain ⟨hl, hw, -, ho⟩ := advances_skipTrivia h
  exact ⟨hl, hw, List.suffix_cons _ _, ho.aligned, ho.trivia, ho.ended⟩

theorem advances_enclose {s : ReadState} (h : s.Orderly) (kind : Kind) :
    Advances s (s.enclose kind) :=
  ⟨⟨[], by simp [enclose], .refl _⟩, .refl _, List.suffix_refl _, h.aligned, h.trivia, h.ended⟩

end ReadState

end LivePatch
