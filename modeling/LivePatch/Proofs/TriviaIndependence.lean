import LivePatch.Proofs.QueueReading

/-!
# Reading does not depend on trivia

Two texts with the same words have the same tree, trivia apart, and the grammar notes the same
problems in both.  The proof has two halves.  That the queue, with all its trivia, is read as the
words are is the first (`Queue.parse_eq`): there it has to be seen of every scan that it passes over
trivia wherever some may stand, and of the rounds of loops that counting tokens is as good as
counting words.

The second is a simulation.  Two states are `Alike` when they have the same words ahead and differ
elsewhere in tokens of some class `p` only.  No step of a reading of words can tell them apart, and
the depth to which calls may nest is a matter of the words too.  The class is a parameter: with that
of all trivia this is what the main theorem needs, and with that of a few comments it says that these
comments change nothing but themselves.
-/

namespace LivePatch

open Token (endOfText)

variable {p : Token → Bool}

/-! ## Trees without some tokens -/

namespace Tree

mutual

/-- The tree without the tokens below its root for which `p` holds. -/
def without (p : Token → Bool) : Tree → Tree
  | .token w => .token w
  | .node k ts => .node k (withoutAll p ts)

/-- The trees that are no tokens for which `p` holds, each without such tokens. -/
def withoutAll (p : Token → Bool) : List Tree → List Tree
  | [] => []
  | .token w :: ts => if p w then withoutAll p ts else .token w :: withoutAll p ts
  | .node k us :: ts => without p (.node k us) :: withoutAll p ts

end

@[simp] theorem without_token (w : Token) : without p (.token w) = .token w := by
  rw [without]

@[simp] theorem without_node (k : Kind) (ts : List Tree) :
    without p (.node k ts) = .node k (withoutAll p ts) := by
  rw [without]

@[simp] theorem withoutAll_nil : withoutAll p [] = [] := by
  rw [withoutAll]

theorem withoutAll_token (w : Token) (ts : List Tree) :
    withoutAll p (.token w :: ts) =
      if p w then withoutAll p ts else .token w :: withoutAll p ts := by
  rw [withoutAll]

@[simp] theorem withoutAll_node (k : Kind) (us ts : List Tree) :
    withoutAll p (.node k us :: ts) = .node k (withoutAll p us) :: withoutAll p ts := by
  rw [withoutAll, without]

@[simp] theorem withoutAll_append (ts us : List Tree) :
    withoutAll p (ts ++ us) = withoutAll p ts ++ withoutAll p us := by
  induction ts with
  | nil => simp
  | cons t ts ih =>
    cases t with
    | token w =>
      rw [List.cons_append, withoutAll_token, withoutAll_token, ih]
      split <;> rfl
    | node k parts => simp [ih]

theorem withoutAll_reverse (ts : List Tree) :
    withoutAll p ts.reverse = (withoutAll p ts).reverse := by
  induction ts with
  | nil => simp
  | cons t ts ih =>
    rw [List.reverse_cons, withoutAll_append, ih]
    cases t with
    | token w =>
      rw [withoutAll_token, withoutAll_token]
      split <;> simp
    | node k parts => simp

@[simp] theorem withoutAll_tokens (ws : List Token) :
    withoutAll p (ws.map Tree.token) = (ws.filter (!p ·)).map Tree.token := by
  induction ws with
  | nil => simp
  | cons w ws ih =>
    rw [List.map_cons, withoutAll_token, ih]
    by_cases hw : p w = true <;> simp [hw]

/-- Without all trivia. -/
theorem without_isTrivia (t : Tree) : t.without Token.isTrivia = t.dropTrivia := by
  induction t using inductionOn with
  | leaf w => rw [without_token, dropTrivia]
  | part k ts ih =>
    have hall : ∀ us, (∀ u ∈ us, u ∈ ts) → withoutAll Token.isTrivia us = dropTriviaAll us := by
      intro us hus
      induction us with
      | nil => rw [withoutAll_nil, dropTriviaAll]
      | cons u us ihus =>
        have hrest := ihus fun v hv => hus v (List.mem_cons_of_mem _ hv)
        have hu := ih u (hus u List.mem_cons_self)
        cases u with
        | token w => rw [withoutAll_token, dropTriviaAll, hrest]
        | node j vs => rw [withoutAll, dropTriviaAll, hu, hrest]
    rw [without_node, dropTrivia, hall ts fun u hu => hu]

end Tree

/-! ## States that are alike -/

namespace ReadState

/-- The two states have the same words ahead and the same problems behind them, and differ in
tokens for which `p` holds at most. -/
structure Alike (p : Token → Bool) (s t : ReadState) : Prop where
  words : s.words = t.words
  gaps : s.gaps.map (List.filter (!p ·)) = t.gaps.map (List.filter (!p ·))
  built : Tree.withoutAll p s.built = Tree.withoutAll p t.built
  found : s.found.map (·.problem) = t.found.map (·.problem)

namespace Alike

variable {s t : ReadState}

theorem gap (h : s.Alike p t) : s.gap.filter (!p ·) = t.gap.filter (!p ·) := by
  have hgaps := h.gaps
  unfold ReadState.gap
  cases hs : s.gaps <;> cases ht : t.gaps <;> simp_all

theorem skipTrivia (h : s.Alike p t) : s.skipTrivia.Alike p t.skipTrivia := by
  refine ⟨h.words, ?_, ?_, h.found⟩
  · have hgaps := h.gaps
    cases hs : s.gaps with
    | nil =>
      rw [hs, List.map_nil, eq_comm, List.map_eq_nil_iff] at hgaps
      rw [skipTrivia_gaps_nil hs, skipTrivia_gaps_nil hgaps]
    | cons gap gaps =>
      rw [hs, List.map_cons, eq_comm] at hgaps
      obtain ⟨gap', gaps', ht, -, hrest⟩ := List.map_eq_cons_iff.mp hgaps
      rw [skipTrivia_gaps_cons hs, skipTrivia_gaps_cons ht, List.map_cons, List.map_cons, hrest]
  · show Tree.withoutAll p (_ ++ s.built) = Tree.withoutAll p (_ ++ t.built)
    rw [Tree.withoutAll_append, Tree.withoutAll_append, h.built, Tree.withoutAll_tokens,
      Tree.withoutAll_tokens, List.filter_reverse, List.filter_reverse, h.gap]

theorem take (h : s.Alike p t) : s.take.Alike p t.take := by
  have hskip := h.skipTrivia
  have hwords := hskip.words
  unfold ReadState.take
  cases hs : s.skipTrivia.words with
  | nil => simpa [hs, ← hwords] using hskip
  | cons w ws =>
    simp only [hs, ← hwords]
    refine ⟨rfl, ?_, ?_, hskip.found⟩
    · rw [List.map_drop, List.map_drop, hskip.gaps]
    · rw [Tree.withoutAll_token, Tree.withoutAll_token, hskip.built]

theorem splitShift (h : s.Alike p t) : s.splitShift.Alike p t.splitShift := by
  unfold ReadState.splitShift
  rw [← h.words]
  split
  · refine ⟨rfl, ?_, h.built, h.found⟩
    simp only [List.map_cons, List.map_drop, h.gap, h.gaps]
  · exact h

theorem report (h : s.Alike p t) (problem : Problem) :
    (s.report problem).Alike p (t.report problem) := by
  have hskip := h.skipTrivia
  refine ⟨hskip.words, hskip.gaps, hskip.built, ?_⟩
  show List.map _ (_ :: s.skipTrivia.found) = List.map _ (_ :: t.skipTrivia.found)
  rw [List.map_cons, List.map_cons, hskip.found]

theorem enclose (h : s.Alike p t) (k : Kind) : (s.enclose k).Alike p (t.enclose k) := by
  refine ⟨h.words, h.gaps, ?_, h.found⟩
  show Tree.withoutAll p [.node k s.built.reverse] = Tree.withoutAll p [.node k t.built.reverse]
  simp only [Tree.withoutAll_node, Tree.withoutAll_reverse, h.built]

/-- A new frame inside. -/
theorem inner (h : s.Alike p t) :
    Alike p { s with built := [] } { t with built := [] } :=
  ⟨h.words, h.gaps, rfl, h.found⟩

/-- What frames inside have built, behind what was there before. -/
theorem merge (h : s.Alike p t) {s' t' : ReadState} (k : s'.Alike p t') :
    Alike p { s' with built := s'.built ++ s.built } { t' with built := t'.built ++ t.built } :=
  ⟨k.words, k.gaps, by simp [h.built, k.built], k.found⟩

end Alike

theorem separate_filter (hp : ∀ w, p w = true → w.isTrivia = true) (ts : List Token) :
    separate (ts.filter (!p ·)) =
      ((separate ts).1, (separate ts).2.map (List.filter (!p ·))) := by
  induction ts with
  | nil => rfl
  | cons w ts ih =>
    rcases hrest : separate ts with ⟨words, gaps⟩
    rw [hrest] at ih
    by_cases hw : p w = true
    · rw [List.filter_cons_of_neg (by simp [hw]), ih, separate, hrest, hp w hw, if_pos rfl]
      cases gaps <;> simp [hw]
    · rw [List.filter_cons_of_pos (by simpa using hw), separate, separate, ih, hrest]
      split
      · cases gaps <;> simp [hw]
      · simp

/-- Texts whose tokens agree but for a class of trivia start alike. -/
theorem alike_start (hp : ∀ w, p w = true → w.isTrivia = true) {ts us : List Token}
    (h : ts.filter (!p ·) = us.filter (!p ·)) : (start ts).Alike p (start us) := by
  have hseparate : separate (ts.filter (!p ·)) = separate (us.filter (!p ·)) := by rw [h]
  rw [separate_filter hp, separate_filter hp] at hseparate
  obtain ⟨hwords, hgaps⟩ := Prod.mk.inj hseparate
  exact ⟨hwords, hgaps, rfl, rfl⟩

end ReadState

/-! ## Alike readings -/

namespace Action

open ReadState (Alike)

variable {R α : Type}

/-- **One run of an action** cannot tell alike states apart, if what it calls cannot. -/
theorem alike_run {answer : R → ReadState → Bool × ReadState}
    (hanswer : ∀ r s t, s.Alike p t →
      (answer r s).1 = (answer r t).1 ∧ (answer r s).2.Alike p (answer r t).2)
    (a : Action R α) {s t : ReadState} (h : s.Alike p t) :
    (a.run answer s).1 = (a.run answer t).1 ∧ (a.run answer s).2.Alike p (a.run answer t).2 := by
  induction a generalizing s t with
  | pure v => exact ⟨rfl, h⟩
  | bind first next ihf ihn =>
    obtain ⟨hsame, halike⟩ := ihf h
    simp only [run]
    rw [hsame]
    exact ihn _ halike
  | look decide => exact ⟨congrArg decide h.words, h⟩
  | skipTrivia => exact ⟨rfl, h.skipTrivia⟩
  | take => exact ⟨rfl, h.take⟩
  | takeHalf => exact ⟨rfl, h.splitShift.take⟩
  | report problem => exact ⟨rfl, h.report problem⟩
  | opening => exact ⟨rfl, h⟩
  | enclose k => exact ⟨rfl, h.enclose k⟩
  | frame body ih =>
    obtain ⟨hsame, halike⟩ := ih h.inner
    exact ⟨hsame, h.merge halike⟩
  | idle body ih =>
    obtain ⟨-, halike⟩ := ih h.skipTrivia
    exact ⟨by simp only [run, halike.words, h.skipTrivia.words], halike⟩
  | call r => exact hanswer r s t h

/-- Calls cannot tell alike states apart, however deep they may nest. -/
theorem alike_runRule (body : R → Action R Bool) (depth : Nat) (r : R) {s t : ReadState}
    (h : s.Alike p t) :
    (runRule body depth r s).1 = (runRule body depth r t).1 ∧
      (runRule body depth r s).2.Alike p (runRule body depth r t).2 := by
  induction depth generalizing r s t with
  | zero => exact ⟨rfl, h⟩
  | succ depth ih => exact alike_run (fun r _ _ h => ih r h) (body r) h

end Action

/-- The two readings agree but for tokens for which `p` holds: their trees do, and behind the
lexical faults the same problems were found, in the same order. -/
structure Parsed.Agree (p : Token → Bool) (source other : String) (q r : Parsed) : Prop where
  tree : q.tree.without p = r.tree.without p
  problems : ∃ found found', q.diagnostics = lexicalFaults source ++ found ∧
    r.diagnostics = lexicalFaults other ++ found' ∧
    found.map (·.problem) = found'.map (·.problem)

/-- **Texts whose tokens agree but for a class of trivia are read alike.** -/
theorem Grammar.agree_readWhole (hp : ∀ w, p w = true → w.isTrivia = true) {source other : String}
    (h : (lex source).filter (!p ·) = (lex other).filter (!p ·)) (k : Kind) (body : Step Unit) :
    Parsed.Agree p source other (readWhole (node k body) source) (readWhole (node k body) other) := by
  have hstart := ReadState.alike_start hp h
  have hdepth : callDepth (ReadState.start (lex source)).words =
      callDepth (ReadState.start (lex other)).words := by
    rw [hstart.words]
  obtain ⟨-, hlast⟩ := Action.alike_run
    (fun r s t => Action.alike_runRule production
      (callDepth (ReadState.start (lex source)).words) r) body hstart
  rw [readWhole_node, readWhole_node, ← hdepth]
  refine ⟨?_, _, _, rfl, rfl, ?_⟩
  · simp only [Tree.without_node, Tree.withoutAll_reverse, hlast.built]
  · rw [List.map_reverse, List.map_reverse, hlast.found]

theorem agree_parse (hp : ∀ w, p w = true → w.isTrivia = true) {source other : String}
    (h : (lex source).filter (!p ·) = (lex other).filter (!p ·)) :
    Parsed.Agree p source other (parse source) (parse other) :=
  Grammar.agree_readWhole hp h _ _

theorem agree_parseExpression (hp : ∀ w, p w = true → w.isTrivia = true) {source other : String}
    (h : (lex source).filter (!p ·) = (lex other).filter (!p ·)) :
    Parsed.Agree p source other (parseExpression source) (parseExpression other) :=
  Grammar.agree_readWhole hp h _ _

/-! ## All trivia -/

/-- The trees of the two readings are the same but for trivia, and behind the lexical faults so are
their messages. -/
structure Parsed.SameButTrivia (source other : String) (q r : Parsed) : Prop where
  tree : q.tree.dropTrivia = r.tree.dropTrivia
  messages : ∃ found found', q.diagnostics = lexicalFaults source ++ found ∧
    r.diagnostics = lexicalFaults other ++ found' ∧
    found.map Diagnostic.message = found'.map Diagnostic.message

theorem Parsed.Agree.sameButTrivia {source other : String} {q r : Parsed}
    (h : Parsed.Agree Token.isTrivia source other q r) :
    Parsed.SameButTrivia source other q r := by
  obtain ⟨found, found', hq, hr, hsame⟩ := h.problems
  refine ⟨?_, found, found', hq, hr, ?_⟩
  · rw [← Tree.without_isTrivia, ← Tree.without_isTrivia, h.tree]
  · have hmessages := congrArg (List.map Problem.message) hsame
    rw [List.map_map, List.map_map] at hmessages
    exact hmessages

/-- **Reading does not depend on trivia.**  Two texts with the same words, in kind and text, are both
read to the end by their queues.  What is read are trees that are the same but for trivia, and the
grammar says the same about both texts, whether they are read as source files or as expressions. -/
theorem reading_ignores_trivia {source other : String}
    (h : (lex source).filter Token.isSignificant = (lex other).filter Token.isSignificant) :
    (Queue.ComesTo (Queue.parse source) (parse source) ∧
      Queue.ComesTo (Queue.parse other) (parse other) ∧
      Parsed.SameButTrivia source other (parse source) (parse other)) ∧
    Queue.ComesTo (Queue.parseExpression source) (parseExpression source) ∧
      Queue.ComesTo (Queue.parseExpression other) (parseExpression other) ∧
      Parsed.SameButTrivia source other (parseExpression source) (parseExpression other) := by
  have hp : ∀ w : Token, w.isTrivia = true → w.isTrivia = true := fun _ hw => hw
  refine ⟨⟨Queue.parse_eq source, Queue.parse_eq other, ?_⟩, Queue.parseExpression_eq source,
    Queue.parseExpression_eq other, ?_⟩
  · exact (agree_parse hp h).sameButTrivia
  · exact (agree_parseExpression hp h).sameButTrivia

/-- A field without a name, with blanks and with comments. -/
theorem reading_ignores_trivia_fields :
    let source := "class A { int = (B) (c) ; }"
    let other := "class A\x7b// no name\nint=(B)/* cast */(c);\x7d"
    (lex source).filter Token.isSignificant = (lex other).filter Token.isSignificant ∧
      Queue.ComesTo (Queue.parse source) (parse source) ∧
      Queue.ComesTo (Queue.parse other) (parse other) ∧
      Parsed.SameButTrivia source other (parse source) (parse other) := by
  intro source other
  have hwords : (lex source).filter Token.isSignificant =
      (lex other).filter Token.isSignificant := by decide +kernel
  exact ⟨hwords, (reading_ignores_trivia hwords).1⟩

end LivePatch
