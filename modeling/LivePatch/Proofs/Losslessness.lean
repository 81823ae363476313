import LivePatch.Proofs.Grammar.Declarations

/-!
# Reading loses nothing

Whatever the text, reading it answers a tree whose leaves are the tokens of the text, in order and
each once, but for shifts that have become two closing angle brackets; the end of the text stands
in the tree once, as the last part of its root.

The two ways to read a text share their form.  Some action goes on until nothing but the end of
the text is left, the end is taken, and all of it becomes the root.  `Grammar.exists_last` says
what such a reading comes to: besides the tokens, also what is known of the frame, which later
files use to learn about the tree.
-/

namespace LivePatch

open Token (Divides endOfText widthOf)

namespace Frame

/-- The frame before anything is read. -/
def empty : Frame := ⟨.trivia, .quiet, false, false⟩

theorem empty_describes {s : ReadState} (h : s.built = []) : empty.Describes s where
  shape := by
    rw [h]
    rfl
  within t ht := by
    rw [h] at ht
    cases ht
  sound t ht := by
    rw [h] at ht
    cases ht
  solid hsolid := absurd hsolid Bool.false_ne_true
  noted hnoted := absurd hnoted Bool.false_ne_true

end Frame

namespace Grammar

open LivePatch.Action (Safe Leads)
open Words (front Ended)

variable {source what : String} {Q : Frame → Prop}

/-- The calls of a whole reading may nest deep enough. -/
theorem need_lt_callDepth {ws : List Token} {r : Rule} {s : ReadState}
    (h : contract.need r s.words < contract.bound * widthOf ws + callsPerByte) :
    contract.need r s.words < callDepth ws := by
  refine h.trans_le ?_
  show callsPerByte * widthOf ws + callsPerByte ≤ callsPerByte * (widthOf ws + 2)
  rw [Nat.mul_add]
  omega

theorem holds_answer (ws : List Token) (r : Rule) (s : ReadState)
    (h : contract.need r s.words < contract.bound * widthOf ws + callsPerByte) :
    contract.Holds (Action.runRule production (callDepth ws)) r s :=
  Contract.holds_runRule met_production _ r s (need_lt_callDepth h)

/-- A state in which nothing but the end of the text is ahead. -/
theorem take_end {s : ReadState} (ho : s.Orderly) (h : front s.words = .eof) :
    ∃ gap, (∀ t ∈ gap, t.isTrivia = true) ∧ s.ahead = gap ++ [endOfText] ∧
      s.take.built = .token endOfText :: (gap.reverse.map .token ++ s.built) ∧
      s.take.found = s.found := by
  have hwords := ho.ended.front_eq_eof h
  have hlen := ho.aligned
  rw [hwords] at hlen
  obtain ⟨gap, hgap⟩ := List.length_eq_one_iff.mp hlen
  refine ⟨gap, ho.trivia gap (by simp [hgap]), ?_, ?_, ?_⟩
  · simp [ReadState.ahead, hwords, hgap, ReadState.weave]
  · rw [ReadState.take_of_cons hwords hgap]
  · rw [ReadState.take_of_cons hwords hgap]

/-- The root is put around all that its body has built. -/
theorem readWhole_node (k : Kind) (body : Step Unit) (source : String) :
    let start := ReadState.start (lex source)
    let last := (body.run (Action.runRule production (callDepth start.words)) start).2
    readWhole (node k body) source =
      ⟨.node k last.built.reverse, lexicalFaults source ++ last.found.reverse⟩ := rfl

/-- What a whole reading with the root `k` comes to: the state `s` in front of the end of the
text, of which the frame `y` is known, and the trivia in front of the end. -/
structure Last (source : String) (k : Kind) (Q : Frame → Prop) (p : Parsed) (s : ReadState)
    (y : Frame) (gap : List Token) : Prop where
  advances : (ReadState.start (lex source)).Advances s
  describes : y.Describes s
  frame : Q y
  trivia : ∀ t ∈ gap, t.isTrivia = true
  ahead : s.ahead = gap ++ [endOfText]
  tree : p.tree = .node k (s.built.reverse ++ gap.map .token ++ [.token endOfText])
  diagnostics : p.diagnostics = lexicalFaults source ++ s.found.reverse

/-- Where the action `a`, and the trivia behind what it has read, leave the reading of a text. -/
def lastState (a : Step Unit) (source : String) : ReadState :=
  let start := ReadState.start (lex source)
  (a.run (Action.runRule production (callDepth start.words)) start).2.skipTrivia

/-- **A reading that goes on to the end of the text.**  The action `a` is what the body of the
root does before it takes the end. -/
theorem exists_last {k : Kind} {body a : Step Unit}
    (hbody : ∀ answer s, front (a.run answer s).2.words = .eof →
      (body.run answer s).2 = (a.run answer s).2.skipTrivia.take)
    (hsafe : ∀ ws, Ended ws → Safe contract a (fun _ ws' y => front ws' = .eof ∧ Q y) ws .empty)
    (hlead : ∀ ws, Leads contract callsPerByte ws a (fun _ => True)) :
    ∃ y gap, Last source k Q (readWhole (node k body) source) (lastState a source) y gap := by
  have ho := ReadState.orderly_start source
  have hd := Frame.empty_describes (s := .start (lex source)) rfl
  generalize hstart : ReadState.start (lex source) = start at ho hd
  obtain ⟨ha, ⟨y, hy, hend, hQ⟩, -⟩ :=
    Contract.ran_run (holds_answer start.words) a ho hd (hsafe start.words ho.ended)
      (.inr ⟨rfl, hlead start.words⟩)
  have hskip := ReadState.advances_skipTrivia ha.orderly
  obtain ⟨gap, htriv, hahead, hbuilt, hfound⟩ := take_end hskip.orderly hend
  refine ⟨y, gap, ?_⟩
  rw [lastState, hstart]
  refine ⟨hstart ▸ ha.trans hskip, hy.skipTrivia ha.orderly, hQ, htriv, hahead, ?_, ?_⟩
  · rw [readWhole_node, hstart, hbody _ _ hend]
    simp [hbuilt]
  · rw [readWhole_node, hstart, hbody _ _ hend]
    simp [hfound]

theorem run_sees (answer : Rule → ReadState → Bool × ReadState) (k : Kind) (s : ReadState) :
    (sees k).run answer s = (front s.skipTrivia.words == k, s.skipTrivia) := rfl

/-- Taking the end of the text where it is expected. -/
theorem run_expect_eof {answer : Rule → ReadState → Bool × ReadState} {s : ReadState}
    (h : front s.words = .eof) : ((expect .eof what).run answer s).2 = s.skipTrivia.take := by
  simp only [expect, bind, Action.run, run_sees, ReadState.skipTrivia_words, h, BEq.rfl, if_true]

/-- What comes behind a step that may be left out. -/
theorem run_unless (answer : Rule → ReadState → Bool × ReadState) (test : Step Bool)
    (first second : Step Unit) (s : ReadState) :
    (Action.run answer (do unless ← test do first
                           second) s).2 =
      (second.run answer (Action.run answer (do unless ← test do first) s).2).2 := by
  have hboth : ∀ (b : Bool) (t : ReadState),
      (Action.run answer (if b = true then second else do first; second) t).2 =
        (second.run answer (Action.run answer (if b = true then pure () else first) t).2).2 := by
    intro b t
    cases b <;> rfl
  exact hboth _ _

/-- What a whole source file does before the end is taken. -/
def fileBody : Step Unit := do
  read (.namespaceMembers false)
  Action.skipTrivia

/-- What a single expression does before the end is taken. -/
def fragmentBody : Step Unit := do
  expression
  Action.skipTrivia
  unless ← sees .eof do
    node .error do
      Action.report (.unexpected "input after expression")
      read (.skipTo .endOfText)

theorem last_parse (source : String) : ∃ y gap, Last source .compilationUnit (fun _ => True)
    (parse source) (lastState fileBody source) y gap := by
  refine exists_last ?_ ?_ ?_
  · exact fun answer s hend => run_expect_eof hend
  · intro ws _
    simp [fileBody]
  · intro ws
    simp [fileBody, callsPerByte]

theorem exists_last_parse (source : String) :
    ∃ s y gap, Last source .compilationUnit (fun _ => True) (parse source) s y gap :=
  ⟨_, last_parse source⟩

/-- Behind an expression that was read as a whole text, there is one value or a problem. -/
theorem last_parseExpression (source : String) : ∃ y gap, Last source .expressionFragment
    (fun y => (y.shape = .value ∧ y.level = .quiet) ∨ y.noted = true)
    (parseExpression source) (lastState fragmentBody source) y gap := by
  refine exists_last ?_ ?_ ?_
  · exact fun answer s hend => (run_unless ..).trans (run_expect_eof hend)
  · intro ws _
    simp +contextual [fragmentBody, expression, Frame.empty]
  · intro ws
    simp [fragmentBody, callsPerByte, expression]

theorem exists_last_parseExpression (source : String) :
    ∃ s y gap, Last source .expressionFragment
      (fun y => (y.shape = .value ∧ y.level = .quiet) ∨ y.noted = true)
      (parseExpression source) s y gap :=
  ⟨_, last_parseExpression source⟩

end Grammar

/-! ## The tree of a text -/

/-- The tree `t` with a root of kind `k` holds the tokens of `source`, in order and each once, but
that a shift may stand in it as two closing angle brackets, and the end of the text is the last
part of the root. -/
structure Tree.Holds (t : Tree) (k : Kind) (source : String) : Prop where
  leaves : Divides (lex source) t.leaves
  text : t.text = source
  root : ∃ parts, t = .node k (parts ++ [.token endOfText])
  end_once : t.leaves.countP (·.kind == .eof) = 1

/-- Dividing shifts neither adds nor removes an end of text. -/
theorem Token.Divides.countP_eof {ts us : List Token} (h : Divides ts us) :
    us.countP (·.kind == .eof) = ts.countP (·.kind == .eof) := by
  induction h with
  | nil => rfl
  | keep t _ ih => rw [List.countP_cons, List.countP_cons, ih]
  | divide _ ih =>
    simpa [List.countP_cons, Token.shift, Token.closingAngle] using ih

theorem countP_eof_lex (source : String) : (lex source).countP (·.kind == .eof) = 1 := by
  have hnone : ((Lexer.pieces source).map Lexer.Lexeme.token).countP (·.kind == .eof) = 0 := by
    simp only [List.countP_eq_zero, List.mem_map, beq_iff_eq, forall_exists_index, and_imp]
    rintro t l hl rfl
    exact (Lexer.Lexeme.isPiece_token hl).ne_eof
  rw [lex, List.countP_append, hnone]
  rfl

theorem Grammar.Last.holds {source : String} {k : Kind} {Q : Frame → Prop} {p : Parsed}
    {s : ReadState} {y : Frame} {gap : List Token} (h : Last source k Q p s y gap) :
    p.tree.Holds k source := by
  obtain ⟨taken, hbuilt, hdiv⟩ := h.advances.leaves
  have hleaves : p.tree.leaves = taken ++ s.ahead := by
    have htaken : Tree.leavesAll s.built.reverse = taken := by
      simpa [ReadState.start] using hbuilt
    rw [h.tree, h.ahead]
    simp [htaken]
  rw [ReadState.ahead_start, ← hleaves] at hdiv
  refine ⟨hdiv, ?_, ⟨_, h.tree⟩, ?_⟩
  · rw [Tree.text, hdiv.textOf_eq, textOf_lex]
  · rw [hdiv.countP_eof, countP_eof_lex]

/-- **Reading loses nothing.**  Both ways to read a text answer, for every text, a tree that holds
all of it. -/
theorem parse_holds_source (source : String) :
    (parse source).tree.Holds .compilationUnit source ∧
      (parseExpression source).tree.Holds .expressionFragment source := by
  obtain ⟨_, _, _, hparse⟩ := Grammar.exists_last_parse source
  obtain ⟨_, _, _, hexpression⟩ := Grammar.exists_last_parseExpression source
  exact ⟨hparse.holds, hexpression.holds⟩

end LivePatch
