import LivePatch.Proofs.Losslessness
import LivePatch.Proofs.Grammar.Balance

/-!
# Reading always finishes

Whatever the text, both ways to read it come to an end: no call is left undone, and nothing that
the reading hands to a builder of trees is refused.

That there is an answer says little by itself, since a bound on the depth of calls makes every
reading total.  So the reading is followed without a bound (`Action.Does`), and through all calls
that are made on the way (`Visits`).  Each loop of the grammar is a production that calls itself,
maybe through others, and `Finishes.loops` says that it has used up bytes of the text whenever it
does so.  The loops that look ahead read no part of the text; they are functions of the words
ahead, and leave fewer of them (`ScansShorten`).
-/

namespace LivePatch.Grammar

open LivePatch.Action (Balanced Does Asks buildRule completeRule)
open Contract (Calls)
open Token (endOfText widthOf)
open Words

variable {R α : Type} {what : String}

/-! ## Following a whole reading -/

/-- The calls that are made when `step` reads `source`, by the step itself or by productions that
were called. -/
inductive Visits (step : Step Unit) (source : String) : Rule × ReadState → Prop
  | first {r : Rule} {s : ReadState} (h : step.Asks production (.start (lex source)) r s) :
    Visits step source (r, s)
  | next {c d : Rule × ReadState} (hc : Visits step source c) (h : Calls production c d) :
    Visits step source d

/-- Reading `source` with `step` finishes, and `p` is what it comes to. -/
structure Finishes (step : Step Unit) (source : String) (p : Parsed) : Prop where
  /-- However deep calls may nest, the reading ends: no word is left then, and one tree is built. -/
  reads : ∃ last, step.Does production (.start (lex source)) () last ∧ last.words = [] ∧
    last.built = [p.tree] ∧ p.diagnostics = lexicalFaults source ++ last.found.reverse
  /-- A builder accepts all checkpoints, each production returns with as many nodes open as before,
  and in the end no node is open and one root is there. -/
  builds : ∃ depth b,
    step.build (buildRule production depth) [0] ⟨.start (lex source), []⟩ = some ((), b) ∧
      b.finish = some p.tree
  /-- A production that is called comes back to itself only behind bytes that it has taken; so
  does it to any other of no smaller rank. -/
  loops : ∀ c d, Visits step source c → Relation.TransGen (Calls production) c d →
    c.1.rank c.2.words ≤ d.1.rank c.2.words → widthOf d.2.ahead < widthOf c.2.ahead

/-- The action `body` does what `a` does, and then expects the end of the text. -/
structure EndsAfter (body a : Step Unit) (what : String) : Prop where
  run : ∀ answer s, (body.run answer s).2 = ((expect .eof what).run answer (a.run answer s).2).2
  complete : ∀ partly s, body.complete partly s =
    (a.complete partly s).bind fun p => (expect .eof what).complete partly p.2
  asks : ∀ s r t, body.Asks production s r t → a.Asks production s r t

theorem complete_expect (partly : Rule → ReadState → Option (Bool × ReadState))
    (answer : Rule → ReadState → Bool × ReadState) (k : Kind) (s : ReadState) :
    (expect k what).complete partly s = some ((expect k what).run answer s) := by
  have hboth : ∀ (b : Bool) (t : ReadState),
      (if b = true then Action.take else missing what : Step Unit).complete partly t =
        some ((if b = true then Action.take else missing what : Step Unit).run answer t) := by
    intro b t
    cases b <;> rfl
  exact hboth _ _

theorem not_asks_sees {k : Kind} {s t : ReadState} {r : Rule} :
    ¬ (sees k).Asks production s r t := by
  rintro ((h | ⟨_, _, -, h | ⟨_, _, -, h⟩⟩) | ⟨_, _, -, h⟩) <;> exact h

theorem not_asks_expect {k : Kind} {s t : ReadState} {r : Rule} :
    ¬ (expect k what).Asks production s r t := by
  rintro (h | ⟨b, _, -, h⟩)
  · exact not_asks_sees h
  · revert h
    cases b <;> exact id

/-- Every production that is called is ready for it. -/
theorem Visits.ready {step : Step Unit} {source : String}
    (hfirst : ∀ r s, step.Asks production (.start (lex source)) r s → contract.Ready r s)
    {c : Rule × ReadState} (h : Visits step source c) : contract.Ready c.1 c.2 := by
  induction h with
  | first h => exact hfirst _ _ h
  | next _ h ih => exact (Contract.progress_of_calls met_production ih h).1

section

variable {k : Kind} {body a : Step Unit}
  {partly : Rule → ReadState → Option (Bool × ReadState)}
  {answer : Rule → ReadState → Bool × ReadState} {s t : ReadState} {r : Rule}

theorem EndsAfter.complete_body (h : EndsAfter body a what)
    (ha : a.complete partly s = some (a.run answer s)) :
    body.complete partly s = some ((), (body.run answer s).2) := by
  rw [h.complete, ha, Option.bind_some, complete_expect partly answer, h.run]

theorem asks_node (h : (node k body).Asks production s r t) :
    body.Asks production { s with built := [] } r t := by
  rcases h with h | ⟨_, _, ⟨_, hdoes⟩, h | ⟨_, _, -, h⟩⟩
  · cases h
  · obtain ⟨rfl, rfl⟩ := Prod.mk.inj (Option.some.inj hdoes)
    exact h
  · cases h

end

section

variable {k : Kind} {body a : Step Unit}

/-- A reading that goes on to the end of the text is complete when calls may nest as deep as they
do there: no call is left undone.  The action `a` is what the body of the root does before it takes
the end, as in `exists_last`; it leaves nothing but the end. -/
theorem complete_readWhole (hends : EndsAfter body a what)
    (hsafe : ∀ ws, Ended ws → a.Safe contract (fun _ ws' _ => front ws' = .eof) ws .empty)
    (hlead : ∀ ws, a.Leads contract callsPerByte ws (fun _ => True)) (source : String) :
    let start := ReadState.start (lex source)
    let partly := completeRule production (callDepth start.words)
    ∃ s, a.complete partly start = some ((), s) ∧ s.words = [endOfText] ∧
      (node k body).complete partly start = some ((), s.skipTrivia.take.enclose k) ∧
      readWhole (node k body) source =
        ⟨.node k s.skipTrivia.take.built.reverse, lexicalFaults source ++ s.found.reverse⟩ := by
  intro start partly
  have ho := ReadState.orderly_start source
  have hd := Frame.empty_describes (s := .start (lex source)) rfl
  have hunder : Contract.Under start.words
      (a.Leads contract callsPerByte start.words (fun _ => True)) start := .inr ⟨rfl, hlead _⟩
  have hanswer := holds_answer start.words
  obtain ⟨ha, ⟨-, -, hend⟩, -⟩ := Contract.ran_run hanswer a ho hd (hsafe _ ho.ended) hunder
  have hfirst := Contract.complete_run hanswer
    (fun r s h => Contract.completes_runRule met_production _ r s (need_lt_callDepth h)) a ho hd
    (hsafe _ ho.ended) hunder
  have hlast : (body.run (Action.runRule production (callDepth start.words)) start).2 =
      (a.run (Action.runRule production (callDepth start.words)) start).2.skipTrivia.take := by
    rw [hends.run, run_expect_eof hend]
  have hbody := hends.complete_body hfirst
  rw [hlast] at hbody
  refine ⟨_, hfirst, ha.orderly.ended.front_eq_eof hend, ?_, ?_⟩
  · show ((body.complete partly start).bind _).map _ = _
    rw [hbody]
    rfl
  · rw [readWhole_node, hlast, ReadState.found_take]
    rfl

/-- **A reading that goes on to the end of the text finishes.** -/
theorem finishes_node (hends : EndsAfter body a what)
    (hsafe : ∀ ws, Ended ws → a.Safe contract (fun _ ws' _ => front ws' = .eof) ws .empty)
    (hlead : ∀ ws, a.Leads contract callsPerByte ws (fun _ => True))
    (hbalanced : (node k body).Balanced 1 (fun _ opened => opened = []) []) (source : String) :
    Finishes (node k body) source (readWhole (node k body) source) := by
  obtain ⟨s, -, hwords, hcomplete, hread⟩ := complete_readWhole (k := k) hends hsafe hlead source
  rw [hread]
  refine ⟨⟨_, ⟨_, hcomplete⟩, ?_, rfl, by rw [ReadState.enclose, s.skipTrivia.found_take]; rfl⟩, ?_,
    fun c d hc h hrank => ?_⟩
  · rw [ReadState.enclose, ReadState.take_words, ReadState.skipTrivia_words, hwords]
    rfl
  · have hframed : Building.Framed 1 [0] [] [] :=
      ⟨Nat.one_pos, Nat.le_refl 1, rfl, fun i j hij hj => by simp [show j = 0 by omega], by simp⟩
    have htracks : Building.Tracks 1 [0] [] [] [] (.start (lex source))
        ⟨.start (lex source), []⟩ := ⟨rfl, rfl, List.forall_mem_nil _⟩
    obtain ⟨⟨reading, openNodes⟩, _, hbuild, ⟨rfl, rfl, -⟩, rfl⟩ := Action.build_of_complete
      (Action.builds_buildRule balanced_production _) (node k body) hframed htracks hbalanced
      hcomplete
    exact ⟨_, _, hbuild, rfl⟩
  · have ho := ReadState.orderly_start source
    have hd := Frame.empty_describes (s := .start (lex source)) rfl
    have hunder : Contract.Under (ReadState.start (lex source)).words
        (a.Leads contract callsPerByte (ReadState.start (lex source)).words (fun _ => True))
        (.start (lex source)) := .inr ⟨rfl, hlead _⟩
    refine Contract.widthOf_lt_of_transGen met_production (hc.ready fun r s hasks => ?_) h hrank
    exact (Contract.ready_of_asks met_production a (hends.asks _ _ _ (asks_node hasks)) ho hd
      (hsafe _ ho.ended) hunder).1

end

theorem endsAfter_compilationUnit : EndsAfter
    (do read (.namespaceMembers false); Action.skipTrivia; expect .eof what)
    (do read (.namespaceMembers false); Action.skipTrivia) what where
  run _ _ := rfl
  complete partly s := by
    show Option.bind _ _ = Option.bind (Option.bind _ _) _
    rw [Option.bind_assoc]
    rfl
  asks s r t h := by
    rcases h with h | ⟨v, u, hdoes, h | ⟨_, _, -, h⟩⟩
    · exact .inl h
    · exact .inr ⟨v, u, hdoes, h⟩
    · exact (not_asks_expect h).elim

theorem complete_unless (partly : Rule → ReadState → Option (Bool × ReadState)) (test : Step Bool)
    (first second : Step Unit) (s : ReadState) :
    (Action.complete partly (do unless ← test do first
                                second) s) =
      (Action.complete partly (do unless ← test do first) s).bind fun p =>
        second.complete partly p.2 := by
  show Option.bind _ _ = Option.bind (Option.bind _ _) _
  rw [Option.bind_assoc]
  refine congrArg (Option.bind _) (funext fun ⟨b, t⟩ => ?_)
  cases b <;> rfl

theorem asks_unless {test : Step Bool} {first : Step Unit} {s t : ReadState} {r : Rule}
    (h : Action.Asks production (do unless ← test do first
                                    expect .eof what) s r t) :
    Action.Asks production (do unless ← test do first) s r t := by
  rcases h with h | ⟨b, u, hdoes, h⟩
  · exact .inl h
  · refine .inr ⟨b, u, hdoes, ?_⟩
    cases b with
    | true => exact (not_asks_expect h).elim
    | false =>
      rcases h with h | ⟨_, _, -, h⟩
      · exact h
      · exact (not_asks_expect h).elim

theorem endsAfter_expressionFragment {value first : Step Unit} {test : Step Bool} : EndsAfter
    (do value; Action.skipTrivia; unless ← test do first
        expect .eof what)
    (do value; Action.skipTrivia; unless ← test do first) what where
  run _ _ := run_unless ..
  complete partly s := by
    show Option.bind _ _ = Option.bind (Option.bind _ _) _
    rw [Option.bind_assoc]
    refine congrArg (Option.bind _) (funext fun p => ?_)
    exact complete_unless partly test first _ _
  asks s r t h := by
    rcases h with h | ⟨v, u, hdoes, h | ⟨v', u', hdoes', h⟩⟩
    · exact .inl h
    · exact .inr ⟨v, u, hdoes, .inl h⟩
    · exact .inr ⟨v, u, hdoes, .inr ⟨v', u', hdoes', asks_unless h⟩⟩

/-! ## Looking ahead -/

/-- The scans that look ahead leave fewer of the words `ws`: all of them no more, and those that
answer only if they have found something leave less. -/
structure ScansShorten (ws : List Token) : Prop where
  typeArguments : ∀ rest, scanTypeArguments ws = some rest → rest.length < ws.length
  type : ∀ rest, afterType ws = some rest → rest.length < ws.length
  designation : ∀ depth rest, skipDesignation depth ws = some rest → rest.length < ws.length
  parens : ∀ depth, (skipParens depth ws).length ≤ ws.length
  localModifiers : (skipLocalModifiers ws).length ≤ ws.length

theorem length_skipParens (depth : Nat) (ws : List Token) :
    (skipParens depth ws).length ≤ ws.length := by
  induction ws generalizing depth with
  | nil => exact Nat.le_refl _
  | cons w ws ih =>
    unfold skipParens
    split
    · exact (ih _).trans (Nat.le_succ _)
    · split
      · exact Nat.le_succ _
      · exact (ih _).trans (Nat.le_succ _)
    · exact Nat.le_refl _
    · exact (ih _).trans (Nat.le_succ _)

theorem length_skipLocalModifiers (ws : List Token) :
    (skipLocalModifiers ws).length ≤ ws.length := by
  induction ws with
  | nil => exact Nat.le_refl _
  | cons w ws ih =>
    unfold skipLocalModifiers
    split
    · exact ih.trans (Nat.le_succ _)
    · exact Nat.le_refl _

/-- The two scans of a designation call each other; both are followed in one induction. -/
theorem length_skipDesignation (ws : List Token) : ∀ depth rest,
    (skipDesignation depth ws = some rest → rest.length < ws.length) ∧
      (skipDesignation.afterDesignated depth ws = some rest → rest.length < ws.length) := by
  induction ws with
  | nil => exact fun depth rest => ⟨nofun, nofun⟩
  | cons w ws ih =>
    intro depth rest
    constructor <;> intro h
    · unfold skipDesignation at h
      split at h
      · exact Nat.lt_succ_of_lt ((ih _ _).2 h)
      · exact Nat.lt_succ_of_lt ((ih _ _).1 h)
      · cases h
    · unfold skipDesignation.afterDesignated at h
      split at h
      · exact Nat.lt_succ_of_lt ((ih _ _).1 h)
      · split at h
        · cases h
          exact Nat.lt_succ_self _
        · exact Nat.lt_succ_of_lt ((ih _ _).2 h)
      · cases h

theorem scansShorten (ws : List Token) : ScansShorten ws where
  typeArguments _ := length_scanTypeArguments
  type _ := length_afterType
  designation depth rest := (length_skipDesignation ws depth rest).1
  parens depth := length_skipParens depth ws
  localModifiers := length_skipLocalModifiers ws

/-! ## Both ways to read a text -/

theorem finishes_parse (source : String) : Finishes compilationUnit source (parse source) := by
  refine finishes_node endsAfter_compilationUnit ?_ ?_ ?_ source
  · intro ws _
    simp
  · intro ws
    simp [callsPerByte]
  · simp

theorem finishes_parseExpression (source : String) :
    Finishes expressionFragment source (parseExpression source) := by
  refine finishes_node endsAfter_expressionFragment ?_ ?_ ?_ source
  · intro ws _
    simp +contextual [expression, Frame.empty]
  · intro ws
    simp [callsPerByte, expression]
  · simp

/-- **Reading always finishes.**  Both ways to read a text do, whatever the text, and so does each
loop that looks ahead on the way. -/
theorem parse_finishes (source : String) :
    Finishes compilationUnit source (parse source) ∧
      Finishes expressionFragment source (parseExpression source) ∧ ∀ ws, ScansShorten ws :=
  ⟨finishes_parse source, finishes_parseExpression source, scansShorten⟩

end LivePatch.Grammar
