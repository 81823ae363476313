import LivePatch.Proofs.Following.Steps

/-!
# Two readings that stay in step

As long as a closing bracket is ahead, the words in front of it decide everything, and the two
readings stay in step (`Together`).  This is so for every production that expressions are made of,
down to the statements of a lambda (`follows_settled`).
-/

namespace LivePatch

open Words
open LivePatch.Action (Recital)

namespace Words

variable {e : Ends} {us behind : List Token} {k : Kind}

/-! ## Words ahead -/

@[simp] theorem Settled.front_append (h : Settled us) : front (us ++ behind) = front us :=
  Words.front_append h.ne_nil

@[simp] theorem Settled.frontText_append (h : Settled us) :
    frontText (us ++ behind) = frontText us :=
  Words.frontText_append h.ne_nil

@[simp] theorem Settled.tail_append (h : Settled us) : (us ++ behind).tail = us.tail ++ behind := by
  cases us with
  | nil => exact absurd rfl h.ne_nil
  | cons u us => rfl

@[simp] theorem Ends.front_here (e : Ends) (hk : k.limits = false) :
    front (us ++ e.here) = k ↔ front us = k :=
  front_append_eq_iff e.here_limits hk

@[simp] theorem Ends.front_there (e : Ends) (hk : k.limits = false) :
    front (us ++ e.there) = k ↔ front us = k :=
  front_append_eq_iff e.there_limits hk

/-- What stands second is the same in both places, if it is no word that limits. -/
theorem Settled.isAt_there (h : Settled us) (hk : k.limits = false) :
    isAt 1 k (us ++ e.there) = isAt 1 k (us ++ e.here) := by
  rw [isAt_behind e.there_limits hk (length_pos h.ne_nil),
    isAt_behind e.here_limits hk (length_pos h.ne_nil)]

/-- Behind a word that closes nothing stands the same in both places. -/
theorem Settled.front_tail (h : Settled us) (hk : (front us).closes = false) :
    front (us.tail ++ e.there) = front (us.tail ++ e.here) := by
  have hne : us.tail ≠ [] := by
    have hlen := h.one_lt_length hk
    rw [← List.length_pos_iff, List.length_tail]
    omega
  rw [Words.front_append hne, Words.front_append hne]

@[simp] theorem Settled.name_colon (h : Settled us) :
    front us = .identifier ∧ front (us.tail ++ e.there) = k ↔
      front us = .identifier ∧ front (us.tail ++ e.here) = k :=
  and_congr_right fun hk => by rw [h.front_tail (by rw [hk]; rfl)]

@[simp] theorem Settled.name_ended (h : Settled us) (p : Prop) :
    front us = .identifier ∧ (p ∨ front (us.tail ++ e.there) = k) ↔
      front us = .identifier ∧ (p ∨ front (us.tail ++ e.here) = k) :=
  and_congr_right fun hk => by rw [h.front_tail (by rw [hk]; rfl)]

@[simp] theorem Settled.target_colon (h : Settled us) :
    (front us = .identifier ∨ front us = .returnKw) ∧ front (us.tail ++ e.there) = k ↔
      (front us = .identifier ∨ front us = .returnKw) ∧ front (us.tail ++ e.here) = k := by
  refine and_congr_right fun hk => ?_
  rw [h.front_tail]
  rcases hk with hk | hk <;> rw [hk] <;> rfl

/-- Words that limit nothing. -/
@[simp] theorem limits_words : Kind.limits .identifier = false ∧ Kind.limits .comma = false ∧
    Kind.limits .lParen = false ∧ Kind.limits .lBrace = false ∧
    Kind.limits .lBracket = false ∧ Kind.limits .rBracket = false ∧ Kind.limits .less = false ∧
    Kind.limits .delegateKw = false ∧ Kind.limits .returnKw = false ∧
    Kind.limits .breakKw = false := by
  decide

end Words

namespace Grammar

variable {α β : Type} {e : Ends} {us : List Token} {k : Kind} {U : Unit → Unit → List Token → Prop}

/-! ## In step -/

/-- Two readings are in step in front of the words `us`, and the first does `a`, the second `a'`.
Then they are in step again and `Q` holds of their answers and of the words ahead, provided that a
closing bracket is ahead all the time. -/
def Together (e : Ends) :
    {α : Type} → Step α → Step α → (α → α → List Token → Prop) → List Token → Prop
  | _, .pure a, a', Q, us => ∃ b, a' = .pure b ∧ Q a b us
  | _, .bind first next, a', Q, us => ∃ first' next', a' = .bind first' next' ∧
      Together e first first' (fun v v' us => Together e (next v) (next' v') Q us) us
  | _, .look decide _, a', Q, us => ∃ decide' scanned', a' = .look decide' scanned' ∧
      Q (decide (us ++ e.here)) (decide' (us ++ e.there)) us
  | _, .report _, _, _, _ => True
  | _, .frame body, a', Q, us => ∃ body', a' = .frame body' ∧ Together e body body' Q us
  | _, .idle body, a', Q, us => ∃ body', a' = .idle body' ∧ Together e body body'
      (fun _ _ us' => Q (us'.length == us.length) (us'.length == us.length) us') us
  | _, .skipTrivia, a', Q, us => a' = .skipTrivia ∧ Q () () us
  | _, .opening out k, a', Q, us => a' = .opening out k ∧ Q () () us
  | _, .enclose k, a', Q, us => a' = .enclose k ∧ Q () () us
  | _, .take, a', Q, _ => a' = .take ∧ ∀ us, e.Calm us → Settled us → Q () () us
  | _, .takeHalf, a', Q, _ => a' = .takeHalf ∧ ∀ us, e.Calm us → Settled us → Q () () us
  | _, .call r, a', Q, _ =>
    a' = .call r ∧ r.inExpression = true ∧ ∀ b us, e.Calm us → Settled us → Q b b us

/-- What holds of the answers may be weakened. -/
theorem Together.mono {a a' : Step α} {Q Q' : α → α → List Token → Prop}
    (h : Together e a a' Q us) (hQ : ∀ b b' us, Q b b' us → Q' b b' us) :
    Together e a a' Q' us := by
  induction a generalizing us with
  | bind first next ihf ihn =>
    obtain ⟨first', next', rfl, h⟩ := h
    exact ⟨first', next', rfl, ihf h fun v v' us h => ihn v h hQ⟩
  | frame body ih =>
    obtain ⟨body', rfl, h⟩ := h
    exact ⟨body', rfl, ih h hQ⟩
  | idle body ih =>
    obtain ⟨body', rfl, h⟩ := h
    exact ⟨body', rfl, ih h fun _ _ us => hQ _ _ us⟩
  | look =>
    obtain ⟨decide', scanned', rfl, h⟩ := h
    exact ⟨decide', scanned', rfl, hQ _ _ _ h⟩
  | pure b =>
    obtain ⟨b', rfl, h⟩ := h
    exact ⟨b', rfl, hQ _ _ _ h⟩
  | report => trivial
  | call r => exact ⟨h.1, h.2.1, fun b us hcalm hus => hQ _ _ _ (h.2.2 b us hcalm hus)⟩
  | take | takeHalf => exact ⟨h.1, fun us hcalm hus => hQ _ _ _ (h.2 us hcalm hus)⟩
  | skipTrivia | opening | enclose => exact ⟨h.1, hQ _ _ _ h.2⟩

/-- What stays in step as long as a closing bracket is ahead need not be followed further. -/
theorem Together.follows {a a' : Step α} {Q : α → α → List Token → Prop} {L : α → Prop}
    (h : Together e a a' Q us) : Follows e false a a' Q L us := by
  induction a generalizing us with
  | bind first next ihf ihn =>
    obtain ⟨first', next', rfl, h⟩ := h
    exact ⟨first', next', rfl, ihf (h.mono fun v v' us h => ihn v h)⟩
  | frame body ih =>
    obtain ⟨body', rfl, h⟩ := h
    exact ⟨body', rfl, ih h⟩
  | idle body ih =>
    obtain ⟨body', rfl, h⟩ := h
    exact ⟨body', rfl, ih h⟩
  | pure b => exact h
  | report => trivial
  | call r =>
    exact ⟨h.1, h.2.1, fun b us hcalm hus =>
      ⟨fun _ => h.2.2 b us hcalm (hus rfl), fun hlost => absurd (hus rfl) hlost⟩⟩
  | take => exact ⟨h.1, fun _ hcalm hus => h.2 _ hcalm (hus rfl)⟩
  | takeHalf => exact ⟨h.1, fun _ hcalm hus => h.2 _ hcalm (hus rfl)⟩
  | look | skipTrivia | opening | enclose => exact h

section

variable {Q : α → α → List Token → Prop} {B : Bool → Bool → List Token → Prop}

@[simp ↓] theorem together_pure (a b : α) :
    Together e (pure a) (pure b) Q us ↔ Q a b us := by
  refine ⟨?_, fun h => ⟨b, rfl, h⟩⟩
  rintro ⟨b', hb, h⟩
  obtain rfl : b = b' := by injection hb
  exact h

@[simp ↓] theorem together_bind (first first' : Step β) (next next' : β → Step α) :
    Together e (first >>= next) (first' >>= next') Q us ↔
      Together e first first' (fun v v' us => Together e (next v) (next' v') Q us) us := by
  refine ⟨?_, fun h => ⟨first', next', rfl, h⟩⟩
  rintro ⟨first₁, next₁, heq, h⟩
  obtain ⟨rfl, rfl⟩ : first' = first₁ ∧ next' = next₁ := by
    injection heq with _ _ hfirst hnext
    exact ⟨hfirst, hnext⟩
  exact h

@[simp ↓] theorem together_skipTrivia :
    Together e Action.skipTrivia Action.skipTrivia U us ↔ U () () us := and_iff_right rfl

@[simp ↓] theorem together_take : Together e Action.take Action.take U us ↔
    ∀ us, e.Calm us → Settled us → U () () us := and_iff_right rfl

@[simp ↓] theorem together_takeHalf : Together e Action.takeHalf Action.takeHalf U us ↔
    ∀ us, e.Calm us → Settled us → U () () us := and_iff_right rfl

@[simp ↓] theorem together_begins : Together e (begins k) (begins k) U us ↔ U () () us :=
  and_iff_right rfl

@[simp ↓] theorem together_enclose :
    Together e (Action.enclose k) (Action.enclose k) U us ↔ U () () us := and_iff_right rfl

@[simp ↓] theorem together_report (p : Problem) (a : Step Unit) :
    Together e (Action.report p) a U us := trivial

@[simp ↓] theorem together_missing (what : String) (a : Step Unit) :
    Together e (missing what) a U us := trivial

@[simp ↓] theorem together_frame (body body' : Step α) :
    Together e (Action.frame body) (Action.frame body') Q us ↔ Together e body body' Q us := by
  refine ⟨?_, fun h => ⟨body', rfl, h⟩⟩
  rintro ⟨body₁, heq, h⟩
  obtain rfl : body' = body₁ := by injection heq
  exact h

@[simp ↓] theorem together_idle (body body' : Step Unit) :
    Together e (Action.idle body) (Action.idle body') B us ↔ Together e body body'
      (fun _ _ us' => B (us'.length == us.length) (us'.length == us.length) us') us := by
  refine ⟨?_, fun h => ⟨body', rfl, h⟩⟩
  rintro ⟨body₁, heq, h⟩
  obtain rfl : body' = body₁ := by injection heq
  exact h

@[simp ↓] theorem together_node (k : Kind) (body body' : Step Unit) :
    Together e (node k body) (node k body') U us ↔
      Together e body body' (fun _ _ us => U () () us) us := by
  simp only [node, ↓together_frame, ↓together_bind, ↓together_begins, ↓together_enclose]

@[simp ↓] theorem together_call (r : Rule) : Together e (Action.call r) (Action.call r) B us ↔
    r.inExpression = true ∧ ∀ b us, e.Calm us → Settled us → B b b us := and_iff_right rfl

@[simp ↓] theorem together_read (r : Rule) : Together e (read r) (read r) U us ↔
    r.inExpression = true ∧ ∀ us, e.Calm us → Settled us → U () () us := by
  simp only [read, ↓together_bind, ↓together_call, ↓together_pure, forall_const]

@[simp ↓] theorem together_ite (p : Prop) [Decidable p] (a b a' b' : Step α) :
    Together e (if p then a else b) (if p then a' else b') Q us ↔
      if p then Together e a a' Q us else Together e b b' Q us := by
  split <;> rfl

@[simp ↓] theorem together_ahead (d d' : List Token → α) [Scanned d] [Scanned d'] :
    Together e (ahead d) (ahead d') Q us ↔ Q (d (us ++ e.here)) (d' (us ++ e.there)) us := by
  refine ⟨?_, fun h => ⟨d', inferInstance, rfl, h⟩⟩
  rintro ⟨d₁, scanned, heq, h⟩
  obtain rfl : d' = d₁ := by injection heq
  exact h

@[simp ↓] theorem together_current {K : Kind → Kind → List Token → Prop} :
    Together e current current K us ↔
      K (front (us ++ e.here)) (front (us ++ e.there)) us := by
  simp only [current, ↓together_bind, ↓together_skipTrivia, ↓together_ahead]

@[simp ↓] theorem together_sees (hus : Settled us) :
    Together e (sees k) (sees k) B us ↔ B (front us == k) (front us == k) us := by
  simp only [sees, ↓together_bind, ↓together_current, ↓together_pure, hus.front_append]

@[simp ↓] theorem together_seesWord (hus : Settled us) (text : String) :
    Together e (seesWord text) (seesWord text) B us ↔
      B (front us == .identifier && frontText us == text)
        (front us == .identifier && frontText us == text) us := by
  simp only [seesWord, ↓together_bind, ↓together_current, ↓together_ahead, hus.front_append,
    hus.frontText_append]

@[simp ↓] theorem together_eat (hus : Settled us) : Together e (eat k) (eat k) B us ↔
    if front us = k then ∀ us, e.Calm us → Settled us → B true true us else B false false us := by
  simp only [eat, ↓together_bind, ↓together_sees hus, beq_iff_eq, ↓together_ite, ↓together_take,
    ↓together_pure]

@[simp ↓] theorem together_takeIf (hus : Settled us) : Together e (takeIf k) (takeIf k) U us ↔
    if front us = k then ∀ us, e.Calm us → Settled us → U () () us else U () () us := by
  simp only [takeIf, ↓together_bind, ↓together_sees hus, beq_iff_eq, ↓together_ite, ↓together_take,
    ↓together_pure]

@[simp ↓] theorem together_expect (hus : Settled us) (what : String) :
    Together e (expect k what) (expect k what) U us ↔
      (front us = k → ∀ us, e.Calm us → Settled us → U () () us) := by
  simp only [expect, ↓together_bind, ↓together_sees hus, beq_iff_eq, ↓together_ite, ↓together_take,
    ↓together_missing]
  split <;> simp [*]

@[simp ↓] theorem together_expectClosingAngle (hus : Settled us) :
    Together e expectClosingAngle expectClosingAngle U us ↔
      (front us = .greater ∨ front us = .rightShift →
        ∀ us, e.Calm us → Settled us → U () () us) := by
  simp only [expectClosingAngle, ↓together_bind, ↓together_current, hus.front_append]
  generalize front us = kind
  split <;> simp_all

end

/-- The step is the same in front of both ends, provided that a closing bracket is ahead all the
time. -/
def Tied (e : Ends) (a : Step Unit) : Prop :=
  ∀ us, e.Calm us → Settled us → Together e a a (fun _ _ _ => True) us

-- A production is written out before it is followed: written out on the way, what comes behind a part
-- would be simplified again for each of the parts in front of it.
attribute [local simp] Rule.inExpression silently expression type expectIdentifier
  declarationExpression argumentList bracketedArgumentList typeArgumentList initialValue
  attributeList parameterModifiers whenClause declarator declaratorList variableDeclaration
  localModifiers parenthesized

/-! ## Types, expressions and patterns -/

theorem tied_arguments (close : Kind) : Tied e (arguments close) := by
  intro us hcalm hus
  simp +contextual [arguments, argument, *]

theorem tied_typeArguments : Tied e typeArguments := by
  intro us hcalm hus
  simp only [typeArguments, type]
  simp +contextual [*]

theorem tied_tupleElements : Tied e tupleElements := by
  intro us hcalm hus
  simp +contextual [tupleElements, *]

theorem tied_commas : Tied e commas := by
  intro us hcalm hus
  simp +contextual [commas, *]

theorem tied_nameSegments : Tied e nameSegments := by
  intro us hcalm hus
  simp +contextual [nameSegments, *]

theorem tied_designated : Tied e designated := by
  intro us hcalm hus
  simp +contextual [designated, *]

/-- What is declared in a tuple is the same in both places behind a parenthesis or a comma alone. -/
theorem together_tupleValue (hus : Settled us)
    (hdeclares : atTupleDeclaration (us ++ e.there) = atTupleDeclaration (us ++ e.here)) :
    Together e tupleValue tupleValue (fun _ _ _ => True) us := by
  simp only [tupleValue, expression, type, expectIdentifier, declarationExpression]
  simp +contextual [*]

theorem follows_moreTupleValues (hcalm : e.Calm us) (isTuple : Bool) :
    Follows e false (moreTupleValues isTuple) (moreTupleValues isTuple) (fun b b' _ => b = b')
      (fun _ => False) us := by
  rw [moreTupleValues, follows_bind, follows_eat rfl]
  split
  · rename_i hcomma
    intro _ _ hus
    have hdeclares := hcalm.atTupleDeclaration_there (.inr hcomma)
    rw [← List.drop_one] at hdeclares
    have htogether : Together e
        (tupleValue >>= fun _ => Action.call (.moreTupleValues true))
        (tupleValue >>= fun _ => Action.call (.moreTupleValues true)) (fun b b' _ => b = b')
        (us.drop 1) := by
      rw [together_bind]
      exact (together_tupleValue (hus rfl) hdeclares).mono fun _ _ us _ => by simp
    exact htogether.follows
  · simp

theorem tied_initializerElements : Tied e initializerElements := by
  intro us hcalm hus
  simp only [initializerElements, ↓together_bind, ↓together_current, ↓together_ite,
    hus.front_append]
  split
  · simp
  · generalize front us = kind
    split <;> simp +contextual [indexedElement, *]

theorem tied_attributes : Tied e attributes := by
  intro us hcalm hus
  simp only [attributes, attributeUse, dottedName, expectIdentifier, argumentList, typeArgumentList]
  simp +contextual [*]

theorem tied_parameterModifierWords : Tied e parameterModifierWords := by
  intro us hcalm hus
  simp only [parameterModifierWords, ↓together_bind, ↓together_current, hus.front_append]
  generalize hk : front us = kind
  split
  case h_8 =>
    have hscoped := atScopedModifier_there (e := e) hus (by rw [hk]; rfl)
    simp [hscoped]
  all_goals simp +contextual [*]

theorem tied_parameters (close : Kind) : Tied e (parameters close) := by
  intro us hcalm hus
  simp only [parameters, parameter, expression, type, expectIdentifier, parameterModifiers]
  simp +contextual [*]

theorem tied_lambdaParameters : Tied e lambdaParameters := by
  intro us hcalm hus
  simp +contextual [lambdaParameters, lambdaParameter, *]

theorem tied_switchArms : Tied e switchArms := by
  intro us hcalm hus
  simp only [switchArms, expression, whenClause]
  simp +contextual [*]

/-! ## Statements -/

theorem tied_typeParameters : Tied e typeParameters := by
  intro us hcalm hus
  simp +contextual [typeParameters, typeParameter, *]

theorem tied_attributeLists : Tied e attributeLists := by
  intro us hcalm hus
  simp only [attributeLists, attributeList]
  simp +contextual [*]

theorem tied_constraints : Tied e constraints := by
  intro us hcalm hus
  simp only [constraints, constraint, ↓together_bind, ↓together_current, hus.front_append]
  generalize front us = kind
  split <;> simp +contextual

theorem tied_constraintClauses : Tied e constraintClauses := by
  intro us hcalm hus
  simp +contextual [constraintClauses, constraintClause, *]

theorem tied_localModifierWords : Tied e localModifierWords := by
  intro us hcalm hus
  simp +contextual [localModifierWords, *]

theorem tied_moreDeclarators : Tied e moreDeclarators := by
  intro us hcalm hus
  simp only [moreDeclarators, expression, expectIdentifier, bracketedArgumentList, initialValue,
    declarator]
  simp +contextual [*]

theorem tied_expressionList : Tied e expressionList := by
  intro us hcalm hus
  simp +contextual [expressionList, *]

theorem tied_switchLabels : Tied e switchLabels := by
  intro us hcalm hus
  simp only [switchLabels, switchLabel, expression, whenClause]
  simp +contextual [*]

theorem tied_switchSections : Tied e switchSections := by
  intro us hcalm hus
  simp only [switchSections, switchSection]
  simp +contextual [*]

theorem tied_catchClauses : Tied e catchClauses := by
  intro us hcalm hus
  simp only [catchClauses, catchDeclaration, expression, type, parenthesized]
  simp +contextual [*]

theorem tied_statements : Tied e statements := by
  intro us hcalm hus
  simp +contextual [statements, ensureProgress, *]

theorem tied_sectionStatements : Tied e sectionStatements := by
  intro us hcalm hus
  simp +contextual [sectionStatements, ensureProgress, *]

@[simp ↓] theorem together_embeddedStatement (hus : Settled us) :
    Together e embeddedStatement embeddedStatement U us ↔
      (front us ≠ .eof → front us ≠ .rBrace → ∀ us, e.Calm us → Settled us → U () () us) := by
  simp [embeddedStatement, hus]

@[simp] theorem together_functionBody (hus : Settled us) :
    Together e functionBody functionBody (fun _ _ _ => True) us := by
  simp only [functionBody, ↓together_bind, ↓together_current, hus.front_append]
  generalize front us = kind
  split <;> simp +contextual [arrowClause, *]

theorem tied_jumpStatement (k : Kind) (what : String) : Tied e (jumpStatement k what) := by
  intro us hcalm hus
  simp +contextual [jumpStatement, *]

theorem tied_valueStatement (k : Kind) (what : String) : Tied e (valueStatement k what) := by
  intro us hcalm hus
  simp +contextual [valueStatement, *]

theorem tied_conditionStatement (k : Kind) : Tied e (conditionStatement k) := by
  intro us hcalm hus
  simp +contextual [conditionStatement, *]

theorem tied_blockStatement (k : Kind) : Tied e (blockStatement k) := by
  intro us hcalm hus
  simp +contextual [blockStatement, *]

theorem tied_labeledStatement : Tied e labeledStatement := by
  intro us hcalm hus
  simp +contextual [labeledStatement, *]

theorem tied_ifStatement : Tied e ifStatement := by
  intro us hcalm hus
  simp +contextual [ifStatement, *]

theorem tied_doStatement : Tied e doStatement := by
  intro us hcalm hus
  simp +contextual [doStatement, *]

theorem tied_usingStatement : Tied e usingStatement := by
  intro us hcalm hus
  simp only [usingStatement, expression, type, expectIdentifier, bracketedArgumentList,
    initialValue, declarator, declaratorList, variableDeclaration]
  simp +contextual [*]

theorem tied_gotoStatement : Tied e gotoStatement := by
  intro us hcalm hus
  simp only [gotoStatement, ↓together_bind, ↓together_begins, ↓together_take, ↓together_current]
  intro us hcalm hus
  rw [hus.front_append, hus.front_append]
  generalize front us = kind
  split <;> simp +contextual [*]

theorem tied_yieldStatement : Tied e yieldStatement := by
  intro us hcalm hus
  simp +contextual [yieldStatement, *]

theorem tied_forStatement : Tied e forStatement := by
  intro us hcalm hus
  simp only [forStatement, forHeader, expression, type, expectIdentifier, bracketedArgumentList,
    initialValue, declarator, declaratorList, variableDeclaration]
  simp +contextual [*]

theorem tied_foreachStatement : Tied e foreachStatement := by
  intro us hcalm hus
  simp only [foreachStatement, expression, type, expectIdentifier, declarationExpression]
  simp +contextual [*]

theorem tied_switchStatement : Tied e switchStatement := by
  intro us hcalm hus
  simp +contextual [switchStatement, *]

theorem tied_tryStatement : Tied e tryStatement := by
  intro us hcalm hus
  simp +contextual [tryStatement, *]

theorem tied_plainStatement : Tied e plainStatement := by
  intro us hcalm hus
  simp only [plainStatement, ↓together_bind, ↓together_ahead, e.localStart_there hus]
  split <;> simp +contextual [functionRest, optionalTypeParameters, typeParameterList,
    parameterList, *]

theorem tied_statement : Tied e statement := by
  intro us hcalm hus
  simp only [statement, statementBody, ↓together_skipTrivia, ↓together_frame, ↓together_bind,
    ↓together_current, hus.front_append]
  generalize hk : front us = kind
  split
  case h_1 => simp
  case h_2 => simp [single]
  case h_3 =>
    have hcolon : isAt 1 .colon (us ++ e.there) = isAt 1 .colon (us ++ e.here) :=
      hus.isAt_colon (by rw [hk]; rfl)
    simp only [identifierStatement, ↓together_bind, ↓together_ahead, hcolon, hus.frontText_append,
      hus.isAt_there, limits_words, ↓together_ite]
    split
    · exact tied_labeledStatement us hcalm hus
    · split
      · exact tied_yieldStatement us hcalm hus
      · exact tied_plainStatement us hcalm hus
  case h_4 => exact tied_ifStatement us hcalm hus
  case h_5 => exact tied_switchStatement us hcalm hus
  case h_6 => exact tied_forStatement us hcalm hus
  case h_7 => exact tied_foreachStatement us hcalm hus
  case h_8 => exact tied_conditionStatement _ us hcalm hus
  case h_9 => exact tied_doStatement us hcalm hus
  case h_10 => exact tied_conditionStatement _ us hcalm hus
  case h_11 =>
    simp only [↓together_bind, ↓together_ahead, hus.isAt_there, limits_words, ↓together_ite]
    split
    · exact tied_usingStatement us hcalm hus
    · exact tied_plainStatement us hcalm hus
  case h_12 => exact tied_tryStatement us hcalm hus
  case h_13 | h_14 => exact tied_valueStatement _ _ us hcalm hus
  case h_15 | h_16 => exact tied_jumpStatement _ _ us hcalm hus
  case h_17 => exact tied_gotoStatement us hcalm hus
  case h_18 | h_19 | h_20 =>
    simp only [↓together_bind, ↓together_ahead, hus.isAt_there, limits_words, ↓together_ite]
    split
    · exact tied_blockStatement _ us hcalm hus
    · exact tied_plainStatement us hcalm hus
  case h_21 => exact tied_plainStatement us hcalm hus

/-! ## All productions -/

/-- What a production answers, the second reading answers, too. -/
theorem Tied.follows_silently {a : Step Unit} (h : Tied e a) (hcalm : e.Calm us)
    (hus : Settled us) : Follows e false (silently a) (silently a) (fun b b' _ => b = b')
      (fun _ => False) us := by
  have htogether : Together e (silently a) (silently a) (fun b b' _ => b = b') us := by
    simpa using h us hcalm hus
  exact htogether.follows

/-- **A production of expressions stays in step** with itself, as long as a closing bracket is
ahead. -/
theorem follows_settled {r : Rule} (hr : r.inExpression = true) (hends : r.mayEnd = false)
    (hcalm : e.Calm us) (hus : Settled us) :
    Follows e false (production r) (production r) (fun b b' _ => b = b') (fun _ => False) us := by
  cases r with
  | typeParameters => exact tied_typeParameters.follows_silently hcalm hus
  | attributeLists => exact tied_attributeLists.follows_silently hcalm hus
  | constraintClauses => exact tied_constraintClauses.follows_silently hcalm hus
  | constraints => exact tied_constraints.follows_silently hcalm hus
  | attributes => exact tied_attributes.follows_silently hcalm hus
  | nameSegments => exact tied_nameSegments.follows_silently hcalm hus
  | parameters close => exact (tied_parameters close).follows_silently hcalm hus
  | parameterModifierWords => exact tied_parameterModifierWords.follows_silently hcalm hus
  | arguments close => exact (tied_arguments close).follows_silently hcalm hus
  | designated => exact tied_designated.follows_silently hcalm hus
  | statements => exact tied_statements.follows_silently hcalm hus
  | statement => exact tied_statement.follows_silently hcalm hus
  | localModifierWords => exact tied_localModifierWords.follows_silently hcalm hus
  | moreDeclarators => exact tied_moreDeclarators.follows_silently hcalm hus
  | switchSections => exact tied_switchSections.follows_silently hcalm hus
  | switchLabels => exact tied_switchLabels.follows_silently hcalm hus
  | sectionStatements => exact tied_sectionStatements.follows_silently hcalm hus
  | expressionList => exact tied_expressionList.follows_silently hcalm hus
  | catchClauses => exact tied_catchClauses.follows_silently hcalm hus
  | tupleElements => exact tied_tupleElements.follows_silently hcalm hus
  | commas => exact tied_commas.follows_silently hcalm hus
  | typeArguments => exact tied_typeArguments.follows_silently hcalm hus
  | moreTupleValues isTuple => exact follows_moreTupleValues hcalm isTuple
  | initializerElements => exact tied_initializerElements.follows_silently hcalm hus
  | lambdaParameters => exact tied_lambdaParameters.follows_silently hcalm hus
  | switchArms => exact tied_switchArms.follows_silently hcalm hus
  | _ => first | (cases hends; done) | cases hr

end Grammar

end LivePatch
