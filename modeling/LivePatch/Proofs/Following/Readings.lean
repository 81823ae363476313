import LivePatch.Proofs.Following.Together

/-!
# What stands behind an expression

Without a closing bracket ahead the loops over arguments, elements and the like are out of step, but
what expressions are made of otherwise is not: each of its productions comes to the end of the words
in front of both ends, or in front of none (`follows_production`).  So what an expression is read as
in front of the first end, it is read as in front of the second (`recount_there`).
-/

namespace LivePatch

open Token (closingAngle)
open Words
open LivePatch.Action (Recital divideShift recount recount_eq recount_induction)

namespace Words

variable {e : Ends} {us behind : List Token} {k : Kind}

theorem tail_append (h : us ≠ []) : (us ++ behind).tail = us.tail ++ behind := by
  cases us with
  | nil => exact absurd rfl h
  | cons u us => rfl

theorem isNameSeparator_behind (h : Limits behind) :
    isNameSeparator (front (us ++ behind)) = isNameSeparator (front us) := by
  cases us with
  | cons u us => rfl
  | nil =>
    rw [List.nil_append]
    rcases h.cases with hk | hk | hk | hk | hk <;> rw [hk] <;> rfl

/-- Behind a separator stands one of the words, or what is behind them. -/
theorem front_tail_of_separator :
    isNameSeparator (front us) = true ∧ front (us ++ behind).tail = k ↔
      isNameSeparator (front us) = true ∧ front (us.tail ++ behind) = k := by
  cases us with
  | cons u us => rfl
  | nil => simp [isNameSeparator]

theorem holdsAt_canStartExpression (h : Limits behind) (hus : us ≠ []) :
    holdsAt 1 canStartExpression (us ++ behind) = holdsAt 1 canStartExpression us :=
  holdsAt_behind h (fun _ hk => canStartExpression_of_limits hk) (length_pos hus)

/-- An arrow right behind a name is there in both places. -/
theorem Ends.Calm.front_tail (h : e.Calm us) :
    front us = .identifier ∧ front (us.tail ++ e.there) = .fatArrow ↔
      front us = .identifier ∧ front (us.tail ++ e.here) = .fatArrow := by
  refine and_congr_right fun hk => ?_
  have hus : us ≠ [] := by
    rintro rfl
    cases hk
  have harrow := h.isAt_arrow hk
  rw [Bool.eq_iff_iff] at harrow
  simpa [tail_append hus] using harrow

/-- Only what a closing parenthesis ends may stand behind an opening one that opens neither the
parameters of a lambda nor a cast. -/
def Ends.Grouped (e : Ends) (us : List Token) : Prop :=
  front us = .lParen → atLambdaParen (us ++ e.here) = false → atCast us = false → Settled us.tail

end Words

namespace Grammar

variable {α β : Type} {e : Ends} {us : List Token} {k : Kind} {whole : Bool}
  {U : Unit → Unit → List Token → Prop} {M : Unit → Prop} {N : Bool → Prop}
  {B : Bool → Bool → List Token → Prop}

/-! ## Steps without a bracket ahead -/

@[simp] theorem closes_brackets : Kind.closes .rParen = true ∧ Kind.closes .rBracket = true ∧
    Kind.closes .rBrace = true := by decide

@[simp ↓] theorem loses_current {M : Kind → Prop} :
    Loses current M ↔ ∀ ws, ¬ Settled ws → M (front ws) := Iff.rfl

@[simp ↓] theorem loses_sees : Loses (sees k) N ↔ ∀ ws, ¬ Settled ws → N (front ws == k) := Iff.rfl

@[simp ↓] theorem loses_ahead {d : List Token → α} [Scanned d] {L : α → Prop} :
    Loses (ahead d) L ↔ ∀ ws, ¬ Settled ws → L (d ws) := Iff.rfl

@[simp ↓] theorem loses_expectClosingAngle : Loses expectClosingAngle M := by
  simp only [expectClosingAngle, ↓loses_bind, ↓loses_current]
  intro ws hws
  have hne (hk : (front ws).closes = true) : False := by
    cases ws with
    | nil => cases hk
    | cons w ws => exact hws ⟨w, List.mem_cons_self, hk⟩
  split
  · rename_i hk
    exact (hne (by rw [hk]; rfl)).elim
  · rename_i hk
    exact (hne (by rw [hk]; rfl)).elim
  · trivial

@[simp ↓] theorem follows_expectClosingAngle :
    Follows e true expectClosingAngle expectClosingAngle U M us ↔
      (front us = .greater → e.Calm (us.drop 1) → U () () (us.drop 1)) ∧
        (front us = .rightShift → e.Calm ((divideShift us).drop 1) →
          U () () ((divideShift us).drop 1)) := by
  simp only [expectClosingAngle, ↓follows_bind, ↓follows_current]
  cases us with
  | nil =>
    rcases e.here_limits.cases with hk | hk | hk | hk | hk <;> simp [hk]
  | cons u us =>
    simp only [List.cons_append, front_cons]
    split <;> simp_all

@[simp ↓] theorem follows_seesWord (text : String) :
    Follows e true (seesWord text) (seesWord text) B N us ↔
      B (front us == .identifier && frontText us == text)
        (front us == .identifier && frontText us == text) us := by
  simp only [seesWord, ↓follows_bind, ↓follows_current, ↓follows_ahead]
  cases us with
  | nil =>
    simp only [List.nil_append, front_beq_of_limits e.here_limits limits_words.1,
      front_beq_of_limits e.there_limits limits_words.1, Bool.false_and]
    rfl
  | cons u us => rfl

theorem Loses.mono {a : Step α} {L L' : α → Prop} (h : Loses a L) (hL : ∀ b, L b → L' b) :
    Loses a L' := by
  induction a with
  | bind first next ihf ihn => exact ihf h fun v hv => ihn v hv hL
  | frame body ih => exact ih h hL
  | idle body ih => exact ih h fun _ h b => hL b (h b)
  | look => exact fun ws hws => hL _ (h ws hws)
  | call r => exact fun b => hL b (h b)
  | report => trivial
  | _ => exact hL _ h

theorem Follows.mono {a a' : Step α} {Q Q' : α → α → List Token → Prop} {L L' : α → Prop}
    (h : Follows e whole a a' Q L us) (hQ : ∀ b b' us, Q b b' us → Q' b b' us)
    (hL : ∀ b, L b → L' b) : Follows e whole a a' Q' L' us := by
  induction a generalizing us with
  | bind first next ihf ihn =>
    obtain ⟨first', next', rfl, h⟩ := h
    exact ⟨first', next', rfl, ihf h (fun v v' us h => ihn v h hQ hL) fun v h => h.mono hL⟩
  | frame body ih =>
    obtain ⟨body', rfl, h⟩ := h
    exact ⟨body', rfl, ih h hQ hL⟩
  | idle body ih =>
    obtain ⟨body', rfl, h⟩ := h
    exact ⟨body', rfl, ih h (fun _ _ us => hQ _ _ us) fun _ h b => hL b (h b)⟩
  | look =>
    obtain ⟨decide', scanned', rfl, h⟩ := h
    exact ⟨decide', scanned', rfl, hQ _ _ _ h⟩
  | pure b =>
    obtain ⟨b', rfl, h⟩ := h
    exact ⟨b', rfl, hQ _ _ _ h⟩
  | report => trivial
  | call r =>
    exact ⟨h.1, h.2.1, fun b us hcalm hus => (h.2.2 b us hcalm hus).imp
      (fun hin hgoes => hQ _ _ _ (hin hgoes)) fun hout hlost hends => hL _ (hout hlost hends)⟩
  | take | takeHalf =>
    exact ⟨h.1, fun hne hcalm hus => hQ _ _ _ (h.2 hne hcalm hus)⟩
  | skipTrivia | opening | enclose => exact ⟨h.1, hQ _ _ _ h.2⟩

/-- What is decided by a word, if all words that limit decide the same. -/
theorem follows_word {f : Kind → Step α} {Q : α → α → List Token → Prop} {L : α → Prop}
    (hf : ∀ k : Kind, k.limits = true → f k = f .eof)
    (h : Follows e whole (f (front us)) (f (front us)) Q L us) :
    Follows e whole (current >>= f) (current >>= f) Q L us := by
  have hfront {behind : List Token} (hbehind : Limits behind) :
      f (front (us ++ behind)) = f (front us) := by
    cases us with
    | nil => exact hf _ hbehind.limits
    | cons u us => rfl
  rw [follows_bind, follows_current, hfront e.here_limits, hfront e.there_limits]
  exact h

/-! ## Productions of expressions -/

/-- The step is followed in front of the words, and an answer to it is never out of step. -/
def Whole (e : Ends) (a : Step Unit) (us : List Token) : Prop :=
  Follows e true a a (fun _ _ _ => True) (fun _ => False) us

section

attribute [local simp] Whole Rule.mayEnd front_append frontText_append tail_append
  isNameSeparator_behind front_tail_of_separator holdsAt_canStartExpression Ends.Calm.front_tail
  Rule.inExpression silently expression type expectIdentifier nameExpression declarationExpression
  argumentList bracketedArgumentList arrayRank typeArgumentList single prefixed

theorem whole_initializer : Whole e initializer us := by
  simp +contextual [initializer]

theorem whole_block : Whole e block us := by
  simp +contextual [block]

theorem whole_designation : Whole e designation us := by
  simp +contextual [designation]

theorem whole_pattern : Whole e pattern us := by
  simp +contextual [pattern]

theorem whole_arrayRanks : Whole e arrayRanks us := by
  simp +contextual [arrayRanks]

theorem whole_patternOperators : Whole e patternOperators us := by
  simp +contextual [patternOperators]

theorem whole_typeNameTail : Whole e typeNameTail us := by
  simp only [typeNameTail, typeArgumentList]
  simp +contextual

theorem follows_typeSuffixes (inExpression isArray : Bool) :
    Follows e true (typeSuffixes inExpression isArray) (typeSuffixes inExpression isArray)
      (fun b b' _ => b = b') (fun _ => False) us := by
  refine follows_word ?_ ?_
  · rintro k hk
    obtain rfl | rfl | rfl | rfl | rfl := Kind.limits_cases hk <;> rfl
  · by_cases hus : us = []
    · have hrank {behind : List Token} (h : Limits behind) :
          atArrayRank behind = false := atArrayRank_behind h []
      simp [hus, hrank]
    · simp +contextual [hus]

theorem whole_typeHead : Whole e typeHead us := by
  refine follows_word ?_ ?_
  · rintro k hk
    obtain rfl | rfl | rfl | rfl | rfl := Kind.limits_cases hk <;> rfl
  · simp +contextual

theorem follows_typeProduction (inExpression : Bool) :
    Follows e true (typeProduction inExpression) (typeProduction inExpression)
      (fun b b' _ => b = b') (fun _ => False) us := by
  simp only [typeProduction, ↓follows_bind, ↓follows_skipTrivia, ↓follows_frame, ↓follows_begins]
  refine whole_typeHead.mono (fun _ _ us _ => ?_) (fun _ h => absurd h (by decide))
  simp

theorem whole_primaryPattern (hcalm : e.Calm us) : Whole e primaryPattern us := by
  rw [Whole, primaryPattern, follows_bind, follows_skipTrivia]
  refine follows_word ?_ ?_
  · rintro k hk
    obtain rfl | rfl | rfl | rfl | rfl := Kind.limits_cases hk <;> rfl
  · by_cases hus : us = []
    · have hdeclares {behind : List Token} (h : Limits behind) :
          atDeclarationExpression behind = false := by
        simp [atDeclarationExpression, afterType_of_limits h]
      simp [hus, hdeclares]
    · simp +contextual [hcalm, hus]

theorem whole_newExpression : Whole e newExpression us := by
  rw [Whole, newExpression, follows_bind, follows_take]
  intro _ _ _
  refine follows_word ?_ ?_
  · rintro k hk
    obtain rfl | rfl | rfl | rfl | rfl := Kind.limits_cases hk <;> rfl
  · generalize front (us.drop 1) = kind
    simp only [optionalInitializer, type, argumentList, bracketedArgumentList, arrayRank]
    split <;> simp +contextual

theorem whole_typeOperator (k : Kind) : Whole e (typeOperator k) us := by
  simp +contextual [typeOperator]

theorem whole_lambdaExpression (hus : us ≠ []) : Whole e lambdaExpression us := by
  simp only [lambdaExpression, lambdaHead, parameterList, expression, expectIdentifier]
  simp +contextual [hus]

theorem whole_switchTail : Whole e switchTail us := by
  simp +contextual [switchTail]

theorem whole_typeTestTail (k : Kind) : Whole e (typeTestTail k) us := by
  simp +contextual [typeTestTail]

theorem whole_conditionalTail : Whole e conditionalTail us := by
  simp +contextual [conditionalTail]

theorem whole_binaryTail (binding : Binding) : Whole e (binaryTail binding) us := by
  simp +contextual [binaryTail]

theorem whole_identifierOperand (hcalm : e.Calm us) (hk : front us = .identifier) :
    Whole e identifierOperand us := by
  have hus : us ≠ [] := by
    rintro rfl
    cases hk
  have harrow := hcalm.isAt_arrow hk
  rw [Bool.eq_iff_iff] at harrow
  have hlambda : Whole e lambdaExpression us := whole_lambdaExpression hus
  rw [Whole] at hlambda
  simp only [identifierOperand, type, expectIdentifier, nameExpression, declarationExpression,
    typeArgumentList, prefixed]
  simp +contextual [hlambda, hcalm, hus, hk, -isAt_one, harrow]

theorem whole_parenOperand (hcalm : e.Calm us) (hk : front us = .lParen) (hgroup : e.Grouped us) :
    Whole e parenOperand us := by
  have hus : us ≠ [] := by
    rintro rfl
    cases hk
  have hlambda : Whole e lambdaExpression us := whole_lambdaExpression hus
  have hsettled := hgroup hk
  have hdeclares := hcalm.atTupleDeclaration_there (.inl hk)
  rw [Whole] at hlambda
  simp +contextual [parenOperand, tupleValue, hlambda, hcalm, hus, hsettled, hdeclares]

theorem whole_operand (hcalm : e.Calm us) (hgroup : e.Grouped us) : Whole e operand us := by
  refine follows_word ?_ ?_
  · rintro k hk
    obtain rfl | rfl | rfl | rfl | rfl := Kind.limits_cases hk <;> rfl
  have hne (hk : front us ≠ .eof) : us ≠ [] := by
    rintro rfl
    exact hk rfl
  generalize hk : front us = kind at hne
  simp only [↓follows_ite]
  split
  · simp
  split
  · simp
  split
  case h_3 => exact whole_newExpression
  case h_4 | h_5 => exact whole_typeOperator _
  case h_10 => exact whole_lambdaExpression (hne (by decide))
  case h_21 => exact whole_identifierOperand hcalm hk
  case h_22 => exact whole_parenOperand hcalm hk hgroup
  all_goals simp +contextual [parenthesized, missingOperand, *]

/-! ## Operators -/

theorem named_there (hus : us ≠ []) :
    isAt 1 .identifier (us ++ e.there) = isAt 1 .identifier (us ++ e.here) := by
  rw [isAt_behind e.there_limits rfl (length_pos hus),
    isAt_behind e.here_limits rfl (length_pos hus)]

theorem operatorStep?_of_limits {power : Nat} {named : Bool} (h : k.limits = true) :
    operatorStep? power k named = none := by
  obtain rfl | rfl | rfl | rfl | rfl := Kind.limits_cases h <;> rfl

theorem whole_operatorStep {named : Bool} {power : Nat} {op : Kind} {step : Step Unit}
    (h : operatorStep? power op named = some step) : Whole e step us := by
  unfold operatorStep? at h
  split at h
  case h_13 =>
    split at h
    · split at h <;> cases h
      exact whole_binaryTail _
    · cases h
  case h_1 | h_5 | h_6 | h_7 | h_8 =>
    cases h
    simp +contextual
  case h_9 =>
    split at h <;> cases h
    exact whole_switchTail
  case h_10 | h_11 =>
    split at h <;> cases h
    exact whole_typeTestTail _
  case h_12 =>
    split at h <;> cases h
    exact whole_conditionalTail
  all_goals
    split at h <;> cases h
    simp +contextual

theorem whole_operators (power : Nat) : Whole e (operators power) us := by
  simp only [Whole, operators, ↓follows_bind, ↓follows_current, ↓follows_ahead]
  by_cases hus : us = []
  · subst hus
    rw [List.nil_append, List.nil_append, operatorStep?_of_limits e.here_limits.limits,
      operatorStep?_of_limits e.there_limits.limits]
    exact ⟨_, rfl, trivial⟩
  · rw [named_there hus, front_append hus, front_append hus]
    split
    · exact ⟨_, rfl, trivial⟩
    · rename_i step hstep
      rw [follows_bind]
      refine (whole_operatorStep hstep).mono (fun _ _ us _ => ?_) (fun _ h => absurd h (by decide))
      simp

theorem whole_expression (power : Nat) (hcalm : e.Calm us) (hgroup : e.Grouped us) :
    Whole e (expressionProduction power) us := by
  simp only [Whole, expressionProduction, ↓follows_bind, ↓follows_skipTrivia, ↓follows_frame]
  refine (whole_operand hcalm hgroup).mono (fun _ _ us _ => ?_) (fun _ h => absurd h (by decide))
  simp

end

/-! ## Readings -/

theorem Whole.silently {a : Step Unit} (h : Whole e a us) :
    Follows e true (silently a) (silently a) (fun b b' _ => b = b') (fun _ => False) us := by
  simp only [Grammar.silently, ↓follows_bind, ↓follows_pure, ↓loses_pure]
  exact h.mono (fun _ _ _ _ => trivial) (fun _ h => absurd h (by decide))

/-- **Productions that may end with the words** are followed whole. -/
theorem follows_production {r : Rule} (hends : r.mayEnd = true) (hcalm : e.Calm us)
    (hgroup : ∀ power, r = .expression power → e.Grouped us) :
    Follows e true (production r) (production r) (fun b b' _ => b = b') (fun _ => False) us := by
  cases r with
  | expression power => exact (whole_expression power hcalm (hgroup power rfl)).silently
  | operators power => exact (whole_operators power).silently
  | type inExpression => exact follows_typeProduction inExpression
  | typeSuffixes inExpression isArray => exact follows_typeSuffixes inExpression isArray
  | typeNameTail => exact whole_typeNameTail.silently
  | arrayRanks => exact whole_arrayRanks.silently
  | pattern => exact whole_pattern.silently
  | patternOperators => exact whole_patternOperators.silently
  | primaryPattern => exact (whole_primaryPattern hcalm).silently
  | initializer => exact whole_initializer.silently
  | block => exact whole_block.silently
  | designation => exact whole_designation.silently
  | _ => cases hends

section

variable {answer : Rule → List Token → List Tree → Recital Bool} {ts : List Tree}

/-- A parenthesis that is read to its end is closed among the words. -/
theorem grouped_of_recite (hlater : ∀ {r ws ts b ws' ts'},
      answer r ws ts = some (b, ws', ts') → Later ws ws') {power : Nat}
    {p : Bool × List Token × List Tree}
    (h : (production (.expression power)).recite answer (us ++ e.here) ts = some p) :
    e.Grouped us := by
  intro hk hlambda hcast
  obtain ⟨u, us, rfl⟩ : ∃ v vs, us = v :: vs := by
    cases us with
    | nil => cases hk
    | cons u us => exact ⟨u, us, rfl⟩
  by_contra hlost
  have hk : u.kind = .lParen := hk
  have hcast : atCast (u :: us ++ e.here) = false :=
    (atCast_behind e.here_limits (List.cons_ne_nil u us)).trans hcast
  rw [List.cons_append] at h hlambda hcast
  simp only [production, recite_silently, expressionProduction, operand, parenOperand,
    Action.recite_bind, Action.recite_skipTrivia, Action.recite_frame, recite_current, front_cons,
    hk, Kind.isLiteral, Kind.isPredefinedType, recite_ahead, hlambda, hcast,
    Action.recite_take, Option.bind_some, Bool.false_eq_true, if_false, Option.map_eq_some_iff,
    Option.bind_eq_some_iff, Action.recite_call] at h
  obtain ⟨_, ⟨_, ⟨_, ⟨_, hvalue, _, hmore, _, hclose, _⟩, _⟩, _⟩, _⟩ := h
  have hopen : ¬ Settled (us ++ e.here) := by
    rintro ⟨w, hw, hcloses⟩
    rcases List.mem_append.mp hw with hw | hw
    · exact hlost ⟨w, hw, hcloses⟩
    · exact absurd ((e.here_open w hw).symm.trans hcloses) (by decide)
  have hopen := not_settled_of_later (later_of_recite hlater tupleValue hvalue) hopen
  have hopen := not_settled_of_later (hlater hmore) hopen
  exact (loses_expect rfl _ : Loses (expect .rParen _) fun _ => False).of_recite hlater hclose hopen

/-- **What an expression is read as in front of `here`** it is read as in front of `there`. -/
theorem recount_there {r : Rule} {b : Bool} {us' : List Token} {ts' : List Tree}
    (hr : r.inExpression = true) (hcalm : e.Calm us)
    (h : recount production r (us ++ e.here) ts = some (b, us' ++ e.here, ts'))
    (hgoes : Settled us' ∨ r.mayEnd = true) :
    recount production r (us ++ e.there) ts = some (b, us' ++ e.there, ts') := by
  have hboth := recount_induction (P := fun r ws ts p => Later ws p.2.1 ∧
    ∀ us us', ws = us ++ e.here → p.2.1 = us' ++ e.here → r.inExpression = true → e.Calm us →
      Settled us' ∨ r.mayEnd = true →
      recount production r (us ++ e.there) ts = some (p.1, us' ++ e.there, p.2.2)) ?_ h
  · exact hboth.2 us us' rfl rfl hr hcalm hgoes
  intro answer ih r ws ts p h
  have hlater {r : Rule} {ws : List Token} {ts : List Tree} {b : Bool} {ws' : List Token}
      {ts' : List Tree} (h : answer r ws ts = some (b, ws', ts')) : Later ws ws' :=
    (ih _ _ _ _ h).1
  have hanswers : Answers e answer (recount production) :=
    ⟨hlater, fun hr hcalm h hgoes => (ih _ _ _ _ h).2 _ _ rfl rfl hr hcalm hgoes⟩
  refine ⟨later_of_recite hlater _ h, ?_⟩
  rintro us us' rfl hp hr hcalm hgoes
  obtain ⟨b, ws', ts'⟩ := p
  obtain rfl : ws' = us' ++ e.here := hp
  rw [recount_eq]
  cases hends : r.mayEnd with
  | true =>
    have hgroup : ∀ power, r = .expression power → e.Grouped us := by
      rintro power rfl
      exact grouped_of_recite hlater h
    rcases (follows_production hends hcalm hgroup).recite_eq hanswers h hcalm (fun h => absurd h (by decide)) with
      ⟨b', h', rfl⟩ | ⟨-, hlost⟩
    · exact h'
    · exact hlost.elim
  | false =>
    have hus' : Settled us' := hgoes.resolve_right fun hmay => absurd (hends.symm.trans hmay) (by decide)
    obtain ⟨vs, hvs, hown⟩ := (later_of_recite hlater _ h).exists_append e.here_limits (by simp)
    obtain rfl := List.append_cancel_right hvs
    have hfollows := follows_settled hr hends hcalm (hown.settled hus')
    rcases hfollows.recite_eq hanswers h hcalm (fun _ => hus') with
      ⟨b', h', rfl⟩ | ⟨-, hlost⟩
    · exact h'
    · exact hlost.elim

end

end Grammar

end LivePatch
