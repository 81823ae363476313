import LivePatch.Proofs.Grammar.Types

/-!
# Expressions keep the contract

What an expression leaves behind is one value: a node of an expression kind with something to
show, or an error node beside a problem.  The operand puts the first value into the frame, and
every operator encloses it in another.

Nothing in an expression is above the level of quiet but the body of a lambda, and that is what
the lambda's own node is there for: `Frame.below_enclose_lambda`.
-/

namespace LivePatch

/-- Once there is something to show, there is something to show at the end. -/
theorem Action.Safe.and_solid {R α : Type} {c : Contract R} {a : Action R α}
    {Q : α → List Token → Frame → Prop} {ws : List Token} {x : Frame} (hx : x.solid = true)
    (h : a.Safe c Q ws x) : a.Safe c (fun v ws y => y.solid = true ∧ Q v ws y) ws x := by
  induction a generalizing ws x with
  | pure | look | skipTrivia | report | opening => exact ⟨hx, h⟩
  | bind first next ihf ihn =>
    exact Safe.mono (fun v ws y hv => ihn v hv.1 hv.2) (ihf hx h)
  | take | takeHalf => exact ⟨h.1, rfl, h.2⟩
  | enclose => exact ⟨h.1, hx, h.2⟩
  | frame body =>
    exact Safe.mono (a := body) (fun v ws y hv => ⟨Bool.or_eq_true_iff.mpr (.inl hx), hv⟩) h
  | idle body ih => exact ih hx h
  | call r => exact ⟨h.1, fun b ws' hr he => ⟨Bool.or_eq_true_iff.mpr (.inl hx), h.2 b ws' hr he⟩⟩

namespace Frame

variable {P : Prop} {l : Level} {k : Kind} {x y : Frame}

/-- Is one value in the frame, of at most the level `l`? -/
def Valued (P : Prop) (l : Level) (x : Frame) : Prop := x.shape = .value ∧ x.Below P l

/-- The same, provided that there is something to show. -/
def Shown (P : Prop) (l : Level) (x : Frame) : Prop :=
  (x.solid = true → x.shape = .value) ∧ x.Below P l

@[simp] theorem valued_enclose : (x.enclose k).Valued P l ↔
    (k.isExpression = true ∧ x.solid = true ∨ k = .error) ∧ (x.enclose k).Below P l :=
  and_congr_left' Shape.enclosed_eq_value

@[simp] theorem shown_enclose : (x.enclose k).Shown P l ↔
    (x.solid = true → k.isExpression = true ∨ k = .error) ∧ (x.enclose k).Below P l := by
  refine and_congr_left' (forall_congr' fun hs => ?_)
  have hs : x.solid = true := hs
  rw [shape_enclose, Shape.enclosed_eq_value, hs]
  simp

@[simp] theorem valued_merge_inner :
    (x.inner.merge y).Valued P l ↔ y.Valued P l := by
  simp [Valued]

/-- A lambda hides the return statements of its body. -/
@[simp] theorem below_enclose_lambda :
    (x.enclose .lambdaExpression).Below P .quiet ↔ x.Below P .plain := by
  refine and_congr_right' ?_
  show Level.around .lambdaExpression x.level ≤ .quiet ↔ x.level ≤ .plain
  cases x.level <;> decide

end Frame

namespace Grammar

open LivePatch.Action (Safe Leads)
open Words (front)

variable {P : Prop} {l : Level} {ws : List Token} {x : Frame}

/-- Behind the first word of a frame, a value needs to be one only if it has something to show. -/
@[simp ↓ high] theorem safe_valued {α : Type} {a : Step α} (hx : x.solid = true) :
    Safe contract a (fun _ _ y => y.Valued P l) ws x ↔
      Safe contract a (fun _ _ y => y.Shown P l) ws x := by
  refine ⟨Action.Safe.mono fun _ _ _ h => ⟨fun _ => h.1, h.2⟩, fun h => ?_⟩
  exact (h.and_solid hx).mono fun _ _ _ h => ⟨h.2.1 h.1, h.2.2⟩

/-! ## Parts -/

@[simp] theorem safe_expression :
    Safe contract expression (fun _ _ y => y.Below P l) ws x ↔ x.Below P l := by
  simp [expression]

@[simp] theorem safe_parenthesized :
    Safe contract parenthesized (fun _ _ y => y.Below P l) ws x ↔ x.Below P l := by
  simp [parenthesized]

@[simp] theorem safe_declarationExpression :
    Safe contract declarationExpression (fun _ _ y => y.Below P l) ws x ↔ x.Below P l := by
  simp +contextual [declarationExpression]

theorem safe_designation (h : front ws ≠ .eof) :
    Safe contract designation (fun _ _ y => y.Below P l) ws x ↔ x.Below P l := by
  simp [designation, h]

theorem leads_designation : Leads contract 0 ws designation (fun _ => False) := by
  simp [designation]

theorem safe_designated :
    Safe contract designated (fun _ _ y => y.Below P l) ws x ↔ x.Below P l := by
  simp +contextual [designated]

theorem leads_designated : Leads contract 1 ws designated (fun _ => True) := by
  simp [designated]

@[simp] theorem safe_argument :
    Safe contract argument (fun _ _ y => y.Below P l) ws x ↔ x.Below P l := by
  simp only [argument]
  simp +contextual [ite_or]

theorem safe_arguments (close : Kind) :
    Safe contract (arguments close) (fun _ _ y => y.Below P l) ws x ↔ x.Below P l := by
  simp [arguments]

theorem leads_arguments (close : Kind) :
    Leads contract 3 ws (arguments close) (fun _ => True) := by
  simp [arguments, argument, declarationExpression, expression, type]

@[simp] theorem safe_argumentList :
    Safe contract argumentList (fun _ _ y => y.Below P l) ws x ↔ x.Below P l := by
  simp [argumentList]

@[simp] theorem safe_bracketedArgumentList :
    Safe contract bracketedArgumentList (fun _ _ y => y.Below P l) ws x ↔ x.Below P l := by
  simp [bracketedArgumentList]

@[simp] theorem safe_nameExpression :
    Safe contract nameExpression (fun _ _ y => y.Below P l) ws x ↔ x.Below P l := by
  simp [nameExpression, typeArgumentList]

@[simp] theorem safe_tupleValue :
    Safe contract tupleValue (fun _ _ y => y.Below P l) ws x ↔ x.Below P l := by
  simp +contextual [tupleValue]

theorem safe_moreTupleValues (isTuple : Bool) :
    Safe contract (moreTupleValues isTuple) (fun _ _ y => y.Below P l) ws x ↔ x.Below P l := by
  simp [moreTupleValues]

theorem leads_moreTupleValues (isTuple : Bool) :
    Leads contract 0 ws (moreTupleValues isTuple) (fun _ => True) := by
  simp [moreTupleValues]

/-! ## Initializers and object creation -/

@[simp] theorem safe_initialValue :
    Safe contract initialValue (fun _ _ y => y.Below P l) ws x ↔ x.Below P l := by
  simp [initialValue]

theorem safe_initializer :
    Safe contract initializer (fun _ _ y => y.Below P l) ws x ↔ x.Below P l := by
  simp [initializer]

theorem leads_initializer :
    Leads contract (if front ws = .lBrace then 0 else 4) ws initializer (fun _ => True) := by
  simp +contextual [initializer]

@[simp] theorem safe_indexedElement :
    Safe contract indexedElement (fun _ _ y => y.Below P l) ws x ↔ x.Below P l := by
  simp +contextual [indexedElement]

theorem safe_initializerElements :
    Safe contract initializerElements (fun _ _ y => y.Below P l) ws x ↔ x.Below P l := by
  simp only [initializerElements, ↓safe_bind, ↓safe_current, ↓safe_ite, ↓safe_pure]
  split
  · rfl
  · split <;> simp

theorem leads_initializerElements : Leads contract 3 ws initializerElements (fun _ => True) := by
  simp only [initializerElements, ↓leads_bind, ↓leads_current, ↓leads_ite, ↓leads_pure]
  split
  · trivial
  · split <;> simp [*, indexedElement, bracketedArgumentList, expression]

theorem safe_arrayRanks :
    Safe contract arrayRanks (fun _ _ y => y.Below P l) ws x ↔ x.Below P l := by
  simp +contextual [arrayRanks]

theorem leads_arrayRanks : Leads contract 0 ws arrayRanks (fun _ => True) := by
  simp [arrayRanks, arrayRank]

@[simp] theorem safe_optionalInitializer :
    Safe contract optionalInitializer (fun _ _ y => y.Below P l) ws x ↔ x.Below P l := by
  simp [optionalInitializer]

theorem safe_newExpression (h : front ws ≠ .eof) :
    Safe contract newExpression (fun _ _ y => y.Valued P l) ws x ↔ x.Below P l := by
  rw [newExpression, safe_bind, safe_take, safe_valued rfl, safe_bind, safe_current]
  split <;> simp +contextual [*]

/-! ## Parameters and lambdas -/

@[simp] theorem safe_attributeUse :
    Safe contract attributeUse (fun _ _ y => y.Below P l) ws x ↔ x.Below P l := by
  simp [attributeUse]

theorem safe_attributes :
    Safe contract attributes (fun _ _ y => y.Below P l) ws x ↔ x.Below P l := by
  simp [attributes]

theorem leads_attributes : Leads contract 1 ws attributes (fun _ => True) := by
  simp [attributes, attributeUse, dottedName, typeArgumentList, argumentList]

@[simp] theorem safe_attributeList :
    Safe contract attributeList (fun _ _ y => y.Below P l) ws x ↔ x.Below P l := by
  simp only [attributeList]
  simp +contextual [ite_and, ite_or]

theorem safe_parameterModifierWords :
    Safe contract parameterModifierWords (fun _ _ y => y.Below P l) ws x ↔ x.Below P l := by
  rw [parameterModifierWords, safe_bind, safe_current]
  split <;> simp [*]

theorem leads_parameterModifierWords :
    Leads contract 0 ws parameterModifierWords (fun _ => True) := by
  rw [parameterModifierWords, leads_bind, leads_current]
  split <;> simp [*, attributeList]

@[simp] theorem safe_parameterModifiers :
    Safe contract parameterModifiers (fun _ _ y => y.Below P l) ws x ↔ x.Below P l := by
  simp [parameterModifiers]

@[simp] theorem safe_parameter :
    Safe contract parameter (fun _ _ y => y.Below P l) ws x ↔ x.Below P l := by
  simp [parameter]

theorem safe_parameters (close : Kind) :
    Safe contract (parameters close) (fun _ _ y => y.Below P l) ws x ↔ x.Below P l := by
  simp [parameters]

theorem leads_parameters (close : Kind) :
    Leads contract 2 ws (parameters close) (fun _ => True) := by
  simp [parameters, parameter, parameterModifiers, type]

@[simp] theorem safe_parameterList :
    Safe contract parameterList (fun _ _ y => y.Below P l) ws x ↔ x.Below P l := by
  simp [parameterList]

@[simp] theorem safe_bracketedParameterList :
    Safe contract bracketedParameterList (fun _ _ y => y.Below P l) ws x ↔ x.Below P l := by
  simp [bracketedParameterList]

@[simp] theorem safe_lambdaParameter :
    Safe contract lambdaParameter (fun _ _ y => y.Below P l) ws x ↔ x.Below P l := by
  simp [lambdaParameter]

theorem safe_lambdaParameters :
    Safe contract lambdaParameters (fun _ _ y => y.Below P l) ws x ↔ x.Below P l := by
  simp [lambdaParameters]

theorem leads_lambdaParameters : Leads contract 2 ws lambdaParameters (fun _ => True) := by
  simp [lambdaParameters, lambdaParameter, parameterModifiers, type]

/-- May a lambda begin with a word of this kind? -/
def startsLambda (k : Kind) : Prop := k = .identifier ∨ k = .lParen ∨ k = .delegateKw

theorem safe_lambdaExpression (h : startsLambda (front ws)) :
    Safe contract lambdaExpression (fun _ _ y => y.Valued P .quiet) ws x.inner ↔ P := by
  simp only [lambdaExpression, lambdaHead]
  obtain h | h | h := h <;> simp +contextual [h]

/-! ## Patterns and switch expressions -/

@[simp] theorem safe_whenClause (h : front ws ≠ .eof) :
    Safe contract whenClause (fun _ _ y => y.Below P l) ws x ↔ x.Below P l := by
  simp [whenClause, h]

theorem safe_primaryPattern :
    Safe contract primaryPattern (fun _ _ y => y.Below P l) ws x ↔ x.Below P l := by
  simp only [primaryPattern]
  simp +contextual

theorem leads_primaryPattern : Leads contract 3 ws primaryPattern (fun _ => True) := by
  simp only [primaryPattern, nameExpression, declarationExpression, type]
  simp +contextual

theorem safe_patternOperators :
    Safe contract patternOperators (fun _ _ y => y.Below P l) ws x ↔ x.Below P l := by
  simp +contextual [patternOperators, ite_or]

theorem leads_patternOperators : Leads contract 0 ws patternOperators (fun _ => True) := by
  simp [patternOperators]

theorem safe_pattern : Safe contract pattern (fun _ _ y => y.Below P l) ws x ↔ x.Below P l := by
  simp [pattern]

theorem leads_pattern : Leads contract 4 ws pattern (fun _ => True) := by
  simp [pattern]

theorem safe_switchArms :
    Safe contract switchArms (fun _ _ y => y.Below P l) ws x ↔ x.Below P l := by
  simp only [switchArms]
  simp +contextual

theorem leads_switchArms : Leads contract 5 ws switchArms (fun _ => True) := by
  simp [switchArms, whenClause, expression]

/-! ## Operands -/

theorem safe_missingOperand :
    Safe contract missingOperand (fun _ _ y => y.Valued P l) ws x ↔ x.Below P l := by
  simp +contextual [missingOperand]
  grind [endsMissingExpression]

theorem safe_nameExpression_valued (h : front ws = .identifier) :
    Safe contract nameExpression (fun _ _ y => y.Valued P l) ws x.inner ↔ P := by
  simp [nameExpression, typeArgumentList, h]

theorem safe_declarationExpression_valued (h : Words.canStartType (front ws) = true) :
    Safe contract declarationExpression (fun _ _ y => y.Valued P l) ws x.inner ↔ P := by
  simp +contextual [declarationExpression, type, h]

theorem safe_identifierOperand (h : front ws = .identifier) :
    Safe contract identifierOperand (fun _ _ y => y.Valued P .quiet) ws x.inner ↔ P := by
  have htype : Words.canStartType (front ws) = true := by simp [h, Words.canStartType]
  simp [identifierOperand, h, prefixed, safe_lambdaExpression (.inl h),
    safe_nameExpression_valued h, safe_declarationExpression_valued htype]

theorem safe_parenOperand (h : front ws = .lParen) :
    Safe contract parenOperand (fun _ _ y => y.Valued P .quiet) ws x.inner ↔ P := by
  simp [parenOperand, h, safe_lambdaExpression (.inr (.inl h))]

theorem safe_operand : Safe contract operand (fun _ _ y => y.Valued P .quiet) ws x.inner ↔ P := by
  rw [operand, safe_bind, safe_current, safe_ite, safe_ite]
  split
  · rename_i h
    simp [single, h]
  split
  · rename_i h
    simp [single, h]
  split <;> rename_i h
  case h_1 | h_2 => simp [single, h]
  case h_3 => simp [safe_newExpression, h]
  case h_4 | h_5 => simp [typeOperator, h]
  case h_6 | h_7 | h_8 | h_9 => simp [h]
  case h_10 => simp [safe_lambdaExpression (.inr (.inr h))]
  case h_21 => simp [safe_identifierOperand h]
  case h_22 => simp [safe_parenOperand h]
  case h_23 => simp [safe_missingOperand]
  all_goals simp [prefixed, h]

/-- An operand either takes a word or is missing. -/
theorem leads_operand : Leads contract 2 ws operand (fun _ => True) := by
  rw [operand, leads_bind, leads_current, leads_ite, leads_ite]
  split
  · simp [single]
  split
  · simp [single]
  split <;> rename_i h
  case h_1 | h_2 => simp [single]
  case h_3 => simp [newExpression]
  case h_4 | h_5 => simp [typeOperator]
  case h_6 | h_7 | h_8 | h_9 => simp
  case h_10 => simp [lambdaExpression, h]
  case h_21 =>
    simp [identifierOperand, lambdaExpression, lambdaHead, declarationExpression, type, prefixed,
      nameExpression, h]
  case h_22 => simp [parenOperand, lambdaExpression, lambdaHead, h]
  case h_23 => simp [missingOperand]
  all_goals simp [prefixed]

/-! ## Operators -/

theorem binding_kind {op : Kind} {b : Binding} (h : binding? op = some b) :
    b.kind = .binaryExpression ∨ b.kind = .assignmentExpression := by
  unfold binding? at h
  split at h
  iterate 19 (cases h; exact .inl rfl)
  split at h <;> cases h
  exact .inr rfl

theorem safe_binaryTail {b : Binding} (h : front ws ≠ .eof)
    (hb : b.kind = .binaryExpression ∨ b.kind = .assignmentExpression) :
    Safe contract (binaryTail b) (fun _ _ y => y.Valued P l) ws x ↔ x.Below P l := by
  obtain hb | hb := hb <;> simp [binaryTail, h, hb]

/-- Every operator makes one value of the value in front of it. -/
theorem safe_operatorStep {power : Nat} {named : Bool} {step : Step Unit}
    (h : operatorStep? power (front ws) named = some step) :
    Safe contract step (fun _ _ y => y.Valued P l) ws x ↔ x.Below P l := by
  unfold operatorStep? at h
  split at h <;> rename_i hop
  case h_1 =>
    cases h
    simp [argumentList, hop]
  case h_2 | h_3 | h_4 =>
    split at h <;> cases h
    simp [hop]
  case h_5 =>
    cases h
    simp [bracketedArgumentList, hop]
  case h_6 | h_7 | h_8 =>
    cases h
    simp [single, hop]
  case h_9 =>
    split at h <;> cases h
    simp [switchTail, hop]
  case h_10 | h_11 =>
    split at h <;> cases h
    simp [typeTestTail, hop]
  case h_12 =>
    split at h <;> cases h
    simp [conditionalTail, hop]
  case h_13 =>
    split at h
    · rename_i b hb
      split at h <;> cases h
      refine safe_binaryTail ?_ (binding_kind hb)
      intro he
      rw [he] at hb
      cases hb
    · cases h

/-- Every operator takes a word at once. -/
theorem leads_operatorStep {power n : Nat} {named : Bool} {step : Step Unit}
    (h : operatorStep? power (front ws) named = some step) :
    Leads contract n ws step (fun _ => False) := by
  unfold operatorStep? at h
  split at h <;> rename_i hop
  case h_1 =>
    cases h
    simp [argumentList, hop]
  case h_2 | h_3 | h_4 =>
    split at h <;> cases h
    simp
  case h_5 =>
    cases h
    simp [bracketedArgumentList, hop]
  case h_6 | h_7 | h_8 =>
    cases h
    simp [single]
  case h_9 | h_10 | h_11 | h_12 =>
    split at h <;> cases h
    simp [switchTail, typeTestTail, conditionalTail]
  case h_13 =>
    split at h
    · split at h <;> cases h
      simp [binaryTail]
    · cases h

theorem safe_operators (power : Nat) (hx : x.shape = .value) :
    Safe contract (operators power) (fun _ _ y => y.Valued P l) ws x ↔ x.Below P l := by
  have hread : ∀ (ws : List Token) (y : Frame),
      Safe contract (read (.operators power)) (fun _ _ y => y.Valued P l) ws y ↔
        y.Valued P l := by
    simp [Frame.Valued]
  rw [operators, safe_bind, safe_current, safe_bind, safe_ahead]
  split
  · simp [Frame.Valued, hx]
  · rename_i step hstep
    simp only [safe_bind, hread]
    exact safe_operatorStep hstep

theorem leads_operators (power : Nat) : Leads contract 0 ws (operators power) (fun _ => True) := by
  rw [operators, leads_bind, leads_current, leads_bind, leads_ahead]
  split
  · trivial
  · rename_i step hstep
    exact (leads_operatorStep hstep).mono fun _ h => h.elim

theorem safe_expressionProduction (power : Nat) (hx : x.Below P l) :
    Safe contract (expressionProduction power)
      (fun _ _ y => y.shape = x.shape.merge .value ∧ y.Below P l) ws x := by
  rw [expressionProduction, safe_bind, safe_skipTrivia, safe_frame, safe_bind]
  refine (safe_operand.mpr hx).mono fun _ ws y hy => ?_
  have hlevel : y.Below (x.Below P l) l := ⟨hx, hy.2.2.trans (Level.quiet_le l)⟩
  simp [hy.1, hlevel]

theorem leads_expressionProduction (power : Nat) :
    Leads contract 2 ws (expressionProduction power) (fun _ => True) := by
  simp [expressionProduction, leads_operand]

end Grammar

end LivePatch
