import LivePatch.Proofs.Grammar.Expressions
import LivePatch.Proofs.Grammar.Neighbours
import LivePatch.Proofs.Losslessness

/-!
# Productions keep names apart

Each production is followed by `Action.Spaced`.
-/

namespace LivePatch.Grammar

open LivePatch.Action (Spaced)

section Steps

variable {α β : Type} {e c q : Bool} {Q : α → Bool → Bool → Prop} {U : Unit → Bool → Bool → Prop}

@[simp ↓] theorem spaced_pure (a : α) : Spaced (pure a : Step α) Q e c q ↔ Q a c q := Iff.rfl

@[simp ↓] theorem spaced_bind (a : Step β) (f : β → Step α) :
    Spaced (a >>= f) Q e c q ↔ Spaced a (fun b c q => Spaced (f b) Q e c q) e c q := Iff.rfl

@[simp ↓] theorem spaced_skipTrivia : Spaced (Action.skipTrivia : Step _) U e c q ↔ U () c q :=
  Iff.rfl

@[simp ↓] theorem spaced_take : Spaced (Action.take : Step _) U e c q ↔ U () true q := Iff.rfl

@[simp ↓] theorem spaced_takeHalf : Spaced (Action.takeHalf : Step _) U e c q ↔ U () true q :=
  Iff.rfl

@[simp ↓] theorem spaced_report (problem : Problem) :
    Spaced (Action.report problem : Step _) U e c q ↔ U () true q := Iff.rfl

@[simp ↓] theorem spaced_missing (what : String) : Spaced (missing what) U e c q ↔ U () true q :=
  Iff.rfl

@[simp ↓] theorem spaced_opening (out : Nat) (k : Kind) :
    Spaced (Action.opening out k : Step _) U e c q ↔ U () c q := Iff.rfl

@[simp ↓] theorem spaced_begins (k : Kind) : Spaced (begins k) U e c q ↔ U () c q := Iff.rfl

@[simp ↓] theorem spaced_enclose (k : Kind) : Spaced (Action.enclose k : Step _) U e c q ↔
    (k = .nameExpression → e = true) ∧ (k = .parenthesizedVariableDesignation → q = true) ∧
      if k = .nameExpression ∨ k = .thisExpression then U () false false else U () c q := Iff.rfl

@[simp ↓] theorem spaced_frame (body : Step α) : Spaced (Action.frame body) Q e c q ↔
    Spaced body (fun a c q' => Q a c (q && q')) c c true := Iff.rfl

@[simp ↓] theorem spaced_call {Q : Bool → Bool → Bool → Prop} (r : Rule) :
    Spaced (Action.call r : Step _) Q e c q ↔
      (r.opens = true → c = true) ∧ ∀ b, Q b (c && r.closes) (q && r.plain) := Iff.rfl

@[simp ↓] theorem spaced_read (r : Rule) : Spaced (read r) U e c q ↔
    (r.opens = true → c = true) ∧ U () (c && r.closes) (q && r.plain) := by
  simp [read]

@[simp ↓] theorem spaced_ite (p : Prop) [Decidable p] (a b : Step α) :
    Spaced (if p then a else b) Q e c q ↔ if p then Spaced a Q e c q else Spaced b Q e c q := by
  split <;> rfl

@[simp ↓] theorem spaced_node (k : Kind) (body : Step Unit) : Spaced (node k body) U e c q ↔
    Spaced body (fun _ c' q' => Spaced (Action.enclose k : Step _)
      (fun _ c' q' => U () c' (q && q')) c c' q') c c true := Iff.rfl

@[simp ↓] theorem spaced_ahead (d : List Token → α) [Scanned d] :
    Spaced (ahead d) Q e c q ↔ ∀ ws, Q (d ws) c q := Iff.rfl

@[simp ↓] theorem spaced_idle {Q : Bool → Bool → Bool → Prop} (body : Step Unit) :
    Spaced (Action.idle body) Q e c q ↔ Spaced body (fun _ c q => ∀ b, Q b c q) e c q := Iff.rfl

@[simp ↓] theorem spaced_current {Q : Kind → Bool → Bool → Prop} :
    Spaced current Q e c q ↔ ∀ k, Q k c q :=
  ⟨fun h k => h [⟨k, ""⟩], fun h ws => h (Words.front ws)⟩

@[simp ↓] theorem spaced_sees {Q : Bool → Bool → Bool → Prop} (k : Kind) :
    Spaced (sees k) Q e c q ↔ Q true c q ∧ Q false c q := by
  simp only [sees, spaced_bind, spaced_current, spaced_pure]
  constructor
  · intro h
    obtain ⟨j, hj⟩ := k.exists_beq_eq_false
    exact ⟨by simpa using h k, by simpa [hj] using h j⟩
  · rintro ⟨ht, hf⟩ j
    cases j == k
    · exact hf
    · exact ht

@[simp ↓] theorem spaced_eat {Q : Bool → Bool → Bool → Prop} (k : Kind) :
    Spaced (eat k) Q e c q ↔ Q true true q ∧ Q false c q := by
  simp [eat]

@[simp ↓] theorem spaced_takeIf (k : Kind) :
    Spaced (takeIf k) U e c q ↔ U () true q ∧ U () c q := by
  simp [takeIf]

/-- Either the word is taken or a problem is found. -/
@[simp ↓] theorem spaced_expect (k : Kind) (what : String) :
    Spaced (expect k what) U e c q ↔ U () true q := by
  simp [expect]

@[simp ↓] theorem spaced_expectIdentifier (what : String) :
    Spaced (expectIdentifier what) U e c q ↔ U () true q :=
  spaced_expect _ what

end Steps

attribute [local simp] Rule.opens Rule.closes Rule.plain seesWord forall_and

section Types

variable {e c q : Bool} {U : Unit → Bool → Bool → Prop}

@[simp] theorem spaced_expectClosingAngle : Spaced expectClosingAngle U e c q ↔ U () true q := by
  simp only [expectClosingAngle, ↓spaced_bind, ↓spaced_current]
  constructor
  · intro h
    exact h .greater
  · intro h k
    split <;> exact h

@[simp] theorem spaced_typeArgumentList : Spaced typeArgumentList U e c q ↔ U () true false := by
  simp [typeArgumentList]

@[simp] theorem spaced_type {Q : Bool → Bool → Bool → Prop} :
    Spaced type Q e true q ↔ ∀ b, Q b true false := by
  simp [type]

theorem spaced_typeArguments : Spaced typeArguments (fun _ c _ => c = true) e true q := by
  simp [typeArguments]

theorem spaced_tupleElements : Spaced tupleElements (fun _ c _ => c = true) e true q := by
  simp [tupleElements]

theorem spaced_typeNameTail : Spaced typeNameTail (fun _ c _ => c = true) e true q := by
  simp [typeNameTail]

theorem spaced_commas : Spaced commas (fun _ c _ => c = true) e true q := by
  simp [commas]

@[simp] theorem spaced_arrayRank : Spaced arrayRank U e c q ↔ U () true false := by
  simp [arrayRank]

theorem spaced_typeSuffixes (inExpression isArray : Bool) :
    Spaced (typeSuffixes inExpression isArray) (fun _ c _ => c = true) e true q := by
  simp [typeSuffixes]

theorem spaced_typeProduction (inExpression : Bool) :
    Spaced (typeProduction inExpression) (fun _ c _ => c = true) e true q := by
  simp [typeProduction, typeHead]

theorem spaced_nameSegments : Spaced nameSegments (fun _ c _ => c = true) e true q := by
  simp [nameSegments]

@[simp] theorem spaced_dottedName : Spaced dottedName U e c q ↔ U () true false := by
  simp [dottedName]

theorem spaced_dottedSegments : Spaced dottedSegments (fun _ c _ => c = true) e true q := by
  simp [dottedSegments]

end Types

section Expressions

variable {e c q : Bool} {U : Unit → Bool → Bool → Prop}

@[simp] theorem spaced_expression : Spaced expression U e true q ↔ U () false false := by
  simp [expression]

@[simp] theorem spaced_parenthesized : Spaced parenthesized U e c q ↔ U () true false := by
  simp [parenthesized]

@[simp] theorem spaced_declarationExpression :
    Spaced declarationExpression U e true q ↔ U () true false := by
  simp [declarationExpression]

theorem spaced_designation :
    Spaced designation (fun _ c q' => c = true ∧ (q = true → q' = true)) e true q := by
  simp [designation]

theorem spaced_designated :
    Spaced designated (fun _ c q' => c = true ∧ (q = true → q' = true)) e true q := by
  simp [designated]

theorem spaced_arguments (close : Kind) :
    Spaced (arguments close) (fun _ _ _ => True) e true q := by
  simp [arguments, argument]

@[simp] theorem spaced_argumentList : Spaced argumentList U e c q ↔ U () true false := by
  simp [argumentList]

@[simp] theorem spaced_bracketedArgumentList :
    Spaced bracketedArgumentList U e c q ↔ U () true false := by
  simp [bracketedArgumentList]

@[simp] theorem spaced_nameExpression :
    Spaced nameExpression U e true q ↔ U () false false := by
  simp [nameExpression]

theorem spaced_moreTupleValues (isTuple : Bool) :
    Spaced (moreTupleValues isTuple) (fun _ _ _ => True) e c q := by
  simp [moreTupleValues, tupleValue]

theorem spaced_initializer : Spaced initializer (fun _ c _ => c = true) e true q := by
  simp [initializer]

theorem spaced_initializerElements :
    Spaced initializerElements (fun _ _ _ => True) e true q := by
  simp only [initializerElements, ↓spaced_bind, ↓spaced_current, ↓spaced_ite, ↓spaced_pure]
  intro k
  split
  · trivial
  · split <;> simp [indexedElement, initialValue]

theorem spaced_arrayRanks : Spaced arrayRanks (fun _ c _ => c = true) e true q := by
  simp [arrayRanks]

theorem spaced_newExpression : Spaced newExpression (fun _ _ _ => True) e c q := by
  simp only [newExpression, ↓spaced_bind, ↓spaced_take, ↓spaced_current]
  intro k
  split <;> simp [optionalInitializer]

/-! ## Parameters and lambdas -/

theorem spaced_attributes : Spaced attributes (fun _ c _ => c = true) e true q := by
  simp [attributes, attributeUse]

@[simp] theorem spaced_attributeList : Spaced attributeList U e c q ↔ U () true false := by
  simp [attributeList]

theorem spaced_parameterModifierWords :
    Spaced parameterModifierWords (fun _ c _ => c = true) e true q := by
  simp only [parameterModifierWords, ↓spaced_bind, ↓spaced_current]
  intro k
  split <;> simp

@[simp] theorem spaced_parameterModifiers :
    Spaced parameterModifiers U e true q ↔ U () true false := by
  simp [parameterModifiers]

theorem spaced_parameters (close : Kind) :
    Spaced (parameters close) (fun _ _ _ => True) e true q := by
  simp [parameters, parameter]

@[simp] theorem spaced_parameterList : Spaced parameterList U e c q ↔ U () true false := by
  simp [parameterList]

@[simp] theorem spaced_bracketedParameterList :
    Spaced bracketedParameterList U e c q ↔ U () true false := by
  simp [bracketedParameterList]

theorem spaced_lambdaParameters :
    Spaced lambdaParameters (fun _ c _ => c = true) e true q := by
  simp [lambdaParameters, lambdaParameter]

theorem spaced_lambdaExpression : Spaced lambdaExpression (fun _ _ _ => True) e true q := by
  simp [lambdaExpression, lambdaHead]

/-! ## Patterns and switch expressions -/

@[simp] theorem spaced_whenClause : Spaced whenClause U e c q ↔ U () false false := by
  simp [whenClause]

theorem spaced_primaryPattern : Spaced primaryPattern (fun _ _ _ => True) e true q := by
  simp [primaryPattern]

theorem spaced_patternOperators : Spaced patternOperators (fun _ _ _ => True) e c q := by
  simp [patternOperators]

theorem spaced_pattern : Spaced pattern (fun _ _ _ => True) e true q := by
  simp [pattern]

theorem spaced_switchArms : Spaced switchArms (fun _ _ _ => True) e true q := by
  simp [switchArms]

/-! ## Operands and operators -/

theorem spaced_operand : Spaced operand (fun _ _ _ => True) e true q := by
  simp only [operand, ↓spaced_bind, ↓spaced_current, ↓spaced_ite]
  intro k
  split
  · simp [single]
  split
  · simp [single]
  split
  case h_3 => exact spaced_newExpression
  case h_10 => exact spaced_lambdaExpression
  case h_21 => simp [identifierOperand, spaced_lambdaExpression, prefixed]
  case h_22 => simp [parenOperand, spaced_lambdaExpression, tupleValue]
  all_goals simp [single, typeOperator, prefixed, missingOperand]

/-- Every operator starts with a word of its own. -/
theorem spaced_operatorStep {power : Nat} {op : Kind} {named : Bool} {step : Step Unit}
    (h : operatorStep? power op named = some step) : Spaced step (fun _ _ _ => True) e c q := by
  unfold operatorStep? at h
  split at h
  case h_13 =>
    split at h
    · rename_i b hb
      split at h <;> cases h
      obtain hb | hb := binding_kind hb <;> simp [binaryTail, hb]
    · cases h
  case h_1 | h_5 | h_6 | h_7 | h_8 =>
    cases h
    simp [single]
  all_goals
    split at h <;> cases h
    simp [switchTail, typeTestTail, conditionalTail]

theorem spaced_operators (power : Nat) : Spaced (operators power) (fun _ _ _ => True) e c q := by
  simp only [operators, ↓spaced_bind, ↓spaced_current, ↓spaced_ahead]
  intro op ws
  split
  · trivial
  · rename_i step hstep
    simpa using spaced_operatorStep hstep

theorem spaced_expressionProduction (power : Nat) :
    Spaced (expressionProduction power) (fun _ _ _ => True) e true q := by
  simp [expressionProduction, spaced_operand]

end Expressions

/-! ## Statements -/

section Statements

variable {e c q : Bool} {U : Unit → Bool → Bool → Prop}

theorem spaced_moreDeclarators : Spaced moreDeclarators (fun _ _ _ => True) e c q := by
  simp [moreDeclarators, declarator, initialValue]

@[simp] theorem spaced_declaratorList : Spaced declaratorList U e true q ↔ U () false false := by
  simp [declaratorList, declarator, initialValue]

@[simp] theorem spaced_variableDeclaration :
    Spaced variableDeclaration U e true q ↔ U () false false := by
  simp [variableDeclaration]

@[simp] theorem spaced_arrowClause : Spaced arrowClause U e c q ↔ U () false false := by
  simp [arrowClause]

@[simp] theorem spaced_functionBody :
    Spaced functionBody U e true false ↔ U () true false := by
  simp only [functionBody, ↓spaced_bind, ↓spaced_current]
  constructor
  · intro h
    simpa using h .lBrace
  · intro h k
    split <;> simpa using h

@[simp] theorem spaced_ensureProgress (what : String) (body : Step Unit) :
    Spaced (ensureProgress what body) (fun _ c _ => c = true) e true q ↔
      Spaced body (fun _ c _ => c = true) e true q := by
  simp [ensureProgress]

theorem spaced_statements : Spaced statements (fun _ c _ => c = true) e true q := by
  simp [statements]

theorem spaced_block : Spaced block (fun _ c _ => c = true) e true q := by
  simp [block]

@[simp] theorem spaced_embeddedStatement :
    Spaced embeddedStatement U e true false ↔ U () true false := by
  simp [embeddedStatement]

theorem spaced_attributeLists : Spaced attributeLists (fun _ c _ => c = true) e true q := by
  simp [attributeLists]

theorem spaced_typeParameters : Spaced typeParameters (fun _ c _ => c = true) e true q := by
  simp [typeParameters, typeParameter]

@[simp] theorem spaced_typeParameterList : Spaced typeParameterList U e c q ↔ U () true false := by
  simp [typeParameterList]

theorem spaced_constraints : Spaced constraints (fun _ c _ => c = true) e true q := by
  simp only [constraints, constraint, ↓spaced_bind, ↓spaced_current]
  intro k
  split <;> simp

theorem spaced_constraintClauses :
    Spaced constraintClauses (fun _ c _ => c = true) e true q := by
  simp [constraintClauses, constraintClause]

@[simp] theorem spaced_functionRest : Spaced functionRest U e true q ↔ U () true false := by
  simp [functionRest, optionalTypeParameters]

theorem spaced_expressionList : Spaced expressionList (fun _ _ _ => True) e true q := by
  simp [expressionList]

theorem spaced_switchLabels : Spaced switchLabels (fun _ c _ => c = true) e true q := by
  simp [switchLabels, switchLabel]

theorem spaced_sectionStatements :
    Spaced sectionStatements (fun _ c _ => c = true) e true q := by
  simp [sectionStatements]

theorem spaced_switchSections : Spaced switchSections (fun _ c _ => c = true) e true q := by
  simp [switchSections, switchSection]

theorem spaced_catchClauses : Spaced catchClauses (fun _ c _ => c = true) e true q := by
  simp [catchClauses, catchDeclaration]

theorem spaced_localModifierWords :
    Spaced localModifierWords (fun _ c _ => c = true) e true q := by
  simp [localModifierWords]

theorem spaced_plainStatement : Spaced plainStatement (fun _ c _ => c = true) e true q := by
  simp only [plainStatement, ↓spaced_bind, ↓spaced_ahead]
  intro ws
  split <;> simp [localModifiers]

theorem spaced_gotoStatement : Spaced gotoStatement (fun _ c _ => c = true) e c q := by
  simp only [gotoStatement, ↓spaced_bind, ↓spaced_take, ↓spaced_current]
  intro k
  split <;> simp

theorem spaced_statementBody : Spaced statementBody (fun _ c _ => c = true) e true q := by
  simp only [statementBody, ↓spaced_bind, ↓spaced_current]
  intro k
  split
  case h_17 => exact spaced_gotoStatement
  all_goals simp [single, identifierStatement, labeledStatement, embeddedStatement, yieldStatement,
    spaced_plainStatement, ifStatement, switchStatement, forStatement, forHeader, foreachStatement,
    conditionStatement, doStatement, usingStatement, tryStatement, valueStatement, jumpStatement,
    blockStatement]

theorem spaced_statement : Spaced statement (fun _ c _ => c = true) e true q := by
  simpa [statement] using spaced_statementBody

end Statements

/-! ## Declarations -/

section Declarations

variable {e c q : Bool} {U : Unit → Bool → Bool → Prop}

theorem spaced_modifierWords : Spaced modifierWords (fun _ c _ => c = true) e true q := by
  simp [modifierWords]

@[simp] theorem spaced_modifiers : Spaced modifiers U e true q ↔ U () true false := by
  simp [modifiers]

theorem spaced_baseTypes : Spaced baseTypes (fun _ c _ => c = true) e true q := by
  simp [baseTypes]

theorem spaced_typeMembers : Spaced typeMembers (fun _ c _ => c = true) e true q := by
  simp [typeMembers]

theorem spaced_enumMembers : Spaced enumMembers (fun _ _ _ => True) e true q := by
  simp [enumMembers, enumMember]

theorem spaced_typeWithMembers {k : Kind} (hk : k ≠ .nameExpression ∧ k ≠ .thisExpression ∧
    k ≠ .parenthesizedVariableDesignation) :
    Spaced (typeWithMembers k) (fun _ c _ => c = true) e true q := by
  simp [typeWithMembers, optionalTypeParameters, optionalBaseList, typeBody, hk]

theorem spaced_missingDeclaration :
    Spaced missingDeclaration (fun _ c _ => c = true) e c q := by
  simp [missingDeclaration]

theorem spaced_declaredType : Spaced declaredType (fun _ c _ => c = true) e true q := by
  simp only [declaredType, ↓spaced_bind, ↓spaced_current]
  intro k
  split <;> simp [spaced_typeWithMembers, spaced_missingDeclaration, enumDeclaration,
    delegateDeclaration, optionalTypeParameters, optionalBaseList, single]

theorem spaced_typeDeclaration : Spaced typeDeclaration (fun _ c _ => c = true) e true q := by
  simp [typeDeclaration]

theorem spaced_skipTo (boundary : Boundary) :
    Spaced (skipTo boundary) (fun _ c _ => c = true) e true q := by
  simp [skipTo]

theorem spaced_brokenMember (problem : Problem) :
    Spaced (brokenMember problem) (fun _ c _ => c = true) e c q := by
  simp [brokenMember, skipToMember]

theorem spaced_accessors : Spaced accessors (fun _ c _ => c = true) e true q := by
  simp [accessors]

@[simp] theorem spaced_accessorList : Spaced accessorList U e c q ↔ U () true false := by
  simp [accessorList]

@[simp] theorem spaced_propertyBody : Spaced propertyBody U e true q ↔ U () true false := by
  simp [propertyBody, initialValue]

theorem spaced_namedMember : Spaced namedMember (fun _ c _ => c = true) e c q := by
  simp only [namedMember, ↓spaced_bind, ↓spaced_take, ↓spaced_read, ↓spaced_current]
  refine ⟨fun _ => trivial, fun k => ?_⟩
  split <;> simp [spaced_brokenMember]

theorem spaced_typedMember : Spaced typedMember (fun _ c _ => c = true) e true q := by
  simp only [typedMember, ↓spaced_bind, ↓spaced_skipTrivia, ↓spaced_frame, ↓spaced_type,
    ↓spaced_ahead, ↓spaced_ite]
  intro b ws
  split
  · simp
  · simp only [↓spaced_pure, Bool.false_eq_true, if_false, ↓spaced_current]
    intro k
    split <;> simp [spaced_namedMember, spaced_brokenMember, operatorDeclaration, indexerDeclaration]

theorem spaced_declaredMember : Spaced declaredMember (fun _ c _ => c = true) e true false := by
  simp only [declaredMember, ↓spaced_bind, ↓spaced_current]
  intro k
  split <;> simp [single, eventDeclaration, destructorDeclaration, conversionOperator,
    constructorDeclaration, constructorInitializer, spaced_typedMember, spaced_brokenMember]

theorem spaced_member : Spaced member (fun _ c _ => c = true) e true q := by
  simpa [member] using spaced_declaredMember

theorem spaced_namespaceDeclaration :
    Spaced namespaceDeclaration (fun _ c _ => c = true) e true q := by
  simp [namespaceDeclaration]

theorem spaced_namespaceMembers (braced : Bool) :
    Spaced (namespaceMembers braced) (fun _ c _ => c = true) e true q := by
  simp [namespaceMembers, usingDirective, misplacedWords]

end Declarations

/-! ## The whole grammar -/

theorem spaced_production (r : Rule) {e c q : Bool} (hc : r.opens = true → c = true) :
    Spaced (production r)
      (fun _ c' q' => (c && r.closes → c') ∧ (q && r.plain → q')) e c q := by
  cases r <;> simp [-Bool.forall_bool] at hc
  all_goals try subst hc
  all_goals simp [production, silently,
    spaced_namespaceMembers, spaced_namespaceDeclaration, spaced_typeDeclaration,
    spaced_skipTo, spaced_declaredType, spaced_typeParameters, spaced_attributeLists,
    spaced_baseTypes, spaced_constraintClauses, spaced_constraints, spaced_enumMembers,
    spaced_typeMembers, spaced_member, spaced_dottedSegments, spaced_accessors,
    spaced_modifierWords, spaced_attributes, spaced_nameSegments, spaced_parameters,
    spaced_parameterModifierWords, spaced_arguments, spaced_designation, spaced_designated,
    spaced_block, spaced_statements, spaced_statement, spaced_localModifierWords,
    spaced_moreDeclarators, spaced_switchSections, spaced_switchLabels,
    spaced_sectionStatements, spaced_expressionList, spaced_catchClauses,
    spaced_typeProduction, spaced_tupleElements, spaced_typeNameTail, spaced_typeSuffixes,
    spaced_commas, spaced_typeArguments, spaced_expressionProduction, spaced_operators,
    spaced_moreTupleValues, spaced_arrayRanks, spaced_initializer, spaced_initializerElements,
    spaced_lambdaParameters, spaced_switchArms, spaced_pattern, spaced_patternOperators,
    spaced_primaryPattern]

theorem spaced_compilationUnit :
    Spaced compilationUnit (fun _ c _ => c = true) true true true := by
  simp [compilationUnit]

end LivePatch.Grammar

namespace LivePatch

open LivePatch.Tree (marks)

theorem ReadState.marked_start (ts : List Token) : (start ts).Marked .other true true true := by
  refine ⟨separate_gaps_trivia ts, ?_, fun _ _ => .inl rfl, fun _ => List.isChain_singleton _,
    fun _ _ => .inl rfl, nofun, List.forall_mem_nil _⟩
  intro w hw
  rw [show (start ts).words = _ from separate_words ts] at hw
  simpa [Token.isSignificant] using (List.mem_filter.mp hw).2

/-- **The words of a source file.**  Designations hold bare words; and if the text has no problem,
no name stands right behind a name or `this`. -/
theorem marked_parse (source : String) : (parse source).tree.Designates ∧
    ((parse source).isClean = true → (parse source).tree.marks.IsChain Mark.Precedes) := by
  have hkeeps := Action.keeps_runRule
    (fun r e c q => Grammar.spaced_production r (e := e) (c := c) (q := q))
    (Grammar.callDepth (ReadState.start (lex source)).words)
  obtain ⟨-, c, q, -, hlast⟩ := Action.Spaced.run hkeeps Grammar.compilationUnit
    (ReadState.marked_start (lex source)) Grammar.spaced_compilationUnit
  unfold parse Grammar.readWhole
  dsimp only
  generalize (Grammar.compilationUnit.run _ _).2 = last at hlast
  cases hbuilt : last.built with
  | nil => exact ⟨.node nofun (List.forall_mem_nil _), fun _ => by simp [List.headD, marks]⟩
  | cons t ts =>
    refine ⟨hlast.designates t (by simp [hbuilt]), fun hclean => ?_⟩
    have hfound : last.found = [] := by
      have hempty := List.isEmpty_iff.mp hclean
      simpa using (List.append_eq_nil_iff.mp hempty).2
    have hchain := hlast.chain hfound
    rw [ReadState.marks, hbuilt, List.reverse_cons, Tree.marksAll_append] at hchain
    have htail := (Mark.isChain_append.mp hchain).2.tail
    simpa using htail

end LivePatch
