import LivePatch.Proofs.Builder
import LivePatch.Syntax.Grammar

/-!
# The grammar is balanced

Each production finishes the nodes that it opens and no others, and in the order in which a builder
needs it.
-/

namespace LivePatch.Grammar

open LivePatch.Action (Opened Balanced StartOutside inward outward)

/-! ## Small steps -/

section

variable {α β : Type} {frames : Nat} {opened : List Opened} {Q : α → List Opened → Prop}
  {U : Unit → List Opened → Prop}

@[simp] theorem outward_nil : outward [] = [] := rfl

@[simp] theorem outward_cons (n : Opened) (opened : List Opened) :
    outward (n :: opened) = (n.1 + 1, n.2) :: outward opened := rfl

@[simp] theorem inward_nil : inward [] = [] := rfl

@[simp] theorem startOutside_nil : StartOutside [] := List.forall_mem_nil _

@[simp] theorem inward_outward (opened : List Opened) : inward (outward opened) = opened := by
  rw [inward, outward, List.map_map]
  exact List.map_id opened

@[simp] theorem startOutside_outward (opened : List Opened) : StartOutside (outward opened) := by
  intro n hn
  obtain ⟨m, -, rfl⟩ := List.mem_map.mp hn
  exact Nat.succ_pos m.1

@[simp] theorem startOutside_cons (n : Opened) (opened : List Opened) :
    StartOutside (n :: opened) ↔ 1 ≤ n.1 ∧ StartOutside opened := List.forall_mem_cons

@[simp] theorem inward_cons (n : Opened) (opened : List Opened) :
    inward (n :: opened) = (n.1 - 1, n.2) :: inward opened := rfl

@[simp ↓] theorem balanced_pure (v : α) :
    Balanced frames (pure v : Step α) Q opened ↔ Q v opened := Iff.rfl

@[simp ↓] theorem balanced_bind (a : Step β) (f : β → Step α) :
    Balanced frames (a >>= f) Q opened ↔
      Balanced frames a (fun b opened => Balanced frames (f b) Q opened) opened := Iff.rfl

@[simp ↓] theorem balanced_skipTrivia :
    Balanced frames (Action.skipTrivia : Step _) U opened ↔ U () opened := Iff.rfl

@[simp ↓] theorem balanced_take :
    Balanced frames (Action.take : Step _) U opened ↔ U () opened := Iff.rfl

@[simp ↓] theorem balanced_takeHalf :
    Balanced frames (Action.takeHalf : Step _) U opened ↔ U () opened := Iff.rfl

@[simp ↓] theorem balanced_report (problem : Problem) :
    Balanced frames (Action.report problem : Step _) U opened ↔ U () opened := Iff.rfl

@[simp ↓] theorem balanced_missing (what : String) :
    Balanced frames (missing what) U opened ↔ U () opened := Iff.rfl

@[simp ↓] theorem balanced_begins (k : Kind) :
    Balanced (frames + 1) (begins k) U opened ↔ U () ((0, k) :: opened) := by
  show _ ∧ _ ∧ _ ↔ _
  simp

@[simp ↓] theorem balanced_opening_one (k : Kind) :
    Balanced (frames + 1 + 1) (Action.opening 1 k : Step _) U (outward opened) ↔
      U () ((1, k) :: outward opened) := by
  have hhead : ∀ n ∈ (outward opened).head?, 1 ≤ n.1 :=
    fun n hn => startOutside_outward opened n (List.mem_of_mem_head? hn)
  exact ⟨fun h => h.2.2, fun h => ⟨Nat.lt_add_of_pos_left (Nat.succ_pos frames), hhead, h⟩⟩

@[simp ↓] theorem balanced_enclose (k : Kind) :
    Balanced frames (Action.enclose k : Step _) U opened ↔
      ∃ rest, opened = (0, k) :: rest ∧ U () rest := Iff.rfl

@[simp ↓] theorem balanced_frame (body : Step α) :
    Balanced frames (Action.frame body) Q opened ↔
      Balanced (frames + 1) body
        (fun a opened => StartOutside opened ∧ Q a (inward opened)) (outward opened) := Iff.rfl

@[simp ↓] theorem balanced_call {Q : Bool → List Opened → Prop} (r : Rule) :
    Balanced frames (Action.call r : Step _) Q opened ↔ ∀ b, Q b opened := Iff.rfl

@[simp ↓] theorem balanced_read (r : Rule) :
    Balanced frames (read r) U opened ↔ U () opened := by
  simp [read]

@[simp ↓] theorem balanced_ite (p : Prop) [Decidable p] (a b : Step α) :
    Balanced frames (if p then a else b) Q opened ↔
      if p then Balanced frames a Q opened else Balanced frames b Q opened := by
  split <;> rfl

@[simp ↓] theorem balanced_node (k : Kind) (body : Step Unit) :
    Balanced (frames + 1) (node k body) U opened ↔
      Balanced (frames + 1 + 1) body (fun _ opened => ∃ rest, opened = (0, k) :: rest ∧
        StartOutside rest ∧ U () (inward rest)) ((0, k) :: outward opened) := by
  simp only [node, ↓balanced_frame, ↓balanced_bind, ↓balanced_begins, ↓balanced_enclose]

@[simp ↓] theorem balanced_ahead (d : List Token → α) [Scanned d] :
    Balanced frames (ahead d) Q opened ↔ ∀ ws, Q (d ws) opened := Iff.rfl

@[simp ↓] theorem balanced_idle {Q : Bool → List Opened → Prop} (body : Step Unit) :
    Balanced frames (Action.idle body) Q opened ↔
      Balanced frames body (fun _ opened => ∀ b, Q b opened) opened := Iff.rfl

@[simp ↓] theorem balanced_current {Q : Kind → List Opened → Prop} :
    Balanced frames current Q opened ↔ ∀ k, Q k opened :=
  ⟨fun h k => h [⟨k, ""⟩], fun h ws => h (Words.front ws)⟩

@[simp ↓] theorem balanced_sees {Q : Bool → List Opened → Prop} (k : Kind) :
    Balanced frames (sees k) Q opened ↔ Q true opened ∧ Q false opened := by
  simp only [sees, ↓balanced_bind, ↓balanced_current, ↓balanced_pure]
  refine ⟨fun h => ⟨by simpa using h k, ?_⟩, fun h j => ?_⟩
  · obtain ⟨j, hj⟩ := k.exists_beq_eq_false
    exact hj ▸ h j
  · cases j == k
    exacts [h.2, h.1]

@[simp ↓] theorem balanced_eat {Q : Bool → List Opened → Prop} (k : Kind) :
    Balanced frames (eat k) Q opened ↔ Q true opened ∧ Q false opened := by
  simp [eat]

@[simp ↓] theorem balanced_takeIf (k : Kind) :
    Balanced frames (takeIf k) U opened ↔ U () opened := by
  simp [takeIf]

@[simp ↓] theorem balanced_expect (k : Kind) (what : String) :
    Balanced frames (expect k what) U opened ↔ U () opened := by
  simp [expect]

@[simp ↓] theorem balanced_expectIdentifier (what : String) :
    Balanced frames (expectIdentifier what) U opened ↔ U () opened :=
  balanced_expect _ what

end

attribute [local simp] seesWord forall_and

variable {frames : Nat} {opened : List Opened} {U : Unit → List Opened → Prop}
  {Q : Bool → List Opened → Prop} {P : List Opened → Prop}

theorem balanced_ensureProgress (what : String) (body : Step Unit) :
    Balanced (frames + 1) (ensureProgress what body) U opened ↔
      Balanced (frames + 1) body U opened := by
  simp [ensureProgress]

@[simp] theorem balanced_expectClosingAngle :
    Balanced frames expectClosingAngle U opened ↔ U () opened := by
  simp only [expectClosingAngle, ↓balanced_bind, ↓balanced_current]
  refine ⟨fun h => h .greater, fun h k => ?_⟩
  split <;> simpa using h

/-! ## Types -/

@[simp] theorem balanced_type :
    Balanced frames type Q opened ↔ ∀ b, Q b opened := by
  simp [type]

@[simp] theorem balanced_typeArgumentList :
    Balanced (frames + 1) typeArgumentList U opened ↔ U () opened := by
  simp [typeArgumentList]

theorem balanced_typeArguments :
    Balanced (frames + 1) typeArguments U opened ↔ U () opened := by
  simp [typeArguments]

theorem balanced_tupleElements :
    Balanced (frames + 1) tupleElements U opened ↔ U () opened := by
  simp [tupleElements]

theorem balanced_typeNameTail :
    Balanced (frames + 1) typeNameTail U opened ↔ U () opened := by
  simp [typeNameTail]

@[simp] theorem balanced_typeHead :
    Balanced (frames + 1) typeHead U opened ↔ U () opened := by
  simp [typeHead]

theorem balanced_commas :
    Balanced (frames + 1) commas U opened ↔ U () opened := by
  simp [commas]

@[simp] theorem balanced_arrayRank :
    Balanced (frames + 1) arrayRank U opened ↔ U () opened := by
  simp [arrayRank]

theorem balanced_typeSuffixes (inExpression isArray : Bool) :
    Balanced (frames + 1) (typeSuffixes inExpression isArray) (fun _ => P) opened ↔
      P opened := by
  simp [typeSuffixes]

theorem balanced_typeProduction (inExpression : Bool) :
    Balanced (frames + 1) (typeProduction inExpression) (fun _ => P) opened ↔ P opened := by
  simp [typeProduction]

theorem balanced_nameSegments :
    Balanced (frames + 1) nameSegments U opened ↔ U () opened := by
  simp [nameSegments]

@[simp] theorem balanced_dottedName :
    Balanced (frames + 1) dottedName U opened ↔ U () opened := by
  simp [dottedName]

theorem balanced_dottedSegments :
    Balanced (frames + 1) dottedSegments U opened ↔ U () opened := by
  simp [dottedSegments]

/-! ## Expressions -/

@[simp] theorem balanced_expression :
    Balanced (frames + 1) expression U opened ↔ U () opened := by
  simp [expression]

@[simp] theorem balanced_parenthesized :
    Balanced (frames + 1) parenthesized U opened ↔ U () opened := by
  simp [parenthesized]

@[simp] theorem balanced_declarationExpression :
    Balanced (frames + 1) declarationExpression U opened ↔ U () opened := by
  simp [declarationExpression]

theorem balanced_designation :
    Balanced (frames + 1) designation U opened ↔ U () opened := by
  simp [designation]

theorem balanced_designated :
    Balanced (frames + 1) designated U opened ↔ U () opened := by
  simp [designated]

@[simp] theorem balanced_argument :
    Balanced (frames + 1) argument U opened ↔ U () opened := by
  simp [argument]

theorem balanced_arguments (close : Kind) :
    Balanced (frames + 1) (arguments close) U opened ↔ U () opened := by
  simp [arguments]

@[simp] theorem balanced_argumentList :
    Balanced (frames + 1) argumentList U opened ↔ U () opened := by
  simp [argumentList]

@[simp] theorem balanced_bracketedArgumentList :
    Balanced (frames + 1) bracketedArgumentList U opened ↔ U () opened := by
  simp [bracketedArgumentList]

@[simp] theorem balanced_nameExpression :
    Balanced (frames + 1) nameExpression U opened ↔ U () opened := by
  simp [nameExpression]

@[simp] theorem balanced_tupleValue :
    Balanced (frames + 1) tupleValue U opened ↔ U () opened := by
  simp [tupleValue]

theorem balanced_moreTupleValues (isTuple : Bool) :
    Balanced (frames + 1) (moreTupleValues isTuple) (fun _ => P) opened ↔ P opened := by
  simp [moreTupleValues]

@[simp] theorem balanced_initialValue :
    Balanced (frames + 1) initialValue U opened ↔ U () opened := by
  simp [initialValue]

theorem balanced_initializer :
    Balanced (frames + 1) initializer U opened ↔ U () opened := by
  simp [initializer]

@[simp] theorem balanced_indexedElement :
    Balanced (frames + 1) indexedElement U opened ↔ U () opened := by
  simp [indexedElement]

theorem balanced_initializerElements :
    Balanced (frames + 1) initializerElements U opened ↔ U () opened := by
  simp only [initializerElements, ↓balanced_bind, ↓balanced_current, ↓balanced_ite]
  refine (forall_congr' fun k => ?_).trans (forall_const Kind)
  split
  · rfl
  · split <;> simp

theorem balanced_arrayRanks :
    Balanced (frames + 1) arrayRanks U opened ↔ U () opened := by
  simp [arrayRanks]

@[simp] theorem balanced_optionalInitializer :
    Balanced (frames + 1) optionalInitializer U opened ↔ U () opened := by
  simp [optionalInitializer]

@[simp] theorem balanced_newExpression :
    Balanced (frames + 1) newExpression U opened ↔ U () opened := by
  simp only [newExpression, ↓balanced_bind, ↓balanced_current]
  refine (forall_congr' fun k => ?_).trans (forall_const Kind)
  split <;> simp

@[simp] theorem balanced_attributeUse :
    Balanced (frames + 1) attributeUse U opened ↔ U () opened := by
  simp [attributeUse]

theorem balanced_attributes :
    Balanced (frames + 1) attributes U opened ↔ U () opened := by
  simp [attributes]

@[simp] theorem balanced_attributeList :
    Balanced (frames + 1) attributeList U opened ↔ U () opened := by
  simp [attributeList]

theorem balanced_parameterModifierWords :
    Balanced (frames + 1) parameterModifierWords U opened ↔ U () opened := by
  simp only [parameterModifierWords, ↓balanced_bind, ↓balanced_current]
  refine (forall_congr' fun k => ?_).trans (forall_const Kind)
  split <;> simp

@[simp] theorem balanced_parameterModifiers :
    Balanced (frames + 1) parameterModifiers U opened ↔ U () opened := by
  simp [parameterModifiers]

@[simp] theorem balanced_parameter :
    Balanced (frames + 1) parameter U opened ↔ U () opened := by
  simp [parameter]

theorem balanced_parameters (close : Kind) :
    Balanced (frames + 1) (parameters close) U opened ↔ U () opened := by
  simp [parameters]

@[simp] theorem balanced_parameterList :
    Balanced (frames + 1) parameterList U opened ↔ U () opened := by
  simp [parameterList]

@[simp] theorem balanced_bracketedParameterList :
    Balanced (frames + 1) bracketedParameterList U opened ↔ U () opened := by
  simp [bracketedParameterList]

@[simp] theorem balanced_lambdaParameter :
    Balanced (frames + 1) lambdaParameter U opened ↔ U () opened := by
  simp [lambdaParameter]

theorem balanced_lambdaParameters :
    Balanced (frames + 1) lambdaParameters U opened ↔ U () opened := by
  simp [lambdaParameters]

@[simp] theorem balanced_lambdaHead :
    Balanced (frames + 1) lambdaHead U opened ↔ U () opened := by
  simp [lambdaHead]

@[simp] theorem balanced_lambdaExpression :
    Balanced (frames + 1) lambdaExpression U opened ↔ U () opened := by
  simp [lambdaExpression]

@[simp] theorem balanced_whenClause :
    Balanced (frames + 1) whenClause U opened ↔ U () opened := by
  simp [whenClause]

theorem balanced_primaryPattern :
    Balanced (frames + 1) primaryPattern U opened ↔ U () opened := by
  simp [primaryPattern]

theorem balanced_patternOperators :
    Balanced (frames + 1) patternOperators U opened ↔ U () opened := by
  simp [patternOperators]

theorem balanced_pattern :
    Balanced (frames + 1) pattern U opened ↔ U () opened := by
  simp [pattern]

theorem balanced_switchArms :
    Balanced (frames + 1) switchArms U opened ↔ U () opened := by
  simp [switchArms]

@[simp] theorem balanced_switchTail :
    Balanced (frames + 1) switchTail U opened ↔ U () opened := by
  simp [switchTail]

@[simp] theorem balanced_single (kind : Kind) :
    Balanced (frames + 1) (single kind) U opened ↔ U () opened := by
  simp [single]

@[simp] theorem balanced_prefixed (kind : Kind) :
    Balanced (frames + 1) (prefixed kind) U opened ↔ U () opened := by
  simp [prefixed]

@[simp] theorem balanced_typeOperator (kind : Kind) :
    Balanced (frames + 1) (typeOperator kind) U opened ↔ U () opened := by
  simp [typeOperator]

@[simp] theorem balanced_identifierOperand :
    Balanced (frames + 1) identifierOperand U opened ↔ U () opened := by
  simp [identifierOperand]

@[simp] theorem balanced_parenOperand :
    Balanced (frames + 1) parenOperand U opened ↔ U () opened := by
  simp [parenOperand]

@[simp] theorem balanced_missingOperand :
    Balanced (frames + 1) missingOperand U opened ↔ U () opened := by
  simp [missingOperand]

@[simp] theorem balanced_operand :
    Balanced (frames + 1) operand U opened ↔ U () opened := by
  simp only [operand, ↓balanced_bind, ↓balanced_current, ↓balanced_ite]
  refine (forall_congr' fun k => ?_).trans (forall_const Kind)
  split
  · simp
  · split
    · simp
    · split <;> simp

@[simp] theorem balanced_binaryTail (b : Binding) :
    Balanced (frames + 1) (binaryTail b) U opened ↔ U () opened := by
  simp [binaryTail]

@[simp] theorem balanced_conditionalTail :
    Balanced (frames + 1) conditionalTail U opened ↔ U () opened := by
  simp [conditionalTail]

@[simp] theorem balanced_typeTestTail (op : Kind) :
    Balanced (frames + 1) (typeTestTail op) U opened ↔ U () opened := by
  simp [typeTestTail]

theorem balanced_operatorStep {power : Nat} {op : Kind} {named : Bool} {step : Step Unit}
    (h : operatorStep? power op named = some step) :
    Balanced (frames + 1) step U opened ↔ U () opened := by
  unfold operatorStep? at h
  split at h
  case h_13 =>
    split at h
    · split at h <;> cases h
      simp
    · cases h
  case h_1 | h_5 | h_6 | h_7 | h_8 =>
    cases h
    simp
  all_goals
    split at h <;> cases h
    simp

theorem balanced_operators (power : Nat) :
    Balanced (frames + 1) (operators power) U opened ↔ U () opened := by
  simp only [operators, ↓balanced_bind, ↓balanced_current, ↓balanced_ahead]
  refine (forall_congr' fun op => forall_congr' fun ws => ?_).trans
    ((forall_const Kind).trans (forall_const (List Token)))
  split
  · rfl
  · rename_i step h
    rw [balanced_bind, balanced_operatorStep h, balanced_read]

theorem balanced_expressionProduction (power : Nat) :
    Balanced (frames + 1) (expressionProduction power) U opened ↔ U () opened := by
  simp [expressionProduction]

/-! ## Statements -/

@[simp] theorem balanced_declarator :
    Balanced (frames + 1) declarator U opened ↔ U () opened := by
  simp [declarator]

theorem balanced_moreDeclarators :
    Balanced (frames + 1) moreDeclarators U opened ↔ U () opened := by
  simp [moreDeclarators]

@[simp] theorem balanced_declaratorList :
    Balanced (frames + 1) declaratorList U opened ↔ U () opened := by
  simp [declaratorList]

@[simp] theorem balanced_variableDeclaration :
    Balanced (frames + 1) variableDeclaration U opened ↔ U () opened := by
  simp [variableDeclaration]

@[simp] theorem balanced_arrowClause :
    Balanced (frames + 1) arrowClause U opened ↔ U () opened := by
  simp [arrowClause]

@[simp] theorem balanced_functionBody :
    Balanced (frames + 1) functionBody U opened ↔ U () opened := by
  simp only [functionBody, ↓balanced_bind, ↓balanced_current]
  refine (forall_congr' fun k => ?_).trans (forall_const Kind)
  split <;> simp

theorem balanced_statements :
    Balanced (frames + 1) statements U opened ↔ U () opened := by
  simp [statements, balanced_ensureProgress]

theorem balanced_block :
    Balanced (frames + 1) block U opened ↔ U () opened := by
  simp [block]

@[simp] theorem balanced_embeddedStatement :
    Balanced (frames + 1) embeddedStatement U opened ↔ U () opened := by
  simp [embeddedStatement]

theorem balanced_attributeLists :
    Balanced (frames + 1) attributeLists U opened ↔ U () opened := by
  simp [attributeLists]

@[simp] theorem balanced_typeParameter :
    Balanced (frames + 1) typeParameter U opened ↔ U () opened := by
  simp [typeParameter]

theorem balanced_typeParameters :
    Balanced (frames + 1) typeParameters U opened ↔ U () opened := by
  simp [typeParameters]

@[simp] theorem balanced_typeParameterList :
    Balanced (frames + 1) typeParameterList U opened ↔ U () opened := by
  simp [typeParameterList]

@[simp] theorem balanced_optionalTypeParameters :
    Balanced (frames + 1) optionalTypeParameters U opened ↔ U () opened := by
  simp [optionalTypeParameters]

@[simp] theorem balanced_constraint :
    Balanced (frames + 1) constraint U opened ↔ U () opened := by
  simp only [constraint, ↓balanced_bind, ↓balanced_current]
  refine (forall_congr' fun k => ?_).trans (forall_const Kind)
  split <;> simp

theorem balanced_constraints :
    Balanced (frames + 1) constraints U opened ↔ U () opened := by
  simp [constraints]

@[simp] theorem balanced_constraintClause :
    Balanced (frames + 1) constraintClause U opened ↔ U () opened := by
  simp [constraintClause]

theorem balanced_constraintClauses :
    Balanced (frames + 1) constraintClauses U opened ↔ U () opened := by
  simp [constraintClauses]

@[simp] theorem balanced_functionRest :
    Balanced (frames + 1) functionRest U opened ↔ U () opened := by
  simp [functionRest]

@[simp] theorem balanced_jumpStatement (kind : Kind) (what : String) :
    Balanced (frames + 1) (jumpStatement kind what) U opened ↔ U () opened := by
  simp [jumpStatement]

@[simp] theorem balanced_valueStatement (kind : Kind) (what : String) :
    Balanced (frames + 1) (valueStatement kind what) U opened ↔ U () opened := by
  simp [valueStatement]

@[simp] theorem balanced_conditionStatement (kind : Kind) :
    Balanced (frames + 1) (conditionStatement kind) U opened ↔ U () opened := by
  simp [conditionStatement]

@[simp] theorem balanced_blockStatement (kind : Kind) :
    Balanced (frames + 1) (blockStatement kind) U opened ↔ U () opened := by
  simp [blockStatement]

@[simp] theorem balanced_labeledStatement :
    Balanced (frames + 1) labeledStatement U opened ↔ U () opened := by
  simp [labeledStatement]

@[simp] theorem balanced_ifStatement :
    Balanced (frames + 1) ifStatement U opened ↔ U () opened := by
  simp [ifStatement]

@[simp] theorem balanced_doStatement :
    Balanced (frames + 1) doStatement U opened ↔ U () opened := by
  simp [doStatement]

@[simp] theorem balanced_usingStatement :
    Balanced (frames + 1) usingStatement U opened ↔ U () opened := by
  simp [usingStatement]

@[simp] theorem balanced_gotoStatement :
    Balanced (frames + 1) gotoStatement U opened ↔ U () opened := by
  simp only [gotoStatement, ↓balanced_bind, ↓balanced_begins, ↓balanced_take, ↓balanced_current]
  refine (forall_congr' fun k => ?_).trans (forall_const Kind)
  split <;> simp

@[simp] theorem balanced_yieldStatement :
    Balanced (frames + 1) yieldStatement U opened ↔ U () opened := by
  simp [yieldStatement]

theorem balanced_expressionList :
    Balanced (frames + 1) expressionList U opened ↔ U () opened := by
  simp [expressionList]

@[simp] theorem balanced_forHeader :
    Balanced (frames + 1) forHeader U opened ↔ U () opened := by
  simp [forHeader]

@[simp] theorem balanced_forStatement :
    Balanced (frames + 1) forStatement U opened ↔ U () opened := by
  simp [forStatement]

@[simp] theorem balanced_foreachStatement :
    Balanced (frames + 1) foreachStatement U opened ↔ U () opened := by
  simp [foreachStatement]

@[simp] theorem balanced_switchLabel :
    Balanced (frames + 1) switchLabel U opened ↔ U () opened := by
  simp [switchLabel]

theorem balanced_switchLabels :
    Balanced (frames + 1) switchLabels U opened ↔ U () opened := by
  simp [switchLabels]

theorem balanced_sectionStatements :
    Balanced (frames + 1) sectionStatements U opened ↔ U () opened := by
  simp [sectionStatements, balanced_ensureProgress]

@[simp] theorem balanced_switchSection :
    Balanced (frames + 1) switchSection U opened ↔ U () opened := by
  simp [switchSection]

theorem balanced_switchSections :
    Balanced (frames + 1) switchSections U opened ↔ U () opened := by
  simp [switchSections]

@[simp] theorem balanced_switchStatement :
    Balanced (frames + 1) switchStatement U opened ↔ U () opened := by
  simp [switchStatement]

@[simp] theorem balanced_catchDeclaration :
    Balanced (frames + 1) catchDeclaration U opened ↔ U () opened := by
  simp [catchDeclaration]

theorem balanced_catchClauses :
    Balanced (frames + 1) catchClauses U opened ↔ U () opened := by
  simp [catchClauses]

@[simp] theorem balanced_tryStatement :
    Balanced (frames + 1) tryStatement U opened ↔ U () opened := by
  simp [tryStatement]

theorem balanced_localModifierWords :
    Balanced (frames + 1) localModifierWords U opened ↔ U () opened := by
  simp [localModifierWords]

@[simp] theorem balanced_localModifiers :
    Balanced (frames + 1) localModifiers U opened ↔ U () opened := by
  simp [localModifiers]

@[simp] theorem balanced_plainStatement :
    Balanced (frames + 1) plainStatement U opened ↔ U () opened := by
  simp only [plainStatement, ↓balanced_bind, ↓balanced_ahead]
  refine (forall_congr' fun ws => ?_).trans (forall_const (List Token))
  split <;> simp

@[simp] theorem balanced_identifierStatement :
    Balanced (frames + 1) identifierStatement U opened ↔ U () opened := by
  simp [identifierStatement]

@[simp] theorem balanced_statementBody :
    Balanced (frames + 1) statementBody U opened ↔ U () opened := by
  simp only [statementBody, ↓balanced_bind, ↓balanced_current]
  refine (forall_congr' fun k => ?_).trans (forall_const Kind)
  split <;> simp

theorem balanced_statement :
    Balanced (frames + 1) statement U opened ↔ U () opened := by
  simp [statement]

/-! ## Declarations -/

theorem balanced_modifierWords :
    Balanced (frames + 1) modifierWords U opened ↔ U () opened := by
  simp [modifierWords]

@[simp] theorem balanced_modifiers :
    Balanced (frames + 1) modifiers U opened ↔ U () opened := by
  simp [modifiers]

theorem balanced_baseTypes :
    Balanced (frames + 1) baseTypes U opened ↔ U () opened := by
  simp [baseTypes]

@[simp] theorem balanced_optionalBaseList :
    Balanced (frames + 1) optionalBaseList U opened ↔ U () opened := by
  simp [optionalBaseList]

theorem balanced_typeMembers :
    Balanced (frames + 1) typeMembers U opened ↔ U () opened := by
  simp [typeMembers, balanced_ensureProgress]

@[simp] theorem balanced_typeBody :
    Balanced (frames + 1) typeBody U opened ↔ U () opened := by
  simp [typeBody]

@[simp] theorem balanced_typeWithMembers (kind : Kind) :
    Balanced (frames + 1) (typeWithMembers kind) U opened ↔ U () opened := by
  simp [typeWithMembers]

@[simp] theorem balanced_enumMember :
    Balanced (frames + 1) enumMember U opened ↔ U () opened := by
  simp [enumMember]

theorem balanced_enumMembers :
    Balanced (frames + 1) enumMembers U opened ↔ U () opened := by
  simp [enumMembers]

@[simp] theorem balanced_enumDeclaration :
    Balanced (frames + 1) enumDeclaration U opened ↔ U () opened := by
  simp [enumDeclaration]

@[simp] theorem balanced_delegateDeclaration :
    Balanced (frames + 1) delegateDeclaration U opened ↔ U () opened := by
  simp [delegateDeclaration]

@[simp] theorem balanced_missingDeclaration :
    Balanced (frames + 1) missingDeclaration U opened ↔ U () opened := by
  simp [missingDeclaration]

theorem balanced_declaredType :
    Balanced (frames + 1) declaredType U opened ↔ U () opened := by
  simp only [declaredType, ↓balanced_bind, ↓balanced_current]
  refine (forall_congr' fun k => ?_).trans (forall_const Kind)
  split <;> simp

theorem balanced_typeDeclaration :
    Balanced (frames + 1) typeDeclaration U opened ↔ U () opened := by
  simp [typeDeclaration]

theorem balanced_skipTo (boundary : Boundary) :
    Balanced (frames + 1) (skipTo boundary) U opened ↔ U () opened := by
  simp [skipTo]

@[simp] theorem balanced_skipToMember :
    Balanced (frames + 1) skipToMember U opened ↔ U () opened := by
  simp [skipToMember]

@[simp] theorem balanced_brokenMember (problem : Problem) :
    Balanced (frames + 1) (brokenMember problem) U opened ↔ U () opened := by
  simp [brokenMember]

theorem balanced_accessors :
    Balanced (frames + 1) accessors U opened ↔ U () opened := by
  simp [accessors, balanced_ensureProgress]

@[simp] theorem balanced_accessorList :
    Balanced (frames + 1) accessorList U opened ↔ U () opened := by
  simp [accessorList]

@[simp] theorem balanced_propertyBody :
    Balanced (frames + 1) propertyBody U opened ↔ U () opened := by
  simp [propertyBody]

@[simp] theorem balanced_eventDeclaration :
    Balanced (frames + 1) eventDeclaration U opened ↔ U () opened := by
  simp [eventDeclaration]

@[simp] theorem balanced_destructorDeclaration :
    Balanced (frames + 1) destructorDeclaration U opened ↔ U () opened := by
  simp [destructorDeclaration]

@[simp] theorem balanced_conversionOperator :
    Balanced (frames + 1) conversionOperator U opened ↔ U () opened := by
  simp [conversionOperator]

@[simp] theorem balanced_constructorInitializer :
    Balanced (frames + 1) constructorInitializer U opened ↔ U () opened := by
  simp [constructorInitializer]

@[simp] theorem balanced_constructorDeclaration :
    Balanced (frames + 1) constructorDeclaration U opened ↔ U () opened := by
  simp [constructorDeclaration]

@[simp] theorem balanced_operatorDeclaration :
    Balanced (frames + 1) operatorDeclaration U opened ↔ U () opened := by
  simp [operatorDeclaration]

@[simp] theorem balanced_indexerDeclaration :
    Balanced (frames + 1) indexerDeclaration U opened ↔ U () opened := by
  simp [indexerDeclaration]

@[simp] theorem balanced_namedMember :
    Balanced (frames + 1) namedMember U opened ↔ U () opened := by
  simp only [namedMember, ↓balanced_bind, ↓balanced_take, ↓balanced_read, ↓balanced_current]
  refine (forall_congr' fun k => ?_).trans (forall_const Kind)
  split <;> simp

@[simp] theorem balanced_typedMember :
    Balanced (frames + 1) typedMember U opened ↔ U () opened := by
  simp only [typedMember, ↓balanced_bind, ↓balanced_skipTrivia, ↓balanced_frame, ↓balanced_ahead,
    ↓balanced_ite, ↓balanced_begins, ↓balanced_enclose, ↓balanced_pure, ↓reduceIte,
    ↓balanced_expect, balanced_declaratorList, List.cons.injEq, true_and, exists_eq_left',
    Bool.false_eq_true, ↓balanced_current, balanced_type, ↓balanced_opening_one, startOutside_cons,
    le_refl, startOutside_outward, and_self, inward_cons, Nat.sub_self, inward_outward,
    forall_const]
  refine (forall_congr' fun ws => ?_).trans (forall_const (List Token))
  split
  · rfl
  · refine (forall_congr' fun k => ?_).trans (forall_const Kind)
    split <;> simp

@[simp] theorem balanced_declaredMember :
    Balanced (frames + 1) declaredMember U opened ↔ U () opened := by
  simp only [declaredMember, ↓balanced_bind, ↓balanced_current]
  refine (forall_congr' fun k => ?_).trans (forall_const Kind)
  split <;> simp

theorem balanced_member :
    Balanced (frames + 1) member U opened ↔ U () opened := by
  simp [member]

@[simp] theorem balanced_usingDirective :
    Balanced (frames + 1) usingDirective U opened ↔ U () opened := by
  simp [usingDirective]

theorem balanced_namespaceDeclaration :
    Balanced (frames + 1) namespaceDeclaration U opened ↔ U () opened := by
  simp [namespaceDeclaration]

@[simp] theorem balanced_misplacedWords :
    Balanced (frames + 1) misplacedWords U opened ↔ U () opened := by
  simp [misplacedWords]

theorem balanced_namespaceMembers (braced : Bool) :
    Balanced (frames + 1) (namespaceMembers braced) U opened ↔ U () opened := by
  simp [namespaceMembers]

/-! ## All productions -/

theorem balanced_silently {step : Step Unit}
    (h : Balanced 1 step (fun _ opened => opened = []) [] ↔ ([] : List Opened) = []) :
    Balanced 1 (silently step) (fun _ opened => opened = []) [] := h.mpr rfl

/-- **Every production is balanced.** -/
theorem balanced_production (r : Rule) :
    Balanced 1 (production r) (fun _ opened => opened = []) [] := by
  cases r with
  | namespaceMembers braced => exact balanced_silently (balanced_namespaceMembers braced)
  | namespaceDeclaration => exact balanced_silently balanced_namespaceDeclaration
  | typeDeclaration => exact balanced_silently balanced_typeDeclaration
  | declaredType => exact balanced_silently balanced_declaredType
  | typeParameters => exact balanced_silently balanced_typeParameters
  | attributeLists => exact balanced_silently balanced_attributeLists
  | baseTypes => exact balanced_silently balanced_baseTypes
  | constraintClauses => exact balanced_silently balanced_constraintClauses
  | constraints => exact balanced_silently balanced_constraints
  | enumMembers => exact balanced_silently balanced_enumMembers
  | typeMembers => exact balanced_silently balanced_typeMembers
  | member => exact balanced_silently balanced_member
  | skipTo boundary => exact balanced_silently (balanced_skipTo boundary)
  | dottedSegments => exact balanced_silently balanced_dottedSegments
  | accessors => exact balanced_silently balanced_accessors
  | modifierWords => exact balanced_silently balanced_modifierWords
  | attributes => exact balanced_silently balanced_attributes
  | nameSegments => exact balanced_silently balanced_nameSegments
  | parameters close => exact balanced_silently (balanced_parameters close)
  | parameterModifierWords => exact balanced_silently balanced_parameterModifierWords
  | arguments close => exact balanced_silently (balanced_arguments close)
  | designation => exact balanced_silently balanced_designation
  | designated => exact balanced_silently balanced_designated
  | block => exact balanced_silently balanced_block
  | statements => exact balanced_silently balanced_statements
  | statement => exact balanced_silently balanced_statement
  | localModifierWords => exact balanced_silently balanced_localModifierWords
  | moreDeclarators => exact balanced_silently balanced_moreDeclarators
  | switchSections => exact balanced_silently balanced_switchSections
  | switchLabels => exact balanced_silently balanced_switchLabels
  | sectionStatements => exact balanced_silently balanced_sectionStatements
  | expressionList => exact balanced_silently balanced_expressionList
  | catchClauses => exact balanced_silently balanced_catchClauses
  | type inExpression => exact (balanced_typeProduction inExpression).mpr rfl
  | tupleElements => exact balanced_silently balanced_tupleElements
  | typeNameTail => exact balanced_silently balanced_typeNameTail
  | typeSuffixes inExpression isArray => exact (balanced_typeSuffixes inExpression isArray).mpr rfl
  | commas => exact balanced_silently balanced_commas
  | typeArguments => exact balanced_silently balanced_typeArguments
  | moreTupleValues isTuple => exact (balanced_moreTupleValues isTuple).mpr rfl
  | arrayRanks => exact balanced_silently balanced_arrayRanks
  | initializer => exact balanced_silently balanced_initializer
  | initializerElements => exact balanced_silently balanced_initializerElements
  | lambdaParameters => exact balanced_silently balanced_lambdaParameters
  | switchArms => exact balanced_silently balanced_switchArms
  | pattern => exact balanced_silently balanced_pattern
  | patternOperators => exact balanced_silently balanced_patternOperators
  | primaryPattern => exact balanced_silently balanced_primaryPattern
  | expression power => exact balanced_silently (balanced_expressionProduction power)
  | operators power => exact balanced_silently (balanced_operators power)

end LivePatch.Grammar
