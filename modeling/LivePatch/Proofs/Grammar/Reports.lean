import LivePatch.Proofs.ProblemPlaces
import LivePatch.Syntax.Grammar

/-!
# Which problems productions report

A production may report that some word is missing or does not belong where it stands.  It reports
no lexical fault, and that the text should have ended is for the reading of a whole text to say.
-/

namespace LivePatch

/-- A problem that productions report. -/
def Problem.OfProduction : Problem → Prop
  | .lexical _ => False
  | .expected what => what ≠ "end of file" ∧ what ≠ "end of expression"
  | .unexpected _ => True

namespace Grammar

open LivePatch.Action (Reports)
open Problem (OfProduction)

/-! ## Small steps -/

section

variable {α β : Type} {P : Problem → Prop}

@[simp ↓] theorem reports_pure (v : α) : Reports P (pure v : Step α) := trivial

@[simp ↓] theorem reports_bind (a : Step β) (f : β → Step α) :
    Reports P (a >>= f) ↔ Reports P a ∧ ∀ b, Reports P (f b) := Iff.rfl

@[simp ↓] theorem reports_skipTrivia : Reports P (Action.skipTrivia : Step _) := trivial

@[simp ↓] theorem reports_take : Reports P (Action.take : Step _) := trivial

@[simp ↓] theorem reports_takeHalf : Reports P (Action.takeHalf : Step _) := trivial

@[simp ↓] theorem reports_report (problem : Problem) :
    Reports P (Action.report problem : Step _) ↔ P problem := Iff.rfl

@[simp ↓] theorem reports_missing (what : String) :
    Reports P (missing what) ↔ P (.expected what) := Iff.rfl

@[simp ↓] theorem reports_opening (out : Nat) (k : Kind) :
    Reports P (Action.opening out k : Step _) := trivial

@[simp ↓] theorem reports_begins (k : Kind) : Reports P (begins k) := trivial

@[simp ↓] theorem reports_enclose (k : Kind) : Reports P (Action.enclose k : Step _) := trivial

@[simp ↓] theorem reports_frame (body : Step α) :
    Reports P (Action.frame body) ↔ Reports P body := Iff.rfl

@[simp ↓] theorem reports_call (r : Rule) : Reports P (Action.call r : Step _) := trivial

@[simp ↓] theorem reports_read (r : Rule) : Reports P (read r) := by simp [read]

@[simp ↓] theorem reports_ite (p : Prop) [Decidable p] (a b : Step α) :
    Reports P (if p then a else b) ↔ if p then Reports P a else Reports P b := by
  split <;> rfl

@[simp ↓] theorem reports_node (k : Kind) (body : Step Unit) :
    Reports P (node k body) ↔ Reports P body := by
  simp [node]

@[simp ↓] theorem reports_ahead (d : List Token → α) [Scanned d] : Reports P (ahead d) :=
  trivial

@[simp ↓] theorem reports_idle (body : Step Unit) :
    Reports P (Action.idle body) ↔ Reports P body := Iff.rfl

@[simp ↓] theorem reports_current : Reports P current := by simp [current]

@[simp ↓] theorem reports_sees (k : Kind) : Reports P (sees k) := by simp [sees]

@[simp ↓] theorem reports_seesWord (text : String) : Reports P (seesWord text) := by
  simp [seesWord]

@[simp ↓] theorem reports_eat (k : Kind) : Reports P (eat k) := by simp [eat]

@[simp ↓] theorem reports_takeIf (k : Kind) : Reports P (takeIf k) := by simp [takeIf]

@[simp ↓] theorem reports_expect (k : Kind) (what : String) :
    Reports P (expect k what) ↔ P (.expected what) := by
  simp [expect]

@[simp ↓] theorem reports_expectIdentifier (what : String) :
    Reports P (expectIdentifier what) ↔ P (.expected what) :=
  reports_expect _ what

end

attribute [local simp] OfProduction

@[simp] theorem reports_ensureProgress (what : String) (body : Step Unit) :
    Reports OfProduction (ensureProgress what body) ↔ Reports OfProduction body := by
  simp [ensureProgress]

@[simp] theorem reports_expectClosingAngle : Reports OfProduction expectClosingAngle := by
  simp only [expectClosingAngle, ↓reports_bind, ↓reports_current, true_and]
  intro k
  split <;> simp

/-! ## Types -/

@[simp] theorem reports_type : Reports OfProduction type := by
  simp [type]

@[simp] theorem reports_typeArgumentList : Reports OfProduction typeArgumentList := by
  simp [typeArgumentList]

@[simp] theorem reports_typeArguments : Reports OfProduction typeArguments := by
  simp [typeArguments]

@[simp] theorem reports_tupleElements : Reports OfProduction tupleElements := by
  simp [tupleElements]

@[simp] theorem reports_typeNameTail : Reports OfProduction typeNameTail := by
  simp [typeNameTail]

@[simp] theorem reports_typeHead : Reports OfProduction typeHead := by
  simp [typeHead]

@[simp] theorem reports_commas : Reports OfProduction commas := by
  simp [commas]

@[simp] theorem reports_arrayRank : Reports OfProduction arrayRank := by
  simp [arrayRank]

@[simp] theorem reports_typeSuffixes (inExpression isArray : Bool) :
    Reports OfProduction (typeSuffixes inExpression isArray) := by
  simp [typeSuffixes]

@[simp] theorem reports_typeProduction (inExpression : Bool) :
    Reports OfProduction (typeProduction inExpression) := by
  simp [typeProduction]

@[simp] theorem reports_nameSegments : Reports OfProduction nameSegments := by
  simp [nameSegments]

@[simp] theorem reports_dottedName : Reports OfProduction dottedName := by
  simp [dottedName]

@[simp] theorem reports_dottedSegments : Reports OfProduction dottedSegments := by
  simp [dottedSegments]

/-! ## Expressions -/

@[simp] theorem reports_expression : Reports OfProduction expression := by
  simp [expression]

@[simp] theorem reports_parenthesized : Reports OfProduction parenthesized := by
  simp [parenthesized]

@[simp] theorem reports_declarationExpression : Reports OfProduction declarationExpression := by
  simp [declarationExpression]

@[simp] theorem reports_designation : Reports OfProduction designation := by
  simp [designation]

@[simp] theorem reports_designated : Reports OfProduction designated := by
  simp [designated]

@[simp] theorem reports_argument : Reports OfProduction argument := by
  simp [argument]

@[simp] theorem reports_arguments (close : Kind) : Reports OfProduction (arguments close) := by
  simp [arguments]

@[simp] theorem reports_argumentList : Reports OfProduction argumentList := by
  simp [argumentList]

@[simp] theorem reports_bracketedArgumentList : Reports OfProduction bracketedArgumentList := by
  simp [bracketedArgumentList]

@[simp] theorem reports_nameExpression : Reports OfProduction nameExpression := by
  simp [nameExpression]

@[simp] theorem reports_tupleValue : Reports OfProduction tupleValue := by
  simp [tupleValue]

@[simp] theorem reports_moreTupleValues (isTuple : Bool) :
    Reports OfProduction (moreTupleValues isTuple) := by
  simp [moreTupleValues]

@[simp] theorem reports_initialValue : Reports OfProduction initialValue := by
  simp [initialValue]

@[simp] theorem reports_initializer : Reports OfProduction initializer := by
  simp [initializer]

@[simp] theorem reports_indexedElement : Reports OfProduction indexedElement := by
  simp [indexedElement]

@[simp] theorem reports_initializerElements : Reports OfProduction initializerElements := by
  simp only [initializerElements, ↓reports_bind, ↓reports_current, ↓reports_ite, true_and]
  intro k
  split
  · simp
  · split <;> simp

@[simp] theorem reports_arrayRanks : Reports OfProduction arrayRanks := by
  simp [arrayRanks]

@[simp] theorem reports_optionalInitializer : Reports OfProduction optionalInitializer := by
  simp [optionalInitializer]

@[simp] theorem reports_newExpression : Reports OfProduction newExpression := by
  simp only [newExpression, ↓reports_bind, ↓reports_current, ↓reports_take, true_and]
  intro _ k
  split <;> simp

@[simp] theorem reports_attributeUse : Reports OfProduction attributeUse := by
  simp [attributeUse]

@[simp] theorem reports_attributes : Reports OfProduction attributes := by
  simp [attributes]

@[simp] theorem reports_attributeList : Reports OfProduction attributeList := by
  simp [attributeList]

@[simp] theorem reports_parameterModifierWords : Reports OfProduction parameterModifierWords := by
  simp only [parameterModifierWords, ↓reports_bind, ↓reports_current, true_and]
  intro k
  split <;> simp

@[simp] theorem reports_parameterModifiers : Reports OfProduction parameterModifiers := by
  simp [parameterModifiers]

@[simp] theorem reports_parameter : Reports OfProduction parameter := by
  simp [parameter]

@[simp] theorem reports_parameters (close : Kind) : Reports OfProduction (parameters close) := by
  simp [parameters]

@[simp] theorem reports_parameterList : Reports OfProduction parameterList := by
  simp [parameterList]

@[simp] theorem reports_bracketedParameterList : Reports OfProduction bracketedParameterList := by
  simp [bracketedParameterList]

@[simp] theorem reports_lambdaParameter : Reports OfProduction lambdaParameter := by
  simp [lambdaParameter]

@[simp] theorem reports_lambdaParameters : Reports OfProduction lambdaParameters := by
  simp [lambdaParameters]

@[simp] theorem reports_lambdaHead : Reports OfProduction lambdaHead := by
  simp [lambdaHead]

@[simp] theorem reports_lambdaExpression : Reports OfProduction lambdaExpression := by
  simp [lambdaExpression]

@[simp] theorem reports_whenClause : Reports OfProduction whenClause := by
  simp [whenClause]

@[simp] theorem reports_primaryPattern : Reports OfProduction primaryPattern := by
  simp [primaryPattern]

@[simp] theorem reports_patternOperators : Reports OfProduction patternOperators := by
  simp [patternOperators]

@[simp] theorem reports_pattern : Reports OfProduction pattern := by
  simp [pattern]

@[simp] theorem reports_switchArms : Reports OfProduction switchArms := by
  simp [switchArms]

@[simp] theorem reports_switchTail : Reports OfProduction switchTail := by
  simp [switchTail]

@[simp] theorem reports_single (kind : Kind) : Reports OfProduction (single kind) := by
  simp [single]

@[simp] theorem reports_prefixed (kind : Kind) : Reports OfProduction (prefixed kind) := by
  simp [prefixed]

@[simp] theorem reports_typeOperator (kind : Kind) : Reports OfProduction (typeOperator kind) := by
  simp [typeOperator]

@[simp] theorem reports_identifierOperand : Reports OfProduction identifierOperand := by
  simp [identifierOperand]

@[simp] theorem reports_parenOperand : Reports OfProduction parenOperand := by
  simp [parenOperand]

@[simp] theorem reports_missingOperand : Reports OfProduction missingOperand := by
  simp [missingOperand]

@[simp] theorem reports_operand : Reports OfProduction operand := by
  simp only [operand, ↓reports_bind, ↓reports_current, ↓reports_ite, true_and]
  intro k
  split
  · simp
  · split
    · simp
    · split <;> simp

@[simp] theorem reports_binaryTail (b : Binding) : Reports OfProduction (binaryTail b) := by
  simp [binaryTail]

@[simp] theorem reports_conditionalTail : Reports OfProduction conditionalTail := by
  simp [conditionalTail]

@[simp] theorem reports_typeTestTail (op : Kind) : Reports OfProduction (typeTestTail op) := by
  simp [typeTestTail]

theorem reports_operatorStep {power : Nat} {op : Kind} {named : Bool} {step : Step Unit}
    (h : operatorStep? power op named = some step) : Reports OfProduction step := by
  unfold operatorStep? at h
  split at h
  case h_13 =>
    split at h
    · split at h <;> cases h
      simp
    · cases h
  case h_1 | h_5 | h_6 | h_7 | h_8 =>
    cases h
    simp
  all_goals
    split at h <;> cases h
    simp

@[simp] theorem reports_operators (power : Nat) : Reports OfProduction (operators power) := by
  simp only [operators, ↓reports_bind, ↓reports_current, ↓reports_ahead, true_and]
  intro op ws
  split
  · simp
  · rename_i step h
    simp [reports_operatorStep h]

@[simp] theorem reports_expressionProduction (power : Nat) :
    Reports OfProduction (expressionProduction power) := by
  simp [expressionProduction]

/-! ## Statements -/

@[simp] theorem reports_declarator : Reports OfProduction declarator := by
  simp [declarator]

@[simp] theorem reports_moreDeclarators : Reports OfProduction moreDeclarators := by
  simp [moreDeclarators]

@[simp] theorem reports_declaratorList : Reports OfProduction declaratorList := by
  simp [declaratorList]

@[simp] theorem reports_variableDeclaration : Reports OfProduction variableDeclaration := by
  simp [variableDeclaration]

@[simp] theorem reports_arrowClause : Reports OfProduction arrowClause := by
  simp [arrowClause]

@[simp] theorem reports_functionBody : Reports OfProduction functionBody := by
  simp only [functionBody, ↓reports_bind, ↓reports_current, true_and]
  intro k
  split <;> simp

@[simp] theorem reports_statements : Reports OfProduction statements := by
  simp [statements]

@[simp] theorem reports_block : Reports OfProduction block := by
  simp [block]

@[simp] theorem reports_embeddedStatement : Reports OfProduction embeddedStatement := by
  simp [embeddedStatement]

@[simp] theorem reports_attributeLists : Reports OfProduction attributeLists := by
  simp [attributeLists]

@[simp] theorem reports_typeParameter : Reports OfProduction typeParameter := by
  simp [typeParameter]

@[simp] theorem reports_typeParameters : Reports OfProduction typeParameters := by
  simp [typeParameters]

@[simp] theorem reports_typeParameterList : Reports OfProduction typeParameterList := by
  simp [typeParameterList]

@[simp] theorem reports_optionalTypeParameters : Reports OfProduction optionalTypeParameters := by
  simp [optionalTypeParameters]

@[simp] theorem reports_constraint : Reports OfProduction constraint := by
  simp only [constraint, ↓reports_bind, ↓reports_current, true_and]
  intro k
  split <;> simp

@[simp] theorem reports_constraints : Reports OfProduction constraints := by
  simp [constraints]

@[simp] theorem reports_constraintClause : Reports OfProduction constraintClause := by
  simp [constraintClause]

@[simp] theorem reports_constraintClauses : Reports OfProduction constraintClauses := by
  simp [constraintClauses]

@[simp] theorem reports_functionRest : Reports OfProduction functionRest := by
  simp [functionRest]

@[simp] theorem reports_jumpStatement (kind : Kind) (what : String) :
    Reports OfProduction (jumpStatement kind what) ↔ OfProduction (.expected what) := by
  simp [jumpStatement]

@[simp] theorem reports_valueStatement (kind : Kind) (what : String) :
    Reports OfProduction (valueStatement kind what) ↔ OfProduction (.expected what) := by
  simp [valueStatement]

@[simp] theorem reports_conditionStatement (kind : Kind) :
    Reports OfProduction (conditionStatement kind) := by
  simp [conditionStatement]

@[simp] theorem reports_blockStatement (kind : Kind) :
    Reports OfProduction (blockStatement kind) := by
  simp [blockStatement]

@[simp] theorem reports_labeledStatement : Reports OfProduction labeledStatement := by
  simp [labeledStatement]

@[simp] theorem reports_ifStatement : Reports OfProduction ifStatement := by
  simp [ifStatement]

@[simp] theorem reports_doStatement : Reports OfProduction doStatement := by
  simp [doStatement]

@[simp] theorem reports_usingStatement : Reports OfProduction usingStatement := by
  simp [usingStatement]

@[simp] theorem reports_gotoStatement : Reports OfProduction gotoStatement := by
  simp only [gotoStatement, ↓reports_bind, ↓reports_begins, ↓reports_take, ↓reports_current, true_and]
  intro _ _ k
  split <;> simp

@[simp] theorem reports_yieldStatement : Reports OfProduction yieldStatement := by
  simp [yieldStatement]

@[simp] theorem reports_expressionList : Reports OfProduction expressionList := by
  simp [expressionList]

@[simp] theorem reports_forHeader : Reports OfProduction forHeader := by
  simp [forHeader]

@[simp] theorem reports_forStatement : Reports OfProduction forStatement := by
  simp [forStatement]

@[simp] theorem reports_foreachStatement : Reports OfProduction foreachStatement := by
  simp [foreachStatement]

@[simp] theorem reports_switchLabel : Reports OfProduction switchLabel := by
  simp [switchLabel]

@[simp] theorem reports_switchLabels : Reports OfProduction switchLabels := by
  simp [switchLabels]

@[simp] theorem reports_sectionStatements : Reports OfProduction sectionStatements := by
  simp [sectionStatements]

@[simp] theorem reports_switchSection : Reports OfProduction switchSection := by
  simp [switchSection]

@[simp] theorem reports_switchSections : Reports OfProduction switchSections := by
  simp [switchSections]

@[simp] theorem reports_switchStatement : Reports OfProduction switchStatement := by
  simp [switchStatement]

@[simp] theorem reports_catchDeclaration : Reports OfProduction catchDeclaration := by
  simp [catchDeclaration]

@[simp] theorem reports_catchClauses : Reports OfProduction catchClauses := by
  simp [catchClauses]

@[simp] theorem reports_tryStatement : Reports OfProduction tryStatement := by
  simp [tryStatement]

@[simp] theorem reports_localModifierWords : Reports OfProduction localModifierWords := by
  simp [localModifierWords]

@[simp] theorem reports_localModifiers : Reports OfProduction localModifiers := by
  simp [localModifiers]

@[simp] theorem reports_plainStatement : Reports OfProduction plainStatement := by
  simp only [plainStatement, ↓reports_bind, ↓reports_ahead, true_and]
  intro ws
  split <;> simp

@[simp] theorem reports_identifierStatement : Reports OfProduction identifierStatement := by
  simp [identifierStatement]

@[simp] theorem reports_statementBody : Reports OfProduction statementBody := by
  simp only [statementBody, ↓reports_bind, ↓reports_current, true_and]
  intro k
  split <;> simp

@[simp] theorem reports_statement : Reports OfProduction statement := by
  simp [statement]

/-! ## Declarations -/

@[simp] theorem reports_modifierWords : Reports OfProduction modifierWords := by
  simp [modifierWords]

@[simp] theorem reports_modifiers : Reports OfProduction modifiers := by
  simp [modifiers]

@[simp] theorem reports_baseTypes : Reports OfProduction baseTypes := by
  simp [baseTypes]

@[simp] theorem reports_optionalBaseList : Reports OfProduction optionalBaseList := by
  simp [optionalBaseList]

@[simp] theorem reports_typeMembers : Reports OfProduction typeMembers := by
  simp [typeMembers]

@[simp] theorem reports_typeBody : Reports OfProduction typeBody := by
  simp [typeBody]

@[simp] theorem reports_typeWithMembers (kind : Kind) :
    Reports OfProduction (typeWithMembers kind) := by
  simp [typeWithMembers]

@[simp] theorem reports_enumMember : Reports OfProduction enumMember := by
  simp [enumMember]

@[simp] theorem reports_enumMembers : Reports OfProduction enumMembers := by
  simp [enumMembers]

@[simp] theorem reports_enumDeclaration : Reports OfProduction enumDeclaration := by
  simp [enumDeclaration]

@[simp] theorem reports_delegateDeclaration : Reports OfProduction delegateDeclaration := by
  simp [delegateDeclaration]

@[simp] theorem reports_missingDeclaration : Reports OfProduction missingDeclaration := by
  simp [missingDeclaration]

@[simp] theorem reports_declaredType : Reports OfProduction declaredType := by
  simp only [declaredType, ↓reports_bind, ↓reports_current, true_and]
  intro k
  split <;> simp

@[simp] theorem reports_typeDeclaration : Reports OfProduction typeDeclaration := by
  simp [typeDeclaration]

@[simp] theorem reports_skipTo (boundary : Boundary) : Reports OfProduction (skipTo boundary) := by
  simp [skipTo]

@[simp] theorem reports_skipToMember : Reports OfProduction skipToMember := by
  simp [skipToMember]

@[simp] theorem reports_brokenMember (problem : Problem) :
    Reports OfProduction (brokenMember problem) ↔ OfProduction problem := by
  simp [brokenMember]

@[simp] theorem reports_accessors : Reports OfProduction accessors := by
  simp [accessors]

@[simp] theorem reports_accessorList : Reports OfProduction accessorList := by
  simp [accessorList]

@[simp] theorem reports_propertyBody : Reports OfProduction propertyBody := by
  simp [propertyBody]

@[simp] theorem reports_eventDeclaration : Reports OfProduction eventDeclaration := by
  simp [eventDeclaration]

@[simp] theorem reports_destructorDeclaration : Reports OfProduction destructorDeclaration := by
  simp [destructorDeclaration]

@[simp] theorem reports_conversionOperator : Reports OfProduction conversionOperator := by
  simp [conversionOperator]

@[simp] theorem reports_constructorInitializer : Reports OfProduction constructorInitializer := by
  simp [constructorInitializer]

@[simp] theorem reports_constructorDeclaration : Reports OfProduction constructorDeclaration := by
  simp [constructorDeclaration]

@[simp] theorem reports_operatorDeclaration : Reports OfProduction operatorDeclaration := by
  simp [operatorDeclaration]

@[simp] theorem reports_indexerDeclaration : Reports OfProduction indexerDeclaration := by
  simp [indexerDeclaration]

@[simp] theorem reports_namedMember : Reports OfProduction namedMember := by
  simp only [namedMember, ↓reports_bind, ↓reports_take, ↓reports_read, ↓reports_current, true_and]
  intro _ _ k
  split <;> simp

@[simp] theorem reports_typedMember : Reports OfProduction typedMember := by
  simp only [typedMember, ↓reports_bind, ↓reports_skipTrivia, ↓reports_frame, ↓reports_ahead, true_and]
  intro _
  constructor
  · simp
  · rintro (_ | _)
    · simp only [Bool.false_eq_true, ↓reduceIte, ↓reports_bind, ↓reports_current, true_and]
      intro k
      split <;> simp
    · simp

@[simp] theorem reports_declaredMember : Reports OfProduction declaredMember := by
  simp only [declaredMember, ↓reports_bind, ↓reports_current, true_and]
  intro k
  split <;> simp

@[simp] theorem reports_member : Reports OfProduction member := by
  simp [member]

@[simp] theorem reports_usingDirective : Reports OfProduction usingDirective := by
  simp [usingDirective]

@[simp] theorem reports_namespaceDeclaration : Reports OfProduction namespaceDeclaration := by
  simp [namespaceDeclaration]

@[simp] theorem reports_misplacedWords : Reports OfProduction misplacedWords := by
  simp [misplacedWords]

@[simp] theorem reports_namespaceMembers (braced : Bool) :
    Reports OfProduction (namespaceMembers braced) := by
  simp [namespaceMembers]

/-! ## All productions -/

/-- **What productions report.** -/
theorem reports_production (r : Rule) : Reports OfProduction (production r) := by
  cases r <;> simp [production, silently]

end Grammar

end LivePatch
