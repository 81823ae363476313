import LivePatch.Proofs.Precedence
import LivePatch.Syntax.Grammar

/-!
# Productions without operators

Of all productions few make a node around an operator or behind a prefix.  For the others it is
enough that they enclose what is ordered anyway, and that they do not call what goes on with an
operand; which is to be seen from their text, in any frame and whatever is ahead.

The one exception among them are elements of an initializer that set an index: there is an
assignment, but no operator stands to its left, and any may stand to its right.
-/

namespace LivePatch

open Grammar (operatorStep? switchPower)

/-- Behind an expression whose operators bind at least as tightly as `power`, no further operator
stands in front of `ws`. -/
def Words.EndsAt (power : Nat) (ws : List Token) : Prop :=
  operatorStep? power (front ws) (Words.isAt 1 .identifier ws) = none

namespace Tree

/-- The tree may stand where operators bind at least as tightly as `power`. -/
structure Binds (power : Nat) (t : Tree) : Prop where
  isNode : t.isNode = true
  left : ∀ b ∈ t.operators, power ≤ b.left
  loose : t.kind.isLoose = true → power ≤ switchPower

/-- What stands to the right of the operators of the tree ends in front of `ws`. -/
def EndsAt (t : Tree) (ws : List Token) : Prop :=
  t.isBraced = false → ∀ b ∈ t.operators, Words.EndsAt b.right ws

end Tree

/-- What a call goes on with. -/
def Rule.Wants (r : Rule) (ws : List Token) (ts : List Tree) : Prop :=
  match r with
  | .operators power => ∃ u : Tree, u.Binds power ∧ u.EndsAt ws ∧ ts = [u]
  | .patternOperators => ∃ u : Tree, u.isNode = true ∧ ts = [u]
  | _ => True

/-- What a call leaves. -/
def Rule.Leaves (r : Rule) (ts : List Tree) (ws' : List Token) (ts' : List Tree) : Prop :=
  match r with
  | .expression power => ∃ u : Tree, u.Binds power ∧ Words.EndsAt power ws' ∧ ts' = ts ++ [u]
  | .operators power => ∃ u : Tree, u.Binds power ∧ Words.EndsAt power ws' ∧ ts' = [u]
  | .type _ => ∃ us, ts' = ts ++ [.node .type us]
  | .initializer => ∃ us, ts' = ts ++ [.node .initializerExpression us]
  | .pattern | .primaryPattern => ∃ u : Tree, u.isNode = true ∧ ts' = ts ++ [u]
  | .patternOperators => ∃ u : Tree, u.isNode = true ∧ ts' = [u]
  | _ => True

/-- Does a call go on with whatever is there? -/
def Rule.startsAnew : Rule → Bool
  | .operators _ | .patternOperators => false
  | _ => true

namespace Grammar

open Words (front firstTree)

/-- `Action.Makes`, for the productions of the grammar. -/
abbrev Makes {α : Type} (a : Step α) (Q : α → List Token → List Tree → Prop) (ws : List Token)
    (ts : List Tree) : Prop := Action.Makes Rule.Wants Rule.Leaves a Q ws ts

/-- `Action.Inert`, for the productions of the grammar. -/
abbrev Inert {α : Type} (a : Step α) : Prop := Action.Inert Rule.Wants Rule.Leaves a

/-! ## Small steps -/

section Makes

variable {α β : Type} {ws : List Token} {ts : List Tree}
  {Q : α → List Token → List Tree → Prop} {U : Unit → List Token → List Tree → Prop}

@[simp ↓] theorem makes_pure (v : α) : Makes (pure v) Q ws ts ↔ Q v ws ts := Iff.rfl

@[simp ↓] theorem makes_bind (a : Step β) (f : β → Step α) :
    Makes (a >>= f) Q ws ts ↔ Makes a (fun b ws ts => Makes (f b) Q ws ts) ws ts := Iff.rfl

@[simp ↓] theorem makes_skipTrivia : Makes Action.skipTrivia U ws ts ↔ U () ws ts := Iff.rfl

@[simp ↓] theorem makes_take :
    Makes Action.take U ws ts ↔ U () ws.tail (ts ++ firstTree ws) := Iff.rfl

@[simp ↓] theorem makes_missing (what : String) : Makes (missing what) U ws ts ↔ U () ws ts :=
  Iff.rfl

@[simp ↓] theorem makes_begins (k : Kind) : Makes (begins k) U ws ts ↔ U () ws ts := Iff.rfl

@[simp ↓] theorem makes_enclose (k : Kind) : Makes (Action.enclose k) U ws ts ↔
    ∀ us, Tree.bare us = ts → (Tree.node k us).Ordered ∧ U () ws [.node k us] := Iff.rfl

@[simp ↓] theorem makes_frame (body : Step α) : Makes (Action.frame body) Q ws ts ↔
    Makes body (fun a ws us => Q a ws (ts ++ us)) ws [] := Iff.rfl

@[simp ↓] theorem makes_call {Q : Bool → List Token → List Tree → Prop} (r : Rule) :
    Makes (Action.call r) Q ws ts ↔
      r.Wants ws ts ∧ ∀ b ws' ts', r.Leaves ts ws' ts' → Q b ws' ts' := Iff.rfl

@[simp ↓] theorem makes_read (r : Rule) :
    Makes (read r) U ws ts ↔ r.Wants ws ts ∧ ∀ ws' ts', r.Leaves ts ws' ts' → U () ws' ts' :=
  ⟨fun h => ⟨h.1, fun ws' ts' => h.2 true ws' ts'⟩, fun h => ⟨h.1, fun _ ws' ts' => h.2 ws' ts'⟩⟩

@[simp ↓] theorem makes_ite (p : Prop) [Decidable p] (a b : Step α) :
    Makes (if p then a else b) Q ws ts ↔ if p then Makes a Q ws ts else Makes b Q ws ts := by
  split <;> rfl

@[simp ↓] theorem makes_ahead (d : List Token → α) [Scanned d] :
    Makes (ahead d) Q ws ts ↔ Q (d ws) ws ts := Iff.rfl

@[simp ↓] theorem makes_current {Q : Kind → List Token → List Tree → Prop} :
    Makes current Q ws ts ↔ Q (front ws) ws ts := Iff.rfl

@[simp ↓] theorem makes_sees {Q : Bool → List Token → List Tree → Prop} (k : Kind) :
    Makes (sees k) Q ws ts ↔ Q (front ws == k) ws ts := Iff.rfl

theorem Inert.makes {a : Step α} (h : Inert a) (hQ : ∀ v ws' ts', Q v ws' ts') :
    Makes a Q ws ts := Action.Inert.makes h hQ

/-- A node that is ordered whatever is in it. -/
theorem makes_node {k : Kind} (hk : k.isOrdinary = true) {body : Step Unit} (hbody : Inert body)
    (h : ∀ ws' us, U () ws' (ts ++ [.node k us])) : Makes (node k body) U ws ts := by
  rw [node, makes_frame, makes_bind, makes_begins, makes_bind]
  exact hbody.makes fun _ ws' _ us _ => ⟨Tree.ordered_of_isOrdinary hk us, h ws' us⟩

@[simp ↓] theorem makes_type {Q : Bool → List Token → List Tree → Prop} :
    Makes type Q ws ts ↔ ∀ b ws' us, Q b ws' (ts ++ [.node .type us]) := by
  refine (makes_call _).trans ((and_iff_right trivial).trans ?_)
  exact ⟨fun h b ws' us => h b ws' _ ⟨us, rfl⟩, fun h b ws' ts' ⟨us, hus⟩ => hus ▸ h b ws' us⟩

@[simp ↓] theorem makes_read_initializer : Makes (read .initializer) U ws ts ↔
    ∀ ws' us, U () ws' (ts ++ [.node .initializerExpression us]) := by
  refine (makes_read _).trans ((and_iff_right trivial).trans ?_)
  exact ⟨fun h ws' us => h ws' _ ⟨us, rfl⟩, fun h ws' ts' ⟨us, hus⟩ => hus ▸ h ws' us⟩

@[simp ↓] theorem makes_read_expression (power : Nat) : Makes (read (.expression power)) U ws ts ↔
    ∀ ws' u, Tree.Binds power u → Words.EndsAt power ws' → U () ws' (ts ++ [u]) := by
  refine (makes_read _).trans ((and_iff_right trivial).trans ?_)
  exact ⟨fun h ws' u hu hends => h ws' _ ⟨u, hu, hends, rfl⟩,
    fun h ws' ts' ⟨u, hu, hends, hts⟩ => hts ▸ h ws' u hu hends⟩

@[simp ↓] theorem makes_expression : Makes expression U ws ts ↔
    ∀ ws' u, Tree.Binds 0 u → Words.EndsAt 0 ws' → U () ws' (ts ++ [u]) :=
  makes_read_expression 0

end Makes

section Inert

variable {α β : Type}

@[simp ↓] theorem inert_bind (a : Step β) (f : β → Step α) :
    Inert (a >>= f) ↔ Inert a ∧ ∀ v, Inert (f v) := Iff.rfl

@[simp ↓] theorem inert_pure (v : α) : Inert (pure v : Step α) := trivial

@[simp ↓] theorem inert_skipTrivia : Inert (Action.skipTrivia : Step _) := trivial

@[simp ↓] theorem inert_take : Inert (Action.take : Step _) := trivial

@[simp ↓] theorem inert_takeHalf : Inert (Action.takeHalf : Step _) := trivial

@[simp ↓] theorem inert_report (problem : Problem) : Inert (Action.report problem : Step _) :=
  trivial

@[simp ↓] theorem inert_missing (what : String) : Inert (missing what) := trivial

@[simp ↓] theorem inert_opening (out : Nat) (k : Kind) : Inert (Action.opening out k : Step _) :=
  trivial

@[simp ↓] theorem inert_begins (k : Kind) : Inert (begins k) := trivial

@[simp ↓] theorem inert_enclose (k : Kind) :
    Inert (Action.enclose k : Step _) ↔ k.isOrdinary = true := Iff.rfl

/-- A frame in which no other nodes are made. -/
@[simp ↓] theorem inert_frame {body : Step α} (h : Inert body) : Inert (Action.frame body) := .inl h

@[simp ↓] theorem inert_call (r : Rule) :
    Inert (Action.call r : Step _) ↔ r.startsAnew = true := by
  refine ⟨fun h => ?_, fun h ws ts => ?_⟩
  · cases r with
    | operators =>
      obtain ⟨u, -, -, hu⟩ := h [] []
      cases hu
    | patternOperators =>
      obtain ⟨u, -, hu⟩ := h [] []
      cases hu
    | _ => rfl
  · cases r with
    | operators | patternOperators => cases h
    | _ => trivial

@[simp ↓] theorem inert_read (r : Rule) : Inert (read r) ↔ r.startsAnew = true :=
  (and_iff_left fun _ => trivial).trans (inert_call r)

@[simp ↓] theorem inert_ite (p : Prop) [Decidable p] (a b : Step α) :
    Inert (if p then a else b) ↔ if p then Inert a else Inert b := by
  split <;> rfl

@[simp ↓] theorem inert_ahead (d : List Token → α) [Scanned d] : Inert (ahead d) := trivial

@[simp ↓] theorem inert_idle (body : Step Unit) : Inert (Action.idle body) ↔ Inert body := Iff.rfl

@[simp ↓] theorem inert_current : Inert current := by
  simp [current]

@[simp ↓] theorem inert_sees (k : Kind) : Inert (sees k) := by
  simp [sees]

@[simp ↓] theorem inert_seesWord (text : String) : Inert (seesWord text) := by
  simp [seesWord]

@[simp ↓] theorem inert_eat (k : Kind) : Inert (eat k) := by
  simp [eat]

@[simp ↓] theorem inert_takeIf (k : Kind) : Inert (takeIf k) := by
  simp [takeIf]

@[simp ↓] theorem inert_expect (k : Kind) (what : String) : Inert (expect k what) := by
  simp [expect]

@[simp ↓] theorem inert_expectIdentifier (what : String) : Inert (expectIdentifier what) :=
  inert_expect _ what

@[simp ↓] theorem inert_node {k : Kind} {body : Step Unit} (hk : k.isOrdinary = true)
    (h : Inert body) : Inert (node k body) :=
  inert_frame (by simp [hk, h])

end Inert

attribute [local simp] Rule.startsAnew Kind.isOrdinary Kind.isOperation Kind.isPrefixed

@[simp] theorem inert_ensureProgress (what : String) (body : Step Unit) :
    Inert (ensureProgress what body) ↔ Inert body := by
  simp [ensureProgress]

@[simp] theorem inert_expectClosingAngle : Inert expectClosingAngle := by
  simp only [expectClosingAngle, ↓inert_bind, ↓inert_current, true_and]
  intro k
  split <;> simp

/-! ## Types -/

@[simp] theorem inert_type : Inert type := by
  simp [type]

@[simp] theorem inert_typeArgumentList : Inert typeArgumentList := by
  simp [typeArgumentList]

@[simp] theorem inert_typeArguments : Inert typeArguments := by
  simp [typeArguments]

@[simp] theorem inert_tupleElements : Inert tupleElements := by
  simp [tupleElements]

@[simp] theorem inert_typeNameTail : Inert typeNameTail := by
  simp [typeNameTail]

@[simp] theorem inert_typeHead : Inert typeHead := by
  simp [typeHead]

@[simp] theorem inert_commas : Inert commas := by
  simp [commas]

@[simp] theorem inert_arrayRank : Inert arrayRank := by
  simp [arrayRank]

@[simp] theorem inert_typeProduction (inExpression : Bool) : Inert (typeProduction inExpression) := by
  simp [typeProduction]

@[simp] theorem inert_nameSegments : Inert nameSegments := by
  simp [nameSegments]

@[simp] theorem inert_dottedName : Inert dottedName := by
  simp [dottedName]

@[simp] theorem inert_dottedSegments : Inert dottedSegments := by
  simp [dottedSegments]

/-! ## Expressions -/

@[simp] theorem inert_expression : Inert expression := by
  simp [expression]

@[simp] theorem inert_parenthesized : Inert parenthesized := by
  simp [parenthesized]

@[simp] theorem inert_declarationExpression : Inert declarationExpression := by
  simp [declarationExpression]

@[simp] theorem inert_designation : Inert designation := by
  simp [designation]

@[simp] theorem inert_designated : Inert designated := by
  simp [designated]

@[simp] theorem inert_argument : Inert argument := by
  simp [argument]

@[simp] theorem inert_arguments (close : Kind) : Inert (arguments close) := by
  simp [arguments]

@[simp] theorem inert_argumentList : Inert argumentList := by
  simp [argumentList]

@[simp] theorem inert_bracketedArgumentList : Inert bracketedArgumentList := by
  simp [bracketedArgumentList]

@[simp] theorem inert_nameExpression : Inert nameExpression := by
  simp [nameExpression]

@[simp] theorem inert_tupleValue : Inert tupleValue := by
  simp [tupleValue]

@[simp] theorem inert_moreTupleValues (isTuple : Bool) : Inert (moreTupleValues isTuple) := by
  simp [moreTupleValues]

@[simp] theorem inert_initialValue : Inert initialValue := by
  simp [initialValue]

@[simp] theorem inert_initializer : Inert initializer := by
  simp [initializer]

theorem makes_initialValue {ws : List Token} {ts : List Tree}
    {U : Unit → List Token → List Tree → Prop}
    (h : ∀ ws' u, Tree.isNode u = true → U () ws' (ts ++ [u])) :
    Makes initialValue U ws ts := by
  rw [initialValue, makes_bind, makes_sees, makes_ite]
  split
  · exact makes_read_initializer.mpr fun ws' us => h ws' _ rfl
  · exact makes_expression.mpr fun ws' u hu _ => h ws' u hu.isNode

@[simp] theorem inert_indexedElement : Inert indexedElement := by
  refine .inr fun ws => (makes_bind _ _).mpr (makes_node (by simp) (by simp) fun ws' us => ?_)
  rw [makes_bind, makes_sees, makes_ite]
  split
  case isFalse => trivial
  case isTrue hfront =>
    obtain ⟨w, hw, hfirst⟩ := Words.firstTree_of_front (beq_iff_eq.mp hfront) (by decide) rfl
    rw [makes_bind, makes_begins, makes_bind, makes_take, hfirst, makes_bind]
    refine makes_initialValue fun ws'' v hv vs hvs => ⟨?_, trivial⟩
    have hoperators := Tree.operators_binary rfl hv (.inr rfl) hvs
    refine Tree.ordered_of_operands (m := []) rfl (Tree.operands_binary rfl hv hvs) ?_ ?_
    · intro b hb c hc
      rw [hoperators, hw] at hb
      obtain rfl := List.mem_singleton.mp hb
      exact Nat.zero_le _
    · intro _ b _ c hc
      cases hc

@[simp] theorem inert_initializerElements : Inert initializerElements := by
  simp only [initializerElements, ↓inert_bind, ↓inert_current, ↓inert_ite, true_and]
  intro k
  split
  · simp
  · split <;> simp

@[simp] theorem inert_arrayRanks : Inert arrayRanks := by
  simp [arrayRanks]

@[simp] theorem inert_optionalInitializer : Inert optionalInitializer := by
  simp [optionalInitializer]

@[simp] theorem inert_newExpression : Inert newExpression := by
  simp only [newExpression, ↓inert_bind, ↓inert_take, ↓inert_current, true_and]
  intro _ k
  split <;> simp

@[simp] theorem inert_attributeUse : Inert attributeUse := by
  simp [attributeUse]

@[simp] theorem inert_attributes : Inert attributes := by
  simp [attributes]

@[simp] theorem inert_attributeList : Inert attributeList := by
  simp [attributeList]

@[simp] theorem inert_parameterModifierWords : Inert parameterModifierWords := by
  simp only [parameterModifierWords, ↓inert_bind, ↓inert_current, true_and]
  intro k
  split <;> simp

@[simp] theorem inert_parameterModifiers : Inert parameterModifiers := by
  simp [parameterModifiers]

@[simp] theorem inert_parameter : Inert parameter := by
  simp [parameter]

@[simp] theorem inert_parameters (close : Kind) : Inert (parameters close) := by
  simp [parameters]

@[simp] theorem inert_parameterList : Inert parameterList := by
  simp [parameterList]

@[simp] theorem inert_bracketedParameterList : Inert bracketedParameterList := by
  simp [bracketedParameterList]

@[simp] theorem inert_lambdaParameter : Inert lambdaParameter := by
  simp [lambdaParameter]

@[simp] theorem inert_lambdaParameters : Inert lambdaParameters := by
  simp [lambdaParameters]

@[simp] theorem inert_lambdaHead : Inert lambdaHead := by
  simp [lambdaHead]

@[simp] theorem inert_lambdaExpression : Inert lambdaExpression := by
  simp [lambdaExpression]

@[simp] theorem inert_whenClause : Inert whenClause := by
  simp [whenClause]

@[simp] theorem inert_switchArms : Inert switchArms := by
  simp [switchArms]

@[simp] theorem inert_switchTail : Inert switchTail := by
  simp [switchTail]

@[simp] theorem inert_single (kind : Kind) :
    Inert (single kind) ↔ kind.isOrdinary = true := by
  simp [single]

@[simp] theorem inert_typeOperator (kind : Kind) :
    Inert (typeOperator kind) ↔ kind.isOrdinary = true := by
  simp [typeOperator]

/-! ## Statements -/

@[simp] theorem inert_declarator : Inert declarator := by
  simp [declarator]

@[simp] theorem inert_moreDeclarators : Inert moreDeclarators := by
  simp [moreDeclarators]

@[simp] theorem inert_declaratorList : Inert declaratorList := by
  simp [declaratorList]

@[simp] theorem inert_variableDeclaration : Inert variableDeclaration := by
  simp [variableDeclaration]

@[simp] theorem inert_arrowClause : Inert arrowClause := by
  simp [arrowClause]

@[simp] theorem inert_functionBody : Inert functionBody := by
  simp only [functionBody, ↓inert_bind, ↓inert_current, true_and]
  intro k
  split <;> simp

@[simp] theorem inert_statements : Inert statements := by
  simp [statements]

@[simp] theorem inert_block : Inert block := by
  simp [block]

@[simp] theorem inert_embeddedStatement : Inert embeddedStatement := by
  simp [embeddedStatement]

@[simp] theorem inert_attributeLists : Inert attributeLists := by
  simp [attributeLists]

@[simp] theorem inert_typeParameter : Inert typeParameter := by
  simp [typeParameter]

@[simp] theorem inert_typeParameters : Inert typeParameters := by
  simp [typeParameters]

@[simp] theorem inert_typeParameterList : Inert typeParameterList := by
  simp [typeParameterList]

@[simp] theorem inert_optionalTypeParameters : Inert optionalTypeParameters := by
  simp [optionalTypeParameters]

@[simp] theorem inert_constraint : Inert constraint := by
  simp only [constraint, ↓inert_bind, ↓inert_current, true_and]
  intro k
  split <;> simp

@[simp] theorem inert_constraints : Inert constraints := by
  simp [constraints]

@[simp] theorem inert_constraintClause : Inert constraintClause := by
  simp [constraintClause]

@[simp] theorem inert_constraintClauses : Inert constraintClauses := by
  simp [constraintClauses]

@[simp] theorem inert_functionRest : Inert functionRest := by
  simp [functionRest]

@[simp] theorem inert_jumpStatement (kind : Kind) (what : String) :
    Inert (jumpStatement kind what) ↔ kind.isOrdinary = true := by
  simp [jumpStatement]

@[simp] theorem inert_valueStatement (kind : Kind) (what : String) :
    Inert (valueStatement kind what) ↔ kind.isOrdinary = true := by
  simp [valueStatement]

@[simp] theorem inert_conditionStatement (kind : Kind) :
    Inert (conditionStatement kind) ↔ kind.isOrdinary = true := by
  simp [conditionStatement]

@[simp] theorem inert_blockStatement (kind : Kind) :
    Inert (blockStatement kind) ↔ kind.isOrdinary = true := by
  simp [blockStatement]

@[simp] theorem inert_labeledStatement : Inert labeledStatement := by
  simp [labeledStatement]

@[simp] theorem inert_ifStatement : Inert ifStatement := by
  simp [ifStatement]

@[simp] theorem inert_doStatement : Inert doStatement := by
  simp [doStatement]

@[simp] theorem inert_usingStatement : Inert usingStatement := by
  simp [usingStatement]

@[simp] theorem inert_gotoStatement : Inert gotoStatement := by
  simp only [gotoStatement, ↓inert_bind, ↓inert_begins, ↓inert_take, ↓inert_current, true_and]
  intro _ _ k
  split <;> simp

@[simp] theorem inert_yieldStatement : Inert yieldStatement := by
  simp [yieldStatement]

@[simp] theorem inert_expressionList : Inert expressionList := by
  simp [expressionList]

@[simp] theorem inert_forHeader : Inert forHeader := by
  simp [forHeader]

@[simp] theorem inert_forStatement : Inert forStatement := by
  simp [forStatement]

@[simp] theorem inert_foreachStatement : Inert foreachStatement := by
  simp [foreachStatement]

@[simp] theorem inert_switchLabel : Inert switchLabel := by
  simp [switchLabel]

@[simp] theorem inert_switchLabels : Inert switchLabels := by
  simp [switchLabels]

@[simp] theorem inert_sectionStatements : Inert sectionStatements := by
  simp [sectionStatements]

@[simp] theorem inert_switchSection : Inert switchSection := by
  simp [switchSection]

@[simp] theorem inert_switchSections : Inert switchSections := by
  simp [switchSections]

@[simp] theorem inert_switchStatement : Inert switchStatement := by
  simp [switchStatement]

@[simp] theorem inert_catchDeclaration : Inert catchDeclaration := by
  simp [catchDeclaration]

@[simp] theorem inert_catchClauses : Inert catchClauses := by
  simp [catchClauses]

@[simp] theorem inert_tryStatement : Inert tryStatement := by
  simp [tryStatement]

@[simp] theorem inert_localModifierWords : Inert localModifierWords := by
  simp [localModifierWords]

@[simp] theorem inert_localModifiers : Inert localModifiers := by
  simp [localModifiers]

@[simp] theorem inert_plainStatement : Inert plainStatement := by
  simp only [plainStatement, ↓inert_bind, ↓inert_ahead, true_and]
  intro k
  split <;> simp

@[simp] theorem inert_identifierStatement : Inert identifierStatement := by
  simp [identifierStatement]

@[simp] theorem inert_statementBody : Inert statementBody := by
  simp only [statementBody, ↓inert_bind, ↓inert_current, true_and]
  intro k
  split <;> simp

@[simp] theorem inert_statement : Inert statement := by
  simp [statement]

/-! ## Declarations -/

@[simp] theorem inert_modifierWords : Inert modifierWords := by
  simp [modifierWords]

@[simp] theorem inert_modifiers : Inert modifiers := by
  simp [modifiers]

@[simp] theorem inert_baseTypes : Inert baseTypes := by
  simp [baseTypes]

@[simp] theorem inert_optionalBaseList : Inert optionalBaseList := by
  simp [optionalBaseList]

@[simp] theorem inert_typeMembers : Inert typeMembers := by
  simp [typeMembers]

@[simp] theorem inert_typeBody : Inert typeBody := by
  simp [typeBody]

@[simp] theorem inert_enumMember : Inert enumMember := by
  simp [enumMember]

@[simp] theorem inert_enumMembers : Inert enumMembers := by
  simp [enumMembers]

@[simp] theorem inert_enumDeclaration : Inert enumDeclaration := by
  simp [enumDeclaration]

@[simp] theorem inert_delegateDeclaration : Inert delegateDeclaration := by
  simp [delegateDeclaration]

@[simp] theorem inert_typeDeclaration : Inert typeDeclaration := by
  simp [typeDeclaration]

@[simp] theorem inert_skipTo (boundary : Boundary) : Inert (skipTo boundary) := by
  simp [skipTo]

@[simp] theorem inert_skipToMember : Inert skipToMember := by
  simp [skipToMember]

@[simp] theorem inert_accessors : Inert accessors := by
  simp [accessors]

@[simp] theorem inert_accessorList : Inert accessorList := by
  simp [accessorList]

@[simp] theorem inert_propertyBody : Inert propertyBody := by
  simp [propertyBody]

@[simp] theorem inert_destructorDeclaration : Inert destructorDeclaration := by
  simp [destructorDeclaration]

@[simp] theorem inert_conversionOperator : Inert conversionOperator := by
  simp [conversionOperator]

@[simp] theorem inert_constructorInitializer : Inert constructorInitializer := by
  simp [constructorInitializer]

@[simp] theorem inert_constructorDeclaration : Inert constructorDeclaration := by
  simp [constructorDeclaration]

@[simp] theorem inert_operatorDeclaration : Inert operatorDeclaration := by
  simp [operatorDeclaration]

@[simp] theorem inert_indexerDeclaration : Inert indexerDeclaration := by
  simp [indexerDeclaration]

@[simp] theorem inert_usingDirective : Inert usingDirective := by
  simp [usingDirective]

@[simp] theorem inert_namespaceDeclaration : Inert namespaceDeclaration := by
  simp [namespaceDeclaration]

@[simp] theorem inert_misplacedWords : Inert misplacedWords := by
  simp [misplacedWords]

@[simp] theorem inert_namespaceMembers (braced : Bool) : Inert (namespaceMembers braced) := by
  simp [namespaceMembers]

@[simp] theorem inert_typeWithMembers {kind : Kind} (h : kind.isOrdinary = true) :
    Inert (typeWithMembers kind) := by
  simp [typeWithMembers, h, -Kind.isOrdinary]

@[simp] theorem inert_brokenMember (problem : Problem) : Inert (brokenMember problem) := by
  simp [brokenMember]

@[simp] theorem inert_declaredType : Inert declaredType := by
  simp only [declaredType, ↓inert_bind, ↓inert_current, true_and]
  intro k
  split <;> simp [missingDeclaration]

@[simp] theorem inert_eventDeclaration : Inert eventDeclaration := by
  simp [eventDeclaration]

@[simp] theorem inert_namedMember : Inert namedMember := by
  simp only [namedMember, ↓inert_bind, ↓inert_take, ↓inert_read, ↓inert_current]
  refine ⟨trivial, fun _ => ⟨rfl, fun _ => ⟨trivial, fun k => ?_⟩⟩⟩
  split <;> simp

@[simp] theorem inert_typedMember : Inert typedMember := by
  simp only [typedMember, ↓inert_bind, ↓inert_skipTrivia, ↓inert_ite, ↓inert_current]
  refine ⟨trivial, fun _ => ⟨inert_frame (by simp), fun isField => ?_⟩⟩
  split
  · simp
  · refine ⟨trivial, fun k => ?_⟩
    split <;> simp

@[simp] theorem inert_declaredMember : Inert declaredMember := by
  simp only [declaredMember, ↓inert_bind, ↓inert_current, true_and]
  intro k
  split <;> simp

@[simp] theorem inert_member : Inert member := by
  simp [member]

@[simp] theorem inert_compilationUnit : Inert compilationUnit := by
  simp [compilationUnit]

@[simp] theorem inert_expressionFragment : Inert expressionFragment := by
  simp [expressionFragment]

end LivePatch.Grammar
