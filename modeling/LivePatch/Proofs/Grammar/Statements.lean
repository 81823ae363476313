import LivePatch.Proofs.Grammar.Expressions

/-!
# Statements keep the contract

Statements are plain: they may hold return statements, but neither methods nor types.  The one
promise beyond that is about the return statement itself.  When its node is made, its frame holds
a word, an expression and another word, so that its parts are quiet and each expression among them
has something to show.

A repetition of statements goes on because it takes a word by force where a statement took none.
-/

namespace LivePatch

namespace Words

variable {ws : List Token}

@[simp] theorem front_eq_eof_of_atLocalModifier (h : atLocalModifier ws = true) :
    front ws = .eof ↔ False := by
  refine ⟨fun he => ?_, False.elim⟩
  rw [atLocalModifier, he] at h
  cases h

@[simp] theorem front_eq_eof_of_atSwitchLabel (h : atSwitchLabel ws = true) :
    front ws = .eof ↔ False := by
  refine ⟨fun he => ?_, False.elim⟩
  rw [atSwitchLabel, he] at h
  cases h

end Words

namespace Grammar

open LivePatch.Action (Safe Leads)
open Words (front)

variable {P : Prop} {l : Level} {ws : List Token} {x : Frame}

/-! ## Variable declarations -/

@[simp] theorem safe_declarator :
    Safe contract declarator (fun _ _ y => y.Below P l) ws x ↔ x.Below P l := by
  simp [declarator]

theorem safe_moreDeclarators :
    Safe contract moreDeclarators (fun _ _ y => y.Below P l) ws x ↔ x.Below P l := by
  simp [moreDeclarators]

theorem leads_moreDeclarators : Leads contract 0 ws moreDeclarators (fun _ => True) := by
  simp [moreDeclarators]

@[simp] theorem safe_declaratorList :
    Safe contract declaratorList (fun _ _ y => y.Below P l) ws x ↔ x.Below P l := by
  simp [declaratorList]

@[simp] theorem safe_variableDeclaration :
    Safe contract variableDeclaration (fun _ _ y => y.Below P l) ws x ↔ x.Below P l := by
  simp [variableDeclaration]

/-! ## Bodies -/

@[simp] theorem safe_arrowClause :
    Safe contract arrowClause (fun _ _ y => y.Below P l) ws x ↔ x.Below P l := by
  simp [arrowClause]

@[simp] theorem safe_functionBody (hl : .plain ≤ l) :
    Safe contract functionBody (fun _ _ y => y.Below P l) ws x ↔ x.Below P l := by
  rw [functionBody, safe_bind, safe_current]
  split <;> simp [hl]

@[simp] theorem leads_functionBody {n : Nat} :
    Leads contract (n + 1) ws functionBody (fun _ => True) ↔ True := by
  rw [functionBody, leads_bind, leads_current]
  split <;> simp [*, arrowClause]

@[simp] theorem safe_ensureProgress (what : String) (body : Step Unit) :
    Safe contract (ensureProgress what body) (fun _ _ y => y.Below P l) ws x ↔
      Safe contract body (fun _ _ y => y.Below P l) ws x := by
  simp +contextual [ensureProgress]

/-- A repetition that has taken no word takes one by force. -/
@[simp] theorem leads_ensureProgress {U : Unit → Prop} {n : Nat} (what : String) (body : Step Unit)
    (h : front ws ≠ .eof) : Leads contract n ws (ensureProgress what body) U ↔
      Leads contract n ws body fun _ => True := by
  simp [ensureProgress, h]

theorem safe_statements (hl : .plain ≤ l) :
    Safe contract statements (fun _ _ y => y.Below P l) ws x ↔ x.Below P l := by
  simp [statements, hl]

theorem leads_statements : Leads contract 5 ws statements (fun _ => True) := by
  simp +contextual [statements]

theorem safe_block (hl : .plain ≤ l) :
    Safe contract block (fun _ _ y => y.Below P l) ws x ↔ x.Below P l := by
  simp [block, hl]

theorem leads_block :
    Leads contract (if front ws = .lBrace then 0 else 6) ws block (fun _ => True) := by
  simp +contextual [block]

@[simp] theorem safe_embeddedStatement (hl : .plain ≤ l) :
    Safe contract embeddedStatement (fun _ _ y => y.Below P l) ws x ↔ x.Below P l := by
  simp [embeddedStatement, hl]

/-! ## Type parameters and constraints of declarations -/

theorem safe_attributeLists :
    Safe contract attributeLists (fun _ _ y => y.Below P l) ws x ↔ x.Below P l := by
  simp [attributeLists]

theorem leads_attributeLists : Leads contract 0 ws attributeLists (fun _ => True) := by
  simp only [attributeLists, attributeList]
  simp +contextual

@[simp] theorem safe_typeParameter :
    Safe contract typeParameter (fun _ _ y => y.Below P l) ws x ↔ x.Below P l := by
  simp +contextual [typeParameter, ite_or]

theorem safe_typeParameters :
    Safe contract typeParameters (fun _ _ y => y.Below P l) ws x ↔ x.Below P l := by
  simp [typeParameters]

theorem leads_typeParameters : Leads contract 2 ws typeParameters (fun _ => True) := by
  simp [typeParameters, typeParameter]

@[simp] theorem safe_typeParameterList :
    Safe contract typeParameterList (fun _ _ y => y.Below P l) ws x ↔ x.Below P l := by
  simp [typeParameterList]

@[simp] theorem safe_optionalTypeParameters :
    Safe contract optionalTypeParameters (fun _ _ y => y.Below P l) ws x ↔ x.Below P l := by
  simp [optionalTypeParameters]

@[simp] theorem safe_constraint :
    Safe contract constraint (fun _ _ y => y.Below P l) ws x ↔ x.Below P l := by
  rw [constraint, safe_bind, safe_current]
  split <;> simp [*]

theorem safe_constraints :
    Safe contract constraints (fun _ _ y => y.Below P l) ws x ↔ x.Below P l := by
  simp [constraints]

theorem leads_constraints : Leads contract 2 ws constraints (fun _ => True) := by
  rw [constraints, leads_bind, constraint, leads_bind, leads_current]
  split <;> simp [type]

@[simp] theorem safe_constraintClause (h : front ws ≠ .eof) :
    Safe contract constraintClause (fun _ _ y => y.Below P l) ws x ↔ x.Below P l := by
  simp [constraintClause, h]

theorem safe_constraintClauses :
    Safe contract constraintClauses (fun _ _ y => y.Below P l) ws x ↔ x.Below P l := by
  simp +contextual [constraintClauses]

theorem leads_constraintClauses : Leads contract 0 ws constraintClauses (fun _ => True) := by
  simp [constraintClauses, constraintClause]

@[simp] theorem safe_functionRest (hl : .plain ≤ l) :
    Safe contract functionRest (fun _ _ y => y.Below P l) ws x ↔ x.Below P l := by
  simp [functionRest, hl]

/-! ## Statements with words of their own -/

/-- A returned value is all that stands between the first word and the semicolon. -/
theorem safe_returnStatement (hl : .plain ≤ l) (what : String) (h : front ws ≠ .eof) :
    Safe contract (valueStatement .returnStatement what) (fun _ _ y => y.Below P l) ws x.inner ↔
      P := by
  simp [valueStatement, expression, h, hl]

theorem safe_throwStatement (what : String) (h : front ws ≠ .eof) :
    Safe contract (valueStatement .throwStatement what) (fun _ _ y => y.Below P l) ws x ↔
      x.Below P l := by
  simp [valueStatement, h]

theorem safe_labeledStatement (hl : .plain ≤ l) (h : front ws ≠ .eof)
    (h' : front ws.tail ≠ .eof) :
    Safe contract labeledStatement (fun _ _ y => y.Below P l) ws x ↔ x.Below P l := by
  simp [labeledStatement, h, h', hl]

theorem safe_ifStatement (hl : .plain ≤ l) (h : front ws ≠ .eof) :
    Safe contract ifStatement (fun _ _ y => y.Below P l) ws x ↔ x.Below P l := by
  simp [ifStatement, h, hl]

theorem safe_doStatement (hl : .plain ≤ l) (h : front ws ≠ .eof) :
    Safe contract doStatement (fun _ _ y => y.Below P l) ws x ↔ x.Below P l := by
  simp [doStatement, h, hl]

theorem safe_usingStatement (hl : .plain ≤ l) (h : front ws ≠ .eof) :
    Safe contract usingStatement (fun _ _ y => y.Below P l) ws x ↔ x.Below P l := by
  simp [usingStatement, h, hl]

theorem safe_gotoStatement (h : front ws ≠ .eof) :
    Safe contract gotoStatement (fun _ _ y => y.Below P l) ws x ↔ x.Below P l := by
  rw [gotoStatement, safe_bind, safe_begins, safe_bind, safe_take, safe_bind, safe_current]
  split <;> simp [*]

theorem safe_yieldStatement (h : front ws ≠ .eof) (h' : front ws.tail ≠ .eof) :
    Safe contract yieldStatement (fun _ _ y => y.Below P l) ws x ↔ x.Below P l := by
  simp [yieldStatement, h, h']

theorem safe_forStatement (hl : .plain ≤ l) (h : front ws ≠ .eof) :
    Safe contract forStatement (fun _ _ y => y.Below P l) ws x ↔ x.Below P l := by
  simp [forStatement, forHeader, h, hl]

theorem safe_foreachStatement (hl : .plain ≤ l) (h : front ws ≠ .eof) :
    Safe contract foreachStatement (fun _ _ y => y.Below P l) ws x ↔ x.Below P l := by
  simp [foreachStatement, h, hl]

theorem safe_expressionList :
    Safe contract expressionList (fun _ _ y => y.Below P l) ws x ↔ x.Below P l := by
  simp [expressionList]

theorem leads_expressionList : Leads contract 3 ws expressionList (fun _ => True) := by
  simp [expressionList, expression]

/-! ## Switch and try -/

@[simp] theorem safe_switchLabel (h : front ws ≠ .eof) :
    Safe contract switchLabel (fun _ _ y => y.Below P l) ws x ↔ x.Below P l := by
  simp +contextual [switchLabel, h]

theorem safe_switchLabels :
    Safe contract switchLabels (fun _ _ y => y.Below P l) ws x ↔ x.Below P l := by
  simp +contextual [switchLabels]

theorem leads_switchLabels :
    Leads contract 0 ws switchLabels (fun _ => Words.atSwitchLabel ws = false) := by
  simp [switchLabels, switchLabel]

theorem safe_sectionStatements (hl : .plain ≤ l) :
    Safe contract sectionStatements (fun _ _ y => y.Below P l) ws x ↔ x.Below P l := by
  simp [sectionStatements, hl]

theorem leads_sectionStatements : Leads contract 5 ws sectionStatements (fun _ => True) := by
  simp +contextual [sectionStatements]

@[simp] theorem safe_switchSection (hl : .plain ≤ l) :
    Safe contract switchSection (fun _ _ y => y.Below P l) ws x ↔ x.Below P l := by
  simp [switchSection, hl]

theorem safe_switchSections (hl : .plain ≤ l) :
    Safe contract switchSections (fun _ _ y => y.Below P l) ws x ↔ x.Below P l := by
  simp only [switchSections]
  simp +contextual [hl]

theorem leads_switchSections : Leads contract 6 ws switchSections (fun _ => True) := by
  simp +contextual [switchSections, switchSection]

theorem safe_switchStatement (hl : .plain ≤ l) (h : front ws ≠ .eof) :
    Safe contract switchStatement (fun _ _ y => y.Below P l) ws x ↔ x.Below P l := by
  simp [switchStatement, h, hl]

@[simp] theorem safe_catchDeclaration (h : front ws ≠ .eof) :
    Safe contract catchDeclaration (fun _ _ y => y.Below P l) ws x ↔ x.Below P l := by
  simp [catchDeclaration, h]

theorem safe_catchClauses (hl : .plain ≤ l) :
    Safe contract catchClauses (fun _ _ y => y.Below P l) ws x ↔ x.Below P l := by
  simp only [catchClauses]
  simp +contextual [hl]

theorem leads_catchClauses : Leads contract 0 ws catchClauses (fun _ => True) := by
  simp [catchClauses]

theorem safe_tryStatement (hl : .plain ≤ l) (h : front ws ≠ .eof) :
    Safe contract tryStatement (fun _ _ y => y.Below P l) ws x ↔ x.Below P l := by
  simp +contextual [tryStatement, h, hl]

/-! ## Local declarations and the choice of a statement -/

theorem safe_localModifierWords :
    Safe contract localModifierWords (fun _ _ y => y.Below P l) ws x ↔ x.Below P l := by
  simp +contextual [localModifierWords]

theorem leads_localModifierWords : Leads contract 0 ws localModifierWords (fun _ => True) := by
  simp [localModifierWords]

@[simp] theorem safe_localModifiers :
    Safe contract localModifiers (fun _ _ y => y.Below P l) ws x ↔ x.Below P l := by
  simp [localModifiers]

theorem safe_plainStatement (hl : .plain ≤ l) :
    Safe contract plainStatement (fun _ _ y => y.Below P l) ws x ↔ x.Below P l := by
  rw [plainStatement, safe_bind, safe_ahead]
  split <;> simp [hl]

theorem leads_plainStatement : Leads contract 4 ws plainStatement (fun _ => True) := by
  rw [plainStatement, leads_bind, leads_ahead]
  split
  · simp [localModifiers, variableDeclaration, type, declaratorList, declarator,
      bracketedArgumentList]
  · simp +contextual [localModifiers, type, functionRest, optionalTypeParameters,
      typeParameterList, parameterList]
  · simp [expression]

theorem safe_identifierStatement (hl : .plain ≤ l) (h : front ws = .identifier) :
    Safe contract identifierStatement (fun _ _ y => y.Below P l) ws x ↔ x.Below P l := by
  have hne : front ws ≠ .eof := by simp [h]
  rw [identifierStatement, safe_bind, safe_ahead, safe_ite, safe_bind, safe_ahead, safe_ite]
  split
  · rename_i hcolon
    exact safe_labeledStatement hl hne (by simp_all)
  split
  · rename_i hyield
    refine safe_yieldStatement hne ?_
    intro he
    simp [he] at hyield
  · exact safe_plainStatement hl

theorem safe_statementBody (hl : .plain ≤ l) :
    Safe contract statementBody (fun _ _ y => y.Below P l) ws x.inner ↔ P := by
  rw [statementBody, safe_bind, safe_current]
  split <;> rename_i h
  case h_1 => simp [hl]
  case h_2 => simp [single, h]
  case h_3 => simp [safe_identifierStatement hl h]
  case h_4 => simp [safe_ifStatement hl, h]
  case h_5 => simp [safe_switchStatement hl, h]
  case h_6 => simp [safe_forStatement hl, h]
  case h_7 => simp [safe_foreachStatement hl, h]
  case h_8 | h_10 => simp [conditionStatement, h, hl]
  case h_9 => simp [safe_doStatement hl, h]
  case h_11 => simp [safe_usingStatement hl, safe_plainStatement hl, h]
  case h_12 => simp [safe_tryStatement hl, h]
  case h_13 => simp [safe_returnStatement hl, h]
  case h_14 => simp [safe_throwStatement, h]
  case h_15 | h_16 => simp [jumpStatement, h]
  case h_17 => simp [safe_gotoStatement, h]
  case h_18 | h_19 | h_20 => simp [blockStatement, safe_plainStatement hl, h, hl]
  case h_21 => simp [safe_plainStatement hl]

theorem safe_statement (hl : .plain ≤ l) :
    Safe contract statement (fun _ _ y => y.Below P l) ws x ↔ x.Below P l := by
  simp [statement, safe_statementBody hl]

theorem leads_statement : Leads contract 4 ws statement (fun _ => True) := by
  rw [statement, leads_bind, leads_skipTrivia, leads_frame, statementBody, leads_bind,
    leads_current]
  split <;> rename_i h
  case h_1 => simp [h]
  case h_2 => simp [single]
  case h_3 =>
    rw [identifierStatement, leads_bind, leads_ahead, leads_ite, leads_bind, leads_ahead,
      leads_ite]
    split
    · simp [labeledStatement]
    split
    · simp [yieldStatement]
    · exact leads_plainStatement
  case h_4 => simp [ifStatement]
  case h_5 => simp [switchStatement]
  case h_6 => simp [forStatement]
  case h_7 => simp [foreachStatement]
  case h_8 | h_10 => simp [conditionStatement]
  case h_9 => simp [doStatement]
  case h_11 => simp [usingStatement, leads_plainStatement]
  case h_12 => simp [tryStatement]
  case h_13 | h_14 => simp [valueStatement]
  case h_15 | h_16 => simp [jumpStatement]
  case h_17 => simp [gotoStatement]
  case h_18 | h_19 | h_20 => simp [blockStatement, leads_plainStatement]
  case h_21 => exact leads_plainStatement

end Grammar

end LivePatch
