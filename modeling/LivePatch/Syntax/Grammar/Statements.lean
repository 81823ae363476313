import LivePatch.Syntax.Grammar.Expressions

/-!
# Statements

The productions for blocks, statements and local declarations.  A statement is read in a frame of
its own and encloses it under its kind at the end.
-/

namespace LivePatch.Grammar

/-! ## Variable declarations -/

/-- One declared variable, with an optional fixed size and an optional initial value. -/
def declarator : Step Unit := do
  Action.skipTrivia
  node .variableDeclarator do
    expectIdentifier "variable name"
    if ← sees .lBracket then bracketedArgumentList
    if ← eat .eq then
      let kind ← current
      if kind == .semicolon || kind == .comma then missing "initializer expression"
      else initialValue

/-- Further declared variables. -/
def moreDeclarators : Step Unit := do
  if ← eat .comma then
    declarator
    read .moreDeclarators

/-- The declared variables behind a type. -/
def declaratorList : Step Unit :=
  node .variableDeclaratorList do
    declarator
    read .moreDeclarators

/-- A type with the variables declared of it. -/
def variableDeclaration : Step Unit := do
  Action.skipTrivia
  node .variableDeclaration do
    let _ ← type
    declaratorList

/-! ## Bodies -/

/-- The body of a function given by an expression. -/
def arrowClause : Step Unit :=
  node .arrowExpressionClause do
    expect .fatArrow "`=>`"
    expression

/-- The body of a function: a block, an expression or nothing. -/
def functionBody : Step Unit := do
  match ← current with
  | .lBrace => read .block
  | .fatArrow =>
    arrowClause
    expect .semicolon "`;` after expression body"
  | _ => expect .semicolon "`;` or body"

/-- The statements of a block. -/
def statements : Step Unit := do
  let kind ← current
  unless kind == .rBrace || kind == .eof do
    ensureProgress "token in block" (read .statement)
    read .statements

/-- A block. -/
def block : Step Unit :=
  node .block do
    expect .lBrace "`\x7b`"
    read .statements
    expect .rBrace "`\x7d`"

/-- A statement inside another one. -/
def embeddedStatement : Step Unit := do
  let kind ← current
  if kind == .eof || kind == .rBrace then missing "statement" else read .statement

/-! ## Type parameters and constraints of declarations -/

/-- Attribute lists in a row. -/
def attributeLists : Step Unit := do
  if ← sees .lBracket then
    attributeList
    read .attributeLists

/-- One type parameter, with attributes and an optional variance. -/
def typeParameter : Step Unit := do
  Action.skipTrivia
  node .typeParameter do
    read .attributeLists
    let kind ← current
    if kind == .inKw || kind == .outKw then Action.take
    expectIdentifier "type parameter name"

/-- The type parameters between two angle brackets. -/
def typeParameters : Step Unit := do
  let kind ← current
  unless kind == .greater || kind == .rightShift || kind == .eof do
    typeParameter
    if ← eat .comma then read .typeParameters

/-- A type parameter list. -/
def typeParameterList : Step Unit :=
  node .typeParameterList do
    expect .less "`<`"
    read .typeParameters
    expectClosingAngle

/-- A type parameter list, if one comes next. -/
def optionalTypeParameters : Step Unit := do
  if ← sees .less then typeParameterList

/-- One constraint of a type parameter. -/
def constraint : Step Unit := do
  match ← current with
  | .classKw | .structKw =>
    Action.take
    takeIf .question
  | .newKw =>
    Action.take
    expect .lParen "`(` after `new`"
    expect .rParen "`)`"
  | .defaultKw => Action.take
  | _ =>
    let _ ← type

/-- The constraints of a type parameter. -/
def constraints : Step Unit := do
  constraint
  if ← eat .comma then read .constraints

/-- A clause that constrains a type parameter. -/
def constraintClause : Step Unit :=
  node .typeConstraintClause do
    Action.take
    expectIdentifier "type parameter name"
    expect .colon "`:` in type constraint"
    read .constraints

/-- Constraint clauses in a row. -/
def constraintClauses : Step Unit := do
  if ← seesWord "where" then
    constraintClause
    read .constraintClauses

/-- The part of a function behind its name: type parameters, parameters, constraints, body. -/
def functionRest : Step Unit := do
  optionalTypeParameters
  parameterList
  read .constraintClauses
  functionBody

/-! ## Statements with words of their own -/

/-- Statements that consist of a word and a semicolon. -/
def jumpStatement (kind : Kind) (what : String) : Step Unit := do
  begins kind
  Action.take
  expect .semicolon what
  Action.enclose kind

/-- Statements that consist of a word, an optional value and a semicolon. -/
def valueStatement (kind : Kind) (what : String) : Step Unit := do
  begins kind
  Action.take
  unless ← sees .semicolon do expression
  expect .semicolon what
  Action.enclose kind

/-- Statements that consist of a word, a condition and a statement. -/
def conditionStatement (kind : Kind) : Step Unit := do
  begins kind
  Action.take
  parenthesized
  embeddedStatement
  Action.enclose kind

/-- Statements that consist of a word and a block. -/
def blockStatement (kind : Kind) : Step Unit := do
  begins kind
  Action.take
  read .block
  Action.enclose kind

/-- A statement behind a label. -/
def labeledStatement : Step Unit := do
  begins .labeledStatement
  Action.take
  Action.take
  read .statement
  Action.enclose .labeledStatement

/-- A conditional statement. -/
def ifStatement : Step Unit := do
  begins .ifStatement
  Action.take
  parenthesized
  embeddedStatement
  if ← eat .elseKw then embeddedStatement
  Action.enclose .ifStatement

/-- A loop with its condition at the end. -/
def doStatement : Step Unit := do
  begins .doStatement
  Action.take
  embeddedStatement
  expect .whileKw "`while` after `do` body"
  parenthesized
  expect .semicolon "`;` after do-while"
  Action.enclose .doStatement

/-- A statement that holds a resource. -/
def usingStatement : Step Unit := do
  begins .usingStatement
  Action.take
  expect .lParen "`(`"
  if ← ahead Words.atVariableDeclaration then variableDeclaration else expression
  expect .rParen "`)`"
  embeddedStatement
  Action.enclose .usingStatement

/-- A jump to a label or a switch section. -/
def gotoStatement : Step Unit := do
  begins .gotoStatement
  Action.take
  match ← current with
  | .caseKw =>
    Action.take
    expression
  | .defaultKw => Action.take
  | _ => expectIdentifier "label"
  expect .semicolon "`;` after goto"
  Action.enclose .gotoStatement

/-- A statement of an iterator. -/
def yieldStatement : Step Unit := do
  begins .yieldStatement
  Action.take
  let isReturn ← sees .returnKw
  Action.take
  if isReturn then expression
  expect .semicolon "`;` after yield"
  Action.enclose .yieldStatement

/-- Expressions separated by commas. -/
def expressionList : Step Unit := do
  expression
  if ← eat .comma then read .expressionList

/-- The header of a counting loop. -/
def forHeader : Step Unit :=
  node .forHeader do
    expect .lParen "`(`"
    unless ← sees .semicolon do
      if ← ahead Words.atVariableDeclaration then variableDeclaration else read .expressionList
    expect .semicolon "`;` in for header"
    unless ← sees .semicolon do expression
    expect .semicolon "`;` in for header"
    unless ← sees .rParen do read .expressionList
    expect .rParen "`)`"

/-- A counting loop. -/
def forStatement : Step Unit := do
  begins .forStatement
  Action.take
  forHeader
  embeddedStatement
  Action.enclose .forStatement

/-- A loop over a collection. -/
def foreachStatement : Step Unit := do
  begins .forEachStatement
  Action.take
  expect .lParen "`(`"
  takeIf .refKw
  if ← ahead Words.atVarDesignation then declarationExpression
  else
    let _ ← type
    expectIdentifier "loop variable name"
  expect .inKw "`in`"
  expression
  expect .rParen "`)`"
  embeddedStatement
  Action.enclose .forEachStatement

/-! ## Switch and try -/

/-- One label of a switch section. -/
def switchLabel : Step Unit := do
  Action.skipTrivia
  node .switchLabel do
    if ← eat .caseKw then
      read .pattern
      if ← seesWord "when" then whenClause
    else
      Action.take
    expect .colon "`:` after switch label"

/-- The labels of a switch section. -/
def switchLabels : Step Unit := do
  if ← ahead Words.atSwitchLabel then
    switchLabel
    read .switchLabels

/-- The statements of a switch section. -/
def sectionStatements : Step Unit := do
  unless ← ahead Words.atSwitchLabel do
    let kind ← current
    unless kind == .rBrace || kind == .eof do
      ensureProgress "token in switch section" (read .statement)
      read .sectionStatements

/-- A section of a switch statement. -/
def switchSection : Step Unit := do
  Action.skipTrivia
  node .switchSection do
    read .switchLabels
    read .sectionStatements

/-- The sections of a switch statement. -/
def switchSections : Step Unit := do
  let kind ← current
  unless kind == .rBrace || kind == .eof do
    if ← ahead Words.atSwitchLabel then switchSection
    else
      node .error do
        missing "`case` or `default`"
        Action.take
    read .switchSections

/-- A switch statement. -/
def switchStatement : Step Unit := do
  begins .switchStatement
  Action.take
  parenthesized
  expect .lBrace "`\x7b`"
  read .switchSections
  expect .rBrace "`\x7d`"
  Action.enclose .switchStatement

/-- What a handler catches. -/
def catchDeclaration : Step Unit :=
  node .catchDeclaration do
    Action.take
    let _ ← type
    takeIf .identifier
    expect .rParen "`)`"

/-- The handlers of a try statement. -/
def catchClauses : Step Unit := do
  if ← sees .catchKw then
    Action.skipTrivia
    node .catchClause do
      Action.take
      if ← sees .lParen then catchDeclaration
      if ← seesWord "when" then
        node .whenClause do
          Action.take
          parenthesized
      read .block
    read .catchClauses

/-- A try statement. -/
def tryStatement : Step Unit := do
  begins .tryStatement
  Action.take
  read .block
  read .catchClauses
  if ← sees .finallyKw then
    Action.skipTrivia
    node .finallyClause do
      Action.take
      read .block
  Action.enclose .tryStatement

/-! ## Local declarations and the choice of a statement -/

/-- The modifiers of a local declaration. -/
def localModifierWords : Step Unit := do
  if ← ahead Words.atLocalModifier then
    Action.take
    read .localModifierWords

/-- The node of a local declaration's modifiers, which may be empty. -/
def localModifiers : Step Unit := node .modifiers (read .localModifierWords)

/-- A local variable declaration, a local function or an expression. -/
def plainStatement : Step Unit := do
  match ← ahead Words.localStart with
  | .variable =>
    begins .localVariableDeclarationStatement
    localModifiers
    variableDeclaration
    expect .semicolon "`;` after local declaration"
    Action.enclose .localVariableDeclarationStatement
  | .function =>
    begins .localFunctionStatement
    localModifiers
    let _ ← type
    expectIdentifier "local function name"
    functionRest
    Action.enclose .localFunctionStatement
  | .nothing =>
    begins .expressionStatement
    expression
    expect .semicolon "`;` after expression"
    Action.enclose .expressionStatement

/-- A statement that starts with an identifier. -/
def identifierStatement : Step Unit := do
  if ← ahead (Words.isAt 1 .colon) then labeledStatement
  else if ← ahead (fun ws => Words.frontText ws == "yield" &&
      (Words.isAt 1 .returnKw ws || Words.isAt 1 .breakKw ws)) then yieldStatement
  else plainStatement

/-- The parts of a statement, by its first word. -/
def statementBody : Step Unit := do
  match ← current with
  | .lBrace => read .block
  | .semicolon => single .emptyStatement
  | .identifier => identifierStatement
  | .ifKw => ifStatement
  | .switchKw => switchStatement
  | .forKw => forStatement
  | .foreachKw => foreachStatement
  | .whileKw => conditionStatement .whileStatement
  | .doKw => doStatement
  | .lockKw => conditionStatement .lockStatement
  | .usingKw => if ← ahead (Words.isAt 1 .lParen) then usingStatement else plainStatement
  | .tryKw => tryStatement
  | .returnKw => valueStatement .returnStatement "`;` after return"
  | .throwKw => valueStatement .throwStatement "`;` after throw"
  | .breakKw => jumpStatement .breakStatement "`;` after break"
  | .continueKw => jumpStatement .continueStatement "`;` after continue"
  | .gotoKw => gotoStatement
  | .checkedKw | .uncheckedKw =>
    if ← ahead (Words.isAt 1 .lBrace) then blockStatement .checkedStatement else plainStatement
  | .unsafeKw =>
    if ← ahead (Words.isAt 1 .lBrace) then blockStatement .unsafeStatement else plainStatement
  | _ => plainStatement

/-- A statement. -/
def statement : Step Unit := do
  Action.skipTrivia
  Action.frame statementBody

end LivePatch.Grammar
