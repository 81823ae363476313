import LivePatch.Syntax.Grammar.Types

/-!
# Expressions and patterns

Expressions are read by binding powers: an operand, then as many operators as bind at least as
tightly as the power asked for.  Every operator encloses what its frame has built so far, the left
operand, together with itself and its right operand.
-/

namespace LivePatch.Grammar

/-! ## Binding powers -/

/-- How tightly an operator binds to its two sides, and the node it makes. -/
structure Binding where
  left : Nat
  right : Nat
  kind : Kind
deriving DecidableEq, Repr

/-- The power of the type test and conversion, shared with the comparisons. -/
def relationalPower : Nat := 17

/-- The power of the shifts; an operand of a pattern binds at least this tightly. -/
def shiftPower : Nat := 19

/-- The power of the switch expression. -/
def switchPower : Nat := 26

/-- The power of the operand behind a prefix operator or a cast. -/
def prefixPower : Nat := 100

/-- The binding of the conditional operator. -/
def conditionalBinding : Binding := ⟨2, 1, .conditionalExpression⟩

/-- The binding of an operator between two operands. -/
def binding? (op : Kind) : Option Binding :=
  match op with
  | .star | .slash | .percent => some ⟨23, 24, .binaryExpression⟩
  | .plus | .minus => some ⟨21, 22, .binaryExpression⟩
  | .leftShift | .rightShift => some ⟨shiftPower, 20, .binaryExpression⟩
  | .less | .lessEq | .greater | .greaterEq => some ⟨relationalPower, 18, .binaryExpression⟩
  | .eqEq | .bangEq => some ⟨15, 16, .binaryExpression⟩
  | .amp => some ⟨13, 14, .binaryExpression⟩
  | .caret => some ⟨11, 12, .binaryExpression⟩
  | .pipe => some ⟨9, 10, .binaryExpression⟩
  | .ampAmp => some ⟨7, 8, .binaryExpression⟩
  | .pipePipe => some ⟨5, 6, .binaryExpression⟩
  | .questionQuestion => some ⟨4, 3, .binaryExpression⟩
  | op => if op.isAssignmentOperator then some ⟨1, 0, .assignmentExpression⟩ else none

/-! ## Parts -/

/-- An expression in which every operator may stand. -/
def expression : Step Unit := read (.expression 0)

/-- An expression between parentheses, as a condition. -/
def parenthesized : Step Unit := do
  expect .lParen "`(`"
  expression
  expect .rParen "`)`"

/-- A declared variable as an expression: a type with a name or a parenthesised designation. -/
def declarationExpression : Step Unit := do
  Action.skipTrivia
  node .declarationExpression do
    let _ ← type
    if ← sees .lParen then read .designation else expectIdentifier "variable name"

/-- A parenthesised designation. -/
def designation : Step Unit := do
  Action.skipTrivia
  node .parenthesizedVariableDesignation do
    Action.take
    read .designated
    expect .rParen "`)`"

/-- The names and groups of a designation. -/
def designated : Step Unit := do
  if ← sees .lParen then read .designation else expectIdentifier "variable name"
  if ← eat .comma then read .designated

/-- Does the argument at the front begin with its parameter's name? -/
def atNamedArgument (ws : List Token) : Bool :=
  Words.isAt 0 .identifier ws && Words.isAt 1 .colon ws

/-- One argument, with an optional name and an optional passing mode. -/
def argument : Step Unit := do
  Action.skipTrivia
  node .argument do
    if (← sees .identifier) && (← ahead (Words.isAt 1 .colon)) then
      Action.take
      Action.take
    let kind ← current
    if kind == .refKw || kind == .outKw || kind == .inKw then
      Action.take
      if ← ahead Words.atDeclarationExpression then declarationExpression else expression
    else
      expression

/-- Arguments up to the bracket `close`. -/
def arguments (close : Kind) : Step Unit := do
  let kind ← current
  unless kind == close || kind == .eof do
    argument
    if ← eat .comma then read (.arguments close)

/-- Arguments between parentheses. -/
def argumentList : Step Unit :=
  node .argumentList do
    expect .lParen "`(`"
    read (.arguments .rParen)
    expect .rParen "`)`"

/-- Arguments between square brackets. -/
def bracketedArgumentList : Step Unit :=
  node .bracketedArgumentList do
    expect .lBracket "`[`"
    read (.arguments .rBracket)
    expect .rBracket "`]`"

/-- An identifier, with type arguments where they cannot be a comparison. -/
def nameExpression : Step Unit := do
  Action.skipTrivia
  node .nameExpression do
    expectIdentifier "name"
    if (← sees .less) && (← ahead Words.atTypeArguments) then typeArgumentList

/-- An element of a parenthesised expression or tuple. -/
def tupleValue : Step Unit := do
  if (← sees .identifier) && (← ahead (Words.isAt 1 .colon)) then
    Action.skipTrivia
    node .argument do
      Action.take
      Action.take
      expression
  else if (← ahead Words.atVarDesignation) || (← ahead Words.atTupleDeclaration) then
    declarationExpression
  else
    expression

/-- Further elements of a parenthesised expression; the answer tells whether there were any, here
or before. -/
def moreTupleValues (isTuple : Bool) : Step Bool := do
  if ← eat .comma then
    tupleValue
    Action.call (.moreTupleValues true)
  else
    return isTuple

/-! ## Initializers and object creation -/

/-- An initial value: an expression or a braced initializer. -/
def initialValue : Step Unit := do
  if ← sees .lBrace then read .initializer else expression

/-- A braced initializer. -/
def initializer : Step Unit := do
  Action.skipTrivia
  node .initializerExpression do
    expect .lBrace "`\x7b`"
    read .initializerElements
    expect .rBrace "`\x7d`"

/-- An element of an initializer that sets an index. -/
def indexedElement : Step Unit :=
  Action.frame do
    node .elementAccessExpression bracketedArgumentList
    if ← sees .eq then
      begins .assignmentExpression
      Action.take
      initialValue
      Action.enclose .assignmentExpression

/-- The elements of an initializer. -/
def initializerElements : Step Unit := do
  let kind ← current
  unless kind == .rBrace || kind == .eof do
    match kind with
    | .lBrace => read .initializer
    | .lBracket => indexedElement
    | _ => expression
    if ← eat .comma then read .initializerElements

/-- Array ranks without sizes. -/
def arrayRanks : Step Unit := do
  if (← sees .lBracket) && (← ahead atArrayRank) then
    arrayRank
    read .arrayRanks

/-- An initializer, if one comes next. -/
def optionalInitializer : Step Unit := do
  if ← sees .lBrace then read .initializer

/-- An object or array creation. -/
def newExpression : Step Unit := do
  Action.take
  match ← current with
  | .lBracket =>
    arrayRank
    read .initializer
    begins .arrayCreationExpression
    Action.enclose .arrayCreationExpression
  | .lBrace =>
    read .initializer
    begins .objectCreationExpression
    Action.enclose .objectCreationExpression
  | .lParen =>
    argumentList
    optionalInitializer
    begins .objectCreationExpression
    Action.enclose .objectCreationExpression
  | _ =>
    let isArray ← type
    if ← sees .lBracket then
      bracketedArgumentList
      read .arrayRanks
      optionalInitializer
      begins .arrayCreationExpression
      Action.enclose .arrayCreationExpression
    else
      if ← sees .lParen then argumentList
      if ← sees .lBrace then read .initializer
      else if isArray then missing "array initializer"
      let kind : Kind := if isArray then .arrayCreationExpression else .objectCreationExpression
      begins kind
      Action.enclose kind

/-! ## Parameters and lambdas -/

/-- One attribute: a name with optional arguments. -/
def attributeUse : Step Unit :=
  node .attributeUse do
    dottedName
    if ← sees .lParen then argumentList

/-- The attributes between two square brackets. -/
def attributes : Step Unit := do
  let kind ← current
  unless kind == .rBracket || kind == .eof do
    attributeUse
    if ← eat .comma then read .attributes

/-- An attribute list, with an optional target. -/
def attributeList : Step Unit :=
  node .attributeList do
    expect .lBracket "`[`"
    let kind ← current
    if (kind == .identifier || kind == .returnKw) && (← ahead (Words.isAt 1 .colon)) then
      Action.take
      Action.take
    read .attributes
    expect .rBracket "`]`"

/-- The modifiers of a parameter. -/
def parameterModifierWords : Step Unit := do
  match ← current with
  | .lBracket =>
    attributeList
    read .parameterModifierWords
  | .refKw | .outKw | .inKw | .paramsKw | .thisKw | .readonlyKw =>
    Action.take
    read .parameterModifierWords
  | .identifier =>
    if ← ahead Words.atScopedModifier then
      Action.take
      read .parameterModifierWords
  | _ => pure ()

/-- The node of a parameter's modifiers, which may be empty. -/
def parameterModifiers : Step Unit := node .modifiers (read .parameterModifierWords)

/-- One parameter of a declaration. -/
def parameter : Step Unit := do
  Action.skipTrivia
  node .parameter do
    parameterModifiers
    if Words.canStartType (← current) then
      let _ ← type
    else
      missing "parameter type"
    expectIdentifier "parameter name"
    if ← eat .eq then expression

/-- Parameters up to the bracket `close`. -/
def parameters (close : Kind) : Step Unit := do
  let kind ← current
  unless kind == close || kind == .eof do
    parameter
    if ← eat .comma then read (.parameters close)

/-- Parameters between parentheses. -/
def parameterList : Step Unit :=
  node .parameterList do
    expect .lParen "`(`"
    read (.parameters .rParen)
    expect .rParen "`)`"

/-- Parameters between square brackets. -/
def bracketedParameterList : Step Unit :=
  node .bracketedParameterList do
    expect .lBracket "`[`"
    read (.parameters .rBracket)
    expect .rBracket "`]`"

/-- One parameter of a lambda; its type may be left out. -/
def lambdaParameter : Step Unit := do
  Action.skipTrivia
  node .parameter do
    parameterModifiers
    let isImplicit := (← sees .identifier) &&
      (← ahead (fun ws => Words.isAt 1 .comma ws || Words.isAt 1 .rParen ws))
    unless isImplicit do
      let _ ← type
    expectIdentifier "lambda parameter name"

/-- The parameters of a lambda. -/
def lambdaParameters : Step Unit := do
  let kind ← current
  unless kind == .rParen || kind == .eof do
    lambdaParameter
    if ← eat .comma then read .lambdaParameters

/-- The parameters of a lambda: a parenthesised list or one bare name. -/
def lambdaHead : Step Unit := do
  if ← sees .lParen then
    node .parameterList do
      Action.take
      read .lambdaParameters
      expect .rParen "`)` in lambda parameters"
  else
    Action.skipTrivia
    node .parameter (expectIdentifier "lambda parameter")

/-- A lambda or an anonymous method. -/
def lambdaExpression : Step Unit := do
  begins .lambdaExpression
  if ← seesWord "async" then Action.take
  if ← eat .delegateKw then
    if ← sees .lParen then parameterList
    read .block
  else
    lambdaHead
    expect .fatArrow "`=>` in lambda"
    if ← sees .lBrace then read .block else expression
  Action.enclose .lambdaExpression

/-! ## Patterns and switch expressions -/

/-- The guard of a switch label or arm. -/
def whenClause : Step Unit :=
  node .whenClause do
    Action.take
    expression

/-- Is the word `not` at the front a negation, with something to negate behind it? -/
def atNotPattern (ws : List Token) : Bool :=
  Words.frontText ws == "not" &&
    Words.holdsAt 1 (fun k => Words.canStartExpression k || Words.isRelational k) ws

instance : Scanned atNotPattern :=
  inferInstanceAs (Scanned fun ws => Words.frontText ws == "not" && Words.holdsAt 1 _ ws)

/-- A pattern without connectives. -/
def primaryPattern : Step Unit := do
  Action.skipTrivia
  let kind ← current
  if Words.isRelational kind then
    node .relationalPattern do
      Action.take
      read (.expression shiftPower)
  else if kind == .identifier && (← ahead atNotPattern) then
    node .relationalPattern do
      Action.take
      read .primaryPattern
  else if kind == .identifier && (← ahead (Words.isAt 1 .fatArrow)) then
    nameExpression
  else if ← ahead Words.atDeclarationExpression then
    declarationExpression
  else if kind.isPredefinedType then
    read (.type true)
  else
    read (.expression shiftPower)

/-- The connectives of a pattern with their right sides. -/
def patternOperators : Step Unit := do
  if (← seesWord "and") || (← seesWord "or") then
    begins .binaryExpression
    Action.take
    read .primaryPattern
    Action.enclose .binaryExpression
    read .patternOperators

/-- A pattern. -/
def pattern : Step Unit := do
  Action.skipTrivia
  Action.frame do
    read .primaryPattern
    read .patternOperators

/-- The arms of a switch expression. -/
def switchArms : Step Unit := do
  let kind ← current
  unless kind == .rBrace || kind == .eof do
    Action.skipTrivia
    node .switchExpressionArm do
      read .pattern
      if ← seesWord "when" then whenClause
      expect .fatArrow "`=>` in switch arm"
      expression
    if ← eat .comma then read .switchArms

/-- The rest of a switch expression, from its reserved word on. -/
def switchTail : Step Unit := do
  begins .switchExpression
  Action.take
  expect .lBrace "`\x7b`"
  read .switchArms
  expect .rBrace "`\x7d`"
  Action.enclose .switchExpression

/-! ## Operands and operators -/

/-- One word that is an expression of the given kind. -/
def single (kind : Kind) : Step Unit := do
  begins kind
  Action.take
  Action.enclose kind

/-- An operator in front of its operand. -/
def prefixed (kind : Kind) : Step Unit := do
  begins kind
  Action.take
  read (.expression prefixPower)
  Action.enclose kind

/-- A type test or size that takes a type between parentheses. -/
def typeOperator (kind : Kind) : Step Unit := do
  begins kind
  Action.take
  expect .lParen "`(`"
  let _ ← type
  expect .rParen "`)`"
  Action.enclose kind

/-- An operand that starts with an identifier. -/
def identifierOperand : Step Unit := do
  let text ← ahead Words.frontText
  if ← ahead (Words.isAt 1 .fatArrow) then lambdaExpression
  else if text == "async" && (← ahead Words.atAsyncLambda) then lambdaExpression
  else if text == "var" && (← ahead Words.atVarDesignation) then declarationExpression
  else if text == "await" && (← ahead (Words.holdsAt 1 Words.canStartExpression)) then
    prefixed .awaitExpression
  else nameExpression

/-- An operand that starts with a parenthesis: a lambda, a cast, a tuple or a parenthesised
expression. -/
def parenOperand : Step Unit := do
  if ← ahead Words.atLambdaParen then lambdaExpression
  else if ← ahead Words.atCast then
    begins .castExpression
    Action.take
    let _ ← type
    expect .rParen "`)` in cast"
    read (.expression prefixPower)
    Action.enclose .castExpression
  else
    Action.take
    tupleValue
    let isTuple ← Action.call (.moreTupleValues false)
    expect .rParen "`)`"
    let kind : Kind := if isTuple then .tupleExpression else .parenthesizedExpression
    begins kind
    Action.enclose kind

/-- Words that end an expression that is missing; they are left to whoever waits for them. -/
def endsMissingExpression : Kind → Bool
  | .eof | .semicolon | .rBrace | .rParen | .rBracket | .comma => true
  | _ => false

/-- An operand is missing. -/
def missingOperand : Step Unit := do
  begins .error
  missing "expression"
  unless endsMissingExpression (← current) do Action.take
  Action.enclose .error

/-- An operand: what an expression starts with. -/
def operand : Step Unit := do
  let kind ← current
  if kind.isLiteral then single .literalExpression
  else if kind.isPredefinedType then single .predefinedType
  else match kind with
  | .thisKw => single .thisExpression
  | .baseKw => single .baseExpression
  | .newKw => newExpression
  | .typeofKw => typeOperator .typeOfExpression
  | .sizeofKw => typeOperator .sizeOfExpression
  | .defaultKw =>
    begins .defaultExpression
    Action.take
    if ← eat .lParen then
      let _ ← type
      expect .rParen "`)`"
    Action.enclose .defaultExpression
  | .checkedKw | .uncheckedKw =>
    begins .checkedExpression
    Action.take
    parenthesized
    Action.enclose .checkedExpression
  | .throwKw =>
    begins .throwExpression
    Action.take
    expression
    Action.enclose .throwExpression
  | .delegateKw => lambdaExpression
  | .plus | .minus | .bang | .tilde | .plusPlus | .minusMinus | .caret | .amp | .star
  | .refKw => prefixed .prefixUnaryExpression
  | .identifier => identifierOperand
  | .lParen => parenOperand
  | _ => missingOperand

/-- An operator between two operands, with its right side. -/
def binaryTail (b : Binding) : Step Unit := do
  begins b.kind
  Action.take
  if b.kind == .assignmentExpression && (← sees .lBrace) then read .initializer
  else read (.expression b.right)
  Action.enclose b.kind

/-- A conditional operator, with its two branches. -/
def conditionalTail : Step Unit := do
  begins .conditionalExpression
  Action.take
  expression
  expect .colon "`:` in conditional expression"
  read (.expression conditionalBinding.right)
  Action.enclose .conditionalExpression

/-- A type test or conversion, with its right side. -/
def typeTestTail (op : Kind) : Step Unit := do
  begins .binaryExpression
  Action.take
  if op == .isKw then read .pattern else read (.type true)
  Action.enclose .binaryExpression

/-- What the word of kind `op` behind an operand adds to it, when the operators around bind with
`power`; `none` if it ends the expression.  A dot adds something only if it is `named`: if an
identifier follows it. -/
def operatorStep? (power : Nat) (op : Kind) (named : Bool) : Option (Step Unit) :=
  match op with
  | .lParen => some do
    begins .invocationExpression
    argumentList
    Action.enclose .invocationExpression
  | .dot | .questionDot | .doubleColon =>
    if named then
      some do
        begins .memberAccessExpression
        Action.take
        nameExpression
        Action.enclose .memberAccessExpression
    else none
  | .lBracket => some do
    begins .elementAccessExpression
    bracketedArgumentList
    Action.enclose .elementAccessExpression
  | .plusPlus | .minusMinus | .bang => some (single .postfixUnaryExpression)
  | .switchKw => if switchPower < power then none else some switchTail
  | .isKw | .asKw => if relationalPower < power then none else some (typeTestTail op)
  | .question => if conditionalBinding.left < power then none else some conditionalTail
  | op =>
    match binding? op with
    | some b => if b.left < power then none else some (binaryTail b)
    | none => none

/-- The operators behind an operand that bind at least as tightly as `power`. -/
def operators (power : Nat) : Step Unit := do
  let op ← current
  match operatorStep? power op (← ahead (Words.isAt 1 .identifier)) with
  | none => pure ()
  | some step =>
    step
    read (.operators power)

/-- An expression whose operators all bind at least as tightly as `power`. -/
def expressionProduction (power : Nat) : Step Unit := do
  Action.skipTrivia
  Action.frame do
    operand
    read (.operators power)

end LivePatch.Grammar
