import LivePatch.Syntax.Grammar.Statements

/-!
# Declarations

The productions for namespaces, types and their members.  A declaration is read in a frame of its
own: its modifiers come first, what it declares is known only later, and the frame is enclosed
under the right kind at the end.
-/

namespace LivePatch.Grammar

/-! ## Modifiers -/

/-- The attributes and modifiers in front of a declaration. -/
def modifierWords : Step Unit := do
  let kind ← current
  if kind == .lBracket then
    attributeList
    read .modifierWords
  else if kind == .refKw ||
      (kind.isModifier && !(kind == .eventKw || kind == .implicitKw || kind == .explicitKw)) ||
      (kind == .identifier && (← ahead Words.atContextualModifier)) then
    Action.take
    read .modifierWords

/-- The node of a declaration's modifiers, which may be empty. -/
def modifiers : Step Unit := node .modifiers (read .modifierWords)

/-! ## Types -/

/-- The base types of a type, each with optional constructor arguments. -/
def baseTypes : Step Unit := do
  let _ ← type
  if ← sees .lParen then argumentList
  if ← eat .comma then read .baseTypes

/-- A base list, if one comes next. -/
def optionalBaseList : Step Unit := do
  if ← sees .colon then
    node .baseList do
      expect .colon "`:`"
      read .baseTypes

/-- The members of a type. -/
def typeMembers : Step Unit := do
  let kind ← current
  unless kind == .rBrace || kind == .eof do
    ensureProgress "token in type body" (read .member)
    read .typeMembers

/-- The body of a type. -/
def typeBody : Step Unit :=
  node .typeBody do
    expect .lBrace "`\x7b`"
    read .typeMembers
    expect .rBrace "`\x7d`"

/-- A class, struct, interface or record, from its first word of its own on. -/
def typeWithMembers (kind : Kind) : Step Unit := do
  begins kind
  Action.take
  if kind == .recordDeclaration then
    let next ← current
    if next == .classKw || next == .structKw then Action.take
  expectIdentifier "type name"
  optionalTypeParameters
  if ← sees .lParen then parameterList
  optionalBaseList
  read .constraintClauses
  if ← sees .lBrace then typeBody else expect .semicolon "`\x7b` or `;`"
  takeIf .semicolon
  Action.enclose kind

/-- One member of an enumeration. -/
def enumMember : Step Unit := do
  Action.skipTrivia
  node .enumMember do
    modifiers
    expectIdentifier "enum member name"
    if ← eat .eq then expression

/-- The members of an enumeration. -/
def enumMembers : Step Unit := do
  let kind ← current
  unless kind == .rBrace || kind == .eof do
    enumMember
    if ← eat .comma then read .enumMembers

/-- An enumeration, from its reserved word on. -/
def enumDeclaration : Step Unit := do
  begins .enumDeclaration
  expect .enumKw "`enum`"
  expectIdentifier "enum name"
  optionalBaseList
  node .enumBody do
    expect .lBrace "`\x7b`"
    read .enumMembers
    expect .rBrace "`\x7d`"
  takeIf .semicolon
  Action.enclose .enumDeclaration

/-- A delegate type, from its reserved word on. -/
def delegateDeclaration : Step Unit := do
  begins .delegateDeclaration
  expect .delegateKw "`delegate`"
  let _ ← type
  expectIdentifier "delegate name"
  optionalTypeParameters
  parameterList
  read .constraintClauses
  expect .semicolon "`;` after delegate declaration"
  Action.enclose .delegateDeclaration

/-- No type declaration follows the modifiers. -/
def missingDeclaration : Step Unit := do
  begins .error
  missing "type declaration"
  let kind ← current
  unless kind == .eof || kind == .rBrace do Action.take
  read (.skipTo .topLevel)
  Action.enclose .error

/-- What a type declaration declares, behind its modifiers. -/
def declaredType : Step Unit := do
  match ← current with
  | .classKw => typeWithMembers .classDeclaration
  | .structKw => typeWithMembers .structDeclaration
  | .interfaceKw => typeWithMembers .interfaceDeclaration
  | .identifier =>
    if ← ahead Words.atRecordStart then typeWithMembers .recordDeclaration
    else missingDeclaration
  | .enumKw => enumDeclaration
  | .delegateKw => delegateDeclaration
  | .semicolon => single .emptyDeclaration
  | _ => missingDeclaration

/-- A type declaration with its modifiers. -/
def typeDeclaration : Step Unit := do
  Action.skipTrivia
  Action.frame do
    modifiers
    read .declaredType

/-! ## Members -/

/-- Skip to where a member may begin or end; a stray block is taken along. -/
def skipToMember : Step Unit := do
  read (.skipTo .member)
  let kind ← current
  if kind == .semicolon then Action.take
  else if kind == .lBrace then read .block

/-- A member that cannot be read, for the reason given. -/
def brokenMember (problem : Problem) : Step Unit := do
  begins .error
  Action.report problem
  skipToMember
  Action.enclose .error

/-- The words that name an accessor. -/
def accessorNames : List String := ["get", "set", "init", "add", "remove"]

instance : Scanned (fun ws => accessorNames.contains (Words.frontText ws)) where
  scan queue := accessorNames.contains (Queue.nthText queue 0)
  scan_eq queue := by rw [Queue.nthText_eq, List.drop_zero]

/-- The accessors of a property, indexer or event. -/
def accessors : Step Unit := do
  let kind ← current
  unless kind == .rBrace || kind == .eof do
    ensureProgress "token in accessor list" do
      Action.skipTrivia
      node .accessorDeclaration do
        modifiers
        if (← sees .identifier) &&
            (← ahead (fun ws => accessorNames.contains (Words.frontText ws))) then
          Action.take
          functionBody
        else
          missing "accessor"
    read .accessors

/-- An accessor list. -/
def accessorList : Step Unit :=
  node .accessorList do
    expect .lBrace "`\x7b`"
    read .accessors
    expect .rBrace "`\x7d`"

/-- The body of a property: an expression, or accessors with an optional initial value. -/
def propertyBody : Step Unit := do
  if ← sees .fatArrow then
    arrowClause
    expect .semicolon "`;` after expression body"
  else
    accessorList
    if ← eat .eq then
      initialValue
      expect .semicolon "`;` after property initializer"

/-- An event, from its reserved word on: with accessors, or declared like a field. -/
def eventDeclaration : Step Unit := do
  Action.take
  Action.skipTrivia
  let hasAccessors ← Action.frame do
    let _ ← type
    if (← sees .identifier) &&
        (← ahead (fun ws => Words.isAt 1 .lBrace ws || Words.isAt 1 .dot ws)) then
      return true
    else
      Action.opening 1 .eventFieldDeclaration
      begins .variableDeclaration
      declaratorList
      Action.enclose .variableDeclaration
      return false
  if hasAccessors then
    begins .eventDeclaration
    Action.take
    read .dottedSegments
    accessorList
    Action.enclose .eventDeclaration
  else
    expect .semicolon "`;` after event declaration"
    Action.enclose .eventFieldDeclaration

/-- A destructor, from its tilde on. -/
def destructorDeclaration : Step Unit := do
  begins .destructorDeclaration
  Action.take
  expectIdentifier "destructor name"
  parameterList
  functionBody
  Action.enclose .destructorDeclaration

/-- A conversion operator, from its first word of its own on. -/
def conversionOperator : Step Unit := do
  begins .operatorDeclaration
  Action.take
  expect .operatorKw "`operator`"
  let _ ← type
  parameterList
  functionBody
  Action.enclose .operatorDeclaration

/-- The call of another constructor in front of a constructor's body. -/
def constructorInitializer : Step Unit :=
  node .constructorInitializer do
    Action.take
    let kind ← current
    if kind == .baseKw || kind == .thisKw then Action.take
    else missing "`base` or `this`"
    argumentList

/-- A constructor, from its name on. -/
def constructorDeclaration : Step Unit := do
  begins .constructorDeclaration
  Action.take
  parameterList
  if ← sees .colon then constructorInitializer
  functionBody
  Action.enclose .constructorDeclaration

/-- An operator, behind its type. -/
def operatorDeclaration : Step Unit := do
  begins .operatorDeclaration
  Action.take
  let kind ← current
  unless kind == .lParen || kind == .eof do Action.take
  parameterList
  functionBody
  Action.enclose .operatorDeclaration

/-- An indexer, behind its type. -/
def indexerDeclaration : Step Unit := do
  begins .indexerDeclaration
  Action.take
  bracketedParameterList
  propertyBody
  Action.enclose .indexerDeclaration

/-- A method or property, from its name on. -/
def namedMember : Step Unit := do
  Action.take
  read .dottedSegments
  match ← current with
  | .less | .lParen =>
    begins .methodDeclaration
    functionRest
    Action.enclose .methodDeclaration
  | .lBrace | .fatArrow =>
    begins .propertyDeclaration
    propertyBody
    Action.enclose .propertyDeclaration
  | _ => brokenMember (.expected "`(`, `\x7b` or `;` after member name")

/-- Does a field's name with what follows a field's name stand at the front? -/
def atFieldName (ws : List Token) : Bool :=
  Words.front ws == .identifier &&
    match Words.kindAt 1 ws with
    | none | some .eq | some .semicolon | some .comma | some .lBracket => true
    | _ => false

instance : Scanned atFieldName where
  scan queue := Queue.kindAt queue (Queue.skipTrivia queue 0) == .identifier &&
    match Queue.nth queue 1 with
    | none | some .eq | some .semicolon | some .comma | some .lBracket => true
    | _ => false
  scan_eq queue := by
    rw [Queue.kindAt_skipTrivia, Queue.nth_eq, Queue.wordsFrom_zero, atFieldName]

/-- A member that starts with a type: a field, operator, indexer, method or property. -/
def typedMember : Step Unit := do
  Action.skipTrivia
  let isField ← Action.frame do
    let _ ← type
    Action.skipTrivia
    if ← ahead atFieldName then
      Action.opening 1 .fieldDeclaration
      begins .variableDeclaration
      declaratorList
      Action.enclose .variableDeclaration
      return true
    else
      return false
  if isField then
    expect .semicolon "`;` after field declaration"
    Action.enclose .fieldDeclaration
  else
    match ← current with
    | .operatorKw => operatorDeclaration
    | .thisKw => indexerDeclaration
    | .identifier => namedMember
    | _ => brokenMember (.expected "member name")

/-- What a member declares, behind its modifiers. -/
def declaredMember : Step Unit := do
  let kind ← current
  match kind with
  | .semicolon => single .emptyDeclaration
  | .classKw | .structKw | .interfaceKw | .enumKw | .delegateKw => read .declaredType
  | .eventKw => eventDeclaration
  | .tilde => destructorDeclaration
  | .implicitKw | .explicitKw => conversionOperator
  | .identifier =>
    if ← ahead Words.atRecordStart then read .declaredType
    else if ← ahead (Words.isAt 1 .lParen) then constructorDeclaration
    else typedMember
  | _ =>
    if Words.canStartType kind then typedMember
    else brokenMember (.unexpected "token in type body")

/-- A member of a type with its modifiers. -/
def member : Step Unit := do
  Action.skipTrivia
  Action.frame do
    modifiers
    declaredMember

/-! ## Namespaces -/

/-- A directive that brings names into scope. -/
def usingDirective : Step Unit :=
  node .usingDirective do
    if ← eat .externKw then
      Action.take
      expectIdentifier "alias name"
      expect .semicolon "`;` after extern alias"
    else
      takeIf .identifier
      expect .usingKw "`using`"
      takeIf .staticKw
      if (← sees .identifier) && (← ahead (Words.isAt 1 .eq)) then
        Action.take
        Action.take
        let _ ← type
      else
        dottedName
      expect .semicolon "`;` after using directive"

/-- A namespace, for the rest of the file or with a body. -/
def namespaceDeclaration : Step Unit :=
  node .namespaceDeclaration do
    expect .namespaceKw "`namespace`"
    dottedName
    if ← eat .semicolon then
      read (.namespaceMembers false)
    else
      node .namespaceBody do
        expect .lBrace "`\x7b`"
        read (.namespaceMembers true)
        expect .rBrace "`\x7d`"
      takeIf .semicolon

/-- Does a directive that brings names into scope stand at the front? -/
def atUsingDirective (ws : List Token) : Bool :=
  match Words.front ws with
  | .usingKw => !Words.isAt 1 .lParen ws
  | .identifier => Words.frontText ws == "global" && Words.isAt 1 .usingKw ws
  | .externKw => Words.frontText (ws.drop 1) == "alias"
  | _ => false

instance : Scanned atUsingDirective where
  scan queue :=
    match Queue.kindAt queue (Queue.skipTrivia queue 0) with
    | .usingKw => !(Queue.nth queue 1 == some .lParen)
    | .identifier => Queue.nthText queue 0 == "global" && Queue.nth queue 1 == some .usingKw
    | .externKw => Queue.nthText queue 1 == "alias"
    | _ => false
  scan_eq queue := by
    rw [Queue.kindAt_skipTrivia, Queue.nth_eq, Queue.nthText_eq, Queue.nthText_eq,
      List.drop_zero, Queue.wordsFrom_zero, atUsingDirective]
    rfl

/-- Set aside words that start no declaration. -/
def misplacedWords : Step Unit :=
  node .error do
    Action.report (.unexpected "token at top level")
    Action.take
    read (.skipTo .topLevel)

/-- The members of a namespace or of the whole text. -/
def namespaceMembers (braced : Bool) : Step Unit := do
  let kind ← current
  unless kind == .eof || (braced && kind == .rBrace) do
    if ← ahead atUsingDirective then usingDirective
    else if kind == .namespaceKw then read .namespaceDeclaration
    else if ← ahead Words.atTypeDeclaration then read .typeDeclaration
    else misplacedWords
    read (.namespaceMembers braced)

/-! ## Whole texts -/

/-- A whole source file. -/
def compilationUnit : Step Unit :=
  node .compilationUnit do
    read (.namespaceMembers false)
    Action.skipTrivia
    expect .eof "end of file"

/-- A single expression; anything behind it is set aside in an error node. -/
def expressionFragment : Step Unit :=
  node .expressionFragment do
    expression
    Action.skipTrivia
    unless ← sees .eof do
      node .error do
        Action.report (.unexpected "input after expression")
        read (.skipTo .endOfText)
    expect .eof "end of expression"

end LivePatch.Grammar
