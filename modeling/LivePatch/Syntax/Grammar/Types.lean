import LivePatch.Syntax.Grammar.Rule

/-!
# Types

The productions for types, type argument lists and dotted names.
-/

namespace LivePatch.Grammar

/-- A type.  The answer tells whether it ends in an array rank. -/
def type : Step Bool := Action.call (.type false)

/-- A type argument list between angle brackets. -/
def typeArgumentList : Step Unit :=
  node .typeArgumentList do
    expect .less "`<`"
    read .typeArguments
    expectClosingAngle

/-- The types of a type argument list; they may all be left out, for an unbound generic type. -/
def typeArguments : Step Unit := do
  let kind ← current
  unless kind == .greater || kind == .rightShift || kind == .eof do
    if kind == .comma then
      Action.take
      read .typeArguments
    else
      let _ ← type
      if ← eat .comma then read .typeArguments

/-- The elements of a tuple type, each with an optional name. -/
def tupleElements : Step Unit := do
  let kind ← current
  unless kind == .rParen || kind == .eof do
    let _ ← type
    takeIf .identifier
    if ← eat .comma then read .tupleElements

/-- What follows the first identifier of a type name: type arguments and further segments. -/
def typeNameTail : Step Unit := do
  if ← sees .less then typeArgumentList
  let kind ← current
  if Words.isNameSeparator kind && (← ahead (Words.isAt 1 .identifier)) then
    Action.take
    Action.take
    read .typeNameTail

/-- What comes first in a type: a built-in type, a tuple or a name. -/
def typeHead : Step Unit := do
  let kind ← current
  if kind.isPredefinedType || kind == .voidKw then
    node .predefinedType Action.take
  else if kind == .lParen then
    node .tupleType do
      Action.take
      read .tupleElements
      expect .rParen "`)` in tuple type"
  else if kind == .identifier then
    node .namedType do
      Action.take
      read .typeNameTail
  else
    missing "type"

/-- Any commas. -/
def commas : Step Unit := do
  if ← eat .comma then read .commas

/-- Does an array rank without sizes stand at the front of the words? -/
def atArrayRank (ws : List Token) : Bool :=
  Words.isAt 0 .lBracket ws && (Words.isAt 1 .rBracket ws || Words.isAt 1 .comma ws)

instance : Scanned atArrayRank :=
  inferInstanceAs (Scanned fun ws =>
    Words.isAt 0 .lBracket ws && (Words.isAt 1 .rBracket ws || Words.isAt 1 .comma ws))

/-- An array rank without sizes. -/
def arrayRank : Step Unit := do
  Action.take
  read .commas
  expect .rBracket "`]`"

/-- The suffixes of a type.  Behind a type test or conversion a question mark with an expression
after it belongs to a conditional expression, not to the type.  The answer tells whether an array
rank was among them or came before. -/
def typeSuffixes (inExpression isArray : Bool) : Step Bool := do
  let kind ← current
  if kind == .question then
    if inExpression && (← ahead (Words.holdsAt 1 Words.canStartExpression)) then
      return isArray
    else
      Action.take
      Action.call (.typeSuffixes inExpression isArray)
  else if kind == .star then
    Action.take
    Action.call (.typeSuffixes inExpression isArray)
  else if ← ahead atArrayRank then
    arrayRank
    Action.call (.typeSuffixes inExpression true)
  else
    return isArray

/-- A type, as the production behind `Rule.type`. -/
def typeProduction (inExpression : Bool) : Step Bool := do
  Action.skipTrivia
  Action.frame do
    begins .type
    typeHead
    let isArray ← Action.call (.typeSuffixes inExpression false)
    Action.enclose .type
    return isArray

/-- Further segments of a dotted name. -/
def nameSegments : Step Unit := do
  let kind ← current
  if Words.isNameSeparator kind && (← ahead (Words.isAt 1 .identifier)) then
    Action.take
    Action.take
    read .nameSegments

/-- A dotted name, with type arguments at its end. -/
def dottedName : Step Unit :=
  node .name do
    expectIdentifier "name"
    read .nameSegments
    if ← sees .less then typeArgumentList

/-- Further segments of a member name that says which interface it serves. -/
def dottedSegments : Step Unit := do
  if (← sees .dot) && (← ahead (Words.isAt 1 .identifier)) then
    Action.take
    Action.take
    read .dottedSegments

end LivePatch.Grammar
