import LivePatch.Syntax.Grammar.Declarations

/-!
# The grammar

`production` says for every name in `Rule` what it stands for.  This is the only place where names
and productions meet; each production calls others by name alone.
-/

namespace LivePatch.Grammar

/-- A step as a production; the answer of such a production means nothing. -/
def silently (step : Step Unit) : Step Bool := do
  step
  return false

/-- The production behind each name. -/
def production : Rule → Step Bool
  | .namespaceMembers braced => silently (namespaceMembers braced)
  | .namespaceDeclaration => silently namespaceDeclaration
  | .typeDeclaration => silently typeDeclaration
  | .skipTo boundary => silently (skipTo boundary)
  | .declaredType => silently declaredType
  | .typeParameters => silently typeParameters
  | .attributeLists => silently attributeLists
  | .baseTypes => silently baseTypes
  | .constraintClauses => silently constraintClauses
  | .constraints => silently constraints
  | .enumMembers => silently enumMembers
  | .typeMembers => silently typeMembers
  | .member => silently member
  | .dottedSegments => silently dottedSegments
  | .accessors => silently accessors
  | .modifierWords => silently modifierWords
  | .attributes => silently attributes
  | .nameSegments => silently nameSegments
  | .parameters close => silently (parameters close)
  | .parameterModifierWords => silently parameterModifierWords
  | .arguments close => silently (arguments close)
  | .designation => silently designation
  | .designated => silently designated
  | .block => silently block
  | .statements => silently statements
  | .statement => silently statement
  | .localModifierWords => silently localModifierWords
  | .moreDeclarators => silently moreDeclarators
  | .switchSections => silently switchSections
  | .switchLabels => silently switchLabels
  | .sectionStatements => silently sectionStatements
  | .expressionList => silently expressionList
  | .catchClauses => silently catchClauses
  | .type inExpression => typeProduction inExpression
  | .tupleElements => silently tupleElements
  | .typeNameTail => silently typeNameTail
  | .typeSuffixes inExpression isArray => typeSuffixes inExpression isArray
  | .commas => silently commas
  | .typeArguments => silently typeArguments
  | .expression power => silently (expressionProduction power)
  | .operators power => silently (operators power)
  | .moreTupleValues isTuple => moreTupleValues isTuple
  | .arrayRanks => silently arrayRanks
  | .initializer => silently initializer
  | .initializerElements => silently initializerElements
  | .lambdaParameters => silently lambdaParameters
  | .switchArms => silently switchArms
  | .pattern => silently pattern
  | .patternOperators => silently patternOperators
  | .primaryPattern => silently primaryPattern

end LivePatch.Grammar
