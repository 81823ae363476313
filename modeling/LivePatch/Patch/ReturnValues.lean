import LivePatch.Patch.Pass
import LivePatch.Text.Blank

/-!
# Returned values

A method that returns its own type may return any object of it.  If asked for, this pass casts
every value that such a method returns, unless it is cast in this way already.  A return inside of
a lambda, local function or accessor belongs to that one and is left alone.
-/

namespace LivePatch

namespace ReturnValues

/-- What is around a return statement: types, methods, and whatever else returns values. -/
inductive Layer where
  /-- A type, with its printed name and with the name that a return type is compared to. -/
  | type (name key : String)
  /-- A method with the text of its return type. -/
  | method (returnType : String)
  /-- A lambda, local function, constructor, operator or accessor. -/
  | opaqueBody
deriving DecidableEq, Repr

/-- The layer that a node makes. -/
def layer? (site : Site) : Option Layer :=
  if site.kind.isTypeDeclaration then
    site.qualifyingName?.map fun name =>
      .type name (String.ofList (name.toList.filter (fun c => !isBlank c)))
  else match site.kind with
  | .methodDeclaration =>
    some (.method ((site.node? .type).elim "" (·.tree.bareText)))
  | .lambdaExpression | .localFunctionStatement | .constructorDeclaration
  | .destructorDeclaration | .operatorDeclaration | .propertyDeclaration | .indexerDeclaration
  | .eventDeclaration => some .opaqueBody
  | _ => none

/-- The layers around the current node, innermost first, inside of a node. -/
def enter (site : Site) (layers : List Layer) : List Layer :=
  match layer? site with
  | some layer => layer :: layers
  | none => layers

/-- The layers around the current node behind a node. -/
def leave (site : Site) (layers : List Layer) : List Layer :=
  match layer? site with
  | some _ => layers.drop 1
  | none => layers

/-- The name and key of the nearest type among the layers. -/
def nearestType? (layers : List Layer) : Option (String × String) :=
  layers.findSome? fun
    | .type name key => some (name, key)
    | _ => none

/-- The name and key of the nearest type, when the innermost layer is a method that returns it. -/
def target? (layers : List Layer) : Option (String × String) :=
  match layers with
  | .method returnType :: _ =>
    (nearestType? layers).filter fun (_, key) => returnType == key
  | _ => none

/-- The text of the type that a cast names. -/
def castType (cast : Site) : String := (cast.node? .type).elim "" (·.tree.bareText)

/-- Is the expression already cast to the type with the given key by way of the common base
type? -/
def isCastThrough (site : Site) (key : String) : Bool :=
  site.kind == .castExpression &&
    site.expression?.any fun inner =>
      inner.kind == .castExpression && castType site == key && castType inner == "object"

/-- Must an expression of this kind be put between parentheses to be cast as a whole? -/
def needsParentheses : Kind → Bool
  | .literalExpression | .nameExpression | .thisExpression | .baseExpression
  | .parenthesizedExpression | .objectCreationExpression | .arrayCreationExpression
  | .invocationExpression | .memberAccessExpression | .elementAccessExpression
  | .postfixUnaryExpression | .typeOfExpression | .sizeOfExpression | .defaultExpression
  | .checkedExpression | .tupleExpression | .predefinedType => false
  | _ => true

/-- The text of a returned value as the operand of a cast. -/
def operandText (kind : Kind) (rebuilt : Tree) : String :=
  if needsParentheses kind then "(" ++ rebuilt.coreText ++ ")" else rebuilt.coreText

/-- A value that a method of its own type returns is cast to that type. -/
def propose (site : Site) (rebuilt : Tree) (layers : List Layer) : Option Proposal := do
  let parent ← site.parent?
  guard (parent.kind == .returnStatement && site.kind.isExpression)
  let (target, key) ← target? layers
  guard (!isCastThrough site key)
  return ⟨.sameTypedReturn, castText target (operandText site.kind rebuilt)⟩

end ReturnValues

/-- The pass over returned values. -/
def returnValueRules : PassRules (List ReturnValues.Layer) where
  start := []
  enter := ReturnValues.enter
  leave := ReturnValues.leave
  propose := ReturnValues.propose

end LivePatch
