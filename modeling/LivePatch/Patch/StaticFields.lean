import LivePatch.Patch.Pass
import LivePatch.Patch.ScopeMap

/-!
# References to static fields

When a type is recompiled, its static fields start anew, while the running program goes on with
the old ones.  This pass puts the type in front of bare references to the static fields that the
nearest type declares, so that they can be directed there.  A reference to a parameter or local
variable of the same name is left alone.
-/

namespace LivePatch

namespace Site

/-! ## What hides a field -/

/-- Does a function have a parameter `name`? -/
def hasParameter (owner : Site) (name : String) : Bool :=
  let parameters := owner.nodes.flatMap fun child =>
    match child.kind with
    | .parameterList | .bracketedParameterList => child.nodesOf .parameter
    | .parameter => [child]
    | _ => []
  parameters.any fun p => p.declaredName?.any (·.text == name)

/-- Does an accessor have the parameter `value` without saying so? -/
def hasImplicitValue (accessor : Site) : Bool :=
  accessor.identifiers.any fun t => ["set", "init", "add", "remove"].contains t.text

/-- Is a variable declared by an expression in the statement `statement` in scope at `node`?  It
is unless a block or lambda around its declaration, within the statement, ends before or begins
after `node`. -/
def isVisibleFrom (declaration statement node : Site) : Bool :=
  ((declaration :: declaration.ancestors).takeWhile (!·.isSame statement)).all fun around =>
    match around.kind with
    | .block | .lambdaExpression => around.span.contains node.span
    | _ => true

/-- Does a statement declare the variable or function `name` for the rest of its block, as seen
from `node`? -/
def declaresFor (statement node : Site) (name : String) : Bool :=
  (statement.kind == .localVariableDeclarationStatement &&
      statement.ownVariableNames.contains name) ||
    (statement.kind == .localFunctionStatement &&
      statement.declaredName?.any (·.text == name)) ||
    statement.descendants.any fun s =>
      s.kind == .declarationExpression && s.designatedNames.contains name &&
        s.isVisibleFrom statement node

/-- Does a statement of `scope` that starts no later than `node` declare `name` for it? -/
def declaresBefore (scope node : Site) (name : String) : Bool :=
  (scope.nodes.takeWhile (fun s => s.start ≤ node.start)).any (·.declaresFor node name)

/-- Does `scope`, which is somewhere around `node`, bind the parameter or variable `name`? -/
def binds (scope node : Site) (name : String) : Bool :=
  match scope.kind with
  | .methodDeclaration | .constructorDeclaration | .operatorDeclaration | .indexerDeclaration
  | .localFunctionStatement | .lambdaExpression => scope.hasParameter name
  | .accessorDeclaration => name == "value" && scope.hasImplicitValue
  | .catchClause =>
    (scope.node? .catchDeclaration).any fun d => d.boundName?.any (·.text == name)
  | .forStatement =>
    (scope.node? .forHeader).any fun header => header.ownVariableNames.contains name
  | .forEachStatement => scope.loopNames.contains name
  | .usingStatement => scope.ownVariableNames.contains name
  | .block | .switchSection => scope.declaresBefore node name
  | _ => false

/-- Is the field `name` hidden at `node` by a parameter or variable of the type's code? -/
def isShadowed (node : Site) (name : String) : Bool :=
  (node.ancestors.takeWhile (fun s => !s.kind.isTypeDeclaration)).any (·.binds node name)

end Site

namespace StaticFields

/-- The fields met so far, and the types around the current node, innermost first. -/
structure Surroundings where
  scopes : ScopeMap
  types : List Site
deriving Inhabited

/-- The surroundings inside of a node.  The fields of a type are known before its members are
walked, so that a reference may stand before the declaration. -/
def enter (visibility : FieldVisibility) (site : Site) (s : Surroundings) : Surroundings :=
  if site.kind.isTypeDeclaration then
    { scopes := (s.scopes.register site visibility).2, types := site :: s.types }
  else s

/-- The surroundings behind a node. -/
def leave (site : Site) (s : Surroundings) : Surroundings :=
  if site.kind.isTypeDeclaration then { s with types := s.types.drop 1 } else s

/-- A bare name that refers to a static field of the nearest type gets the type in front. -/
def propose (site : Site) (s : Surroundings) : Option Proposal := do
  guard (site.kind == .nameExpression)
  let name := (← site.boundName?).text
  guard (s.scopes.mightQualify name)
  guard (site.nameContext == .bare && (site.node? .typeArgumentList).isNone)
  let type ← s.types.head?
  guard (s.scopes.qualifies type name && !site.isShadowed name)
  let qualifier ← type.qualifyingName?
  return ⟨.bareStaticField, memberText qualifier name⟩

end StaticFields

/-- The pass over references to static fields. -/
def staticFieldRules (options : PatchOptions) : PassRules StaticFields.Surroundings where
  start := ⟨.empty, []⟩
  enter := StaticFields.enter options.visibility
  leave := StaticFields.leave
  propose site _ s := StaticFields.propose site s

end LivePatch
