import LivePatch.Syntax.Action
import LivePatch.Syntax.Queue.Decisions

/-!
# The productions by name

A production that takes part in a recursion has a name, so that others can call it; a repetition
is a production that calls itself at its end.  This module holds the names and the small steps
from which the productions are written.
-/

namespace LivePatch

/-- Where the skipping of misplaced words stops. -/
inductive Boundary where
  /-- Only at the end of the text. -/
  | endOfText
  /-- Where a declaration outside of types may begin or a body ends. -/
  | topLevel
  /-- Where a member of a type may begin or end. -/
  | member
deriving DecidableEq, Repr

/-- Does skipping stop in front of a word of this kind? -/
def Boundary.stopsAt : Boundary → Kind → Bool
  | .endOfText, _ => false
  | .topLevel, k =>
    match k with
    | .usingKw | .namespaceKw | .classKw | .structKw | .interfaceKw | .enumKw | .publicKw
    | .internalKw | .lBracket | .rBrace | .eof => true
    | _ => false
  | .member, k =>
    match k with
    | .semicolon | .rBrace | .lBrace | .classKw | .structKw | .interfaceKw | .enumKw | .publicKw
    | .privateKw | .protectedKw | .internalKw | .staticKw | .lBracket => true
    | _ => false

/-- The names of the productions. -/
inductive Rule where
  -- Outside of types.
  | namespaceMembers (braced : Bool)
  | namespaceDeclaration
  | typeDeclaration
  | skipTo (boundary : Boundary)
  -- Type declarations.
  | declaredType
  | typeParameters
  | attributeLists
  | baseTypes
  | constraintClauses
  | constraints
  | enumMembers
  | typeMembers
  -- Members.
  | member
  | dottedSegments
  | accessors
  | modifierWords
  | attributes
  | nameSegments
  | parameters (close : Kind)
  | parameterModifierWords
  | arguments (close : Kind)
  | designation
  | designated
  -- Statements.
  | block
  | statements
  | statement
  | localModifierWords
  | moreDeclarators
  | switchSections
  | switchLabels
  | sectionStatements
  | expressionList
  | catchClauses
  -- Types.
  | type (inExpression : Bool)
  | tupleElements
  | typeNameTail
  | typeSuffixes (inExpression : Bool) (isArray : Bool)
  | commas
  | typeArguments
  -- Expressions and patterns.
  | expression (power : Nat)
  | operators (power : Nat)
  | moreTupleValues (isTuple : Bool)
  | arrayRanks
  | initializer
  | initializerElements
  | lambdaParameters
  | switchArms
  | pattern
  | patternOperators
  | primaryPattern
deriving DecidableEq, Repr

namespace Grammar

/-- A piece of a production. -/
abbrev Step (α : Type) : Type 1 := Action Rule α

/-- Do what the production `rule` says, without regard to its answer. -/
def read (rule : Rule) : Step Unit := do
  let _ ← Action.call rule

/-- What a decision on the words ahead answers. -/
def ahead {α : Type} (decide : List Token → α) [Scanned decide] : Step α :=
  Action.look decide inferInstance

/-- The kind of the next word, after the trivia in front of it. -/
def current : Step Kind := do
  Action.skipTrivia
  ahead Words.front

/-- Is the next word, after the trivia in front of it, of kind `kind`? -/
def sees (kind : Kind) : Step Bool := do
  return (← current) == kind

/-- Is the next word, after the trivia in front of it, the identifier `text`? -/
def seesWord (text : String) : Step Bool := do
  let kind ← current
  ahead (fun ws => kind == .identifier && Words.frontText ws == text)

/-- Take the next word if it is of kind `kind`; answers whether it was. -/
def eat (kind : Kind) : Step Bool := do
  if ← sees kind then
    Action.take
    return true
  else
    return false

/-- Take the next word if it is of kind `kind`. -/
def takeIf (kind : Kind) : Step Unit := do
  if ← sees kind then Action.take

/-- Note that `what` is missing. -/
def missing (what : String) : Step Unit := Action.report (.expected what)

/-- Take the next word, which must be of kind `kind`; otherwise note that `what` is missing. -/
def expect (kind : Kind) (what : String) : Step Unit := do
  if ← sees kind then Action.take else missing what

/-- Take the next word, which must be an identifier; otherwise note that `what` is missing. -/
def expectIdentifier (what : String) : Step Unit := expect .identifier what

/-- Open a node around all of the innermost frame. -/
def begins (kind : Kind) : Step Unit := Action.opening 0 kind

/-- What `body` builds, as one node. -/
def node (kind : Kind) (body : Step Unit) : Step Unit :=
  Action.frame (do begins kind; body; Action.enclose kind)

/-- Do `body`, which a repetition does over and over.  If it uses up nothing, set the next word
aside in an error node, so that the repetition goes on. -/
def ensureProgress (what : String) (body : Step Unit) : Step Unit := do
  if ← Action.idle body then
    unless ← sees .eof do
      node .error do
        Action.report (.unexpected what)
        Action.take

/-- Take the closing angle bracket; half of a shift counts as one. -/
def expectClosingAngle : Step Unit := do
  match ← current with
  | .greater => Action.take
  | .rightShift => Action.takeHalf
  | _ => missing "`>`"

/-- Skip words up to `boundary`. -/
def skipTo (boundary : Boundary) : Step Unit := do
  let kind ← current
  unless kind == .eof || boundary.stopsAt kind do
    Action.take
    read (.skipTo boundary)

end Grammar

end LivePatch
