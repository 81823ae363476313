import LivePatch.Syntax.Site

/-!
# What the nodes of a program mean

Functions that read a declaration, a statement or an expression off its node: declared names,
modifiers, parameters, operands.  They look at the direct parts of a node only, unless said
otherwise, and answer nothing where a part is missing, as it may be in a text with problems.
-/

namespace LivePatch

/-- Is this the kind of an expression node? -/
def Kind.isExpression : Kind → Bool
  | .literalExpression | .nameExpression | .thisExpression | .baseExpression
  | .parenthesizedExpression | .objectCreationExpression | .arrayCreationExpression
  | .initializerExpression | .invocationExpression | .memberAccessExpression
  | .elementAccessExpression | .prefixUnaryExpression | .postfixUnaryExpression
  | .awaitExpression | .binaryExpression | .assignmentExpression | .conditionalExpression
  | .lambdaExpression | .castExpression | .typeOfExpression | .sizeOfExpression
  | .defaultExpression | .checkedExpression | .tupleExpression | .throwExpression
  | .switchExpression | .declarationExpression | .predefinedType => true
  | _ => false

namespace Site

/-! ## Names -/

/-- The identifiers among the parts. -/
def identifiers (s : Site) : List Token := s.tokens.filter (·.kind == .identifier)

/-- The name that a declaration declares: the last identifier among its parts.  A word such as
`record`, and the interface that an explicit implementation names, stand before it. -/
def declaredName? (s : Site) : Option Token := s.identifiers.getLast?

/-- The name that a variable, loop or handler binds: the first identifier among its parts. -/
def boundName? (s : Site) : Option Token := s.token? .identifier

/-! ## Modifiers -/

/-- The words of a modifier node, attributes apart. -/
def modifierWords (s : Site) : List Token := s.tokens.filter Token.isSignificant

/-- Is one of the modifiers of a declaration of a kind that satisfies `p`? -/
def hasModifierWith (s : Site) (p : Kind → Bool) : Bool :=
  (s.node? .modifiers).any (fun m => m.modifierWords.any (fun t => p t.kind))

/-- Does a declaration have the modifier `kind`? -/
def hasModifier (s : Site) (kind : Kind) : Bool := s.hasModifierWith (· == kind)

/-- Is a declaration marked as static? -/
def isStatic (s : Site) : Bool := s.hasModifier .staticKw

/-- Is a declaration marked as private? -/
def isPrivate (s : Site) : Bool := s.hasModifier .privateKw

/-- Does a declaration say who may use it? -/
def hasAccessModifier (s : Site) : Bool := s.hasModifierWith Kind.isAccessModifier

/-! ## Types and their members -/

/-- The names of the type parameters of a declaration. -/
def typeParameterNames (s : Site) : List String :=
  match s.node? .typeParameterList with
  | none => []
  | some list => (list.nodesOf .typeParameter).filterMap (·.declaredName?.map (·.text))

/-- The name by which a type is referred to from inside its own body: its name, with its type
parameters as arguments if it has any. -/
def qualifyingName? (s : Site) : Option String := do
  let name ← s.declaredName?
  match s.typeParameterNames with
  | [] => return name.text
  | parameters => return name.text ++ "<" ++ ", ".intercalate parameters ++ ">"

/-- The members of kind `kind` declared directly in the body of a type. -/
def membersOf (s : Site) (kind : Kind) : List Site :=
  match s.node? .typeBody with
  | none => []
  | some body => body.nodesOf kind

/-- The names of the methods declared directly in the body of a type. -/
def methodNames (s : Site) : List String :=
  (s.membersOf .methodDeclaration).filterMap (·.declaredName?.map (·.text))

/-- The type declarations at and below the site, in reading order. -/
def typeDeclarations (s : Site) : List Site :=
  s.descendants.filter (fun n => n.kind.isTypeDeclaration)

/-! ## Variables and parameters -/

/-- The declarators of a variable declaration. -/
def declarators (s : Site) : List Site :=
  match s.node? .variableDeclaratorList with
  | none => []
  | some list => list.nodesOf .variableDeclarator

/-- The names that a variable declaration declares. -/
def variableNames (s : Site) : List String :=
  s.declarators.filterMap (·.boundName?.map (·.text))

/-- The declarators of a field, local variable, loop header or resource statement. -/
def ownDeclarators (s : Site) : List Site :=
  match s.node? .variableDeclaration with
  | none => []
  | some declaration => declaration.declarators

/-- The names declared by a field, local variable, loop header or resource statement. -/
def ownVariableNames (s : Site) : List String :=
  match s.node? .variableDeclaration with
  | none => []
  | some declaration => declaration.variableNames

/-- The names that a declaration expression declares: its own, or those of its designation. -/
def designatedNames (s : Site) : List String :=
  match s.boundName? with
  | some name => [name.text]
  | none =>
    (s.nodesOf .parenthesizedVariableDesignation).flatMap fun designation =>
      (designation.tree.leaves.filter (·.kind == .identifier)).map (·.text)

/-- The names that a loop over a collection binds. -/
def loopNames (s : Site) : List String :=
  match s.boundName? with
  | some name => [name.text]
  | none => (s.nodesOf .declarationExpression).flatMap designatedNames

/-- The parameters of a method or other function with a parameter list. -/
def parameters (s : Site) : List Site :=
  match s.node? .parameterList with
  | none => []
  | some list => list.nodesOf .parameter

/-- The parameters of a lambda: those of its list, or its one bare parameter. -/
def lambdaParameters (s : Site) : List Site :=
  match s.node? .parameterList with
  | none => s.nodesOf .parameter
  | some list => list.nodesOf .parameter

/-! ## Expressions -/

/-- The expressions among the parts. -/
def expressions (s : Site) : List Site := s.nodesWith Kind.isExpression

/-- The first expression among the parts: an operand, a value, a receiver or a condition. -/
def expression? (s : Site) : Option Site := s.expressions.head?

/-- The second expression among the parts: the right side of an operator. -/
def rightExpression? (s : Site) : Option Site := s.expressions[1]?

/-- The literal of a literal expression. -/
def literal? (s : Site) : Option Token := s.tokenWith? Kind.isLiteral

/-- The operator of an assignment. -/
def assignmentOperator? (s : Site) : Option Token := s.tokenWith? Kind.isAssignmentOperator

/-- The operator of a member access. -/
def accessOperator? (s : Site) : Option Token :=
  s.tokenWith? fun
    | .dot | .questionDot | .doubleColon => true
    | _ => false

/-- The name that a member access ends in. -/
def accessedName? (s : Site) : Option Site :=
  s.lastNode?.filter (fun n => n.kind == .nameExpression)

/-- Is `this` the receiver of a member access? -/
def isThisReceiver (s : Site) : Bool :=
  s.expression?.any (fun e => e.kind == .thisExpression)

/-- The parameter name in front of an argument. -/
def argumentName? (s : Site) : Option Token :=
  (s.token? .colon).bind (fun _ => s.token? .identifier)

/-- Is an argument passed as a variable and not as a value? -/
def isByReference (s : Site) : Bool :=
  s.tokens.any fun t => match t.kind with
    | .refKw | .outKw | .inKw => true
    | _ => false

/-! ## What a name refers to -/

end Site

/-- How a name stands to what is around it. -/
inductive NameContext where
  /-- The name stands for itself. -/
  | bare
  /-- The name selects a member of what stands in front of it. -/
  | memberName
  /-- The name is set by an object initializer or an attribute argument, so it names a member of
  the object that is made. -/
  | initializerMember
deriving DecidableEq, Repr

namespace NameContext

/-- The printed name of a context. -/
def label : NameContext → String
  | .bare => "Bare"
  | .memberName => "MemberName"
  | .initializerMember => "InitializerMember"

end NameContext

namespace Crumb

/-- Does the step lead to the first node among the parts? -/
def isFirstNode (c : Crumb) : Bool := c.parent.children.findIdx? Tree.isNode == some c.index

end Crumb

/-- Does an initializer with this trail set members of the object that is made?  It does when it
belongs to an object creation, or is the value of a member set by such an initializer. -/
def setsMembers : List Crumb → Bool
  | [] => false
  | owner :: trail =>
    match owner.parent.kind with
    | .objectCreationExpression => true
    | .assignmentExpression =>
      match trail with
      | [] => false
      | outer :: trail =>
        !owner.isFirstNode && outer.parent.kind == .initializerExpression && setsMembers trail
    | _ => false

/-- Does an assignment with this trail set a member of an object that is made, rather than a
variable?  It does in an object initializer and in the arguments of an attribute. -/
def assignsMember : List Crumb → Bool
  | [] => false
  | around :: trail =>
    match around.parent.kind with
    | .initializerExpression => setsMembers trail
    | .argument => trail.any (fun c => c.parent.kind == .attributeUse)
    | _ => false

/-- How the name at `s` stands to what is around it. -/
def Site.nameContext (s : Site) : NameContext :=
  match s.trail with
  | [] => .bare
  | around :: trail =>
    match around.parent.kind with
    | .memberAccessExpression =>
      if s.parent?.any (fun access => access.accessedName?.any (·.isSame s)) then .memberName
      else .bare
    | .assignmentExpression =>
      if around.isFirstNode && assignsMember trail then .initializerMember else .bare
    | _ => .bare

end LivePatch
