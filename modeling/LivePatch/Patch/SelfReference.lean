import LivePatch.Patch.Pass

/-!
# References to the object itself

When a type is recompiled, `this` is of the new type, while the rest of the program expects the
old one.  This pass casts `this` where it leaves the object: as an argument, as the value of an
assignment, as a returned value, and in front of a call of a method that the type itself does not
declare.
-/

namespace LivePatch

namespace SelfReference

/-- The rule for `this` at `site` inside the type at `type`, if one applies. -/
def rule? (site type : Site) : Option PatchRule := do
  let parent ← site.parent?
  match parent.kind with
  | .argument => if parent.isByReference then none else some .thisArgument
  | .assignmentExpression =>
    if parent.rightExpression?.any (·.isSame site) then some .thisAssignmentValue else none
  | .returnStatement => some .thisReturnValue
  | .memberAccessExpression =>
    guard parent.isThisReceiver
    let invocation ← parent.parent?
    guard (invocation.kind == .invocationExpression)
    guard (invocation.expression?.any (·.isSame parent))
    let method ← (← parent.accessedName?).boundName?
    if type.methodNames.contains method.text then none else some .thisInvocationReceiver
  | _ => none

/-- The types around the current node, innermost first, inside of a node. -/
def enter (site : Site) (types : List Site) : List Site :=
  if site.kind.isTypeDeclaration then site :: types else types

/-- The types around the current node behind a node. -/
def leave (site : Site) (types : List Site) : List Site :=
  if site.kind.isTypeDeclaration then types.drop 1 else types

/-- `this` that leaves the object is cast to the nearest type. -/
def propose (site : Site) (types : List Site) : Option Proposal := do
  guard (site.kind == .thisExpression)
  let type ← types.head?
  let rule ← rule? site type
  let target ← type.qualifyingName?
  match rule with
  | .thisInvocationReceiver => return ⟨rule, parenthesizedCastText target "this"⟩
  | _ => return ⟨rule, castText target "this"⟩

end SelfReference

/-- The pass over references to the object itself. -/
def selfReferenceRules : PassRules (List Site) where
  start := []
  enter := SelfReference.enter
  leave := SelfReference.leave
  propose site _ types := SelfReference.propose site types

end LivePatch
