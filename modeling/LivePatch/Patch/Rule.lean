import LivePatch.Text.Span

/-!
# Rules, edits and options

A patch replaces single expressions.  Every replacement is made by a rule of one of the passes and
is recorded as an `Edit`: the rule, the bytes it replaced, and the texts before and after.
-/

namespace LivePatch

/-- The reasons for which an expression is replaced. -/
inductive PatchRule where
  /-- A bare reference to a static field gets its type in front: `Count` becomes `Foo.Count`. -/
  | bareStaticField
  /-- `this` passed as an argument is cast: `Log(this)` becomes `Log((Foo)(object)this)`. -/
  | thisArgument
  /-- `this` as the value of an assignment is cast. -/
  | thisAssignmentValue
  /-- `this` in front of a call of a method that the type does not declare is cast. -/
  | thisInvocationReceiver
  /-- `this` as a returned value is cast. -/
  | thisReturnValue
  /-- Any value returned by a method that returns its own type is cast. -/
  | sameTypedReturn
deriving DecidableEq, Repr

namespace PatchRule

/-- All rules. -/
def all : List PatchRule :=
  [.bareStaticField, .thisArgument, .thisAssignmentValue, .thisInvocationReceiver,
    .thisReturnValue, .sameTypedReturn]

/-- The printed name of a rule. -/
def label : PatchRule → String
  | .bareStaticField => "BareStaticField"
  | .thisArgument => "ThisArgument"
  | .thisAssignmentValue => "ThisAssignmentValue"
  | .thisInvocationReceiver => "ThisInvocationReceiver"
  | .thisReturnValue => "ThisReturnValue"
  | .sameTypedReturn => "SameTypedReturn"

/-- The rule with the printed name `text`. -/
def ofLabel? (text : String) : Option PatchRule := all.find? (·.label == text)

/-- The name of the pass that a rule belongs to. -/
def passName : PatchRule → String
  | .bareStaticField => "StaticFieldAccessRewriter"
  | .thisArgument | .thisAssignmentValue | .thisInvocationReceiver | .thisReturnValue =>
    "SelfReferenceRewriter"
  | .sameTypedReturn => "ReturnTypeRewriter"

/-- The name of a rule within its pass. -/
def shortName : PatchRule → String
  | .bareStaticField => "BareIdentifier"
  | .thisArgument => "Argument"
  | .thisAssignmentValue => "AssignmentValue"
  | .thisInvocationReceiver => "InvocationReceiver"
  | .thisReturnValue => "ReturnValue"
  | .sameTypedReturn => "ReturnValue"

/-- The comment that marks a replacement made by the rule. -/
def comment (r : PatchRule) : String := "/*" ++ r.passName ++ ":" ++ r.shortName ++ "*/"

end PatchRule

/-- One replacement.  The span is that of the replaced expression without the trivia at its two
ends, in the text that the pass was given. -/
structure Edit where
  rule : PatchRule
  span : Span
  before : String
  after : String
deriving DecidableEq, Repr

/-- Which static fields count as private and so stay as they are. -/
inductive FieldVisibility where
  /-- Only those marked as private. -/
  | explicitPrivateOnly
  /-- Those marked as private and those that do not say who may use them. -/
  | implicitPrivate
deriving DecidableEq, Repr

namespace FieldVisibility

/-- The printed name of a policy. -/
def label : FieldVisibility → String
  | .explicitPrivateOnly => "explicit-private-only"
  | .implicitPrivate => "implicit-private"

/-- The policy with the printed name `text`. -/
def ofLabel? (text : String) : Option FieldVisibility :=
  [explicitPrivateOnly, implicitPrivate].find? (·.label == text)

end FieldVisibility

/-- What a user may choose about patching. -/
structure PatchOptions where
  /-- Mark every replacement with the comment of its rule. -/
  comments : Bool := false
  /-- Cast the values that a method of its own type returns. -/
  castReturns : Bool := false
  /-- Which static fields count as private. -/
  visibility : FieldVisibility := .explicitPrivateOnly
deriving DecidableEq, Repr, Inhabited

end LivePatch
