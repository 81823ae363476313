import LivePatch.Patch.ReturnValues
import LivePatch.Patch.SelfReference
import LivePatch.Patch.StaticFields

/-!
# Patching a text

The passes run one after the other, each over the tree that the one before left.  A text with
problems is not patched at all: a tree around misplaced words cannot be trusted.
-/

namespace LivePatch

/-- The passes. -/
inductive Pass where
  | staticFieldAccess
  | selfReference
  | returnType
deriving DecidableEq, Repr

namespace Pass

/-- Every pass, in the order in which they run. -/
def all : List Pass := [.staticFieldAccess, .selfReference, .returnType]

/-- The short name by which a pass is asked for. -/
def label : Pass → String
  | .staticFieldAccess => "StaticFieldAccess"
  | .selfReference => "SelfReference"
  | .returnType => "ReturnType"

/-- The pass with the short name `text`. -/
def ofLabel? (text : String) : Option Pass := all.find? (·.label == text)

/-- The full name of a pass, as it stands in comments. -/
def name : Pass → String
  | .staticFieldAccess => "StaticFieldAccessRewriter"
  | .selfReference => "SelfReferenceRewriter"
  | .returnType => "ReturnTypeRewriter"

/-- Run one pass over a tree.  The pass over returned values does nothing unless asked for. -/
def run (pass : Pass) (options : PatchOptions) (tree : Tree) : Except PatchError Outcome :=
  match pass with
  | .staticFieldAccess => (staticFieldRules options).run options.comments tree
  | .selfReference => selfReferenceRules.run options.comments tree
  | .returnType =>
    if options.castReturns then returnValueRules.run options.comments tree
    else .ok { tree, edits := [] }

/-- Run passes one after the other; the edits are those of all passes in order. -/
def runAll (options : PatchOptions) : List Pass → Tree → Except PatchError Outcome
  | [], tree => .ok { tree, edits := [] }
  | pass :: passes, tree => do
    let first ← pass.run options tree
    let rest ← runAll options passes first.tree
    return { tree := rest.tree, edits := first.edits ++ rest.edits }

end Pass

/-- Read a text and run every pass over it. -/
def patch (options : PatchOptions) (source : String) : Except PatchError Outcome :=
  let parsed := parse source
  if parsed.isClean then Pass.runAll options Pass.all parsed.tree
  else .error (.refused parsed.diagnostics)

end LivePatch
