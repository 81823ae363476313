import LivePatch.Patch.Synthesis
import LivePatch.Patch.Traversal

/-!
# Passes

A pass is a replacer that proposes templates.  While it walks it keeps a state about what is
around the current node, and at each node it may make a *proposal*: a rule and the text to put in
place of the node.  Making the replacement and recording the edit is the same for all passes.
-/

namespace LivePatch

/-- What a pass wants to put in place of a node, and by which rule. -/
structure Proposal where
  rule : PatchRule
  template : String
deriving DecidableEq, Repr

/-- What tells one pass from another, with a state `σ` about the surroundings. -/
structure PassRules (σ : Type) where
  /-- The state outside of everything. -/
  start : σ
  /-- The state inside of a node. -/
  enter : Site → σ → σ
  /-- The state behind a node. -/
  leave : Site → σ → σ
  /-- What to put in place of a node, given also with the replacements below made. -/
  propose : Site → Tree → σ → Option Proposal

/-- The tree that passes leave and the edits they made, in the order made. -/
structure Outcome where
  tree : Tree
  edits : List Edit

namespace Outcome

/-- The text that passes leave. -/
def text (o : Outcome) : String := o.tree.text

/-- Was nothing replaced? -/
def isUnchanged (o : Outcome) : Bool := o.edits.isEmpty

end Outcome

/-- The record of putting `made` in place of the node at `site`. -/
def Edit.record (rule : PatchRule) (site : Site) (made : Tree) : Edit :=
  { rule, span := site.coreSpan, before := site.tree.coreText, after := made.coreText }

namespace PassRules

variable {σ : Type}

/-- The replacer of a pass; its state is that of the pass with the edits made. -/
def replacer (p : PassRules σ) (comments : Bool) : Replacer PatchError (σ × List Edit) where
  enter site state := (p.enter site state.1, state.2)
  leave site state := (p.leave site state.1, state.2)
  replace site rebuilt state :=
    match p.propose site rebuilt state.1 with
    | none => (.ok none, state)
    | some proposal =>
      match synthesize proposal.template with
      | .error e => (.error e, state)
      | .ok made =>
        (.ok (some (finish comments proposal.rule rebuilt made)),
          (state.1, state.2 ++ [Edit.record proposal.rule site made]))

/-- Run a pass over a tree. -/
def run (p : PassRules σ) (comments : Bool) (tree : Tree) : Except PatchError Outcome :=
  match (p.replacer comments).run tree (p.start, []) with
  | (.error e, _) => .error e
  | (.ok tree, _, edits) => .ok { tree, edits }

end PassRules

end LivePatch
