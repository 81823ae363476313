import LivePatch.Syntax.Site

/-!
# Replacing nodes of a tree

A `Replacer` walks over a tree with a state of its own.  It is told when a node is entered and
left, and between the two, when all nodes below have been dealt with, it may answer a replacement
for the node.  It sees the node at its place in the tree that is walked, and beside it the node
with the replacements below already made.

The walk copies only what changes: a node of which no part was replaced is answered as `none`, and
its tree is kept as it is.
-/

namespace LivePatch

/-- What to do with the nodes of a tree, with a state `σ` and failures `ε`. -/
structure Replacer (ε σ : Type) where
  /-- A node is about to be walked. -/
  enter : Site → σ → σ
  /-- A node has been walked. -/
  leave : Site → σ → σ
  /-- What to put in place of a node, given at its place and with the replacements below made.
  The state counts also when the answer is a failure. -/
  replace : Site → Tree → σ → Except ε (Option Tree) × σ

namespace Replacer

variable {ε σ : Type}

mutual

/-- Walk over one tree.  The answer is `none` when nothing in it was replaced; the first failure
ends the walk. -/
def visit (r : Replacer ε σ) (trail : List Crumb) (start : Nat) :
    Tree → σ → Except ε (Option Tree) × σ
  | .token _, state => (.ok none, state)
  | .node kind children, state =>
    let site : Site := ⟨.node kind children, start, trail⟩
    match visitParts r site 0 start children none (r.enter site state) with
    | (.error e, state) => (.error e, state)
    | (.ok changed, state) =>
      match r.replace site (.node kind (changed.getD children)) state with
      | (.error e, state) => (.error e, state)
      | (.ok (some replacement), state) => (.ok (some replacement), r.leave site state)
      | (.ok none, state) => (.ok (changed.map (.node kind)), r.leave site state)

/-- Walk over some parts of the node at `site`, from the `index`-th on.  `changed` holds all parts
of the node with the replacements made so far, once there are any. -/
def visitParts (r : Replacer ε σ) (site : Site) (index start : Nat) :
    List Tree → Option (List Tree) → σ → Except ε (Option (List Tree)) × σ
  | [], changed, state => (.ok changed, state)
  | part :: parts, changed, state =>
    match visit r (⟨site.tree, site.start, index⟩ :: site.trail) start part state with
    | (.error e, state) => (.error e, state)
    | (.ok none, state) =>
      visitParts r site (index + 1) (start + part.width) parts changed state
    | (.ok (some replacement), state) =>
      let changed := (changed.getD site.tree.children).set index replacement
      visitParts r site (index + 1) (start + part.width) parts (some changed) state

end

/-- Walk over a whole tree; a tree of which nothing was replaced is answered as it is. -/
def run (r : Replacer ε σ) (tree : Tree) (state : σ) : Except ε Tree × σ :=
  match r.visit [] 0 tree state with
  | (.error e, state) => (.error e, state)
  | (.ok replacement, state) => (.ok (replacement.getD tree), state)

end Replacer

end LivePatch
