import LivePatch.Syntax.Tree

/-!
# Places in a tree

A tree does not know where it stands.  A `Site` is a tree together with its place in a larger
one: the byte at which it starts, and the *trail* of the nodes around it, nearest first.  Sites
answer the questions about neighbours, ranges and surroundings, and two sites of one tree are the
same place exactly when their paths from the root agree.
-/

namespace LivePatch

/-- One step of a trail: a node, the byte at which it starts, and which of its parts the step
leads to. -/
structure Crumb where
  parent : Tree
  start : Nat
  index : Nat
deriving Inhabited

/-- A tree at its place in a larger one. -/
structure Site where
  tree : Tree
  start : Nat
  /-- The nodes around the tree, nearest first. -/
  trail : List Crumb
deriving Inhabited

namespace Site

/-- The place of a whole tree. -/
def root (tree : Tree) : Site := ⟨tree, 0, []⟩

/-- The kind of the tree at the site. -/
def kind (s : Site) : Kind := s.tree.kind

/-- The bytes that the tree covers, trivia included. -/
def span (s : Site) : Span := ⟨s.start, s.start + s.tree.width⟩

/-- The bytes from the first significant token to the last, or all of them if there is none. -/
def coreSpan (s : Site) : Span :=
  match s.tree.coreLeaves with
  | [] => s.span
  | core =>
    let start := s.start + Token.widthOf s.tree.leadingTrivia
    ⟨start, start + Token.widthOf core⟩

/-- The way from the root, last step first.  It tells the sites of one tree apart. -/
def path (s : Site) : List Nat := s.trail.map (·.index)

/-- Are two sites of one tree the same place? -/
def isSame (s t : Site) : Bool := s.path == t.path

/-! ## Upwards -/

/-- The sites along a trail, nearest first. -/
def ofTrail : List Crumb → List Site
  | [] => []
  | c :: trail => ⟨c.parent, c.start, trail⟩ :: ofTrail trail

/-- The sites around this one, nearest first. -/
def ancestors (s : Site) : List Site := ofTrail s.trail

/-- The site right around this one. -/
def parent? (s : Site) : Option Site := s.ancestors.head?

/-! ## Downwards -/

/-- The sites of `trees`, parts of `parent` from the `index`-th on, when the first starts at
`start`. -/
def partsFrom (parent : Site) (index start : Nat) : List Tree → List Site
  | [] => []
  | t :: ts =>
    ⟨t, start, ⟨parent.tree, parent.start, index⟩ :: parent.trail⟩ ::
      partsFrom parent (index + 1) (start + t.width) ts

/-- The parts of the node at the site, tokens and nodes. -/
def parts (s : Site) : List Site := partsFrom s 0 s.start s.tree.children

/-- The nodes among the parts. -/
def nodes (s : Site) : List Site := s.parts.filter (·.tree.isNode)

/-- The tokens among the parts. -/
def tokens (s : Site) : List Token := s.tree.children.filterMap Tree.token?

/-- The first node among the parts. -/
def firstNode? (s : Site) : Option Site := s.nodes.head?

/-- The last node among the parts. -/
def lastNode? (s : Site) : Option Site := s.nodes.getLast?

/-- The nodes among the parts whose kind satisfies `p`. -/
def nodesWith (s : Site) (p : Kind → Bool) : List Site := s.nodes.filter (fun n => p n.kind)

/-- The nodes of kind `kind` among the parts. -/
def nodesOf (s : Site) (kind : Kind) : List Site := s.nodesWith (· == kind)

/-- The first node of kind `kind` among the parts. -/
def node? (s : Site) (kind : Kind) : Option Site := (s.nodesOf kind).head?

/-- The first token among the parts whose kind satisfies `p`. -/
def tokenWith? (s : Site) (p : Kind → Bool) : Option Token := s.tokens.find? (fun t => p t.kind)

/-- The first token of kind `kind` among the parts. -/
def token? (s : Site) (kind : Kind) : Option Token := s.tokenWith? (· == kind)

mutual

/-- The nodes of `tree` in reading order, itself first. -/
def nodesWithin (trail : List Crumb) (start : Nat) : Tree → List Site
  | .token _ => []
  | .node kind children =>
    ⟨.node kind children, start, trail⟩ ::
      nodesWithinAll (.node kind children) start trail 0 start children

/-- The nodes in reading order of some parts of `parent`, from the `index`-th on. -/
def nodesWithinAll (parent : Tree) (parentStart : Nat) (trail : List Crumb) (index start : Nat) :
    List Tree → List Site
  | [] => []
  | t :: ts =>
    nodesWithin (⟨parent, parentStart, index⟩ :: trail) start t ++
      nodesWithinAll parent parentStart trail (index + 1) (start + t.width) ts

end

/-- The nodes at and below the site, in reading order. -/
def descendants (s : Site) : List Site := nodesWithin s.trail s.start s.tree

end Site

namespace Tree

/-- The tokens that touch the byte position `offset`, with their spans; there is no answer for a
position behind the end of the text.  Empty tokens touch nothing. -/
def tokensAt? (t : Tree) (offset : Nat) : Option (List (Token × Span)) :=
  if offset ≤ t.width then
    some ((Token.spans 0 t.leaves).filter fun (_, s) =>
      s.start < s.stop && s.start ≤ offset && offset ≤ s.stop)
  else none

end Tree

end LivePatch
