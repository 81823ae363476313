import LivePatch.Syntax.Token
import LivePatch.Text.Quoted

/-!
# Lossless trees

A tree keeps every token of the text it was read from, trivia included, so its leaves joined
together are the text again.  Two trees are the same when they have the same nodes and the same
leaves; a tree carries no positions of its own.

The *dump* writes a tree with one line for every node and token, indented by depth.
-/

namespace LivePatch

/-- A lossless tree: a token, or a node with its parts in order. -/
inductive Tree where
  | token (token : Token)
  | node (kind : Kind) (children : List Tree)
deriving Repr, Inhabited

namespace Tree

mutual

/-- The equality test of trees. -/
def decEq : (s t : Tree) → Decidable (s = t)
  | .token a, .token b =>
    if h : a = b then isTrue (congrArg _ h) else isFalse (fun e => h (Tree.token.inj e))
  | .token _, .node _ _ => isFalse nofun
  | .node _ _, .token _ => isFalse nofun
  | .node j as, .node k bs =>
    if h : j = k then
      match decEqAll as bs with
      | isTrue e => isTrue (by rw [h, e])
      | isFalse e => isFalse (fun same => e (Tree.node.inj same).2)
    else isFalse (fun same => h (Tree.node.inj same).1)

/-- The equality test of lists of trees. -/
def decEqAll : (ss ts : List Tree) → Decidable (ss = ts)
  | [], [] => isTrue rfl
  | [], _ :: _ => isFalse nofun
  | _ :: _, [] => isFalse nofun
  | a :: as, b :: bs =>
    match decEq a b, decEqAll as bs with
    | isTrue h, isTrue e => isTrue (by rw [h, e])
    | isFalse h, _ => isFalse (fun same => h (List.cons.inj same).1)
    | _, isFalse e => isFalse (fun same => e (List.cons.inj same).2)

end

instance : DecidableEq Tree := decEq

/-- The kind of the token or node. -/
def kind : Tree → Kind
  | .token t => t.kind
  | .node k _ => k

/-- The parts of a node; a token has none. -/
def children : Tree → List Tree
  | .token _ => []
  | .node _ children => children

/-- Is the tree a node? -/
def isNode : Tree → Bool
  | .token _ => false
  | .node _ _ => true

/-- The token, if the tree is one. -/
def token? : Tree → Option Token
  | .token t => some t
  | .node _ _ => none

/-! ## Leaves and text -/

mutual

/-- The tokens of a tree, in order. -/
def leaves : Tree → List Token
  | .token t => [t]
  | .node _ children => leavesAll children

/-- The tokens of several trees, in order. -/
def leavesAll : List Tree → List Token
  | [] => []
  | t :: ts => leaves t ++ leavesAll ts

end

/-- The text of a tree. -/
def text (t : Tree) : String := Token.textOf t.leaves

/-- The number of bytes of a tree's text. -/
def width (t : Tree) : Nat := Token.widthOf t.leaves

/-- The tokens of a tree that the grammar sees. -/
def significantLeaves (t : Tree) : List Token := t.leaves.filter Token.isSignificant

/-- The first token of a tree that the grammar sees. -/
def firstSignificant? (t : Tree) : Option Token := t.leaves.find? Token.isSignificant

/-- The leaves that stand before the first significant one; all of them if there is none. -/
def leadingTrivia (t : Tree) : List Token := t.leaves.takeWhile Token.isTrivia

/-- The leaves that stand after the last significant one; all of them if there is none. -/
def trailingTrivia (t : Tree) : List Token :=
  (t.leaves.reverse.takeWhile Token.isTrivia).reverse

/-- The leaves from the first significant one to the last, both included. -/
def coreLeaves (t : Tree) : List Token :=
  ((t.leaves.dropWhile Token.isTrivia).reverse.dropWhile Token.isTrivia).reverse

/-- The text from the first significant token to the last. -/
def coreText (t : Tree) : String := Token.textOf t.coreLeaves

/-- The text of the significant tokens, joined without anything between them. -/
def bareText (t : Tree) : String := Token.textOf t.significantLeaves

mutual

/-- The tree without its trivia tokens. -/
def dropTrivia : Tree → Tree
  | .token t => .token t
  | .node k children => .node k (dropTriviaAll children)

/-- The trees that are no trivia tokens, each without its trivia tokens. -/
def dropTriviaAll : List Tree → List Tree
  | [] => []
  | .token t :: ts => if t.isTrivia then dropTriviaAll ts else .token t :: dropTriviaAll ts
  | .node k children :: ts => dropTrivia (.node k children) :: dropTriviaAll ts

end

/-! ## The dump -/

mutual

/-- The lines of a tree's dump at the given depth. -/
def dumpLines (depth : Nat) : Tree → List String
  | .token t => [String.ofList (List.replicate (2 * depth) ' ') ++ t.kind.label ++ " " ++
      quoted t.text]
  | .node k children =>
    (String.ofList (List.replicate (2 * depth) ' ') ++ k.label) ::
      dumpLinesAll (depth + 1) children

/-- The lines of several trees' dumps at the given depth. -/
def dumpLinesAll (depth : Nat) : List Tree → List String
  | [] => []
  | t :: ts => dumpLines depth t ++ dumpLinesAll depth ts

end

/-- The dump of a tree: a line for each node and token, two blanks of indent for each level. -/
def dump (t : Tree) : String := String.join ((t.dumpLines 0).map (· ++ "\n"))

end Tree

end LivePatch
