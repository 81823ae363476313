import LivePatch.Syntax.Queue.Positions
import LivePatch.Syntax.Tree

/-!
# What a production of the grammar may do

A production is written as an `Action`: a small program over a fixed set of steps.  The steps are
chosen so that whatever program is written with them

* never loses, adds or reorders text, since tokens only move from the words ahead to the trees
  already built;
* decides by the words ahead alone, since `look` asks about words and nothing else, and each
  question comes with a scan that answers it on a queue with trivia in it;
* builds a proper tree, since `enclose` wraps all that the innermost frame has built so far, and
  `frame` keeps what was built before out of its reach.

A production calls another one by name with `call`, and `Action.run` ties the knot: it is given
what to do for a call.  `runRule` answers calls down to a bounded depth, which makes it total;
the bound is a matter of the grammar and is set by whoever starts the reading.
-/

namespace LivePatch

/-- A program over the steps of reading; `R` names the productions that it may call. -/
inductive Action (R : Type) : Type → Type 1 where
  /-- Do nothing and answer `a`. -/
  | pure {α : Type} (a : α) : Action R α
  /-- Do `first`, then what `next` says about its answer. -/
  | bind {α β : Type} (first : Action R α) (next : α → Action R β) : Action R β
  /-- Answer what `decide` says about the words ahead. -/
  | look {α : Type} (decide : List Token → α) (scanned : Scanned decide) : Action R α
  /-- Move the trivia in front of the next word to the trees built. -/
  | skipTrivia : Action R Unit
  /-- Move the trivia in front of the next word and the word itself to the trees built. -/
  | take : Action R Unit
  /-- Divide the shift `>>` that comes next into two closing angle brackets and take the first. -/
  | takeHalf : Action R Unit
  /-- Move the trivia in front of the next word and note a problem at the word. -/
  | report (problem : Problem) : Action R Unit
  /-- Say that all of the frame `out` frames further out is going to be one node.  The node is open
  from here on, until it is enclosed; so this is where a builder starts it. -/
  | opening (out : Nat) (kind : Kind) : Action R Unit
  /-- Make all that the innermost frame has built one node. -/
  | enclose (kind : Kind) : Action R Unit
  /-- Do `body` in a frame of its own. -/
  | frame {α : Type} (body : Action R α) : Action R α
  /-- Move the trivia in front of the next word and do `body`; answers whether it has left as much
  ahead as there was. -/
  | idle (body : Action R Unit) : Action R Bool
  /-- Do what the production `rule` says. -/
  | call (rule : R) : Action R Bool

namespace Action

instance {R : Type} : Monad (Action R) where
  pure := .pure
  bind := .bind

end Action

/-- Where a reading stands: what is ahead, what has been built in the innermost frame and which
problems were found.  The words ahead and the trivia in front of each are kept apart. -/
structure ReadState where
  /-- The words ahead. -/
  words : List Token
  /-- For each word ahead, the trivia in front of it. -/
  gaps : List (List Token)
  /-- The byte offset of the first token ahead. -/
  offset : Nat
  /-- The trees built in the innermost frame, last first. -/
  built : List Tree
  /-- The problems found, last first. -/
  found : List Diagnostic

namespace ReadState

/-- The tokens as words, each with the trivia in front of it; trivia behind the last word has no
place and is left out. -/
def separate : List Token → List Token × List (List Token)
  | [] => ([], [])
  | t :: ts =>
    let rest := separate ts
    if t.isTrivia then
      match rest.2 with
      | [] => rest
      | gap :: gaps => (rest.1, (t :: gap) :: gaps)
    else (t :: rest.1, [] :: rest.2)

/-- The state before anything is read. -/
def start (tokens : List Token) : ReadState :=
  let parts := separate tokens
  { words := parts.1, gaps := parts.2, offset := 0, built := [], found := [] }

/-- The trivia in front of the next word. -/
def gap (s : ReadState) : List Token := s.gaps.headD []

/-- Move the trivia in front of the next word to the trees built. -/
def skipTrivia (s : ReadState) : ReadState :=
  { s with
    gaps := match s.gaps with
      | [] => []
      | _ :: gaps => [] :: gaps
    offset := s.offset + Token.widthOf s.gap
    built := s.gap.reverse.map Tree.token ++ s.built }

/-- Move the trivia in front of the next word and the word itself to the trees built. -/
def take (s : ReadState) : ReadState :=
  let s := s.skipTrivia
  match s.words with
  | [] => s
  | w :: ws =>
    { s with words := ws, gaps := s.gaps.drop 1, offset := s.offset + w.width,
             built := .token w :: s.built }

/-- Divide the shift that comes next into two closing angle brackets. -/
def splitShift (s : ReadState) : ReadState :=
  match s.words with
  | ⟨.rightShift, _⟩ :: ws =>
    { s with words := ⟨.greater, ">"⟩ :: ⟨.greater, ">"⟩ :: ws
             gaps := s.gap :: [] :: s.gaps.drop 1 }
  | _ => s

/-- Divide the shift that comes next into two closing angle brackets and take the first. -/
def takeHalf (s : ReadState) : ReadState := s.splitShift.take

/-- Note a problem at the next word, after the trivia in front of it. -/
def report (problem : Problem) (s : ReadState) : ReadState :=
  let s := s.skipTrivia
  let text := match s.words with
    | [] => ""
    | w :: _ => w.text
  { s with found := ⟨problem, Span.ofText s.offset text⟩ :: s.found }

/-- Make all that the innermost frame has built one node. -/
def enclose (kind : Kind) (s : ReadState) : ReadState :=
  { s with built := [.node kind s.built.reverse] }

end ReadState

namespace Action

/-- What an action answers and where it leaves the reading, when `answer` says what calls do. -/
def run {R : Type} (answer : R → ReadState → Bool × ReadState) {α : Type} :
    Action R α → ReadState → α × ReadState
  | .pure a, s => (a, s)
  | .bind first next, s =>
    let (a, s) := first.run answer s
    (next a).run answer s
  | .look decide _, s => (decide s.words, s)
  | .skipTrivia, s => ((), s.skipTrivia)
  | .take, s => ((), s.take)
  | .takeHalf, s => ((), s.takeHalf)
  | .report problem, s => ((), s.report problem)
  | .opening _ _, s => ((), s)
  | .enclose kind, s => ((), s.enclose kind)
  | .frame body, s =>
    let (a, inner) := body.run answer { s with built := [] }
    (a, { inner with built := inner.built ++ s.built })
  | .idle body, s =>
    let before := s.skipTrivia
    let (_, after) := body.run answer before
    (after.words.length == before.words.length, after)
  | .call rule, s => answer rule s

/-- What the production `rule` does when calls may nest `depth` deep; deeper calls do nothing. -/
def runRule {R : Type} (body : R → Action R Bool) : Nat → R → ReadState → Bool × ReadState
  | 0, _, s => (false, s)
  | depth + 1, rule, s => (body rule).run (runRule body depth) s

end Action

end LivePatch
