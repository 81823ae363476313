import LivePatch.Syntax.Cursor
import LivePatch.Syntax.Parse

/-!
# Reading the queue

`Action.run` keeps the words ahead apart from the trivia in front of them.  Here the same actions are
run on the queue that the lexer leaves, trivia and all: tokens are taken from its front one by one,
each cut out of the text where its place says, a question about the words ahead is answered by its
scan from place to place, and whether a round of a loop has moved on is seen by the length of the
queue.

A reading has no answer when the place of a token begins or ends inside a character, or when calls
nest deeper than they may.  That there is an answer, and which one, is `Queue.parse_eq`.
-/

namespace LivePatch

/-- Where a reading of the queue stands. -/
structure QueueState where
  /-- The whole text. -/
  input : List Char
  /-- The tokens ahead, trivia and all, by kind and place. -/
  queue : List (Kind × Span)
  /-- The trees built in the innermost frame, last first. -/
  built : List Tree
  /-- The problems found, last first. -/
  found : List Diagnostic

namespace QueueState

/-- Something done with a queue. -/
abbrev Turn (α : Type) : Type := StateT QueueState Option α

/-! ## Single turns -/

/-- The token that the text has at the place `t`. -/
def cut? (s : QueueState) (t : Kind × Span) : Option Token :=
  (t.2.slice? s.input).map fun text => ⟨t.1, String.ofList text⟩

/-- The state when `token` has moved from the front of the queue to the trees built. -/
def moved (s : QueueState) (token : Token) : QueueState :=
  { s with queue := s.queue.tail, built := .token token :: s.built }

/-- Take the token at the front, whatever it is. -/
def bumpAny : Turn Unit := fun s =>
  match s.queue with
  | [] => some ((), s)
  | t :: _ => (s.cut? t).map fun token => ((), s.moved token)

/-- Take tokens as long as trivia stands at the front. -/
def eatTrivia (s : QueueState) : Option (Unit × QueueState) :=
  match _h : s.queue with
  | [] => some ((), s)
  | t :: _ =>
    if t.1.isTrivia then (s.cut? t).bind fun token => eatTrivia (s.moved token)
    else some ((), s)
termination_by s.queue.length
decreasing_by simp [moved, _h]

/-- Take the trivia at the front and the word behind it. -/
def bump : Turn Unit := do
  eatTrivia
  bumpAny

/-- All tokens ahead. -/
def tokens : Turn (List Token) := fun s => (s.queue.mapM s.cut?).map fun ts => (ts, s)

/-- How many tokens are ahead. -/
def count : Turn Nat := return (← get).queue.length

/-- The state when the shift at the front has become two closing angle brackets, each with a place
of its own. -/
def divided (s : QueueState) : QueueState :=
  match s.queue with
  | (.rightShift, place) :: queue =>
    { s with queue := (.greater, ⟨place.start, place.start + 1⟩) ::
               (.greater, ⟨place.start + 1, place.stop⟩) :: queue }
  | _ => s

/-- Divide the shift at the front. -/
def splitShift : Turn Unit := modify divided

/-- The place of the token at the front; that of the end of the text when there is none. -/
def here (s : QueueState) : Span :=
  match s.queue with
  | [] => ⟨byteLength s.input, byteLength s.input⟩
  | t :: _ => t.2

/-- Take the trivia at the front and note a problem at the word behind it. -/
def report (problem : Problem) : Turn Unit := do
  eatTrivia
  modify fun s => { s with found := ⟨problem, s.here⟩ :: s.found }

/-- Make all that the innermost frame has built one node. -/
def enclose (kind : Kind) : Turn Unit :=
  modify fun s => { s with built := [.node kind s.built.reverse] }

end QueueState

/-! ## Actions -/

namespace Action

open QueueState

/-- What an action does with the queue, when `answer` says what calls do. -/
def runQueue {R : Type} (answer : R → Turn Bool) {α : Type} : Action R α → Turn α
  | .pure a => Pure.pure a
  | .bind first next => do
    let a ← first.runQueue answer
    (next a).runQueue answer
  | .look _ scanned => do
    let queue ← tokens
    return scanned.scan queue
  | .skipTrivia => eatTrivia
  | .take => bump
  | .takeHalf => do
    eatTrivia
    splitShift
    bump
  | .report problem => QueueState.report problem
  | .opening _ _ => Pure.pure ()
  | .enclose kind => QueueState.enclose kind
  | .frame body => do
    let outer ← get
    set { outer with built := [] }
    let a ← body.runQueue answer
    modify fun inner => { inner with built := inner.built ++ outer.built }
    return a
  | .idle body => do
    eatTrivia
    let before ← count
    body.runQueue answer
    return (← count) == before
  | .call rule => answer rule

/-- What the production `rule` does with the queue; there is no answer if more than `depth` calls
nest. -/
def runQueueRule {R : Type} (body : R → Action R Bool) : Nat → R → Turn Bool
  | 0, _ => fun _ => none
  | depth + 1, rule => (body rule).runQueue (runQueueRule body depth)

end Action

/-! ## Reading a text -/

namespace Queue

/-- Do `step` with the queue of all tokens of `source`, when no more than `depth` calls nest. -/
def readWhole (step : Grammar.Step Unit) (source : String) (depth : Nat) : Option Parsed := do
  let (queue, faults) ← Cursor.tokenize source
  let start : QueueState := { input := source.toList, queue := queue, built := [], found := [] }
  let (_, last) ← step.runQueue (Action.runQueueRule Grammar.production depth) start
  return { tree := last.built.headD (.node .error [])
           diagnostics := faults ++ last.found.reverse }

/-- Read a whole source file by its queue. -/
def parse (source : String) (depth : Nat) : Option Parsed :=
  readWhole Grammar.compilationUnit source depth

/-- Read a single expression by its queue. -/
def parseExpression (source : String) (depth : Nat) : Option Parsed :=
  readWhole Grammar.expressionFragment source depth

end Queue

end LivePatch
