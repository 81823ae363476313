import LivePatch.Text.Alphanumeric
import LivePatch.Text.Pattern.Atom

/-!
# Patterns

When is a text a regular expression?  `Pattern.isWellFormed` reads it part by part and keeps what is
open: groups in parentheses, each with the flags in force, and inside the innermost group sets of
characters in brackets, which may be nested.

A pattern may be nested only so deep, and `Row` counts the levels: a group, a set and a repetition
are a level each, and so is a row of several parts.

A count of repetitions between braces is not among the parts: patterns stand between braces
themselves, so that one cannot be closed.
-/

namespace LivePatch.Pattern

open Scanner

/-! ## Levels -/

/-- Parts side by side: how many there are, and the levels of the deepest. -/
structure Row where
  count : Nat := 0
  depth : Nat := 0
deriving DecidableEq, Repr

namespace Row

/-- Add a part with a number of levels. -/
def add (row : Row) (depth : Nat) : Row := ⟨row.count + 1, max row.depth depth⟩

/-- The levels of the whole row, which is one itself unless it is a single part or none. -/
def levels (row : Row) : Nat := if row.count ≥ 2 then row.depth + 1 else row.depth

end Row

/-- The most levels that a pattern may have. -/
def levelLimit : Nat := 250

/-! ## What is open -/

/-- A set of characters that is being read. -/
structure OpenSet where
  /-- The members since the last operation. -/
  members : Row := {}
  /-- The levels of what stands to the left of the last operation. -/
  left : Option Nat := none
deriving DecidableEq, Repr

/-- The levels of a set so far. -/
def OpenSet.levels (set : OpenSet) : Nat :=
  match set.left with
  | none => set.members.levels
  | some left => max left set.members.levels + 1

/-- A group that is being read, or the whole pattern. -/
structure OpenGroup where
  flags : Flags := {}
  /-- The alternatives that are complete. -/
  alternatives : Row := {}
  /-- The parts of the last alternative. -/
  parts : Row := {}
  /-- The levels of the part right before, if it can be repeated. -/
  last : Option Nat := none
deriving DecidableEq, Repr

namespace OpenGroup

/-- Add a part. -/
def add (group : OpenGroup) (depth : Nat) : OpenGroup :=
  { group with parts := group.parts.add depth, last := some depth }

/-- Change the flags for the rest of the group.  The change counts as a part. -/
def change (group : OpenGroup) (letters : List Char) : OpenGroup :=
  { group with flags := group.flags.apply letters, parts := group.parts.add 0, last := none }

/-- Begin another alternative. -/
def alternative (group : OpenGroup) : OpenGroup :=
  { group with
    alternatives := group.alternatives.add group.parts.levels, parts := {}, last := none }

/-- Repeat the last part, if there is one to repeat. -/
def repeatLast? (group : OpenGroup) : Option OpenGroup :=
  group.last.map fun depth =>
    let parts := { group.parts with depth := max group.parts.depth (depth + 1) }
    { group with parts, last := some (depth + 1) }

/-- The levels inside a group. -/
def levels (group : OpenGroup) : Nat := (group.alternatives.add group.parts.levels).levels

end OpenGroup

/-- The part of a pattern that has been read. -/
structure Progress where
  /-- The innermost group. -/
  group : OpenGroup := {}
  /-- The groups around it, the innermost first. -/
  outer : List OpenGroup := []
  /-- The sets that are open in the innermost group, the innermost first. -/
  sets : List OpenSet := []
  /-- The names of the groups so far. -/
  names : List (List Char) := []
deriving DecidableEq, Repr

namespace Progress

/-- The flags in force. -/
def flags (p : Progress) : Flags := p.group.flags

/-- Add a part to the innermost group. -/
def add (p : Progress) (depth : Nat) : Progress := { p with group := p.group.add depth }

/-- Open a group. -/
def enter (p : Progress) (flags : Flags) : Progress :=
  { p with group := { flags }, outer := p.group :: p.outer }

/-- Close the innermost group, if one is open. -/
def leave? (p : Progress) : Option Progress :=
  match p.outer with
  | [] => none
  | group :: outer => some { p with group := group.add (p.group.levels + 1), outer }

end Progress

/-! ## Sets of characters -/

/-- The sets that have names. -/
def setNames : List String :=
  ["alnum", "alpha", "ascii", "blank", "cntrl", "digit", "graph", "lower", "print", "punct",
    "space", "upper", "word", "xdigit"]

/-- A set by its name, between colons and brackets of its own.  The answer says whether it stands
for the characters that are not in the set. -/
def namedSet : Scanner Bool := do
  exactly "[:"
  let negated ← optional (exactly "^")
  let name ← takeWhile (· != ':')
  exactly ":]"
  if setNames.contains (String.ofList name) then return negated.isSome else failure

/-- May a named set be a member of a set? -/
def allowsNamed (flags : Flags) (negated : Bool) : Bool :=
  if flags.unicode then !flags.ignoreCase else !negated

/-- One atom in a set. -/
def setAtom (flags : Flags) : Scanner Atom :=
  (exactly "\\" *> escaped flags) <|>
    ((Atom.character · false) <$> satisfy (· != '\\'))

/-- The character that decides what a dash before it means.  Blanks before it are passed over when
they are ignored, and so is the mark of a comment, but not the comment. -/
def afterDash (flags : Flags) (text : List Char) : Option Char :=
  if flags.ignoreBlanks then
    match text.dropWhile isBlank with
    | '#' :: comment => (comment.dropWhile isBlank).head?
    | text => text.head?
  else text.head?

/-- Does a range go on here?  A dash before another dash or the closing bracket does not make
one. -/
def rangeFollows (flags : Flags) : List Char → Bool
  | '-' :: text =>
    let next := afterDash flags text
    next != some ']' && next != some '-'
  | _ => false

/-- A member of a set, or a range between two characters, of which the first is not the larger. -/
def memberOrRange (flags : Flags) : Scanner Unit := do
  let first ← setAtom flags
  gap flags
  if !first.isMember flags then failure
  else if rangeFollows flags (← get) then
    exactly "-"
    gap flags
    let last ← setAtom flags
    match first, last with
    | .character low _, .character high _ =>
      if last.isMember flags && low ≤ high then return () else failure
    | _, _ => failure

/-- All dashes at the front, each with the gap behind it. -/
def dashes (flags : Flags) : Scanner (List Unit) := manyOf (exactly "-" *> gap flags)

/-- The start of a set after its bracket.  Dashes there are members, and so is a closing bracket
right after it. -/
def openSet (p : Progress) : Scanner Progress := do
  gap p.flags
  let negated ← optional (exactly "^" *> gap p.flags)
  let leading ← dashes p.flags
  let bracket ← if leading.isEmpty then optional (exactly "]" *> gap p.flags) else pure none
  let literals := leading ++ bracket.toList
  let members := literals.foldl (fun row _ => row.add 0) ({} : Row)
  if negated.isSome && !p.flags.unicode then failure
  else if literals.isEmpty || (Atom.character '-' false).isMember p.flags then
    return { p with sets := { members } :: p.sets }
  else failure

/-- Close the innermost set, which is a member of the one around it or a part of the group. -/
def closeSet (p : Progress) (set : OpenSet) (sets : List OpenSet) : Progress :=
  let depth := set.levels + 1
  match sets with
  | [] => { p with sets := [] }.add depth
  | outer :: sets => { p with sets := { outer with members := outer.members.add depth } :: sets }

/-- An operation between sets. -/
def setOperation : Scanner Unit := exactly "&&" <|> exactly "--" <|> exactly "~~"

/-- One part of the innermost set: its end, a set inside it, an operation, or members. -/
def setPart (p : Progress) (set : OpenSet) (sets : List OpenSet) : Scanner Progress := do
  let added := { p with sets := { set with members := set.members.add 0 } :: sets }
  match ← peek? with
  | some ']' => exactly "]" *> return closeSet p set sets
  | some '[' =>
    match ← optional namedSet with
    | some negated => if allowsNamed p.flags negated then return added else failure
    | none => exactly "[" *> openSet p
  | _ =>
    match ← optional setOperation with
    | some _ => return { p with sets := { left := some set.levels } :: sets }
    | none => memberOrRange p.flags *> return added

/-! ## Groups -/

/-- May `c` stand in the name of a group after its first character? -/
def isNameRest (c : Char) : Bool :=
  isAlphanumeric c || c == '_' || c == '.' || c == '[' || c == ']'

/-- A group with a name, which no other group has. -/
def namedGroup (p : Progress) : Scanner Progress := do
  exactly "?P<" <|> exactly "?<"
  let first ← satisfy fun c => isAlphabetic c || c == '_'
  let name := first :: (← takeWhile isNameRest)
  exactly ">"
  if p.names.contains name then failure
  else return { p.enter p.flags with names := name :: p.names }

/-- Flags for the rest of the group around them, or for a group of their own. -/
def flagged (p : Progress) : Scanner Progress := do
  exactly "?"
  let letters ← takeWhile fun c => c != ':' && c != ')'
  if !areFlags letters then failure
  else if (← peek?) == some ':' then exactly ":" *> return p.enter (p.flags.apply letters)
  else if letters.isEmpty then failure
  else exactly ")" *> return { p with group := p.group.change letters }

/-- The start of a group after its parenthesis. -/
def openGroup (p : Progress) : Scanner Progress := do
  gap p.flags
  if (← peek?) == some '?' then namedGroup p <|> flagged p else return p.enter p.flags

/-! ## Whole patterns -/

/-- An atom as a part of the innermost group. -/
def addAtom (p : Progress) (atom : Atom) : Scanner Progress :=
  if atom.isAllowed p.flags then return p.add 0 else failure

/-- One part outside of all sets. -/
def part (p : Progress) : Scanner Progress := do
  match ← satisfy fun _ => true with
  | '(' => openGroup p
  | ')' =>
    match p.leave? with
    | some p => return p
    | none => failure
  | '|' => return { p with group := p.group.alternative }
  | '[' => openSet p
  | '?' | '*' | '+' =>
    match p.group.repeatLast? with
    | some group => optional (exactly "?") *> return { p with group }
    | none => failure
  | '{' => failure
  | '\\' => addAtom p (← escaped p.flags)
  | '.' => addAtom p .any
  | '^' | '$' => addAtom p .edge
  | c => addAtom p (.character c false)

/-- The next part, inside a set or outside of all. -/
def nextPart (p : Progress) : Scanner Progress :=
  match p.sets with
  | [] => part p
  | set :: sets => setPart p set sets

/-- Read all parts, with the gaps between them. -/
def readParts (p : Progress) (text : List Char) : Option Progress :=
  let front := p.flags.behindGap text
  if front.isEmpty then some p
  else match nextPart p front with
    | none => none
    | some (next, rest) => if rest.length < text.length then readParts next rest else none
termination_by text.length

/-- Is a text a pattern?  All its parts can be read, nothing stays open, and it is not nested too
deep. -/
def isWellFormed (text : String) : Bool :=
  match readParts {} text.toList with
  | none => false
  | some p => p.outer.isEmpty && p.sets.isEmpty && p.group.levels ≤ levelLimit

end LivePatch.Pattern
