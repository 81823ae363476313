/-!
# Scanners

A scanner reads the front of a text.  It gives a value and the characters left over, or fails; it
has no state but the text, so an alternative always starts where the failed one did.  Loops are
all instances of `Scanner.many`, which ends because every round must take a character.
-/

namespace LivePatch

/-- A reader of the front of a text. -/
abbrev Scanner (α : Type) := StateT (List Char) Option α

namespace Scanner

/-- One character of a class. -/
def satisfy (p : Char → Bool) : Scanner Char := fun text =>
  match text with
  | c :: rest => if p c then some (c, rest) else none
  | [] => none

/-- The next character, which stays in the text. -/
def peek? : Scanner (Option Char) := fun text => some (text.head?, text)

/-- Exactly the characters of `word`. -/
def exactly (word : String) : Scanner Unit := fun text =>
  if word.toList.isPrefixOf text then some ((), text.drop word.length) else none

/-- All characters of a class up to the first of another. -/
def takeWhile (p : Char → Bool) : Scanner (List Char) := fun text =>
  some (text.takeWhile p, text.dropWhile p)

/-- Exactly `n` characters of a class. -/
def take (n : Nat) (p : Char → Bool) : Scanner (List Char) := fun text =>
  let front := text.take n
  if front.length == n && front.all p then some (front, text.drop n) else none

/-- Nothing is left. -/
def atEnd : Scanner Unit := fun text => if text.isEmpty then some ((), text) else none

/-- Repeat a step until it answers nothing.  A step that answers something without taking a
character fails. -/
def many {α : Type} (step : Scanner (Option α)) (text : List Char) :
    Option (List α × List Char) :=
  match step text with
  | none => none
  | some (none, rest) => some ([], rest)
  | some (some a, rest) =>
    if rest.length < text.length then
      match many step rest with
      | some (as, rest) => some (a :: as, rest)
      | none => none
    else none
termination_by text.length

/-- As many of a kind as there are. -/
def manyOf {α : Type} (one : Scanner α) : Scanner (List α) :=
  many (some <$> one <|> pure none)

/-- The value of a text that a scanner takes to its end. -/
def readAll {α : Type} (scan : Scanner α) (text : String) : Option α :=
  (StateT.run (scan <* atEnd) text.toList).map Prod.fst

end Scanner

end LivePatch
