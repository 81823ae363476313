/-!
# Sets of code points

A character class of the Unicode standard is a union of a few hundred ranges.  `CodeRanges`
keeps such a set as the increasing list of its *borders*: the code points at which membership
changes, starting from "outside" below the first one.  So `[0x41, 0x5B]` is the set of the 26
capital letters of ASCII.
-/

namespace LivePatch

/-- A set of code points, given by the increasing list of points where membership changes. -/
structure CodeRanges where
  borders : List Nat

namespace CodeRanges

/-- Membership of `n`, when the points before `borders` are inside or not as `inside` says. -/
def member (n : Nat) : List Nat → Bool → Bool
  | [], inside => inside
  | border :: borders, inside => if n < border then inside else member n borders (!inside)

/-- Does the set hold the character `c`? -/
def contains (ranges : CodeRanges) (c : Char) : Bool :=
  member c.toNat ranges.borders false

end CodeRanges

end LivePatch
