import LivePatch.Text.Blank
import LivePatch.Text.Digits

/-!
# Atoms of patterns

The smallest parts of a regular expression, and the flags under which they may stand.

A pattern works on Unicode characters, or on bytes while the flag `u` is switched off.  It has no
tables of the Unicode standard.  So among characters there are neither classes such as "a digit"
nor word edges, and no way to ignore case; among bytes there are all of these, but only inside
ASCII, since what a pattern finds must always be whole characters.
-/

namespace LivePatch.Pattern

open Scanner

/-! ## Flags -/

/-- How a part of a pattern is to be read. -/
structure Flags where
  /-- Letters of either case are the same. -/
  ignoreCase : Bool := false
  /-- The pattern works on characters, not on bytes. -/
  unicode : Bool := true
  /-- Blanks and comments between the parts mean nothing. -/
  ignoreBlanks : Bool := false
deriving DecidableEq, Repr

namespace Flags

/-- Switch the flag with a letter on or off.  The other letters do not bear on what can be read. -/
def set (flags : Flags) (letter : Char) (on : Bool) : Flags :=
  match letter with
  | 'i' => { flags with ignoreCase := on }
  | 'u' => { flags with unicode := on }
  | 'x' => { flags with ignoreBlanks := on }
  | _ => flags

/-- Switch flags on by their letters, and behind a dash off. -/
def apply (flags : Flags) (letters : List Char) : Flags :=
  let switchedOn := letters.takeWhile (· != '-')
  let switchedOff := letters.dropWhile (· != '-')
  switchedOff.foldl (fun f c => f.set c false) (switchedOn.foldl (fun f c => f.set c true) flags)

end Flags

/-- Are these the letters of flags?  Each stands once, and a dash is not the last of them. -/
def areFlags (letters : List Char) : Bool :=
  letters.all "imsUuRx-".toList.contains && letters.eraseDups == letters
    && letters.getLast? != some '-'

/-! ## Blanks and comments -/

/-- The text behind blanks and comments.  A comment goes from its mark to the end of the line. -/
def passGap (inComment : Bool) : List Char → List Char
  | [] => []
  | c :: text =>
    if inComment then passGap (c != '\n') text
    else if c == '#' then passGap true text
    else if isBlank c then passGap false text
    else c :: text

/-- The text behind what the flags say to ignore. -/
def Flags.behindGap (flags : Flags) (text : List Char) : List Char :=
  if flags.ignoreBlanks then passGap false text else text

/-- Pass over what the flags say to ignore. -/
def gap (flags : Flags) : Scanner Unit := modify flags.behindGap

/-! ## Atoms -/

/-- A part that has no parts. -/
inductive Atom where
  /-- A character.  One that is written with two hexadecimal digits is also a byte. -/
  | character (c : Char) (isByte : Bool)
  /-- Any character but a line end. -/
  | any
  /-- A class by its letter: digits, blanks or the characters of words, or all others. -/
  | shorthand (negated : Bool)
  /-- The start or the end of a text or a line. -/
  | edge
  /-- The start, the end, or the inside of a word. -/
  | wordEdge
deriving DecidableEq, Repr

namespace Atom

/-- May an atom stand outside of sets? -/
def isAllowed (flags : Flags) : Atom → Bool
  | character c isByte => if flags.unicode then !flags.ignoreCase else !isByte || c.toNat < 0x80
  | any => flags.unicode
  | shorthand negated => !flags.unicode && !negated
  | edge => true
  | wordEdge => !flags.unicode

/-- May an atom be a member of a set? -/
def isMember (flags : Flags) : Atom → Bool
  | character c _ => if flags.unicode then !flags.ignoreCase else c.toNat < 0x80
  | shorthand negated => !flags.unicode && !negated
  | any | edge | wordEdge => false

end Atom

/-- Hexadecimal digits, before each of which there may be a gap. -/
def hexDigits (flags : Flags) : Nat → Scanner (List Char)
  | 0 => return []
  | n + 1 => do
    gap flags
    let digit ← satisfy isHexDigit
    return digit :: (← hexDigits flags n)

/-- The rest of an escape after its backslash. -/
def escaped (flags : Flags) : Scanner Atom := do
  match ← satisfy fun _ => true with
  | 'x' => return .character (← numbered (← hexDigits flags 2)) true
  | 'u' => return .character (← numbered (← hexDigits flags 4)) false
  | 'U' => return .character (← numbered (← hexDigits flags 8)) false
  | 'd' | 's' | 'w' => return .shorthand false
  | 'D' | 'S' | 'W' => return .shorthand true
  | 'a' => return .character '\x07' false
  | 'f' => return .character '\x0c' false
  | 't' => return .character '\t' false
  | 'n' => return .character '\n' false
  | 'r' => return .character '\r' false
  | 'v' => return .character '\x0b' false
  | 'A' | 'z' => return .edge
  | 'b' | 'B' | '<' | '>' => return .wordEdge
  | c => if c.toNat < 0x80 && !c.isAlphanum then return .character c false else failure

end LivePatch.Pattern
