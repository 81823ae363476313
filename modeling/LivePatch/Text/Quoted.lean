import LivePatch.Text.Visible

/-!
# Quoted text

The one-line form of a text in a tree dump or an error message: between double quotes, with the
quote and the backslash escaped, the four common control characters under their short names, and
every other character that does not show as itself under its code point in hexadecimal.
-/

namespace LivePatch.Quoted

/-- The code point of `c` in lower-case hexadecimal, between braces. -/
def codePoint (c : Char) : List Char :=
  ['\\', 'u', '{'] ++ Nat.toDigits 16 c.toNat ++ ['}']

/-- The form of one character between the quotes. -/
def encodeChar (c : Char) : List Char :=
  match c with
  | '\x00' => ['\\', '0']
  | '\t' => ['\\', 't']
  | '\r' => ['\\', 'r']
  | '\n' => ['\\', 'n']
  | '"' => ['\\', '"']
  | '\\' => ['\\', '\\']
  | c => if isVisible c then [c] else codePoint c

/-- The quoted form of `text`, as characters. -/
def encode (text : List Char) : List Char :=
  '"' :: (text.flatMap encodeChar ++ ['"'])

end LivePatch.Quoted

namespace LivePatch

/-- The quoted form of `text`. -/
def quoted (text : String) : String := String.ofList (Quoted.encode text.toList)

end LivePatch
