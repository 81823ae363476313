/-!
# JSON reports

The values that a report is made of and their one printed form: every member on a line of its own,
two blanks deeper than what holds it, and nothing between the brackets of an empty list.
-/

namespace LivePatch

/-- A value of a report. -/
inductive Json where
  | number (value : Nat)
  | text (value : String)
  | list (items : List Json)
  | object (members : List (String × Json))

namespace Json

/-- A digit of a code point below 256, in hexadecimal. -/
def hexDigits (c : Char) : List Char :=
  [Nat.digitChar (c.toNat / 16), Nat.digitChar (c.toNat % 16)]

/-- One character between quotes.  Only the quote, the backslash and control characters are
escaped. -/
def escape (c : Char) : List Char :=
  match c with
  | '"' => ['\\', '"']
  | '\\' => ['\\', '\\']
  | '\x08' => ['\\', 'b']
  | '\x0c' => ['\\', 'f']
  | '\n' => ['\\', 'n']
  | '\r' => ['\\', 'r']
  | '\t' => ['\\', 't']
  | c => if c < ' ' then ['\\', 'u', '0', '0'] ++ hexDigits c else [c]

/-- A text between quotes. -/
def quote (text : String) : String :=
  String.ofList ('"' :: (text.toList.flatMap escape ++ ['"']))

/-- The start of a line at a depth. -/
def indent (depth : Nat) : String := String.ofList ('\n' :: List.replicate (2 * depth) ' ')

/-- The printed members of a list or object between their brackets. -/
def enclose (opening closing : String) (depth : Nat) (members : List String) : String :=
  if members.isEmpty then opening ++ closing
  else
    opening ++ ",".intercalate (members.map (indent (depth + 1) ++ ·)) ++ indent depth ++ closing

mutual

/-- The printed form of a value at a depth. -/
def renderAt (depth : Nat) : Json → String
  | .number value => toString value
  | .text value => quote value
  | .list items => enclose "[" "]" depth (renderItems (depth + 1) items)
  | .object members => enclose "\x7b" "\x7d" depth (renderMembers (depth + 1) members)

/-- The printed forms of values at a depth. -/
def renderItems (depth : Nat) : List Json → List String
  | [] => []
  | item :: items => renderAt depth item :: renderItems depth items

/-- The printed forms of members at a depth. -/
def renderMembers (depth : Nat) : List (String × Json) → List String
  | [] => []
  | (name, value) :: members =>
    (quote name ++ ": " ++ renderAt depth value) :: renderMembers depth members

end

/-- The printed form of a value. -/
def render (value : Json) : String := value.renderAt 0

end Json

end LivePatch
