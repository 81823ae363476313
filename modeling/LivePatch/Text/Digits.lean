import LivePatch.Text.Scanner

/-!
# Digits

What digits are worth, and the scanners for the signs, numbers and code points that are written with
them.
-/

namespace LivePatch.Scanner

/-- Is `c` a digit in base sixteen, of either case? -/
def isHexDigit (c : Char) : Bool :=
  c.isDigit || ('a' ≤ c && c ≤ 'f') || ('A' ≤ c && c ≤ 'F')

/-- The value of a digit in any base up to sixteen. -/
def digitValue (c : Char) : Nat :=
  if c.isDigit then c.toNat - '0'.toNat
  else if 'a' ≤ c then c.toNat - 'a'.toNat + 10
  else c.toNat - 'A'.toNat + 10

/-- The number that digits spell in a base. -/
def valueOf (base : Nat) (digits : List Char) : Nat :=
  digits.foldl (fun n c => n * base + digitValue c) 0

/-- The character that hexadecimal digits number, if there is one. -/
def numbered (digits : List Char) : Scanner Char :=
  let value := valueOf 16 digits
  if value.isValidChar then return Char.ofNat value else failure

/-- A code point in `n` hexadecimal digits. -/
def codePoint (n : Nat) : Scanner Char := do numbered (← take n isHexDigit)

/-- Is there a minus sign?  A plus sign may stand too. -/
def sign : Scanner Bool :=
  (exactly "-" *> pure true) <|> (exactly "+" *> pure false) <|> pure false

/-- At least one decimal digit, and all that follow it. -/
def decimalDigits : Scanner (List Char) := do
  let digits ← takeWhile Char.isDigit
  if digits.isEmpty then failure else return digits

/-- A natural number in decimal digits, before which a plus sign may stand. -/
def natural : Scanner Nat := do
  discard (optional (exactly "+"))
  valueOf 10 <$> decimalDigits

/-- Does `value` fit into 64 bits with a sign? -/
def fitsSigned (value : Int) : Bool := -0x8000000000000000 ≤ value && value ≤ 0x7FFFFFFFFFFFFFFF

/-- Does `value` fit into 64 bits without a sign? -/
def fitsUnsigned (value : Nat) : Bool := value ≤ 0xFFFFFFFFFFFFFFFF

end LivePatch.Scanner
