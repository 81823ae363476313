import LivePatch.Toml.Item
import LivePatch.Text.Digits

/-!
# Lexemes

The smallest parts of a document: blanks, line ends and comments, quoted texts, numbers, and dates.
Each scanner here is one rule of the format.
-/

namespace LivePatch.Toml.Lexeme

open Scanner

/-! ## Blanks, comments, line ends -/

/-- A blank within a line. -/
def isBlank (c : Char) : Bool := c == ' ' || c == '\t'

/-- A character that may stand in a comment or a quoted text: no control character but the tab. -/
def isPlain (c : Char) : Bool := c == '\t' || (' ' ≤ c && c != '\x7f')

def blanks : Scanner Unit := do discard (takeWhile isBlank)

def newline : Scanner Unit := exactly "\n" <|> exactly "\r\n"

def comment : Scanner Unit := do
  exactly "#"
  discard (takeWhile isPlain)

/-- What may follow on a line that is complete. -/
def lineEnd : Scanner Unit := do
  blanks
  discard (optional comment)
  newline <|> atEnd

/-- Blanks and line ends. -/
def blankLines : Scanner Unit :=
  discard (manyOf (discard (satisfy isBlank) <|> newline))

/-- Blanks, line ends, and comments that end with their line. -/
def between : Scanner Unit :=
  discard (manyOf (discard (satisfy isBlank) <|> newline <|> (comment *> newline)))

/-! ## Quoted texts -/

/-- The rest of an escape after its backslash. -/
def escaped : Scanner Char := do
  match ← satisfy fun _ => true with
  | 'b' => return '\x08'
  | 't' => return '\t'
  | 'n' => return '\n'
  | 'f' => return '\x0c'
  | 'r' => return '\r'
  | '"' => return '"'
  | '\\' => return '\\'
  | 'u' => codePoint 4
  | 'U' => codePoint 8
  | _ => failure

/-- A text on one line between double quotes, with escapes. -/
def basicText : Scanner String := do
  exactly "\""
  let chars ← manyOf <|
    satisfy (fun c => isPlain c && c != '"' && c != '\\') <|> (exactly "\\" *> escaped)
  exactly "\""
  return String.ofList chars

/-- A text on one line between single quotes, as it stands. -/
def literalText : Scanner String := do
  exactly "'"
  let chars ← takeWhile fun c => isPlain c && c != '\''
  exactly "'"
  return String.ofList chars

/-- A text over several lines between threefold quotes.  A line end right after the opening
quotes is dropped.  One or two quotes may stand anywhere, also right before the closing three. -/
def longText (quote : Char) (piece : Scanner (List Char)) : Scanner String := do
  let three := [quote, quote, quote]
  exactly (String.ofList three)
  discard (optional newline)
  let pieces ← many do
    if three.isPrefixOf (← get) then return none
    return some (← ((fun c => [c]) <$> satisfy (· == quote)) <|> piece)
  let closing ← takeWhile (· == quote)
  if closing.length ≤ 5 then return String.ofList (pieces.flatten ++ closing.drop 3)
  else failure

/-- A text over several lines between double quotes.  A backslash at the end of a line drops the
line end and all blanks and line ends after it. -/
def longBasicText : Scanner String :=
  longText '"' <|
    (fun c => [c]) <$> satisfy (fun c => isPlain c && c != '"' && c != '\\')
    <|> (exactly "\\" *> blanks *> newline *> blankLines *> pure [])
    <|> (fun c => [c]) <$> (exactly "\\" *> escaped)
    <|> (newline *> pure ['\n'])

/-- A text over several lines between single quotes. -/
def longLiteralText : Scanner String :=
  longText '\'' <|
    (fun c => [c]) <$> satisfy (fun c => isPlain c && c != '\'')
    <|> (newline *> pure ['\n'])

/-- Any quoted text that may stand as a value. -/
def text : Scanner String := longBasicText <|> basicText <|> longLiteralText <|> literalText

/-! ## Numbers -/

/-- Digits of a class, single underscores between them. -/
def digits (p : Char → Bool) : Scanner (List Char) := do
  let first ← satisfy p
  let rest ← manyOf (satisfy p <|> (exactly "_" *> satisfy p))
  return first :: rest

/-- The whole part of a decimal number, which starts with a zero only if it is zero. -/
def wholeDigits : Scanner (List Char) := do
  if (← peek?) == some '0' then take 1 (· == '0') else digits Char.isDigit

/-- An integer must fit into 64 bits with a sign. -/
def integerItem (negative : Bool) (magnitude : Nat) : Scanner Item :=
  let value : Int := if negative then -magnitude else magnitude
  if fitsSigned value then return .integer value else failure

/-- An integer in a base that is a power of two, which takes no sign. -/
def basedInteger : Scanner Item := do
  let magnitude ←
    (valueOf 16 <$> (exactly "0x" *> digits isHexDigit))
    <|> (valueOf 8 <$> (exactly "0o" *> digits fun c => '0' ≤ c && c ≤ '7'))
    <|> (valueOf 2 <$> (exactly "0b" *> digits fun c => c == '0' || c == '1'))
  integerItem false magnitude

/-- The power of ten after the letter. -/
def exponent : Scanner Int := do
  discard (satisfy fun c => c == 'e' || c == 'E')
  let negative ← sign
  let magnitude : Int := valueOf 10 (← digits Char.isDigit)
  return if negative then -magnitude else magnitude

/-- A number with a fraction or an exponent.  One that is too large is no number, unless it is
negative. -/
def realItem (negative : Bool) (decimal : Decimal) : Scanner Item :=
  match Binary64.ofDecimal negative decimal with
  | .infinite false => failure
  | value => return .real value

/-- A decimal number.  A fraction or an exponent makes it a real. -/
def decimalNumber : Scanner Item := do
  let negative ← sign
  let whole ← wholeDigits
  let fraction ← optional (exactly "." *> digits Char.isDigit)
  let power ← optional exponent
  if fraction.isNone && power.isNone then integerItem negative (valueOf 10 whole)
  else
    let places := fraction.getD []
    realItem negative ⟨valueOf 10 (whole ++ places), power.getD 0 - places.length⟩

/-- The numbers that have names. -/
def namedNumber : Scanner Item := do
  let negative ← sign
  (exactly "inf" *> pure (.real (.infinite negative))) <|>
    (exactly "nan" *> pure (.real .notANumber))

/-! ## Dates and times -/

/-- A number of exactly `width` digits from `low` to `high`. -/
def field (width low high : Nat) : Scanner Nat := do
  let value := valueOf 10 (← take width Char.isDigit)
  if low ≤ value && value ≤ high then return value else failure

/-- The number of days of a month. -/
def daysIn (year month : Nat) : Nat :=
  if month == 2 then
    if year % 4 == 0 && (year % 100 != 0 || year % 400 == 0) then 29 else 28
  else if [4, 6, 9, 11].contains month then 30 else 31

def date : Scanner Unit := do
  let year ← field 4 0 9999
  exactly "-"
  let month ← field 2 1 12
  exactly "-"
  discard (field 2 1 (daysIn year month))

/-- A time of day, to the second or finer.  A minute may have a leap second. -/
def time : Scanner Unit := do
  discard (field 2 0 23)
  exactly ":"
  discard (field 2 0 59)
  exactly ":"
  discard (field 2 0 60)
  discard (optional (exactly "." *> satisfy Char.isDigit *> takeWhile Char.isDigit))

/-- The distance of a time from universal time. -/
def offset : Scanner Unit :=
  discard (satisfy fun c => c == 'Z' || c == 'z') <|> do
    discard (satisfy fun c => c == '+' || c == '-')
    discard (field 2 0 23)
    exactly ":"
    discard (field 2 0 59)

/-- A date, a time, or a date and a time with or without an offset. -/
def moment : Scanner Item := do
  let both : Scanner Unit := do
    discard (satisfy fun c => c == 'T' || c == 't' || c == ' ')
    time
    discard (optional offset)
  (date *> discard (optional both)) <|> time
  return .moment

/-- Any value without parts. -/
def scalar : Scanner Item :=
  (.string <$> text) <|> moment <|> basedInteger <|> namedNumber <|> decimalNumber
  <|> (exactly "true" *> pure (.boolean true)) <|> (exactly "false" *> pure (.boolean false))

end LivePatch.Toml.Lexeme
