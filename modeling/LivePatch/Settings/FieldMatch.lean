import LivePatch.Number.Binary64
import LivePatch.Text.Pattern

/-!
# Conditions on fields

A directive can ask that an event has a field, or that the field has a certain value.  The value is
read as the first of these that it can be: a truth value, a natural number, an integer, a real
number, a pattern for the text of the field.
-/

namespace LivePatch

/-- What the value of a field must be. -/
inductive FieldValue where
  | boolean (value : Bool)
  | natural (value : Nat)
  | integer (value : Int)
  | real (value : Binary64)
  /-- The text of the value must match a regular expression. -/
  | pattern (text : String)
deriving DecidableEq, Repr

namespace FieldValue

open Scanner

/-- One of the numbers that have names, in letters of either case. -/
def namedReal (negative : Bool) : Scanner Binary64 := do
  match (String.ofList (← takeWhile Char.isAlpha)).map Char.toLower with
  | "inf" | "infinity" => return .infinite negative
  | "nan" => return .notANumber
  | _ => failure

/-- The power of ten after the letter. -/
def exponent : Scanner Int := do
  discard (satisfy fun c => c == 'e' || c == 'E')
  let negative ← sign
  let magnitude : Int := valueOf 10 (← decimalDigits)
  return if negative then -magnitude else magnitude

/-- A number in digits, of which there is one at least on some side of the point. -/
def decimalReal (negative : Bool) : Scanner Binary64 := do
  let whole ← takeWhile Char.isDigit
  let fraction ← (exactly "." *> takeWhile Char.isDigit) <|> pure []
  if whole.isEmpty && fraction.isEmpty then failure
  let power ← exponent <|> pure 0
  return .ofDecimal negative ⟨valueOf 10 (whole ++ fraction), power - fraction.length⟩

/-- A real number. -/
def realNumber : Scanner Binary64 := do
  let negative ← sign
  namedReal negative <|> decimalReal negative

/-- An integer with an optional sign. -/
def signedNumber : Scanner Int := do
  let negative ← sign
  let magnitude : Int := valueOf 10 (← decimalDigits)
  return if negative then -magnitude else magnitude

/-- A truth value by its name. -/
def truthOf? : String → Option Bool
  | "true" => some true
  | "false" => some false
  | _ => none

/-- Read a value as the first kind that it can be. -/
def ofText? (text : String) : Option FieldValue :=
  (truthOf? text).map boolean
    <|> ((readAll Scanner.natural text).filter fitsUnsigned).map natural
    <|> ((readAll signedNumber text).filter fitsSigned).map integer
    <|> (readAll realNumber text).map real
    <|> (if Pattern.isWellFormed text then some (pattern text) else none)

/-- How a value is written. -/
def render : FieldValue → String
  | boolean value => if value then "true" else "false"
  | natural value => String.ofList (Nat.toDigits 10 value)
  | integer value =>
    (if value < 0 then "-" else "") ++ String.ofList (Nat.toDigits 10 value.natAbs)
  | real value => value.plain
  | pattern text => text

/-- The value with the sign of a zero taken away, which makes no difference to a condition. -/
def unsignedZero : FieldValue → FieldValue
  | real (.finite negative magnitude) =>
    real (.finite (negative && magnitude.significand != 0) magnitude)
  | value => value

end FieldValue

/-- A condition on a field: it must be there, perhaps with a certain value. -/
structure FieldMatch where
  name : String
  value : Option FieldValue
deriving DecidableEq, Repr

namespace FieldMatch

/-- Read a condition: a name, or a name and a value with an equals sign between them.  Whatever
stands behind a second equals sign is left aside. -/
def ofText? (text : String) : Option FieldMatch :=
  match text.splitOn "=" with
  | [] => none
  | [name] => some ⟨name, none⟩
  | name :: value :: _ => (FieldValue.ofText? value).map fun v => ⟨name, some v⟩

/-- How a condition is written. -/
def render (condition : FieldMatch) : String :=
  match condition.value with
  | none => condition.name
  | some value => condition.name ++ "=" ++ value.render

/-- The same condition in the form in which two that ask the same are equal. -/
def normalized (condition : FieldMatch) : FieldMatch :=
  { condition with value := condition.value.map FieldValue.unsignedZero }

end FieldMatch

end LivePatch
