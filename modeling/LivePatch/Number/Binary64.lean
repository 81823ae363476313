/-!
# Binary floating point numbers

A number with a fraction or an exponent is kept as the binary64 number nearest to it, and is shown
with the fewest decimal digits that read back as that number.  Both directions are exact `Nat`
arithmetic on a significand and a power of two.

* `Binary64.ofDecimal` rounds a decimal to nearest, a tie going to the even significand.
* `Binary64.shortest` walks the powers of ten from large to small and takes the first whose
  multiples reach the number, that is, fall among the reals that round to it.
* `Binary64.shown` and `Binary64.plain` write the result positionally, never with an exponent.
-/

namespace LivePatch

/-- A decimal: `digits * 10 ^ exponent`. -/
structure Decimal where
  digits : Nat
  exponent : Int
deriving DecidableEq, Repr

/-- A finite magnitude: `significand * 2 ^ exponent`, the significand below `2 ^ 53` and the
exponent from `-1074` to `971`. -/
structure Magnitude where
  significand : Nat
  exponent : Int
deriving DecidableEq, Repr

/-- A binary64 number. -/
inductive Binary64 where
  | finite (negative : Bool) (magnitude : Magnitude)
  | infinite (negative : Bool)
  | notANumber
deriving DecidableEq, Repr

/-- The quotient `n / d` to the nearest natural number, a tie going to the even one. -/
def roundDiv (n d : Nat) : Nat :=
  let quotient := n / d
  let twice := 2 * (n % d)
  if twice < d || (twice == d && quotient % 2 == 0) then quotient else quotient + 1

/-- The power `base ^ e`, or one where `e` is negative. -/
def power (base : Nat) (e : Int) : Nat := Nat.pow base e.toNat

namespace Magnitude

def zero : Magnitude := ⟨0, -1074⟩

/-- The least significand of full length, `2 ^ 52`. -/
def fullLength : Nat := 0x10000000000000

/-- The fraction `n / d` divided by `2 ^ e`, as a fraction. -/
def scaled (n d : Nat) (e : Int) : Nat × Nat :=
  (n * power 2 (-e), d * power 2 e)

/-- The magnitude nearest to the positive fraction `n / d`, or nothing when that is too large.  The
exponent is the least one for which the significand fits, found from the lengths of `n` and `d`
with one correction. -/
def ofRatio? (n d : Nat) : Option Magnitude :=
  let low : Int := max ((n.log2 : Int) - d.log2 - 53) (-1074)
  let (a, b) := scaled n d low
  let e := if a < 2 * fullLength * b then low else low + 1
  let (a, b) := scaled n d e
  let m := roundDiv a b
  let rounded : Magnitude := if m == 2 * fullLength then ⟨fullLength, e + 1⟩ else ⟨m, e⟩
  if rounded.exponent ≤ 971 then some rounded else none

/-- The magnitude nearest to a decimal, or nothing when that is too large.  A decimal far outside
the range is settled by its length alone. -/
def ofDecimal? (x : Decimal) : Option Magnitude :=
  let leading : Int := (Nat.toDigits 10 x.digits).length + x.exponent
  if x.digits == 0 || leading < -330 then some zero
  else if leading > 310 then none
  else ofRatio? (x.digits * power 10 x.exponent) (power 10 (-x.exponent))

/-- Compare `a * 10 ^ i` with `n * 2 ^ j`. -/
def compareScaled (a : Nat) (i : Int) (n : Nat) (j : Int) : Ordering :=
  compare (a * power 10 i * power 2 (-j)) (n * power 2 j * power 10 (-i))

/-- Does a decimal lie among the reals that round to `x`?  The ends of that interval are halfway to
the two neighbours and belong to it when the significand is even.  Just above a power of two the
neighbour below is only half as far away. -/
def readsBack (x : Magnitude) (d : Decimal) : Bool :=
  let narrow := x.significand == fullLength && x.exponent > -1074
  let low := 4 * x.significand - (if narrow then 1 else 2)
  let high := 4 * x.significand + 2
  let closed := x.significand % 2 == 0
  let fromLow := compareScaled d.digits d.exponent low (x.exponent - 2)
  let toHigh := compareScaled d.digits d.exponent high (x.exponent - 2)
  (fromLow == .gt || (closed && fromLow == .eq)) && (toHigh == .lt || (closed && toHigh == .eq))

/-- The multiple of `10 ^ e` that reads back as `x`, if one does.  Only the two multiples next to
`x` can; of both, the nearer is taken, and halfway the larger. -/
def onGrid? (x : Magnitude) (e : Int) : Option Decimal :=
  let n := x.significand * power 2 x.exponent * power 10 (-e)
  let d := power 2 (-x.exponent) * power 10 e
  let below : Decimal := ⟨n / d, e⟩
  let above : Decimal := ⟨n / d + 1, e⟩
  match x.readsBack below, x.readsBack above with
  | true, true => some (if 2 * (n % d) ≥ d then above else below)
  | true, false => some below
  | false, true => some above
  | false, false => none

/-- The decimal with the fewest digits that reads back as `x`.  The walk ends at the latest at the
power of ten under the binary exponent, of which `x` is a multiple. -/
def shortest (x : Magnitude) : Decimal :=
  ((List.range 1400).findSome? fun (i : Nat) => x.onGrid? (309 - i)).getD ⟨0, 0⟩

end Magnitude

namespace Binary64

/-- The number nearest to a signed decimal; one that is too large is infinite. -/
def ofDecimal (negative : Bool) (x : Decimal) : Binary64 :=
  match Magnitude.ofDecimal? x with
  | some magnitude => .finite negative magnitude
  | none => .infinite negative

end Binary64

namespace Decimal

/-- The digits before and after the point, without an exponent.  There is at least one before it,
and there is none after it when the decimal is whole. -/
def places (x : Decimal) : List Char × List Char :=
  let digits := Nat.toDigits 10 x.digits
  if x.exponent ≥ 0 then (digits ++ List.replicate x.exponent.toNat '0', [])
  else
    let count := (-x.exponent).toNat
    let padded := List.replicate (count + 1 - digits.length) '0' ++ digits
    padded.splitAt (padded.length - count)

/-- A decimal without an exponent and with at least one digit on either side of the point. -/
def shown (x : Decimal) : String :=
  let (whole, fraction) := x.places
  String.ofList (whole ++ '.' :: (if fraction.isEmpty then ['0'] else fraction))

/-- A decimal without an exponent, and without a point when it is whole. -/
def plain (x : Decimal) : String :=
  let (whole, fraction) := x.places
  String.ofList (if fraction.isEmpty then whole else whole ++ '.' :: fraction)

end Decimal

namespace Binary64

/-- The text of a number when its fewest digits that read back are written as `write` says. -/
def textBy (write : Decimal → String) : Binary64 → String
  | .finite negative magnitude =>
    let decimal := if magnitude.significand == 0 then ⟨0, 0⟩ else magnitude.shortest
    (if negative then "-" else "") ++ write decimal
  | .infinite negative => if negative then "-inf" else "inf"
  | .notANumber => "NaN"

/-- The text of a number, always with a point. -/
def shown : Binary64 → String := textBy Decimal.shown

/-- The text of a number, with a point only where it has a fraction. -/
def plain : Binary64 → String := textBy Decimal.plain

end Binary64

end LivePatch
