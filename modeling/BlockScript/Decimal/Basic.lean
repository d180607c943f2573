import BlockScript.Text.Numeral

/-!
# Decimal numbers

A finite decimal is a sign, a coefficient and a power of ten.  It keeps its scale:
`1.0` and `1.00` are equal as numbers and different as decimals, and zero has a sign.
Infinities and undefined numbers come in only from trees that are read, never from
source text.

Order and equality are numeric.  An undefined number equals nothing, itself included, and
a signalling one refuses even to be compared.
-/

namespace BlockScript

/-- The finite decimal `± coefficient · 10 ^ exponent`. -/
structure Scaled where
  negative : Bool
  coefficient : Nat
  exponent : Int
deriving DecidableEq, Inhabited

namespace Scaled

/-- The coefficient with the sign of the decimal. -/
def signedCoefficient (d : Scaled) : Int :=
  if d.negative then -d.coefficient else d.coefficient

/-- The decimal counted in units of `10 ^ e`, for `e` at most its exponent. -/
def unitsAt (d : Scaled) (e : Int) : Int :=
  if d.coefficient = 0 then 0 else d.signedCoefficient * 10 ^ (d.exponent - e).toNat

/-- The finer one of two scales. -/
def commonExponent (a b : Scaled) : Int := min a.exponent b.exponent

/-- Whether the decimal is zero, of either sign and at any scale. -/
def isZero (d : Scaled) : Bool := d.coefficient == 0

/-- Number of decimal digits of the coefficient; zero has one. -/
def digitCount (d : Scaled) : Nat := (Text.digits d.coefficient).length

/-- The power of ten that the first digit of the coefficient counts. -/
def adjustedExponent (d : Scaled) : Int := d.exponent + d.digitCount - 1

/-- The sign as a number, which for zero is zero. -/
def signNumber (d : Scaled) : Int :=
  if d.isZero then 0 else if d.negative then -1 else 1

/-- The order of the magnitudes of two decimals that are not zero.  The power of ten of the
first digit decides unless it is the same. -/
def orderOfMagnitudes (a b : Scaled) : Ordering :=
  (compare a.adjustedExponent b.adjustedExponent).then
    (compare (a.coefficient * 10 ^ (a.exponent - commonExponent a b).toNat)
      (b.coefficient * 10 ^ (b.exponent - commonExponent a b).toNat))

/-- Numeric order of two finite decimals.  Their signs decide unless they are the same. -/
def order (a b : Scaled) : Ordering :=
  match compare a.signNumber b.signNumber with
  | .eq =>
      if a.isZero then .eq
      else if a.negative then (orderOfMagnitudes a b).swap
      else orderOfMagnitudes a b
  | decided => decided

/-- The greatest power of ten that the first digit of a decimal can count. -/
def greatestPower : Int := 999999999999999999

/-- The finest scale of a decimal. -/
def finestScale : Int := -1999999999999999997

/-- Whether the exponent of a decimal is within the range that decimals have. -/
def isInRange (d : Scaled) : Bool :=
  decide (finestScale ≤ d.exponent) && decide (d.adjustedExponent ≤ greatestPower)

/-- The decimal with the other sign. -/
def negate (d : Scaled) : Scaled := { d with negative := !d.negative }

end Scaled

/-- A decimal number, finite or special. -/
inductive Decimal
  | finite (value : Scaled)
  | infinite (negative : Bool)
  /-- No number.  It may signal that, and carry digits that say why. -/
  | undefined (negative signals : Bool) (payload : Nat)
deriving DecidableEq, Inhabited

namespace Decimal

/-- Whether the decimal is a finite zero. -/
def isZero : Decimal → Bool
  | finite d => d.isZero
  | _ => false

/-- Whether the decimal is a number that refuses to be compared. -/
def signals : Decimal → Bool
  | undefined _ signals _ => signals
  | _ => false

/-- Numeric order; there is none with an undefined number. -/
def order? : Decimal → Decimal → Option Ordering
  | finite a, finite b => some (a.order b)
  | undefined .., _ => none
  | _, undefined .. => none
  | infinite a, infinite b =>
      some (if a = b then .eq else if a then .lt else .gt)
  | infinite a, finite _ => some (if a then .lt else .gt)
  | finite _, infinite b => some (if b then .gt else .lt)

/-- Numeric equality. -/
def equal (a b : Decimal) : Bool := a.order? b == some .eq

/-- The least magnitude that rounds to infinity in binary double precision: half a unit
above the greatest finite double, where the tie goes to the even neighbour above. -/
def doubleOverflow : Nat := 2 ^ (1024 : Nat) - 2 ^ (970 : Nat)

/-- Whether rounding to a binary double gives an infinity.  Only a decimal of 309 digits
before the point needs the exact comparison. -/
def exceedsDouble : Decimal → Bool
  | undefined .. => false
  | infinite _ => true
  | finite d =>
      if d.isZero then false
      else if d.adjustedExponent < 308 then false
      else if 308 < d.adjustedExponent then true
      else doubleOverflow * 10 ^ (-d.exponent).toNat ≤ d.coefficient * 10 ^ d.exponent.toNat

end Decimal
end BlockScript
