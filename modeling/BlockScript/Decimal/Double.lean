import BlockScript.Decimal.Arithmetic

/-!
# Numbers of double precision

Some numbers come through binary double precision: 53 binary digits, and exponents of two
from -1074 up to 971.  Each of these numbers is a decimal fraction, so it is kept as the
decimal that it exactly is, at the coarsest scale that shows all its digits behind the
point.

`nearestDouble` rounds a decimal to the nearest of them, a tie going to the even binary
digit.  A decimal above all of them becomes an infinity, and one that is too small a zero.
-/

namespace BlockScript
namespace Scaled

/-- Number of binary digits of a double. -/
def binaryPrecision : Int := 53

/-- The exponent of the finest binary place of doubles. -/
def finestPlace : Int := -1074

/-- The numerator of a magnitude as a fraction. -/
def numerator (d : Scaled) : Nat := d.coefficient * 10 ^ d.exponent.toNat

/-- The denominator of a magnitude as a fraction. -/
def denominator (d : Scaled) : Nat := 10 ^ (-d.exponent).toNat

/-- The greatest power of two that is not above a fraction which is not zero. -/
def binaryMagnitude (n d : Nat) : Int :=
  let estimate : Int := (Nat.log2 n : Int) - Nat.log2 d
  if d * 2 ^ estimate.toNat ≤ n * 2 ^ (-estimate).toNat then estimate else estimate - 1

/-- The exponent of the last binary place that a double has beside a fraction. -/
def lastPlace (n d : Nat) : Int := max finestPlace (binaryMagnitude n d + 1 - binaryPrecision)

/-- A fraction counted in units of a binary place, rounded to the nearest, a tie going to the
even number. -/
def binaryUnits (n d : Nat) (place : Int) : Nat :=
  roundedQuotient (n * 2 ^ (-place).toNat) (d * 2 ^ place.toNat)

/-- A number of units of a binary place as a decimal. -/
def ofBinary (negative : Bool) (units : Nat) (place : Int) : Scaled :=
  let scale := 2 ^ (-place).toNat
  let common := Nat.gcd units scale
  let fractionDigits := Nat.log2 (scale / common)
  { negative := negative
    coefficient := units / common * 2 ^ place.toNat * 5 ^ fractionDigits
    exponent := -fractionDigits }

end Scaled

namespace Decimal

/-- The powers of ten of the first digit between which a decimal is neither an infinity nor
a zero at once. -/
def doublePowers : Int × Int := (-400, 310)

/-- The nearest double of a finite decimal. -/
def nearestDouble (d : Scaled) : Decimal :=
  if d.isZero ∨ d.adjustedExponent < doublePowers.1 then .finite ⟨d.negative, 0, 0⟩
  else if doublePowers.2 < d.adjustedExponent then .infinite d.negative
  else
    let n := d.numerator
    let m := d.denominator
    let place := Scaled.lastPlace n m
    let units := Scaled.binaryUnits n m place
    if 2 ^ (1024 : Nat) ≤ units * 2 ^ place.toNat then .infinite d.negative
    else .finite (Scaled.ofBinary d.negative units place)

end Decimal
end BlockScript
