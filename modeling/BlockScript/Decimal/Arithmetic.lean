import BlockScript.Decimal.Basic

/-!
# Decimal arithmetic

Sums, differences and products are exact: a sum has the finer scale of its operands
and a product the sum of their exponents.  A quotient keeps the scale of the dividend
and is rounded to the nearest multiple of it, a tie going to the even coefficient.

A zero sum is negative only when both operands are negative zeros, and a zero quotient
is never negative.

Sums, differences and products stay within a range of exponents that is narrower than
that of decimals as such: a result above it is refused, and one below it is rounded to
the finest scale there.
-/

namespace BlockScript
namespace Scaled

/-- The exact sum, at the finer scale. -/
def add (a b : Scaled) : Scaled :=
  let e := commonExponent a b
  let sum := a.unitsAt e + b.unitsAt e
  { negative := if sum = 0 then a.negative && b.negative else decide (sum < 0)
    coefficient := sum.natAbs
    exponent := e }

/-- The exact difference, at the finer scale. -/
def sub (a b : Scaled) : Scaled := a.add b.negate

/-- The exact product. -/
def mul (a b : Scaled) : Scaled :=
  { negative := a.negative != b.negative
    coefficient := a.coefficient * b.coefficient
    exponent := a.exponent + b.exponent }

/-- The quotient of two naturals rounded to the nearest one, a tie going to the even. -/
def roundedQuotient (numerator denominator : Nat) : Nat :=
  let quotient := numerator / denominator
  let remainder := numerator % denominator
  if denominator < 2 * remainder ∨ (2 * remainder = denominator ∧ quotient % 2 = 1) then
    quotient + 1
  else quotient

/-- The coefficient of the quotient at the scale of the dividend. -/
def quotientCoefficient (a b : Scaled) : Nat :=
  roundedQuotient (a.coefficient * 10 ^ (-b.exponent).toNat)
    (b.coefficient * 10 ^ b.exponent.toNat)

/-- The rounded quotient at the scale of the dividend, for a divisor that is not zero. -/
def divide (a b : Scaled) : Scaled :=
  let quotient := quotientCoefficient a b
  { negative := (a.negative != b.negative) && quotient != 0
    coefficient := quotient
    exponent := a.exponent }

/-- A number of digits that always suffices for the exact sum, difference and product. -/
def exactPrecision (a b : Scaled) : Nat :=
  a.digitCount + b.digitCount + (a.exponent - b.exponent).natAbs + 2

/-- The greatest number of digits that a result can be computed with. -/
def greatestPrecision : Nat := 999999999999999999

/-- The greatest power of ten that the first digit of a result may count. -/
def greatestResult : Int := 999999

/-- The finest scale of a result that is computed with a number of digits. -/
def finestResult (precision : Nat) : Int := 1 - greatestResult - precision

/-- The decimal at a coarser scale, rounded to the nearest, a tie going to the even
coefficient. -/
def coarsened (d : Scaled) (e : Int) : Scaled :=
  let shift := (e - d.exponent).toNat
  { d with
    coefficient := if d.digitCount < shift then 0 else roundedQuotient d.coefficient (10 ^ shift)
    exponent := e }

/-- A result brought into the range of results; there is none where it is above. -/
def settled (precision : Nat) (d : Scaled) : Option Scaled :=
  if d.isZero then
    some { d with exponent := max (finestResult precision) (min d.exponent greatestResult) }
  else if greatestResult < d.adjustedExponent then none
  else if d.exponent < finestResult precision then some (d.coarsened (finestResult precision))
  else some d

/-- The greatest distance of two scales at which a sum can be written out.  It stands for the
memory that there is for digits, and is far beyond the range of results.  The powers of ten in a
quotient are taken to fit. -/
def greatestDistance : Nat := 10 ^ (11 : Nat)

/-- Whether a sum has more digits than can be written out.  A zero at the coarser scale
adds none. -/
def isOutOfReach (a b : Scaled) : Bool :=
  (a.exponent - b.exponent).natAbs > greatestDistance
    && !(if a.exponent < b.exponent then b.isZero else a.isZero)

/-- Whether a decimal is so far above the range of results, and above another one, that
adding or subtracting that one cannot bring it back. -/
def outweighs (a b : Scaled) : Bool :=
  !a.isZero && decide (greatestResult + 1 < a.adjustedExponent)
    && decide (b.adjustedExponent + 1 < a.adjustedExponent)

end Scaled

/-- Why an operation on decimals has no result. -/
inductive DecimalFault
  /-- A coefficient has more digits than are converted, or none at all. -/
  | numeral
  /-- The operation is not made for an infinite or undefined operand. -/
  | special
  /-- The divisor is zero. -/
  | zeroDivisor
  /-- The result is no number. -/
  | noResult
  /-- The result is above the range of results. -/
  | overflow
  /-- The exact result may need more digits than can be computed with. -/
  | precision
  /-- The exact result has more digits than can be written out. -/
  | outOfReach
deriving DecidableEq, Inhabited

namespace Decimal

/-- An exact operation, defined on finite operands alone. -/
def exact (operation : Scaled → Scaled → Except DecimalFault Scaled) :
    Decimal → Decimal → Except DecimalFault Decimal
  | finite a, finite b => do
      if Scaled.greatestPrecision < a.exactPrecision b then .error .precision
      else
        match (← operation a b).settled (a.exactPrecision b) with
        | some d => .ok (.finite d)
        | none => .error .overflow
  | _, _ => .error .special

/-- An operation that brings its operands to a common scale. -/
def aligned (operation : Scaled → Scaled → Scaled) (a b : Scaled) :
    Except DecimalFault Scaled :=
  if a.isOutOfReach b then .error .outOfReach
  else if a.outweighs b || b.outweighs a then .error .overflow
  else .ok (operation a b)

/-- The exact sum. -/
def add : Decimal → Decimal → Except DecimalFault Decimal := exact (aligned Scaled.add)

/-- The exact difference. -/
def sub : Decimal → Decimal → Except DecimalFault Decimal := exact (aligned Scaled.sub)

/-- The exact product. -/
def mul : Decimal → Decimal → Except DecimalFault Decimal :=
  exact fun a b => .ok (a.mul b)

/-- The digits that an exact operation on two operands needs. -/
def exactPrecision : Decimal → Decimal → Except DecimalFault Nat
  | finite a, finite b => .ok (a.exactPrecision b)
  | _, _ => .error .special

/-- A number whose digits are converted. -/
def convertible (n : Nat) : Except DecimalFault Nat :=
  if n < Text.numeralBound then .ok n else .error .numeral

/-- The coefficient that division takes from an operand: zero from an infinity, and from an
undefined number the digits that it carries, of which there must be some. -/
def divisionCoefficient : Decimal → Except DecimalFault Nat
  | finite d => convertible d.coefficient
  | infinite _ => .ok 0
  | undefined _ _ payload => if payload = 0 then .error .numeral else convertible payload

/-- The rounded quotient at the scale of the dividend. -/
def divide (a b : Decimal) : Except DecimalFault Decimal := do
  let n ← a.divisionCoefficient
  let _ ← b.divisionCoefficient
  match b with
  | finite d =>
      if d.isZero then .error .zeroDivisor
      else
        let _ ← convertible (Scaled.quotientCoefficient ⟨false, n, 0⟩ d)
        match a with
        | finite dividend =>
            let quotient := dividend.divide d
            if quotient.isInRange then .ok (.finite quotient) else .error .noResult
        | _ => .error .noResult
  | _ => .error .special

end Decimal
end BlockScript
