import BlockScript.Decimal.Double
import BlockScript.Decimal.Text

/-!
# The shortest text of a double

A number of double precision is written with the fewest decimal digits from which rounding
finds it again.  Of two such rows of digits the nearer one is taken, and of two that are
equally near the even one.

The point is placed positionally where the first digit counts at least a ten-thousandth
and less than ten to the sixteenth, and then at least one digit stands behind it.
Otherwise the text is one digit, the rest behind a point, and the power of ten of the
first digit with its sign and at least two digits.
-/

namespace BlockScript
namespace Scaled

/-- The magnitude of a decimal. -/
def magnitude (d : Scaled) : Scaled := { d with negative := false }

/-- The whole number of units of a scale in a magnitude. -/
def wholeUnits (d : Scaled) (e : Int) : Nat :=
  d.coefficient * 10 ^ (d.exponent - e).toNat / 10 ^ (e - d.exponent).toNat

/-- Whether twice a magnitude is above, at or below a number of units of a scale. -/
def compareTwice (d : Scaled) (units : Nat) (e : Int) : Ordering :=
  compare (2 * d.coefficient * 10 ^ (d.exponent - e).toNat) (units * 10 ^ (e - d.exponent).toNat)

/-- Whether rounding a number of units of a scale gives a magnitude. -/
def readsBack (d : Scaled) (units : Nat) (e : Int) : Bool :=
  Decimal.nearestDouble ⟨false, units, e⟩ == .finite d.magnitude

/-- The neighbour of a magnitude at a scale that rounding takes back to it. -/
def neighbour? (d : Scaled) (e : Int) : Option Scaled :=
  let below := d.wholeUnits e
  match d.readsBack below e, d.readsBack (below + 1) e with
  | false, false => none
  | true, false => some ⟨false, below, e⟩
  | false, true => some ⟨false, below + 1, e⟩
  | true, true =>
      match d.compareTwice (2 * below + 1) e with
      | .lt => some ⟨false, below, e⟩
      | .gt => some ⟨false, below + 1, e⟩
      | .eq => some ⟨false, if below % 2 = 0 then below else below + 1, e⟩

/-- The most digits that are needed to find a double again. -/
def sufficientDigits : Nat := 17

/-- The shortest decimal that rounding takes back to a magnitude which is not zero. -/
def shortest (d : Scaled) : Scaled :=
  ((List.range sufficientDigits).findSome? fun (more : Nat) =>
    d.neighbour? (d.adjustedExponent - more)).getD d.magnitude

/-- The digits of a row without the zeros at its end. -/
def significantDigits (ds : List Char) : List Char :=
  (ds.reverse.dropWhile fun c => c = '0').reverse

/-- The power of ten in the text of a double. -/
def doubleExponentText (e : Int) : List Char :=
  let ds := Text.digits e.natAbs
  'e' :: (if e < 0 then '-' else '+') :: (if ds.length < 2 then '0' :: ds else ds)

/-- Digits whose first one counts a power of ten, written as a double. -/
def doubleDigits (ds : List Char) (power : Int) : List Char :=
  if power < -4 ∨ 16 ≤ power then scientificDigits ds ++ doubleExponentText power
  else if power < 0 then '0' :: '.' :: (List.replicate (power.natAbs - 1) '0' ++ ds)
  else
    let whole := power.toNat + 1
    let padded := ds ++ List.replicate (whole + 1 - ds.length) '0'
    padded.take whole ++ '.' :: padded.drop whole

/-- The text of the magnitude of a double. -/
def doubleMagnitudeText (d : Scaled) : List Char :=
  if d.isZero then ['0', '.', '0']
  else
    let short := d.shortest
    doubleDigits (significantDigits (Text.digits short.coefficient)) short.adjustedExponent

end Scaled

namespace Decimal

/-- The text of a double. -/
def doubleText : Decimal → String
  | finite d => signText d.negative ++ String.ofList d.doubleMagnitudeText
  | infinite negative => signText negative ++ "inf"
  | undefined .. => "nan"

end Decimal
end BlockScript
