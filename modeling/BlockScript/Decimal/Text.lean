import BlockScript.Decimal.Basic
import BlockScript.Text.LooseNumeral

/-!
# The text of decimals

A decimal is written with all its digits.  The point is placed positionally when the
exponent is not positive and the first digit counts at least a millionth; otherwise the
text is one digit, the rest behind a point, and the power of ten of the first digit.

Reading accepts any row of digits with an optional point and an optional power of ten,
and the names of the special numbers in any case.  A number beyond the range of exponents
is none.
-/

namespace BlockScript
namespace Scaled

/-- The least power of ten of the first digit that is still written positionally. -/
def leastPositional : Int := -6

/-- The power of ten behind the digits, always with its sign. -/
def exponentText (e : Int) : List Char :=
  'E' :: (if e < 0 then '-' else '+') :: Text.digits e.natAbs

/-- Digits with the point set so that `fraction` of them stand behind it. -/
def positionalText (ds : List Char) (fraction : Nat) : List Char :=
  if fraction = 0 then ds
  else if fraction < ds.length then
    ds.take (ds.length - fraction) ++ '.' :: ds.drop (ds.length - fraction)
  else '0' :: '.' :: (List.replicate (fraction - ds.length) '0' ++ ds)

/-- Digits with the point behind the first one. -/
def scientificDigits : List Char → List Char
  | [] => []
  | [d] => [d]
  | d :: ds => d :: '.' :: ds

/-- The text without its sign. -/
def magnitudeText (d : Scaled) : List Char :=
  let ds := Text.digits d.coefficient
  if d.exponent ≤ 0 ∧ leastPositional ≤ d.adjustedExponent then
    positionalText ds d.exponent.natAbs
  else scientificDigits ds ++ exponentText d.adjustedExponent

/-- The text of a finite decimal. -/
def toChars (d : Scaled) : List Char :=
  if d.negative then '-' :: d.magnitudeText else d.magnitudeText

end Scaled

namespace Decimal

/-- The minus of a negative special number. -/
def signText (negative : Bool) : String := if negative then "-" else ""

/-- The name of an undefined number. -/
def undefinedName (signals : Bool) : String := if signals then "sNaN" else "NaN"

/-- The digits that an undefined number carries. -/
def payloadText (payload : Nat) : String := if payload = 0 then "" else Text.natText payload

/-- The text of a decimal. -/
def toText : Decimal → String
  | finite d => String.ofList d.toChars
  | infinite negative => signText negative ++ "Infinity"
  | undefined negative signals payload =>
      signText negative ++ undefinedName signals ++ payloadText payload

/-- Reads the power of ten that may follow the digits: nothing, or a letter, an optional
sign and digits. -/
def readExponent? : List Char → Option Int
  | [] => some 0
  | c :: cs =>
      let (negative, ds) := Text.splitSign cs
      if (c = 'e' ∨ c = 'E') ∧ ds ≠ [] ∧ ds.all Text.isDigit then
        let n : Int := Text.ofDigits ds
        some (if negative then -n else n)
      else none

/-- Splits the digits behind an optional point off the front. -/
def splitFraction : List Char → List Char × List Char
  | '.' :: cs => (cs.takeWhile Text.isDigit, cs.dropWhile Text.isDigit)
  | cs => ([], cs)

/-- Reads the digits of a finite decimal of the given sign. -/
def readFinite? (negative : Bool) (cs : List Char) : Option Scaled :=
  let whole := cs.takeWhile Text.isDigit
  let (fraction, afterFraction) := splitFraction (cs.dropWhile Text.isDigit)
  if whole = [] ∧ fraction = [] then none
  else (readExponent? afterFraction).map fun e =>
    { negative := negative
      coefficient := Text.ofDigits (whole ++ fraction)
      exponent := e - fraction.length }

/-- The lower-case form of an ASCII letter. -/
def lowerAscii (c : Char) : Char :=
  if 'A' ≤ c ∧ c ≤ 'Z' then Char.ofNat (c.toNat + 32) else c

/-- Reads the digits behind the name of an undefined number. -/
def readPayload? (negative signals : Bool) (ds : List Char) : Option Decimal :=
  if ds.all Text.isDigit then some (undefined negative signals (Text.ofDigits ds)) else none

/-- Reads a special number from its name in lower case. -/
def readSpecial? (negative : Bool) : List Char → Option Decimal
  | 'i' :: 'n' :: 'f' :: rest =>
      if rest = [] ∨ rest = "inity".toList then some (infinite negative) else none
  | 'n' :: 'a' :: 'n' :: ds => readPayload? negative false ds
  | 's' :: 'n' :: 'a' :: 'n' :: ds => readPayload? negative true ds
  | _ => none

/-- A finite decimal whose exponent is in range. -/
def finiteInRange? (d : Scaled) : Option Decimal := if d.isInRange then some (finite d) else none

/-- Reads a decimal. -/
def ofChars? (cs : List Char) : Option Decimal :=
  let (negative, rest) := Text.splitSign cs
  match readSpecial? negative (rest.map lowerAscii) with
  | some d => some d
  | none => (readFinite? negative rest).bind finiteInRange?

/-- Reads a decimal from its text, with all the freedom there is. -/
def ofText? (s : String) : Option Decimal := ofChars? (Text.plainDecimal s.toList)

end Decimal
end BlockScript
