import BlockScript.Text.DecimalDigit

/-!
# Numerals with some freedom

The text of a number may have blanks around it, underscores among its digits, and the digits
of any script.  This module brings such a text into the form that source text uses.  In a tree
that is read numbers are written with all of this freedom; the numerals that a scan cuts off
have that form already.

An underscore in an integer stands alone between two digits.  Blanks are the characters that
version 14 of the Unicode standard counts as white space, together with the four separators
among the ASCII control characters.
-/

namespace BlockScript
namespace Text

/-- Whether a character is blank in some script. -/
def isSpace (c : Char) : Bool :=
  let n := c.toNat
  (0x09 ≤ n && n ≤ 0x0D) || (0x1C ≤ n && n ≤ 0x20) || n == 0x85 || n == 0xA0 || n == 0x1680
    || (0x2000 ≤ n && n ≤ 0x200A) || n == 0x2028 || n == 0x2029 || n == 0x202F
    || n == 0x205F || n == 0x3000

/-- A text without the characters of a class at its two ends. -/
def trim (isBlank : Char → Bool) (cs : List Char) : List Char :=
  ((cs.dropWhile isBlank).reverse.dropWhile isBlank).reverse

/-- The ASCII digit for a digit of any script; other characters stay. -/
def asciiDigit (c : Char) : Char :=
  match anyDigitValue? c with
  | some d => decimalDigit d
  | none => c

/-- A character of an integer in ASCII, where it has such a form. -/
def asciiForm (c : Char) : Char :=
  if c.toNat < 0x80 then c else if isSpace c then ' ' else asciiDigit c

/-- Whether a character may stand around an integer. -/
def isAsciiSpace (c : Char) : Bool := c == ' ' || (0x09 ≤ c.toNat && c.toNat ≤ 0x0D)

/-- The digits of a row in which underscores may stand alone between two digits; the flag
says whether a digit stands in front of the row. -/
def groupedDigits (behindDigit : Bool) : List Char → Option (List Char)
  | [] => if behindDigit then some [] else none
  | c :: cs =>
      if c = '_' then if behindDigit then groupedDigits false cs else none
      else if isDigit c then (groupedDigits true cs).map (c :: ·)
      else none

/-- Reads an integer with all the freedom there is, no longer than the limit. -/
def readLooseInt? (cs : List Char) : Option Int := do
  let (negative, rest) := splitSign (trim isAsciiSpace (cs.map asciiForm))
  let ds ← groupedDigits false rest
  if ds.length ≤ digitLimit then
    let n : Int := ofDigits ds
    return if negative then -n else n
  else none

/-- The text of a decimal without blanks around it, underscores and foreign digits. -/
def plainDecimal (cs : List Char) : List Char :=
  ((trim isSpace cs).filter fun c => c ≠ '_').map asciiDigit

end Text
end BlockScript
