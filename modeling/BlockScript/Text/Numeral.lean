/-!
# Decimal numerals

Integers are unbounded, yet converting one to text or back is refused when it takes
more than `digitLimit` decimal digits.  This module writes and reads numerals under
that limit.

`ofDigits_digits` says that the digits of a number read back as that number.
-/

namespace BlockScript

-- Powers of numbers are the core library's, also where Mathlib brings powers of its own.
instance (priority := high) natPow : Pow Nat Nat := instPowNat

instance (priority := high) intPow : Pow Int Nat := instPowNat

namespace Text

/-- Longest numeral, in decimal digits, that is converted between number and text. -/
def digitLimit : Nat := 4300

/-- The smallest number with more digits than the limit. -/
def numeralBound : Nat := 10 ^ digitLimit

/-- Whether a character is one of the ten decimal digits. -/
def isDigit (c : Char) : Bool := '0' ≤ c && c ≤ '9'

/-- The value of a decimal digit. -/
def digitValue (c : Char) : Nat := c.toNat - 48

/-- The decimal digit of a value below ten. -/
def decimalDigit (d : Nat) : Char := Char.ofNat (48 + d)

/-- The decimal digits of a number, most significant first, in front of `tail`. -/
def digitsOnto (n : Nat) (tail : List Char) : List Char :=
  if n < 10 then decimalDigit n :: tail
  else digitsOnto (n / 10) (decimalDigit (n % 10) :: tail)
termination_by n

/-- The decimal digits of a number, most significant first. -/
def digits (n : Nat) : List Char := digitsOnto n []

/-- The number that a row of digits continues from `n`. -/
def ofDigitsFrom (n : Nat) (ds : List Char) : Nat :=
  ds.foldl (fun n c => 10 * n + digitValue c) n

/-- The number that a row of decimal digits denotes. -/
def ofDigits (ds : List Char) : Nat := ofDigitsFrom 0 ds

/-- The decimal text of a natural number of any size. -/
def natText (n : Nat) : String := String.ofList (digits n)

/-- The decimal text of an integer of any size. -/
def intTextOfAnySize (n : Int) : String :=
  if n < 0 then "-" ++ natText n.natAbs else natText n.natAbs

/-- The decimal text of an integer, where its digits stay within the limit. -/
def intText? (n : Int) : Option String :=
  if n.natAbs < numeralBound then some (intTextOfAnySize n) else none

/-- Splits an optional sign off the front; the flag says that it is a minus. -/
def splitSign : List Char → Bool × List Char
  | '-' :: cs => (true, cs)
  | '+' :: cs => (false, cs)
  | cs => (false, cs)

/-- Reads an integer: an optional sign and at least one digit, no more than the limit. -/
def readInt? (cs : List Char) : Option Int :=
  let (negative, ds) := splitSign cs
  if ds ≠ [] ∧ ds.all isDigit ∧ ds.length ≤ digitLimit then
    let n : Int := ofDigits ds
    some (if negative then -n else n)
  else none

section Digits

theorem digitValue_decimalDigit {d : Nat} (h : d < 10) :
    digitValue (decimalDigit d) = d := by
  have : ∀ d : Fin 10, digitValue (decimalDigit d.val) = d.val := by decide
  exact this ⟨d, h⟩

theorem isDigit_decimalDigit {d : Nat} (h : d < 10) :
    isDigit (decimalDigit d) = true := by
  have : ∀ d : Fin 10, isDigit (decimalDigit d.val) = true := by decide
  exact this ⟨d, h⟩

theorem digitsOnto_of_lt {n : Nat} (h : n < 10) (tail : List Char) :
    digitsOnto n tail = decimalDigit n :: tail := by
  rw [digitsOnto, if_pos h]

theorem digitsOnto_of_le {n : Nat} (h : 10 ≤ n) (tail : List Char) :
    digitsOnto n tail = digitsOnto (n / 10) (decimalDigit (n % 10) :: tail) := by
  rw [digitsOnto, if_neg (Nat.not_lt.mpr h)]

theorem digitsOnto_eq (n : Nat) (tail : List Char) :
    digitsOnto n tail = digits n ++ tail := by
  induction n using Nat.strongRecOn generalizing tail with
  | ind n ih =>
    by_cases h : n < 10
    · simp [digits, digitsOnto_of_lt h]
    · have hle : 10 ≤ n := Nat.not_lt.mp h
      rw [digits, digitsOnto_of_le hle, digitsOnto_of_le hle,
        ih (n / 10) (by omega) (decimalDigit (n % 10) :: tail),
        ih (n / 10) (by omega) [decimalDigit (n % 10)]]
      simp

/-- The digits of a number below ten. -/
theorem digits_of_lt {n : Nat} (h : n < 10) : digits n = [decimalDigit n] := by
  rw [digits, digitsOnto_of_lt h]

/-- The last digit of a number stands behind the digits of its tenth. -/
theorem digits_of_le {n : Nat} (h : 10 ≤ n) :
    digits n = digits (n / 10) ++ [decimalDigit (n % 10)] := by
  rw [digits, digitsOnto_of_le h, digitsOnto_eq]

theorem ofDigits_append_singleton (ds : List Char) (c : Char) :
    ofDigits (ds ++ [c]) = 10 * ofDigits ds + digitValue c := by
  simp [ofDigits, ofDigitsFrom]

/-- The digits of a number denote that number. -/
theorem ofDigits_digits (n : Nat) : ofDigits (digits n) = n := by
  induction n using Nat.strongRecOn with
  | ind n ih =>
    by_cases h : n < 10
    · rw [digits_of_lt h]
      simp [ofDigits, ofDigitsFrom, digitValue_decimalDigit h]
    · have hle : 10 ≤ n := Nat.not_lt.mp h
      rw [digits_of_le hle, ofDigits_append_singleton, ih (n / 10) (by omega),
        digitValue_decimalDigit (Nat.mod_lt n (by omega))]
      omega

theorem digits_ne_nil (n : Nat) : digits n ≠ [] := by
  by_cases h : n < 10
  · simp [digits_of_lt h]
  · simp [digits_of_le (Nat.not_lt.mp h)]

theorem all_isDigit_digits (n : Nat) : (digits n).all isDigit = true := by
  induction n using Nat.strongRecOn with
  | ind n ih =>
    by_cases h : n < 10
    · simp [digits_of_lt h, isDigit_decimalDigit h]
    · have hle : 10 ≤ n := Nat.not_lt.mp h
      simp only [digits_of_le hle, List.all_append, ih (n / 10) (by omega), Bool.true_and,
        List.all_cons, List.all_nil, Bool.and_true]
      exact isDigit_decimalDigit (Nat.mod_lt n (by omega))

end Digits

end Text
end BlockScript
