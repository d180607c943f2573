import BlockScript.Decimal.Basic
import Mathlib.Algebra.Order.Field.Power
import Mathlib.Data.Rat.Cast.Order
import Mathlib.Tactic.Linarith
import Mathlib.Tactic.NormNum

/-!
# The range of doubles

A decimal that is tested against the range of doubles is first sorted by the power of ten of
its first digit, and only at 308 compared exactly.  `exceedsDouble_finite` says that this comes
to the comparison of two rational numbers.
-/

namespace BlockScript

namespace Text

theorem lt_pow_length_digits (n : Nat) : n < 10 ^ (digits n).length := by
  induction n using Nat.strongRecOn with
  | ind n ih =>
      by_cases h : n < 10
      · rw [digits_of_lt h]
        simpa using h
      · have hle : 10 ≤ n := Nat.not_lt.mp h
        have htenth := ih (n / 10) (by omega)
        rw [digits_of_le hle, List.length_append, List.length_singleton, Nat.pow_succ]
        omega

theorem pow_length_digits_le {n : Nat} (hn : n ≠ 0) : 10 ^ (digits n).length ≤ 10 * n := by
  induction n using Nat.strongRecOn with
  | ind n ih =>
      by_cases h : n < 10
      · rw [digits_of_lt h]
        simp only [List.length_singleton]
        omega
      · have hle : 10 ≤ n := Nat.not_lt.mp h
        have htenth := ih (n / 10) (by omega) (by omega)
        rw [digits_of_le hle, List.length_append, List.length_singleton, Nat.pow_succ]
        omega

end Text

namespace Scaled

/-- The absolute value of a decimal. -/
def absolute (d : Scaled) : ℚ := d.coefficient * 10 ^ d.exponent

/-- A decimal is within the range of doubles: it rounds to a finite one. -/
def IsDouble (d : Scaled) : Prop := d.absolute < Decimal.doubleOverflow

variable {d : Scaled}

theorem absolute_lt (d : Scaled) : d.absolute < 10 ^ (d.adjustedExponent + 1) := by
  have hcoefficient : (d.coefficient : ℚ) < 10 ^ (d.digitCount : ℤ) := by
    rw [zpow_natCast]
    exact_mod_cast Text.lt_pow_length_digits d.coefficient
  have hexponent : d.adjustedExponent + 1 = d.digitCount + d.exponent := by
    unfold adjustedExponent
    omega
  rw [absolute, hexponent, zpow_add₀ (by norm_num)]
  exact mul_lt_mul_of_pos_right hcoefficient (by positivity)

theorem le_absolute (h : d.coefficient ≠ 0) : 10 ^ d.adjustedExponent ≤ d.absolute := by
  have hcoefficient : (10 : ℚ) ^ (d.digitCount : ℤ) ≤ 10 * d.coefficient := by
    rw [zpow_natCast]
    exact_mod_cast Text.pow_length_digits_le h
  have hexponent : d.adjustedExponent = (d.digitCount : ℤ) + d.exponent - 1 := by
    unfold adjustedExponent
    omega
  rw [absolute, hexponent, zpow_sub_one₀ (by norm_num), zpow_add₀ (by norm_num)]
  have hscaled := mul_le_mul_of_nonneg_right hcoefficient
    (show (0 : ℚ) ≤ 10 ^ d.exponent by positivity)
  linarith

/-- The absolute value with the power of ten on the side where it is a whole number. -/
theorem absolute_mul (d : Scaled) :
    d.absolute * 10 ^ (-d.exponent).toNat = d.coefficient * 10 ^ d.exponent.toNat := by
  rw [absolute, mul_assoc, ← zpow_natCast, ← zpow_natCast, ← zpow_add₀ (by norm_num)]
  congr 2
  omega

theorem le_absolute_iff (bound : Nat) :
    (bound : ℚ) ≤ d.absolute ↔
      bound * 10 ^ (-d.exponent).toNat ≤ d.coefficient * 10 ^ d.exponent.toNat := by
  have hpower : (0 : ℚ) < 10 ^ (-d.exponent).toNat := by positivity
  rw [← mul_le_mul_iff_left₀ hpower, absolute_mul]
  exact_mod_cast Iff.rfl

end Scaled

namespace Decimal

theorem pow_lt_doubleOverflow : (10 : ℚ) ^ (308 : ℤ) < doubleOverflow := by
  have h : 10 ^ 308 < doubleOverflow := by decide +kernel
  have hcast : ((10 ^ 308 : ℕ) : ℚ) < doubleOverflow := Nat.cast_lt.mpr h
  rwa [Nat.cast_pow, ← zpow_natCast] at hcast

theorem doubleOverflow_lt_pow : (doubleOverflow : ℚ) < 10 ^ (309 : ℤ) := by
  have h : doubleOverflow < 10 ^ 309 := by decide +kernel
  have hcast : (doubleOverflow : ℚ) < ((10 ^ 309 : ℕ) : ℚ) := Nat.cast_lt.mpr h
  rwa [Nat.cast_pow, ← zpow_natCast] at hcast

/-- A decimal that is no double is what the test says to exceed them. -/
theorem exceedsDouble_finite (d : Scaled) :
    (finite d).exceedsDouble = true ↔ ¬ d.IsDouble := by
  have hlow := pow_lt_doubleOverflow
  have hhigh := doubleOverflow_lt_pow
  rw [Scaled.IsDouble, not_lt]
  unfold exceedsDouble
  dsimp only
  split
  · rename_i hzero
    have hcoefficient : d.coefficient = 0 := by simpa [Scaled.isZero] using hzero
    have habsolute : d.absolute = 0 := by simp [Scaled.absolute, hcoefficient]
    have hpower : (0 : ℚ) < 10 ^ (308 : ℤ) := by positivity
    rw [habsolute]
    simpa only [Bool.false_eq_true, false_iff, not_le] using hpower.trans hlow
  · rename_i hzero
    have hcoefficient : d.coefficient ≠ 0 := by simpa [Scaled.isZero] using hzero
    split
    · rename_i hsmall
      have hpower : (10 : ℚ) ^ (d.adjustedExponent + 1) ≤ 10 ^ (308 : ℤ) :=
        zpow_le_zpow_right₀ (by norm_num) (by omega)
      have habsolute := d.absolute_lt
      simp only [Bool.false_eq_true, false_iff, not_le]
      linarith
    · split
      · rename_i hlarge
        have hpower : (10 : ℚ) ^ (309 : ℤ) ≤ 10 ^ d.adjustedExponent :=
          zpow_le_zpow_right₀ (by norm_num) (by omega)
        have habsolute := Scaled.le_absolute hcoefficient
        simp only [true_iff]
        linarith
      · rw [decide_eq_true_eq, ← Scaled.le_absolute_iff]

end Decimal
end BlockScript
