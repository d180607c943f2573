import BlockScript.Decimal.Arithmetic
import Mathlib.Algebra.Order.Field.Power
import Mathlib.Algebra.Order.Round
import Mathlib.Data.Rat.Cast.Order
import Mathlib.Tactic.FieldSimp
import Mathlib.Tactic.Linarith
import Mathlib.Tactic.NormNum
import Mathlib.Tactic.Ring

/-!
# Division of decimals

A quotient is the multiple of its last place, which is that of the dividend, that lies nearest
to the quotient of the two numbers; halfway between two multiples it is the one with the even
coefficient.  It is computed on naturals, from a fraction whose numerator and denominator take
up the power of ten of the divisor, and the sign is put on at the end.
-/

namespace BlockScript

namespace Scaled

/-- The number that a decimal is. -/
def value (d : Scaled) : ℚ := d.signedCoefficient * 10 ^ d.exponent

/-- A decimal is the multiple of its last place that is nearest to a number, and the one with
the even coefficient if another multiple is as near. -/
structure IsNearest (d : Scaled) (x : ℚ) : Prop where
  nearest : ∀ n : ℤ, |d.value - x| ≤ |n * 10 ^ d.exponent - x|
  even : ∀ n : ℤ, n * 10 ^ d.exponent ≠ d.value →
    |n * 10 ^ d.exponent - x| = |d.value - x| → Even d.coefficient

section Rounding

variable {numerator denominator : Nat}

/-- A rounded quotient is at most half a unit away, and even where it is just that. -/
theorem roundedQuotient_bounds (h : 0 < denominator) {q : Nat}
    (hq : roundedQuotient numerator denominator = q) :
    2 * (denominator * q) ≤ 2 * numerator + denominator ∧
      2 * numerator ≤ 2 * (denominator * q) + denominator ∧
      (2 * (denominator * q) = 2 * numerator + denominator ∨
        2 * numerator = 2 * (denominator * q) + denominator → Even q) := by
  have hsplit := Nat.div_add_mod numerator denominator
  have hlt := Nat.mod_lt numerator h
  unfold roundedQuotient at hq
  dsimp only at hq
  split at hq
  · rename_i hup
    subst hq
    rw [Nat.mul_succ, Nat.even_iff]
    omega
  · rename_i hdown
    subst hq
    rw [Nat.even_iff]
    omega

/-- The distance of a natural from a fraction, in units of the denominator. -/
theorem abs_sub_fraction (h : 0 < denominator) (q : Nat) :
    |(q : ℚ) - numerator / denominator| = |(denominator : ℚ) * q - numerator| / denominator := by
  have hpos : (0 : ℚ) < denominator := by exact_mod_cast h
  have hunits : (q : ℚ) - numerator / denominator =
      ((denominator : ℚ) * q - numerator) / denominator := by
    field_simp
  rw [hunits, abs_div, abs_of_pos hpos]

theorem roundedQuotient_half (numerator : Nat) (h : 0 < denominator) :
    |(roundedQuotient numerator denominator : ℚ) - numerator / denominator| ≤ 1 / 2 ∧
      (|(roundedQuotient numerator denominator : ℚ) - numerator / denominator| = 1 / 2 →
        Even (roundedQuotient numerator denominator)) := by
  obtain ⟨q, hq⟩ : ∃ q, roundedQuotient numerator denominator = q := ⟨_, rfl⟩
  obtain ⟨hup, hdown, heven⟩ := roundedQuotient_bounds h hq
  have hpos : (0 : ℚ) < denominator := by exact_mod_cast h
  have hup' : 2 * ((denominator : ℚ) * q) ≤ 2 * numerator + denominator := by exact_mod_cast hup
  have hdown' : 2 * (numerator : ℚ) ≤ 2 * (denominator * q) + denominator := by
    exact_mod_cast hdown
  rw [hq, abs_sub_fraction h, div_le_iff₀ hpos, div_eq_iff hpos.ne', abs_le]
  refine ⟨⟨by linarith, by linarith⟩, fun htie => heven ?_⟩
  rcases abs_choice ((denominator : ℚ) * q - numerator) with hsign | hsign
  · have heq : 2 * ((denominator : ℚ) * q) = 2 * numerator + denominator := by linarith
    exact Or.inl (by exact_mod_cast heq)
  · have heq : 2 * (numerator : ℚ) = 2 * (denominator * q) + denominator := by linarith
    exact Or.inr (by exact_mod_cast heq)

/-- An integer that is at most half a unit away is the nearest one, and no other one is as
near unless it is just half a unit away. -/
theorem near_of_half {q x : ℚ} {k m : ℤ} (hk : (k : ℚ) = q) (h : |q - x| ≤ 1 / 2) :
    |q - x| ≤ |m - x| ∧ (m ≠ k → |m - x| = |q - x| → |q - x| = 1 / 2) := by
  by_cases hm : m = k
  · subst hm
    rw [hk]
    exact ⟨le_refl _, fun hne => absurd rfl hne⟩
  · have hapart : (1 : ℚ) ≤ |m - q| := by
      rw [← hk]
      exact_mod_cast Int.one_le_abs (sub_ne_zero.mpr hm)
    have htriangle : |(m : ℚ) - q| ≤ |m - x| + |q - x| := by
      rw [abs_sub_comm q x]
      exact abs_sub_le _ _ _
    exact ⟨by linarith, fun _ heq => by linarith⟩

end Rounding

section Division

variable {a b : Scaled}

/-- The sign of a decimal as a factor. -/
def unit (negative : Bool) : ℚ := if negative then -1 else 1

theorem abs_unit (negative : Bool) : |unit negative| = 1 := by
  cases negative <;> simp [unit]

theorem value_eq (d : Scaled) : d.value = unit d.negative * (d.coefficient * 10 ^ d.exponent) := by
  unfold value signedCoefficient unit
  split <;> push_cast <;> ring

/-- The exact quotient in units of the last place of the dividend. -/
theorem quotient_eq (hb : b.coefficient ≠ 0) : a.value / b.value =
    unit (a.negative != b.negative) *
      (((a.coefficient * 10 ^ (-b.exponent).toNat : ℕ) : ℚ) /
        (b.coefficient * 10 ^ b.exponent.toNat : ℕ) * 10 ^ a.exponent) := by
  have hsign : unit (a.negative != b.negative) = unit a.negative / unit b.negative := by
    cases a.negative <;> cases b.negative <;> norm_num [unit]
  have hpower : (10 : ℚ) ^ (-b.exponent).toNat / 10 ^ b.exponent.toNat = (10 ^ b.exponent)⁻¹ := by
    rw [← zpow_natCast, ← zpow_natCast, ← zpow_sub₀ (by norm_num), ← zpow_neg]
    congr 1
    omega
  have hcoefficient : (b.coefficient : ℚ) ≠ 0 := by exact_mod_cast hb
  calc a.value / b.value
      = unit a.negative / unit b.negative *
          (a.coefficient / b.coefficient * (10 ^ b.exponent)⁻¹ * 10 ^ a.exponent) := by
        rw [value_eq, value_eq, mul_div_mul_comm, mul_div_mul_comm]
        ring
    _ = _ := by
        rw [hsign, ← hpower]
        push_cast
        ring

theorem value_divide : (a.divide b).value =
    unit (a.negative != b.negative) * (quotientCoefficient a b * 10 ^ a.exponent) := by
  rw [value_eq]
  unfold divide
  by_cases hzero : quotientCoefficient a b = 0
  · simp [hzero]
  · have hsigned : (quotientCoefficient a b != 0) = true := by simpa using hzero
    simp only [hsigned, Bool.and_true]

/-- The distance from the exact quotient, in units of the last place. -/
theorem distance_eq {q y : ℚ} (negative : Bool) (e : Int) :
    |unit negative * (q * 10 ^ e) - unit negative * (y * 10 ^ e)| = |q - y| * 10 ^ e := by
  rw [← mul_sub, ← sub_mul, abs_mul, abs_unit, one_mul, abs_mul,
    abs_of_pos (show (0 : ℚ) < 10 ^ e by positivity)]

/-- A multiple of the last place, with the sign that a quotient has. -/
theorem exists_signed (negative : Bool) (n : ℤ) :
    ∃ m : ℤ, ∀ e : ℤ, (n : ℚ) * 10 ^ e = unit negative * (m * 10 ^ e) := by
  cases negative with
  | false => exact ⟨n, fun e => by simp [unit]⟩
  | true => exact ⟨-n, fun e => by simp [unit]⟩

theorem isNearest_divide (hb : b.isZero = false) :
    (a.divide b).IsNearest (a.value / b.value) := by
  have hcoefficient : b.coefficient ≠ 0 := by simpa [isZero] using hb
  have hpositive : 0 < b.coefficient * 10 ^ b.exponent.toNat :=
    Nat.mul_pos (Nat.pos_of_ne_zero hcoefficient) (Nat.pow_pos (by decide))
  obtain ⟨hhalf, htie⟩ := roundedQuotient_half
    (a.coefficient * 10 ^ (-b.exponent).toNat) hpositive
  have hnear := fun m : ℤ => near_of_half (m := m) (Int.cast_natCast _) hhalf
  have hexponent : (a.divide b).exponent = a.exponent := rfl
  refine ⟨?_, ?_⟩
  · intro n
    obtain ⟨m, hm⟩ := exists_signed (a.negative != b.negative) n
    rw [hexponent, value_divide, quotient_eq hcoefficient, hm, distance_eq, distance_eq]
    exact mul_le_mul_of_nonneg_right (hnear m).1 (by positivity)
  · intro n hne heq
    obtain ⟨m, hm⟩ := exists_signed (a.negative != b.negative) n
    rw [hexponent, value_divide, hm] at hne
    rw [hexponent, value_divide, quotient_eq hcoefficient, hm, distance_eq, distance_eq] at heq
    have hpower : (10 : ℚ) ^ a.exponent ≠ 0 := by positivity
    refine htie ((hnear m).2 ?_ (mul_right_cancel₀ hpower heq))
    rintro rfl
    exact hne (by simp [quotientCoefficient])

end Division

end Scaled

namespace Decimal

open Scaled

theorem convertible_of_lt {n : Nat} (h : n < Text.numeralBound) : convertible n = .ok n :=
  if_pos h

theorem convertible_of_le {n : Nat} (h : Text.numeralBound ≤ n) : convertible n = .error .numeral :=
  if_neg (Nat.not_lt.mpr h)

variable {a b : Scaled}

/-- What the division of finite decimals comes to, conversion by conversion. -/
theorem divide_steps (hb : b.isZero = false) :
    divide (.finite a) (.finite b) = (do
      let _ ← convertible a.coefficient
      let _ ← convertible b.coefficient
      let _ ← convertible (a.divide b).coefficient
      if (a.divide b).isInRange then .ok (.finite (a.divide b)) else .error .noResult) := by
  have hquotient : quotientCoefficient ⟨false, a.coefficient, 0⟩ b = (a.divide b).coefficient := rfl
  unfold divide divisionCoefficient
  by_cases ha : a.coefficient < Text.numeralBound
  · simp only [convertible_of_lt ha, hb, hquotient, bind, Except.bind, Bool.false_eq_true, if_false]
  · simp only [convertible_of_le (Nat.not_lt.mp ha), bind, Except.bind]

/-- Numerals that are short enough are read and written as they are. -/
theorem divide_of_short (hb : b.isZero = false)
    (h : ∀ n ∈ [a.coefficient, b.coefficient, (a.divide b).coefficient], n < Text.numeralBound) :
    divide (.finite a) (.finite b) =
      if (a.divide b).isInRange then .ok (.finite (a.divide b)) else .error .noResult := by
  rw [divide_steps hb, convertible_of_lt (h _ (by simp)), convertible_of_lt (h _ (by simp)),
    convertible_of_lt (h _ (by simp))]
  rfl

theorem divide_of_long (hb : b.isZero = false)
    (h : ∃ n ∈ [a.coefficient, b.coefficient, (a.divide b).coefficient], Text.numeralBound ≤ n) :
    divide (.finite a) (.finite b) = .error .numeral := by
  rw [divide_steps hb]
  by_cases ha : a.coefficient < Text.numeralBound
  · by_cases hb' : b.coefficient < Text.numeralBound
    · have hq : Text.numeralBound ≤ (a.divide b).coefficient := by
        obtain ⟨n, hn, hlong⟩ := h
        simp only [List.mem_cons, List.not_mem_nil, or_false] at hn
        rcases hn with rfl | rfl | rfl <;> omega
      rw [convertible_of_lt ha, convertible_of_lt hb', convertible_of_le hq]
      rfl
    · rw [convertible_of_lt ha, convertible_of_le (Nat.not_lt.mp hb')]
      rfl
  · rw [convertible_of_le (Nat.not_lt.mp ha)]
    rfl

/-- **Division is correctly rounded at the scale of the dividend.** The quotient by a decimal
that is not zero has the exponent of the dividend, and is the multiple of its last place that is
nearest to the exact quotient, the even one on a tie.  It is negative exactly when the signs
differ and it is not zero.  The operation gives this quotient, or none if the quotient is out of
the range of decimals, as long as its numerals are short enough to be read and written. -/
theorem division_is_correctly_rounded (a b : Scaled) (hb : b.isZero = false) :
    ((a.divide b).exponent = a.exponent ∧ (a.divide b).IsNearest (a.value / b.value) ∧
      ((a.divide b).negative = true ↔
        a.negative ≠ b.negative ∧ (a.divide b).coefficient ≠ 0)) ∧
    ((∀ n ∈ [a.coefficient, b.coefficient, (a.divide b).coefficient], n < Text.numeralBound) →
      divide (.finite a) (.finite b) =
        if (a.divide b).isInRange then .ok (.finite (a.divide b)) else .error .noResult) ∧
    ((∃ n ∈ [a.coefficient, b.coefficient, (a.divide b).coefficient], Text.numeralBound ≤ n) →
      divide (.finite a) (.finite b) = .error .numeral) :=
  ⟨⟨rfl, isNearest_divide hb, by simp [Scaled.divide]⟩, divide_of_short hb, divide_of_long hb⟩

/-- Three halves lie between two wholes, and minus two is the even one. -/
theorem divide_minus_three_by_two :
    divide (.finite ⟨true, 3, 0⟩) (.finite ⟨false, 2, 0⟩) = .ok (.finite ⟨true, 2, 0⟩) ∧
      (⟨true, 2, 0⟩ : Scaled).IsNearest (-3 / 2) := by
  obtain ⟨⟨-, hnearest, -⟩, hshort, -⟩ :=
    division_is_correctly_rounded ⟨true, 3, 0⟩ ⟨false, 2, 0⟩ rfl
  have hquotient : (⟨true, 3, 0⟩ : Scaled).divide ⟨false, 2, 0⟩ = ⟨true, 2, 0⟩ := by decide
  have hexact : (⟨true, 3, 0⟩ : Scaled).value / (⟨false, 2, 0⟩ : Scaled).value = -3 / 2 := by
    norm_num [value, signedCoefficient]
  have hrange : (⟨true, 2, 0⟩ : Scaled).isInRange = true := by decide +kernel
  rw [hquotient] at hnearest hshort
  rw [if_pos hrange] at hshort
  exact ⟨hshort (by decide +kernel), hexact ▸ hnearest⟩

/-- The greatest power of ten has no quotient by a small number: its first digit would count more
than that of any decimal. -/
theorem quotient_above_range :
    (⟨false, 1, 999999999999999999⟩ : Scaled).isInRange = true ∧
      (⟨false, 1, -5⟩ : Scaled).isInRange = true ∧ (⟨false, 1, -5⟩ : Scaled).isZero = false ∧
      divide (.finite ⟨false, 1, 999999999999999999⟩) (.finite ⟨false, 1, -5⟩) =
        .error .noResult := by
  decide +kernel

end Decimal
end BlockScript
