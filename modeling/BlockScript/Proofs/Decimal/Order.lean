import BlockScript.Proofs.Decimal.Precision
import Mathlib.Data.Prod.Lex
import Mathlib.Order.Compare

/-!
# The order of decimals

Two decimals are compared by their signs first, then by the powers of ten that their first
digits count, and only where these are the same by their coefficients at a common scale.
`Scaled.order_eq` says that this comes to the comparison of the two rational numbers, so that
neither the scale of a decimal nor the sign of a zero matters.

An infinity stands beyond all finite decimals, and an undefined number has no place among them.
-/

namespace BlockScript

/-- A strictly increasing map keeps the order of two elements. -/
theorem compare_map {α β : Type} [LinearOrder α] [LinearOrder β] {f : α → β} (hf : StrictMono f)
    (a b : α) : compare (f a) (f b) = compare a b := by
  rw [← cmp_eq_compare, ← cmp_eq_compare, hf.cmp_map_eq]

namespace Scaled

variable {a b d : Scaled}

section Magnitudes

theorem absolute_pos (h : d.coefficient ≠ 0) : 0 < d.absolute := by
  have hcoefficient : (0 : ℚ) < d.coefficient := by exact_mod_cast Nat.pos_of_ne_zero h
  unfold absolute
  positivity

/-- A decimal whose first digit counts a smaller power of ten is smaller. -/
theorem absolute_lt_of_adjustedExponent_lt (hb : b.coefficient ≠ 0)
    (h : a.adjustedExponent < b.adjustedExponent) : a.absolute < b.absolute :=
  calc a.absolute
      < 10 ^ (a.adjustedExponent + 1) := a.absolute_lt
    _ ≤ 10 ^ b.adjustedExponent := zpow_le_zpow_right₀ (by norm_num) (by omega)
    _ ≤ b.absolute := le_absolute hb

/-- The absolute value counted in units of a finer scale. -/
theorem absolute_eq {e : Int} (h : e ≤ d.exponent) :
    d.absolute = (d.coefficient * 10 ^ (d.exponent - e).toNat : ℕ) * 10 ^ e := by
  unfold absolute
  push_cast
  rw [mul_assoc, ← zpow_natCast, ← zpow_add₀ (by norm_num)]
  congr 2
  omega

theorem compare_units (m n : Nat) (e : Int) :
    compare ((m : ℚ) * 10 ^ e) (n * 10 ^ e) = compare m n := by
  have hpower : (0 : ℚ) < 10 ^ e := by positivity
  have hmono : StrictMono fun k : Nat => (k : ℚ) * 10 ^ e :=
    fun m n h => mul_lt_mul_of_pos_right (Nat.cast_lt.mpr h) hpower
  exact compare_map hmono m n

theorem orderOfMagnitudes_eq (ha : a.coefficient ≠ 0) (hb : b.coefficient ≠ 0) :
    a.orderOfMagnitudes b = compare a.absolute b.absolute := by
  unfold orderOfMagnitudes
  rcases lt_trichotomy a.adjustedExponent b.adjustedExponent with h | h | h
  · rw [compare_lt_iff_lt.mpr h, Ordering.lt_then,
      compare_lt_iff_lt.mpr (absolute_lt_of_adjustedExponent_lt hb h)]
  · have hleft : commonExponent a b ≤ a.exponent := Int.min_le_left _ _
    have hright : commonExponent a b ≤ b.exponent := Int.min_le_right _ _
    rw [compare_eq_iff_eq.mpr h, Ordering.eq_then, absolute_eq hleft, absolute_eq hright,
      compare_units]
  · rw [compare_gt_iff_gt.mpr h, Ordering.gt_then,
      compare_gt_iff_gt.mpr (absolute_lt_of_adjustedExponent_lt ha h)]

end Magnitudes

section Signs

/-- What the sign of a decimal says of its value. -/
theorem value_cases (d : Scaled) :
    (d.signNumber = -1 ∧ d.isZero = false ∧ d.negative = true ∧ d.value < 0) ∨
      (d.signNumber = 0 ∧ d.isZero = true ∧ d.value = 0) ∨
      (d.signNumber = 1 ∧ d.isZero = false ∧ d.negative = false ∧ 0 < d.value) := by
  by_cases hzero : d.coefficient = 0
  · refine Or.inr (Or.inl ⟨?_, ?_, ?_⟩)
    · simp [signNumber, isZero, hzero]
    · simp [isZero, hzero]
    · rw [value_eq]
      simp [hzero]
  · have hpos := absolute_pos hzero
    have hnonzero : d.isZero = false := by simp [isZero, hzero]
    unfold absolute at hpos
    rw [value_eq]
    cases hnegative : d.negative with
    | true =>
        refine Or.inl ⟨by simp [signNumber, hnonzero, hnegative], hnonzero, rfl, ?_⟩
        simp only [unit, if_true]
        linarith
    | false =>
        refine Or.inr (Or.inr ⟨by simp [signNumber, hnonzero, hnegative], hnonzero, rfl, ?_⟩)
        simp only [unit, Bool.false_eq_true, if_false]
        linarith

theorem value_of_negative (h : d.negative = true) : d.value = -d.absolute := by
  rw [value_eq, h, absolute]
  simp [unit]

theorem value_of_not_negative (h : d.negative = false) : d.value = d.absolute := by
  rw [value_eq, h, absolute]
  simp [unit]

theorem compare_neg (x y : ℚ) : compare (-x) (-y) = (compare x y).swap := by
  have hanti : StrictAnti fun x : ℚ => -x := fun x y h => neg_lt_neg h
  rw [← cmp_eq_compare, ← cmp_eq_compare, hanti.cmp_map_eq, cmp_swap]

/-- Decimals are ordered as numbers. -/
theorem order_eq (a b : Scaled) : a.order b = compare a.value b.value := by
  unfold order
  rcases a.value_cases with ⟨ha, hazero, hasign, hapos⟩ | ⟨ha, hazero, hapos⟩ |
      ⟨ha, hazero, hasign, hapos⟩ <;>
    rcases b.value_cases with ⟨hb, hbzero, hbsign, hbpos⟩ | ⟨hb, hbzero, hbpos⟩ |
      ⟨hb, hbzero, hbsign, hbpos⟩ <;> rw [ha, hb]
  -- The signs differ except where both are negative, both zero or both positive.
  case inl.inl =>
    rw [value_of_negative hasign, value_of_negative hbsign, compare_neg,
      ← orderOfMagnitudes_eq (by simpa [isZero] using hazero) (by simpa [isZero] using hbzero)]
    simp [hazero, hasign]
  case inr.inl.inr.inl =>
    rw [hapos, hbpos, compare_eq_iff_eq.mpr rfl]
    simp [hazero]
  case inr.inr.inr.inr =>
    rw [value_of_not_negative hasign, value_of_not_negative hbsign,
      ← orderOfMagnitudes_eq (by simpa [isZero] using hazero) (by simpa [isZero] using hbzero)]
    simp [hazero, hasign]
  case inl.inr.inl | inl.inr.inr | inr.inl.inr.inr =>
    exact (compare_lt_iff_lt.mpr (by linarith)).symm
  case inr.inl.inl | inr.inr.inl | inr.inr.inr.inl =>
    exact (compare_gt_iff_gt.mpr (by linarith)).symm

end Signs

end Scaled

namespace Decimal

/-- Whether a decimal is a number. -/
def IsNumber : Decimal → Prop
  | undefined .. => False
  | _ => True

/-- The place of a decimal among all numbers: below the finite ones, among them or above. -/
def position : Decimal → ℤ ×ₗ ℚ
  | finite d => toLex (0, d.value)
  | infinite negative => toLex (if negative then -1 else 1, 0)
  | undefined .. => toLex (0, 0)

theorem compare_position (m n : ℤ) (x y : ℚ) :
    compare (toLex (m, x)) (toLex (n, y)) = (compare m n).then (compare x y) := by
  rcases lt_trichotomy m n with h | h | h
  · rw [compare_lt_iff_lt.mpr h, Ordering.lt_then, compare_lt_iff_lt, Prod.Lex.toLex_lt_toLex]
    exact Or.inl h
  · subst h
    rw [compare_eq_iff_eq.mpr rfl, Ordering.eq_then]
    rcases lt_trichotomy x y with hxy | hxy | hxy
    · rw [compare_lt_iff_lt.mpr hxy, compare_lt_iff_lt, Prod.Lex.toLex_lt_toLex]
      exact Or.inr ⟨rfl, hxy⟩
    · rw [compare_eq_iff_eq.mpr hxy, compare_eq_iff_eq, hxy]
    · rw [compare_gt_iff_gt.mpr hxy, compare_gt_iff_gt, Prod.Lex.toLex_lt_toLex]
      exact Or.inr ⟨rfl, hxy⟩
  · rw [compare_gt_iff_gt.mpr h, Ordering.gt_then, compare_gt_iff_gt, Prod.Lex.toLex_lt_toLex]
    exact Or.inl h

/-- Two numbers are ordered by their places. -/
theorem order?_eq {a b : Decimal} (ha : a.IsNumber) (hb : b.IsNumber) :
    a.order? b = some (compare a.position b.position) := by
  cases a with
  | undefined negative signals payload => exact ha.elim
  | finite d =>
      cases b with
      | undefined negative signals payload => exact hb.elim
      | finite e =>
          rw [position, position, compare_position]
          exact congrArg some (Scaled.order_eq d e)
      | infinite negative =>
          rw [position, position, compare_position]
          cases negative <;> rfl
  | infinite negative =>
      rw [position]
      cases b with
      | undefined negative signals payload => exact hb.elim
      | finite e =>
          rw [position, compare_position]
          cases negative <;> rfl
      | infinite negative' =>
          rw [position, compare_position]
          cases negative <;> cases negative' <;> rfl

end Decimal
end BlockScript
