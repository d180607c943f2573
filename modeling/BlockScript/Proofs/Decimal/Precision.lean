import BlockScript.Proofs.Decimal.Division
import BlockScript.Proofs.Decimal.Range
import BlockScript.Running.Operator

/-!
# The digits of exact results

A sum has the finer scale of its operands and a product the sum of their exponents, and both are
exact.  Each has at most as many digits as the operands have together, those between the two
scales, and one for a carry, so that `exactPrecision` always suffices.

Rounding to a number of digits leaves a decimal alone that has no more of them
(`isRounded_iff_eq`).  What the operators give is therefore the exact result, wherever its
exponents are inside the range of results.
-/

namespace BlockScript

namespace Text

theorem length_digits_le {n k : Nat} (hk : 0 < k) (h : n < 10 ^ k) : (digits n).length ≤ k := by
  by_cases hn : n = 0
  · subst hn
    rw [digits_of_lt (by decide)]
    exact hk
  · have hpow : 10 ^ (digits n).length < 10 ^ (k + 1) := by
      have hdigits := pow_length_digits_le hn
      rw [Nat.pow_succ]
      omega
    exact Nat.le_of_lt_succ ((Nat.pow_lt_pow_iff_right (by decide)).mp hpow)

end Text

namespace Scaled

variable {a b d r : Scaled} {precision : Nat}

/-- A decimal is what another one is rounded to: the multiple of its last place nearest to it, the
even one on a tie, where the last place is the finest one at which the digits suffice. -/
structure IsRounded (precision : Nat) (d r : Scaled) : Prop where
  sign : r.negative = d.negative
  digits : r.digitCount ≤ precision
  scale : d.exponent ≤ r.exponent
  nearest : r.IsNearest d.value
  finest : ∀ s : Scaled, s.digitCount ≤ precision → d.exponent ≤ s.exponent →
    s.IsNearest d.value → r.exponent ≤ s.exponent

/-- A result of two operands is exact at a scale, and rounding it to the exact precision of the
operands gives nothing else. -/
structure IsExactResult (a b r : Scaled) (x : ℚ) (e : Int) : Prop where
  value : r.value = x
  exponent : r.exponent = e
  digits : r.digitCount ≤ a.exactPrecision b
  rounded : ∀ s, IsRounded (a.exactPrecision b) r s ↔ s = r

/-- There are results of a precision, and the exponents of a decimal are inside their range. -/
structure FitsPrecision (precision : Nat) (d : Scaled) : Prop where
  available : precision ≤ greatestPrecision
  finest : finestResult precision ≤ d.exponent
  greatest : d.adjustedExponent ≤ greatestResult

section Rounding

/-- Every decimal is nearest to itself. -/
theorem isNearest_self (d : Scaled) : d.IsNearest d.value where
  nearest n := by
    rw [sub_self, abs_zero]
    exact abs_nonneg _
  even n hne heq := by
    rw [sub_self, abs_zero, abs_eq_zero, sub_eq_zero] at heq
    exact absurd heq hne

/-- A decimal at the scale of another one, with its sign and its value, is that one. -/
theorem eq_of_value_eq (hsign : r.negative = d.negative) (hexponent : r.exponent = d.exponent)
    (hvalue : r.value = d.value) : r = d := by
  have hpower : (10 : ℚ) ^ d.exponent ≠ 0 := by positivity
  unfold value at hvalue
  rw [hexponent] at hvalue
  have hsigned : r.signedCoefficient = d.signedCoefficient := by
    exact_mod_cast mul_right_cancel₀ hpower hvalue
  obtain ⟨negative, coefficient, exponent⟩ := r
  obtain ⟨negative', coefficient', exponent'⟩ := d
  simp only [signedCoefficient] at hsign hexponent hsigned
  subst hsign hexponent
  cases negative <;> simp_all

/-- Rounding leaves a decimal alone that has no more digits than are kept. -/
theorem isRounded_iff_eq (h : d.digitCount ≤ precision) : IsRounded precision d r ↔ r = d := by
  constructor
  · intro hr
    have hscale : r.exponent = d.exponent :=
      le_antisymm (hr.finest d h (le_refl _) (isNearest_self d)) hr.scale
    refine eq_of_value_eq hr.sign hscale ?_
    -- At its own scale the decimal is a multiple of the last place, at no distance from itself.
    have hnearest := hr.nearest.nearest d.signedCoefficient
    rw [hscale, show (d.signedCoefficient : ℚ) * 10 ^ d.exponent = d.value from rfl, sub_self,
      abs_zero] at hnearest
    exact sub_eq_zero.mp (abs_nonpos_iff.mp hnearest)
  · rintro rfl
    exact ⟨rfl, h, le_refl _, isNearest_self r, fun _ _ hscale _ => hscale⟩

end Rounding

section Values

theorem abs_value (d : Scaled) : |d.value| = d.absolute := by
  rw [value_eq, abs_mul, abs_unit, one_mul, absolute]
  exact abs_of_nonneg (by positivity)

/-- Counted in finer units a decimal keeps its value. -/
theorem value_unitsAt {e : Int} (h : e ≤ d.exponent) : (d.unitsAt e : ℚ) * 10 ^ e = d.value := by
  unfold unitsAt value
  by_cases hzero : d.coefficient = 0
  · have hsigned : d.signedCoefficient = 0 := by simp [signedCoefficient, hzero]
    simp [hzero, hsigned]
  · rw [if_neg hzero]
    push_cast
    rw [mul_assoc, ← zpow_natCast, ← zpow_add₀ (by norm_num)]
    congr 2
    omega

/-- A sum is its sign and its magnitude, whichever sign a zero has. -/
theorem signedCoefficient_sum (sum e : Int) (negativeZero : Bool) :
    (⟨if sum = 0 then negativeZero else decide (sum < 0), sum.natAbs, e⟩ :
      Scaled).signedCoefficient = sum := by
  unfold signedCoefficient
  by_cases hsum : sum = 0
  · simp [hsum]
  · simp only [if_neg hsum, decide_eq_true_eq]
    split <;> omega

theorem value_add (a b : Scaled) : (a.add b).value = a.value + b.value := by
  have hexponent : (a.add b).exponent = commonExponent a b := rfl
  have hsigned : (a.add b).signedCoefficient =
      a.unitsAt (commonExponent a b) + b.unitsAt (commonExponent a b) :=
    signedCoefficient_sum _ _ _
  have hleft : commonExponent a b ≤ a.exponent := Int.min_le_left _ _
  have hright : commonExponent a b ≤ b.exponent := Int.min_le_right _ _
  rw [value, hsigned, hexponent, Int.cast_add, add_mul, value_unitsAt hleft,
    value_unitsAt hright]

theorem value_negate (d : Scaled) : d.negate.value = -d.value := by
  have hunit : unit (!d.negative) = -unit d.negative := by
    cases d.negative <;> simp [unit]
  rw [value_eq, value_eq]
  simp only [negate, hunit]
  ring

theorem value_sub (a b : Scaled) : (a.sub b).value = a.value - b.value := by
  rw [sub, value_add, value_negate, sub_eq_add_neg]

theorem value_mul (a b : Scaled) : (a.mul b).value = a.value * b.value := by
  have hunit : unit (a.negative != b.negative) = unit a.negative * unit b.negative := by
    cases a.negative <;> cases b.negative <;> norm_num [unit]
  rw [value_eq, value_eq, value_eq]
  simp only [mul, hunit]
  push_cast
  rw [zpow_add₀ (by norm_num)]
  ring

end Values

section Digits

theorem coefficient_lt (d : Scaled) : d.coefficient < 10 ^ d.digitCount :=
  Text.lt_pow_length_digits d.coefficient

theorem natAbs_signedCoefficient (d : Scaled) : d.signedCoefficient.natAbs = d.coefficient := by
  unfold signedCoefficient
  split <;> omega

theorem natAbs_unitsAt_lt (d : Scaled) (e : Int) :
    (d.unitsAt e).natAbs < 10 ^ (d.digitCount + (d.exponent - e).toNat) := by
  unfold unitsAt
  by_cases hzero : d.coefficient = 0
  · rw [if_pos hzero]
    exact Nat.pow_pos (by decide)
  · rw [if_neg hzero, Int.natAbs_mul, natAbs_signedCoefficient, Int.natAbs_pow, Nat.pow_add]
    exact Nat.mul_lt_mul_of_pos_right d.coefficient_lt (Nat.pow_pos (by decide))

/-- The digits of a decimal in units of the common scale are at most those of both operands and
those between the scales. -/
theorem natAbs_common_lt (h : d.digitCount ≤ a.digitCount + b.digitCount)
    (hdistance : (d.exponent - commonExponent a b).toNat ≤ (a.exponent - b.exponent).natAbs) :
    (d.unitsAt (commonExponent a b)).natAbs <
      10 ^ (a.digitCount + b.digitCount + (a.exponent - b.exponent).natAbs) :=
  Nat.lt_of_lt_of_le (natAbs_unitsAt_lt d _) (Nat.pow_le_pow_right (by decide) (by omega))

theorem digitCount_add (a b : Scaled) : (a.add b).digitCount ≤ a.exactPrecision b := by
  have ha : (a.unitsAt (commonExponent a b)).natAbs <
      10 ^ (a.digitCount + b.digitCount + (a.exponent - b.exponent).natAbs) :=
    natAbs_common_lt (by omega) (by unfold commonExponent; omega)
  have hb : (b.unitsAt (commonExponent a b)).natAbs <
      10 ^ (a.digitCount + b.digitCount + (a.exponent - b.exponent).natAbs) :=
    natAbs_common_lt (by omega) (by unfold commonExponent; omega)
  refine Text.length_digits_le (by unfold exactPrecision; omega) ?_
  calc (a.add b).coefficient
      ≤ (a.unitsAt (commonExponent a b)).natAbs + (b.unitsAt (commonExponent a b)).natAbs :=
        Int.natAbs_add_le _ _
    _ < 10 * 10 ^ (a.digitCount + b.digitCount + (a.exponent - b.exponent).natAbs) := by omega
    _ = 10 ^ (a.digitCount + b.digitCount + (a.exponent - b.exponent).natAbs + 1) := by
        rw [Nat.pow_succ, Nat.mul_comm]
    _ ≤ 10 ^ a.exactPrecision b :=
        Nat.pow_le_pow_right (by decide) (by unfold exactPrecision; omega)

theorem digitCount_sub (a b : Scaled) : (a.sub b).digitCount ≤ a.exactPrecision b :=
  digitCount_add a b.negate

theorem digitCount_mul (a b : Scaled) : (a.mul b).digitCount ≤ a.exactPrecision b := by
  refine Text.length_digits_le (by unfold exactPrecision; omega) ?_
  calc (a.mul b).coefficient
      < 10 ^ a.digitCount * 10 ^ b.digitCount :=
        Nat.mul_lt_mul'' a.coefficient_lt b.coefficient_lt
    _ = 10 ^ (a.digitCount + b.digitCount) := (Nat.pow_add _ _ _).symm
    _ ≤ 10 ^ a.exactPrecision b :=
        Nat.pow_le_pow_right (by decide) (by unfold exactPrecision; omega)

theorem isExactResult_of_digits {x : ℚ} {e : Int} (hvalue : r.value = x) (hexponent : r.exponent = e)
    (hdigits : r.digitCount ≤ a.exactPrecision b) : IsExactResult a b r x e :=
  ⟨hvalue, hexponent, hdigits, fun _ => isRounded_iff_eq hdigits⟩

end Digits

section Range

theorem digitCount_of_isZero (h : d.isZero = true) : d.digitCount = 1 := by
  have hcoefficient : d.coefficient = 0 := by simpa [isZero] using h
  rw [digitCount, hcoefficient, Text.digits_of_lt (by decide), List.length_singleton]

/-- A result inside the range of results is left as it is. -/
theorem FitsPrecision.settled (h : d.FitsPrecision precision) : d.settled precision = some d := by
  have hfinest := h.finest
  have hgreatest := h.greatest
  unfold Scaled.settled
  by_cases hzero : d.isZero = true
  · have hadjusted : d.adjustedExponent = d.exponent := by
      rw [adjustedExponent, digitCount_of_isZero hzero]
      omega
    have hexponent : max (finestResult precision) (min d.exponent greatestResult) = d.exponent := by
      rw [hadjusted] at hgreatest
      omega
    rw [if_pos hzero, hexponent]
  · rw [if_neg hzero, if_neg (by omega), if_neg (by omega)]

/-- Where one operand outweighs the other, no result of both is inside the range of results. -/
theorem greatest_lt_of_outweighs (h : a.outweighs b = true)
    (hr : a.absolute - b.absolute ≤ r.absolute) : greatestResult < r.adjustedExponent := by
  simp only [outweighs, Bool.and_eq_true, Bool.not_eq_true', decide_eq_true_eq] at h
  obtain ⟨⟨hzero, hgreatest⟩, hapart⟩ := h
  have hcoefficient : a.coefficient ≠ 0 := by simpa [isZero] using hzero
  have hlow : (10 : ℚ) ^ (a.adjustedExponent - 1) * 10 ≤ a.absolute := by
    rw [← zpow_add_one₀ (by norm_num), Int.sub_add_cancel]
    exact le_absolute hcoefficient
  have hhigh : b.absolute < 10 ^ (a.adjustedExponent - 1) :=
    (absolute_lt b).trans_le (zpow_le_zpow_right₀ (by norm_num) (by omega))
  have hbetween : (10 : ℚ) ^ (a.adjustedExponent - 1) < 10 ^ (r.adjustedExponent + 1) := by
    have hbelow := absolute_lt r
    have hpositive : (0 : ℚ) < 10 ^ (a.adjustedExponent - 1) := by positivity
    linarith
  have hexponents := (zpow_lt_zpow_iff_right₀ (by norm_num : (1 : ℚ) < 10)).mp hbetween
  omega

/-- No operand outweighs the other where the result is inside the range of results. -/
theorem FitsPrecision.not_outweighs (h : r.FitsPrecision precision)
    (hr : a.absolute - b.absolute ≤ r.absolute) : a.outweighs b = false := by
  by_contra houtweighs
  have hgreatest := greatest_lt_of_outweighs (Bool.not_eq_false _ ▸ houtweighs) hr
  exact absurd h.greatest (by omega)

end Range

end Scaled

namespace Decimal

open Scaled

variable {a b : Scaled}

/-- An exact operation gives its result where that is inside the range of results. -/
theorem exact_of_fits {operation : Scaled → Scaled → Except DecimalFault Scaled} {r : Scaled}
    (hoperation : operation a b = .ok r) (h : r.FitsPrecision (a.exactPrecision b)) :
    exact operation (.finite a) (.finite b) = .ok (.finite r) := by
  unfold exact
  dsimp only
  rw [if_neg (Nat.not_lt.mpr h.available), hoperation]
  dsimp only [bind, Except.bind]
  rw [h.settled]

/-- An operation at a common scale gives its result where that is inside the range of results,
unless the operands are too far apart for its digits to be written out. -/
theorem exact_aligned {operation : Scaled → Scaled → Scaled}
    (h : (operation a b).FitsPrecision (a.exactPrecision b))
    (hleft : a.absolute - b.absolute ≤ (operation a b).absolute)
    (hright : b.absolute - a.absolute ≤ (operation a b).absolute) :
    exact (aligned operation) (.finite a) (.finite b) =
      if a.isOutOfReach b then .error .outOfReach else .ok (.finite (operation a b)) := by
  by_cases hreach : a.isOutOfReach b = true
  · have haligned : aligned operation a b = .error .outOfReach := if_pos hreach
    rw [if_pos hreach]
    unfold exact
    dsimp only
    rw [if_neg (Nat.not_lt.mpr h.available), haligned]
    rfl
  · have haligned : aligned operation a b = .ok (operation a b) := by
      unfold aligned
      rw [if_neg hreach, h.not_outweighs hleft, h.not_outweighs hright]
      rfl
    rw [if_neg hreach]
    exact exact_of_fits haligned h

theorem add_of_fits (h : (a.add b).FitsPrecision (a.exactPrecision b)) :
    add (.finite a) (.finite b) =
      if a.isOutOfReach b then .error .outOfReach else .ok (.finite (a.add b)) := by
  refine exact_aligned h ?_ ?_
  · rw [← abs_value, ← abs_value, ← abs_value, value_add]
    have htriangle := abs_sub_abs_le_abs_sub a.value (-b.value)
    rwa [abs_neg, sub_neg_eq_add] at htriangle
  · rw [← abs_value, ← abs_value, ← abs_value, value_add, add_comm a.value]
    have htriangle := abs_sub_abs_le_abs_sub b.value (-a.value)
    rwa [abs_neg, sub_neg_eq_add] at htriangle

theorem sub_of_fits (h : (a.sub b).FitsPrecision (a.exactPrecision b)) :
    sub (.finite a) (.finite b) =
      if a.isOutOfReach b then .error .outOfReach else .ok (.finite (a.sub b)) := by
  refine exact_aligned h ?_ ?_
  · rw [← abs_value, ← abs_value, ← abs_value, value_sub]
    exact abs_sub_abs_le_abs_sub _ _
  · rw [← abs_value, ← abs_value, ← abs_value, value_sub, abs_sub_comm]
    exact abs_sub_abs_le_abs_sub _ _

theorem mul_of_fits (h : (a.mul b).FitsPrecision (a.exactPrecision b)) :
    mul (.finite a) (.finite b) = .ok (.finite (a.mul b)) :=
  exact_of_fits rfl h

end Decimal

/-- Decimals whose exponents are inside the range of results are never too far apart. -/
theorem Scaled.isOutOfReach_of_exponents {a b : Scaled} (ha : a.exponent.natAbs ≤ greatestResult)
    (hb : b.exponent.natAbs ≤ greatestResult) : a.isOutOfReach b = false := by
  have hdistance : (a.exponent - b.exponent).natAbs ≤ greatestDistance := by
    simp only [greatestResult, greatestDistance] at *
    omega
  unfold isOutOfReach
  rw [decide_eq_false (Nat.not_lt.mpr hdistance), Bool.false_and]

/-- The value of a finite decimal. -/
def Value.ofScaled (d : Scaled) : Value := .scalar (.decimal (.finite d))

namespace Running

open Scaled

/-- **The exact precision always suffices.** Sums and differences at the finer scale of two
decimals, and products at the sum of their exponents, are exact, have no more digits than the
exact precision of the operands, and are what rounding to so many digits gives.  The operators
give just these results where their exponents are inside the range of results, but for a sum or
difference with more digits than can be written out.  Operands whose own exponents are inside that
range have none (`Scaled.isOutOfReach_of_exponents`). -/
theorem exact_precision_suffices (a b : Scaled) :
    (IsExactResult a b (a.add b) (a.value + b.value) (min a.exponent b.exponent) ∧
      IsExactResult a b (a.sub b) (a.value - b.value) (min a.exponent b.exponent) ∧
      IsExactResult a b (a.mul b) (a.value * b.value) (a.exponent + b.exponent)) ∧
    ∀ (settings : Settings) (heap : Heap),
      ((a.add b).FitsPrecision (a.exactPrecision b) →
        operate settings heap "+" (.ofScaled a) (.ofScaled b) =
          if a.isOutOfReach b then .error .outOfReach else .ok (.ofScaled (a.add b))) ∧
      ((a.sub b).FitsPrecision (a.exactPrecision b) →
        operate settings heap "-" (.ofScaled a) (.ofScaled b) =
          if a.isOutOfReach b then .error .outOfReach else .ok (.ofScaled (a.sub b))) ∧
      ((a.mul b).FitsPrecision (a.exactPrecision b) →
        operate settings heap "*" (.ofScaled a) (.ofScaled b) = .ok (.ofScaled (a.mul b))) := by
  refine ⟨⟨isExactResult_of_digits (value_add a b) rfl (digitCount_add a b),
    isExactResult_of_digits (value_sub a b) rfl (digitCount_sub a b),
    isExactResult_of_digits (value_mul a b) rfl (digitCount_mul a b)⟩, ?_⟩
  intro settings heap
  refine ⟨fun h => ?_, fun h => ?_, fun h => ?_⟩
  · have hsum : operate settings heap "+" (.ofScaled a) (.ofScaled b) =
        decimalResult (Decimal.add (.finite a) (.finite b)) := rfl
    rw [hsum, Decimal.add_of_fits h]
    split <;> rfl
  · have hdifference : operate settings heap "-" (.ofScaled a) (.ofScaled b) =
        decimalResult (Decimal.sub (.finite a) (.finite b)) := rfl
    rw [hdifference, Decimal.sub_of_fits h]
    split <;> rfl
  · have hproduct : operate settings heap "*" (.ofScaled a) (.ofScaled b) =
        decimalResult (Decimal.mul (.finite a) (.finite b)) := rfl
    rw [hproduct, Decimal.mul_of_fits h]
    rfl

/-- A carry through all digits, a zero that is as fine as an operand, and a product. -/
theorem exact_results_of_nines :
    operate .standard .empty "+" (.ofScaled ⟨false, 999, -2⟩) (.ofScaled ⟨false, 1, -2⟩) =
        .ok (.ofScaled ⟨false, 1000, -2⟩) ∧
      operate .standard .empty "-" (.ofScaled ⟨false, 999, -2⟩) (.ofScaled ⟨false, 999, -2⟩) =
        .ok (.ofScaled ⟨false, 0, -2⟩) ∧
      operate .standard .empty "*" (.ofScaled ⟨true, 999, -2⟩) (.ofScaled ⟨false, 999, 3⟩) =
        .ok (.ofScaled ⟨true, 998001, 1⟩) := by
  obtain ⟨-, hsum⟩ := exact_precision_suffices ⟨false, 999, -2⟩ ⟨false, 1, -2⟩
  obtain ⟨-, hdifference⟩ := exact_precision_suffices ⟨false, 999, -2⟩ ⟨false, 999, -2⟩
  obtain ⟨-, hproduct⟩ := exact_precision_suffices ⟨true, 999, -2⟩ ⟨false, 999, 3⟩
  exact ⟨(hsum .standard .empty).1 ⟨by decide +kernel, by decide +kernel, by decide +kernel⟩,
    (hdifference .standard .empty).2.1 ⟨by decide +kernel, by decide +kernel, by decide +kernel⟩,
    (hproduct .standard .empty).2.2 ⟨by decide +kernel, by decide +kernel, by decide +kernel⟩⟩

end Running
end BlockScript
