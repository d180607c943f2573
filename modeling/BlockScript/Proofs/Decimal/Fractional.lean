import BlockScript.Decimal.Arithmetic
import BlockScript.Proofs.Decimal.Reading
import BlockScript.Scalar

/-!
# Decimals with digits behind the point

A decimal is fractional when it is finite and its exponent is negative.  Arithmetic on
fractional decimals gives fractional ones: a sum has the finer scale, a product the sum of two
negative exponents and a quotient the scale of the dividend, and what brings a result into the
range of results leaves its exponent negative.

No operation fails on a fractional decimal for being special, and its text has a point or a
negative power of ten, so that it is not the text of an integer.
-/

namespace BlockScript

namespace Scaled

variable {a b d d' : Scaled} {precision : Nat}

theorem finestResult_neg (precision : Nat) : finestResult precision ≤ -1 := by
  unfold finestResult greatestResult
  omega

/-- A result keeps its digits behind the point in the range of results. -/
theorem exponent_settled (hd : d.exponent ≤ -1) (h : d.settled precision = some d') :
    d'.exponent ≤ -1 := by
  have hfinest := finestResult_neg precision
  unfold settled at h
  split at h
  · cases h
    exact Int.max_le.mpr ⟨hfinest, Int.le_trans (Int.min_le_left _ _) hd⟩
  split at h
  · cases h
  split at h
  · cases h
    exact hfinest
  · cases h
    exact hd

theorem exponent_add (ha : a.exponent ≤ -1) : (a.add b).exponent ≤ -1 :=
  Int.le_trans (Int.min_le_left _ _) ha

theorem exponent_sub (ha : a.exponent ≤ -1) : (a.sub b).exponent ≤ -1 := exponent_add ha

theorem exponent_mul (ha : a.exponent ≤ -1) (hb : b.exponent ≤ -1) :
    (a.mul b).exponent ≤ -1 := by
  have hsum : (a.mul b).exponent = a.exponent + b.exponent := rfl
  omega

theorem mem_positionalText {ds : List Char} {fraction : Nat} (h : fraction ≠ 0) :
    '.' ∈ positionalText ds fraction := by
  unfold positionalText
  rw [if_neg h]
  split <;> simp

theorem infix_exponentText {e : Int} (h : e < 0) (ds : List Char) :
    ['E', '-'] <:+: ds ++ exponentText e := by
  unfold exponentText
  rw [if_pos h]
  exact ⟨ds, Text.digits e.natAbs, by simp⟩

/-- A text is written with a point or with a negative power of ten. -/
def ShowsFraction (cs : List Char) : Prop := '.' ∈ cs ∨ ['E', '-'] <:+: cs

theorem ShowsFraction.cons {cs : List Char} (h : ShowsFraction cs) (c : Char) :
    ShowsFraction (c :: cs) :=
  h.imp (List.mem_cons_of_mem c) fun h => h.trans (List.suffix_cons c cs).isInfix

/-- Digits behind the point are shown: where they are not written out, the first digit counts
less than a millionth. -/
theorem showsFraction_magnitudeText (hd : d.exponent ≤ -1) : ShowsFraction d.magnitudeText := by
  unfold magnitudeText
  dsimp only
  split
  · exact Or.inl (mem_positionalText (by omega))
  · rename_i hscientific
    have hfirst : d.adjustedExponent < 0 := by
      unfold leastPositional at hscientific
      omega
    exact Or.inr (infix_exponentText hfirst _)

theorem showsFraction_toChars (hd : d.exponent ≤ -1) : ShowsFraction d.toChars := by
  unfold toChars
  split
  · exact (showsFraction_magnitudeText hd).cons '-'
  · exact showsFraction_magnitudeText hd

end Scaled

namespace Text

/-- A text with a character that is neither a digit nor a sign is not read as an integer. -/
theorem readInt?_eq_none {cs : List Char} {c : Char} (hc : c ∈ cs) (hdigit : isDigit c = false)
    (hminus : c ≠ '-') (hplus : c ≠ '+') : readInt? cs = none := by
  have hrest : c ∈ (splitSign cs).2 := by
    unfold splitSign
    split
    · exact (List.mem_cons.mp hc).resolve_left hminus
    · exact (List.mem_cons.mp hc).resolve_left hplus
    · exact hc
  unfold readInt?
  refine if_neg ?_
  rintro ⟨_, hall, _⟩
  rw [List.all_eq_true.mp hall c hrest] at hdigit
  cases hdigit

end Text

theorem Scaled.ShowsFraction.readInt?_eq_none {cs : List Char} (h : ShowsFraction cs) :
    Text.readInt? cs = none := by
  rcases h with hpoint | ⟨before, behind, rfl⟩
  · exact Text.readInt?_eq_none hpoint rfl (by decide) (by decide)
  · exact Text.readInt?_eq_none (c := 'E') (by simp) rfl (by decide) (by decide)

namespace Decimal

/-- The decimal is finite and has digits behind the point. -/
def IsFractional : Decimal → Prop
  | finite d => d.exponent ≤ -1
  | _ => False

variable {a b d : Decimal}

theorem IsFractional.exists_finite (h : d.IsFractional) :
    ∃ s : Scaled, d = finite s ∧ s.exponent ≤ -1 := by
  cases d with
  | finite s => exact ⟨s, rfl, h⟩
  | _ => cases h

section Arithmetic

/-- A result is fractional, or it is missing for a reason that is none of the operands. -/
def StaysFractional (r : Except DecimalFault Decimal) : Prop :=
  (∀ d, r = .ok d → d.IsFractional) ∧ r ≠ .error .special

/-- What an exact operation on finite decimals comes to: its result, brought into the range of
results, or a fault of the operation or of the range. -/
theorem exact_finite (operation : Scaled → Scaled → Except DecimalFault Scaled) (s t : Scaled) :
    (∃ r r', operation s t = .ok r ∧ r.settled (s.exactPrecision t) = some r' ∧
      exact operation (finite s) (finite t) = .ok (finite r')) ∨
    ∃ fault, exact operation (finite s) (finite t) = .error fault ∧
      (operation s t = .error fault ∨ fault = .precision ∨ fault = .overflow) := by
  unfold exact
  dsimp only
  split
  · exact Or.inr ⟨.precision, rfl, Or.inr (Or.inl rfl)⟩
  cases operation s t with
  | error fault => exact Or.inr ⟨fault, rfl, Or.inl rfl⟩
  | ok r =>
      dsimp only [bind, Except.bind]
      cases hsettled : r.settled (s.exactPrecision t) with
      | some r' => exact Or.inl ⟨r, r', rfl, hsettled, rfl⟩
      | none => exact Or.inr ⟨.overflow, rfl, Or.inr (Or.inr rfl)⟩

/-- What an exact operation must do on negative exponents. -/
structure KeepsFractions (operation : Scaled → Scaled → Except DecimalFault Scaled) : Prop where
  exponent : ∀ {s t r : Scaled}, s.exponent ≤ -1 → t.exponent ≤ -1 → operation s t = .ok r →
    r.exponent ≤ -1
  fault : ∀ s t, operation s t ≠ .error .special

theorem keepsFractions_aligned {operation : Scaled → Scaled → Scaled}
    (h : ∀ {s t : Scaled}, s.exponent ≤ -1 → (operation s t).exponent ≤ -1) :
    KeepsFractions (aligned operation) where
  exponent hs _ hr := by
    unfold aligned at hr
    split at hr
    · cases hr
    split at hr
    · cases hr
    · cases hr
      exact h hs
  fault s t := by
    unfold aligned
    split
    · exact nofun
    split <;> exact nofun

theorem keepsFractions_mul : KeepsFractions fun s t => .ok (s.mul t) where
  exponent hs ht hr := by
    cases hr
    exact Scaled.exponent_mul hs ht
  fault _ _ := nofun

variable {operation : Scaled → Scaled → Except DecimalFault Scaled}

/-- An exact operation on fractional decimals gives a fractional one, and is refused for none of
its operands. -/
theorem KeepsFractions.exact (hop : KeepsFractions operation) (ha : a.IsFractional)
    (hb : b.IsFractional) : StaysFractional (Decimal.exact operation a b) := by
  obtain ⟨s, rfl, hs⟩ := ha.exists_finite
  obtain ⟨t, rfl, ht⟩ := hb.exists_finite
  rcases exact_finite operation s t with ⟨r, r', hr, hsettled, hok⟩ | ⟨fault, herror, hfault⟩
  · rw [hok]
    refine ⟨?_, nofun⟩
    rintro d ⟨rfl⟩
    exact Scaled.exponent_settled (hop.exponent hs ht hr) hsettled
  · rw [herror]
    refine ⟨nofun, ?_⟩
    rintro ⟨rfl⟩
    rcases hfault with hoperation | hprecision | hoverflow
    · exact hop.fault s t hoperation
    · cases hprecision
    · cases hoverflow

theorem staysFractional_add (ha : a.IsFractional) (hb : b.IsFractional) :
    StaysFractional (a.add b) :=
  (keepsFractions_aligned Scaled.exponent_add).exact ha hb

theorem staysFractional_sub (ha : a.IsFractional) (hb : b.IsFractional) :
    StaysFractional (a.sub b) :=
  (keepsFractions_aligned Scaled.exponent_sub).exact ha hb

theorem staysFractional_mul (ha : a.IsFractional) (hb : b.IsFractional) :
    StaysFractional (a.mul b) :=
  keepsFractions_mul.exact ha hb

/-- What division of finite decimals comes to: a quotient at the scale of the dividend, or a
fault that is none of its operands. -/
theorem divide_finite (s t : Scaled) :
    divide (finite s) (finite t) = .ok (finite (s.divide t)) ∨
      ∃ fault, divide (finite s) (finite t) = .error fault ∧ fault ≠ .special := by
  unfold divide divisionCoefficient convertible
  dsimp only
  by_cases hs : s.coefficient < Text.numeralBound
  case neg =>
    rw [if_neg hs]
    exact Or.inr ⟨.numeral, rfl, nofun⟩
  by_cases ht : t.coefficient < Text.numeralBound
  case neg =>
    rw [if_pos hs, if_neg ht]
    exact Or.inr ⟨.numeral, rfl, nofun⟩
  rw [if_pos hs, if_pos ht]
  dsimp only [bind, Except.bind]
  split
  · exact Or.inr ⟨.zeroDivisor, rfl, nofun⟩
  by_cases hq : Scaled.quotientCoefficient ⟨false, s.coefficient, 0⟩ t < Text.numeralBound
  case neg =>
    rw [if_neg hq]
    exact Or.inr ⟨.numeral, rfl, nofun⟩
  rw [if_pos hq]
  dsimp only
  split
  · exact Or.inl rfl
  · exact Or.inr ⟨.noResult, rfl, nofun⟩

theorem staysFractional_divide (ha : a.IsFractional) (hb : b.IsFractional) :
    StaysFractional (divide a b) := by
  obtain ⟨s, rfl, hs⟩ := ha.exists_finite
  obtain ⟨t, rfl, -⟩ := hb.exists_finite
  rcases divide_finite s t with hok | ⟨fault, herror, hspecial⟩
  · rw [hok]
    refine ⟨?_, nofun⟩
    rintro d ⟨rfl⟩
    exact hs
  · rw [herror]
    refine ⟨nofun, ?_⟩
    rintro ⟨rfl⟩
    exact hspecial rfl

end Arithmetic

section Exponents

/-- The digits that an exact operation needs are counted. -/
theorem exactPrecision_eq_ok (ha : a.IsFractional) (hb : b.IsFractional) :
    ∃ n, a.exactPrecision b = .ok n := by
  obtain ⟨s, rfl, -⟩ := ha.exists_finite
  obtain ⟨t, rfl, -⟩ := hb.exists_finite
  exact ⟨_, rfl⟩

theorem order?_eq_some (ha : a.IsFractional) (hb : b.IsFractional) :
    ∃ order, a.order? b = some order := by
  obtain ⟨s, rfl, -⟩ := ha.exists_finite
  obtain ⟨t, rfl, -⟩ := hb.exists_finite
  exact ⟨_, rfl⟩

/-- The text of the decimal has a point or a negative power of ten. -/
theorem showsFraction_toText (h : d.IsFractional) : Scaled.ShowsFraction d.toText.toList := by
  obtain ⟨s, rfl, hs⟩ := h.exists_finite
  unfold toText
  rw [String.toList_ofList]
  exact Scaled.showsFraction_toChars hs

end Exponents

end Decimal

/-- A scalar is no decimal but a fractional one. -/
def Scalar.IsFractional : Scalar → Prop
  | .decimal d => d.IsFractional
  | _ => True

end BlockScript
