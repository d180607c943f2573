import BlockScript.Proofs.Decimal.Order
import BlockScript.Scalar

/-!
# The keys of scalars

The key of a scalar is a row of numbers, which for a text are its code points.  Two scalars of
one kind are ordered as their keys, and they are equal when their keys are the same: `1.0` and
`1.00` have the same key, and so have the two zeros.
-/

namespace BlockScript

instance lawfulEqOrd_position : Std.LawfulEqOrd (ℤ ×ₗ ℚ) where
  eq_of_compare h := compare_eq_iff_eq.mp h

/-- The place of a finite number among all numbers. -/
def Decimal.finitePosition (x : ℚ) : ℤ ×ₗ ℚ := toLex (0, x)

namespace Decimal

theorem compare_finitePosition (x y : ℚ) :
    compare (finitePosition x) (finitePosition y) = compare x y := by
  rw [finitePosition, finitePosition, compare_position, compare_eq_iff_eq.mpr rfl,
    Ordering.eq_then]

theorem finitePosition_inj {x y : ℚ} : finitePosition x = finitePosition y ↔ x = y := by
  rw [← compare_eq_iff_eq, compare_finitePosition, compare_eq_iff_eq]

end Decimal

namespace Text

/-- A half of a surrogate pair has a code point that no character has. -/
theorem codePoint_injective : Function.Injective codePoint := by
  intro c d h
  have hc : c.toNat < 0xD800 ∨ 0xDFFF < c.toNat ∧ c.toNat < 0x110000 := c.valid
  have hd : d.toNat < 0xD800 ∨ 0xDFFF < d.toNat ∧ d.toNat < 0x110000 := d.valid
  have hnat : c.toNat = d.toNat := by
    simp only [codePoint, isHalf, standInOffset, Bool.and_eq_true, decide_eq_true_eq] at h
    split at h <;> split at h <;> omega
  exact Char.toNat_inj.mp hnat

/-- The place of a character among all characters. -/
def position (c : Char) : ℤ ×ₗ ℚ := Decimal.finitePosition (codePoint c)

/-- The numbers that a text is compared by. -/
def key (text : String) : List (ℤ ×ₗ ℚ) := text.toList.map position

theorem compareChars_eq (cs ds : List Char) :
    compareChars cs ds = compare (cs.map position) (ds.map position) := by
  induction cs generalizing ds with
  | nil => cases ds <;> rfl
  | cons c cs ih =>
      cases ds with
      | nil => rfl
      | cons d ds =>
          rw [compareChars, ih, List.map_cons, List.map_cons, List.compare_cons_cons, position,
            position, Decimal.compare_finitePosition, compare_map Nat.strictMono_cast]
          cases compare (codePoint c) (codePoint d) <;> rfl

/-- Texts are ordered by their keys. -/
theorem compareTexts_eq (a b : String) : compareTexts a b = compare (key a) (key b) :=
  compareChars_eq _ _

theorem key_injective : Function.Injective key := by
  have hposition : Function.Injective position := fun c d h =>
    codePoint_injective (Nat.cast_injective (Decimal.finitePosition_inj.mp h))
  exact fun a b h => String.toList_inj.mp (List.map_injective_iff.mpr hposition h)

end Text

namespace Scalar

/-- A value of the language that is no undefined number. -/
def IsDefined : Scalar → Prop
  | decimal d => d.IsNumber
  | character (.string _) => True
  | character _ => False
  | foreign .. => False
  | _ => True

/-- The numbers that a value is compared by with others of its kind. -/
def key : Scalar → List (ℤ ×ₗ ℚ)
  | boolean b => [Decimal.finitePosition b.toNat]
  | integer n => [Decimal.finitePosition n]
  | decimal d => [d.position]
  | character (.string text) => Text.key text
  | string text => Text.key text
  | _ => []

variable {s t : Scalar}

theorem comparable_eq_true_iff :
    s.comparable t = true ↔ s.type = t.type ∧ s.type ≠ .any ∧ s.type ≠ .nil := by
  cases s <;> cases t <;> simp [comparable, type]

theorem refuse_eq_false (hs : s.IsDefined) (ht : t.IsDefined) : s.refuse t = false := by
  cases s <;> cases t <;> try rfl
  case decimal.decimal a b =>
    cases a <;> cases b <;> first | rfl | exact hs.elim | exact ht.elim

theorem text_of_defined {value : Json} (h : (character value).IsDefined) :
    ∃ text, value = .string text := by
  cases value with
  | string text => exact ⟨text, rfl⟩
  | _ => exact h.elim

theorem compare_singleton (x y : ℤ ×ₗ ℚ) : compare [x] [y] = compare x y := by
  rw [List.compare_cons_cons]
  exact Ordering.then_eq

/-- Two values of one kind are ordered by their keys. -/
theorem order_eq (hs : s.IsDefined) (ht : t.IsDefined) (h : s.comparable t = true) :
    s.order t = .ok (compare s.key t.key) := by
  cases s <;> cases t <;> try cases h
  case boolean.boolean a b =>
    rw [key, key, compare_singleton, Decimal.compare_finitePosition,
      compare_map Nat.strictMono_cast]
    rfl
  case integer.integer a b =>
    rw [key, key, compare_singleton, Decimal.compare_finitePosition,
      compare_map Int.cast_strictMono]
    rfl
  case decimal.decimal a b =>
    rw [key, key, compare_singleton, order, Decimal.order?_eq hs ht]
    rfl
  case character.character a b =>
    obtain ⟨text, rfl⟩ := text_of_defined hs
    obtain ⟨text', rfl⟩ := text_of_defined ht
    rw [key, key, ← Text.compareTexts_eq]
    rfl
  case string.string a b =>
    rw [key, key, ← Text.compareTexts_eq]
    rfl

/-- Two values are equal when they are of one kind and have the same key. -/
theorem equal_eq_true_iff (hs : s.IsDefined) (ht : t.IsDefined) :
    s.equal t = true ↔ s.type = t.type ∧ s.key = t.key := by
  cases s <;> cases t <;> try first | exact hs.elim | exact ht.elim | simp [equal, type]; done
  case boolean.boolean a b =>
    cases a <;> cases b <;> simp [equal, type, key, Decimal.finitePosition_inj]
  case integer.integer a b =>
    simp [equal, type, key, Decimal.finitePosition_inj]
  case decimal.decimal a b =>
    have hposition := Decimal.order?_eq hs ht
    simp [equal, Decimal.equal, type, key, hposition]
  case character.character a b =>
    obtain ⟨text, rfl⟩ := text_of_defined hs
    obtain ⟨text', rfl⟩ := text_of_defined ht
    simp [equal, Json.equal, type, key, Text.key_injective.eq_iff]
  case string.string a b =>
    simp [equal, type, key, Text.key_injective.eq_iff]

end Scalar

end BlockScript
