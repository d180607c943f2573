import BlockScript.Decimal.Text
import BlockScript.Scope.Basic
import BlockScript.Text.InFiles

/-!
# What messages are put together from

A message is put together from fixed words and numerals, from names and from the texts of values.
A property of texts that all ASCII texts have and that joining keeps is therefore one of every
message, if the names and the texts of values in the message have it.

That a text can be written to a file is such a property.
-/

namespace BlockScript
namespace Text

/-- A text of ASCII characters. -/
def IsAscii (s : String) : Prop := ∀ c ∈ s.toList, c.toNat < 128

instance (s : String) : Decidable (IsAscii s) :=
  List.decidableBAll (fun c : Char => c.toNat < 128) s.toList

/-- A property that texts have when they are put together from ASCII texts and from texts that
have it. -/
structure Composes (M : String → Prop) : Prop where
  ascii : ∀ {s : String}, IsAscii s → M s
  append : ∀ {a b : String}, M a → M b → M (a ++ b)

theorem isAscii_append {a b : String} (ha : IsAscii a) (hb : IsAscii b) : IsAscii (a ++ b) := by
  intro c hc
  rw [String.toList_append, List.mem_append] at hc
  exact hc.elim (ha c) (hb c)

section Numerals

theorem ascii_of_isDigit {c : Char} (h : isDigit c = true) : c.toNat < 128 := by
  have hle : c ≤ '9' := by
    simp only [isDigit, Bool.and_eq_true, decide_eq_true_eq] at h
    exact h.2
  have hnat : c.toNat ≤ 57 := hle
  omega

theorem ascii_digits (n : Nat) : ∀ c ∈ digits n, c.toNat < 128 := fun c hc =>
  ascii_of_isDigit (List.all_eq_true.mp (all_isDigit_digits n) c hc)

theorem isAscii_ofList {cs : List Char} (h : ∀ c ∈ cs, c.toNat < 128) :
    IsAscii (String.ofList cs) := by
  unfold IsAscii
  rwa [String.toList_ofList]

theorem isAscii_natText (n : Nat) : IsAscii (natText n) := isAscii_ofList (ascii_digits n)

theorem isAscii_intText {n : Int} {text : String} (h : intText? n = some text) :
    IsAscii text := by
  unfold intText? intTextOfAnySize at h
  split at h
  · cases h
    split
    · exact isAscii_append (by decide) (isAscii_natText _)
    · exact isAscii_natText _
  · cases h

end Numerals

namespace Composes

variable {M : String → Prop}

theorem intercalate (hM : Composes M) {separator : String} (hseparator : M separator)
    {parts : List String} (h : ∀ part ∈ parts, M part) : M (separator.intercalate parts) := by
  induction parts with
  | nil =>
      rw [String.intercalate_nil]
      exact hM.ascii (by decide)
  | cons part parts ih =>
      obtain ⟨hpart, hparts⟩ := List.forall_mem_cons.mp h
      cases parts with
      | nil => rwa [String.intercalate_singleton]
      | cons next parts =>
          rw [String.intercalate_cons_cons]
          exact hM.append (hM.append hpart hseparator) (ih hparts)

theorem signature (hM : Composes M) {name : String} (hname : M name) (arity : Nat) :
    M (ScopeFault.signature name arity) :=
  hM.append (hM.append hname (hM.ascii (by decide))) (hM.ascii (isAscii_natText arity))

end Composes

section Writing

theorem isWritable_iff {s : String} : isWritable s = true ↔ ∀ c ∈ s.toList, isHalf c = false := by
  simp [isWritable]

theorem isHalf_of_ascii {c : Char} (h : c.toNat < 128) : isHalf c = false := by
  rw [← Bool.not_eq_true]
  simp only [isHalf, Bool.and_eq_true, decide_eq_true_eq]
  omega

/-- Texts can be written when the parts that they are put together from can. -/
theorem composes_isWritable : Composes fun s => isWritable s = true where
  ascii h := isWritable_iff.mpr fun c hc => isHalf_of_ascii (h c hc)
  append ha hb := by
    rw [isWritable_iff] at ha hb ⊢
    intro c hc
    rw [String.toList_append, List.mem_append] at hc
    exact hc.elim (ha c) (hb c)

theorem composes_true : Composes fun _ => True := ⟨fun _ => trivial, fun _ _ => trivial⟩

end Writing

end Text

theorem StaticType.isAscii_name (type : StaticType) : Text.IsAscii type.name := by
  cases type <;> decide

namespace Decimal

open Text

theorem ascii_magnitudeText (d : Scaled) : ∀ c ∈ d.magnitudeText, c.toNat < 128 := by
  have hdigits := ascii_digits d.coefficient
  have hpower := ascii_digits d.adjustedExponent.natAbs
  unfold Scaled.magnitudeText
  generalize digits d.coefficient = ds at hdigits ⊢
  dsimp only
  split
  · unfold Scaled.positionalText
    split
    · exact hdigits
    split
    · intro c hc
      rcases List.mem_append.mp hc with hc | hc
      · exact hdigits c (List.mem_of_mem_take hc)
      rcases List.mem_cons.mp hc with rfl | hc
      · decide
      · exact hdigits c (List.mem_of_mem_drop hc)
    · intro c hc
      rcases List.mem_cons.mp hc with rfl | hc
      · decide
      rcases List.mem_cons.mp hc with rfl | hc
      · decide
      rcases List.mem_append.mp hc with hc | hc
      · rw [List.eq_of_mem_replicate hc]
        decide
      · exact hdigits c hc
  · intro c hc
    rcases List.mem_append.mp hc with hc | hc
    · unfold Scaled.scientificDigits at hc
      split at hc
      · cases hc
      · exact hdigits c hc
      · rcases List.mem_cons.mp hc with rfl | hc
        · exact hdigits _ List.mem_cons_self
        rcases List.mem_cons.mp hc with rfl | hc
        · decide
        · exact hdigits c (List.mem_cons_of_mem _ hc)
    · unfold Scaled.exponentText at hc
      rcases List.mem_cons.mp hc with rfl | hc
      · decide
      rcases List.mem_cons.mp hc with rfl | hc
      · split <;> decide
      · exact hpower c hc

theorem isAscii_toText (d : Decimal) : IsAscii d.toText := by
  cases d with
  | finite d =>
      refine isAscii_ofList ?_
      unfold Scaled.toChars
      split
      · exact List.forall_mem_cons.mpr ⟨by decide, ascii_magnitudeText d⟩
      · exact ascii_magnitudeText d
  | infinite negative => cases negative <;> decide
  | undefined negative signals payload =>
      have hpayload : IsAscii (payloadText payload) := by
        unfold payloadText
        split
        · decide
        · exact isAscii_natText payload
      refine isAscii_append ?_ hpayload
      cases negative <;> cases signals <;> decide

end Decimal
end BlockScript
