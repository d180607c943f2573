import BlockScript.Proofs.Decimal.Range
import BlockScript.Proofs.Grammar.Answers
import BlockScript.Proofs.Grammar.Spelling

/-!
# Numerals of source text

A numeral of source text is an optional minus and digits, with a point among them where it
is a decimal.  It has a value unless it is too long: an integer with more digits than are
converted, or a decimal whose digits lead beyond the range of exponents, which takes a text
of 10¹⁸ characters.

So a text is parsed, or the error says what is wrong with it, or it has a numeral of that
kind.
-/

namespace BlockScript

namespace Text

theorem ofDigits_cons_lt {n : Nat} {c : Char} (hc : isDigit c = true) {k : Nat}
    (hn : n < 10 ^ k) : 10 * n + digitValue c < 10 ^ (k + 1) := by
  have hvalue : digitValue c < 10 := by
    simp only [isDigit, Bool.and_eq_true, decide_eq_true_eq, Char.le_def,
      UInt32.le_iff_toNat_le] at hc
    have hhigh : c.toNat ≤ 57 := hc.2
    unfold digitValue
    omega
  rw [Nat.pow_succ]
  omega

/-- A row of digits denotes a number with no more digits. -/
theorem ofDigits_lt {ds : List Char} (hds : ∀ c ∈ ds, isDigit c = true) :
    ofDigits ds < 10 ^ ds.length := by
  have hfrom : ∀ n k, n < 10 ^ k → ofDigitsFrom n ds < 10 ^ (k + ds.length) := by
    induction ds with
    | nil => exact fun n k hn => hn
    | cons c ds ih =>
        intro n k hn
        have hmore := ih (fun c hc => hds c (List.mem_cons_of_mem _ hc)) (10 * n + digitValue c)
          (k + 1) (ofDigits_cons_lt (hds c List.mem_cons_self) hn)
        rw [List.length_cons, show k + (ds.length + 1) = k + 1 + ds.length by omega]
        exact hmore
  have hstart := hfrom 0 0 (by decide)
  rwa [Nat.zero_add] at hstart

theorem length_digits_ofDigits {ds : List Char} (hds : ∀ c ∈ ds, isDigit c = true)
    (hne : ds ≠ []) : (digits (ofDigits ds)).length ≤ ds.length := by
  have hlength := List.length_pos_iff.mpr hne
  by_cases hzero : ofDigits ds = 0
  · rw [hzero, digits_of_lt (by decide)]
    exact hlength
  · have hbelow : 10 ^ (digits (ofDigits ds)).length < 10 ^ (ds.length + 1) := by
      have hlow := pow_length_digits_le hzero
      have hhigh := ofDigits_lt hds
      rw [Nat.pow_succ]
      omega
    have := (Nat.pow_lt_pow_iff_right (by decide)).mp hbelow
    omega

/-- A numeral that is read can be written. -/
theorem intText?_of_readLooseInt? {cs : List Char} {n : Int} (h : readLooseInt? cs = some n) :
    intText? n ≠ none := by
  unfold readLooseInt? at h
  dsimp only at h
  obtain ⟨ds, hgrouped, h⟩ := Option.bind_eq_some_iff.mp h
  split at h
  · rename_i hlength
    have hbound : ofDigits ds < numeralBound :=
      Nat.lt_of_lt_of_le (ofDigits_lt (isDigit_of_groupedDigits hgrouped))
        (Nat.pow_le_pow_right (by decide) hlength)
    have habs : n.natAbs = ofDigits ds := by
      cases h
      split <;> simp
    rw [intText?, habs, if_pos hbound]
    exact nofun
  · cases h

end Text

namespace Token

/-- The digits of a token. -/
def digits (t : Token) : List Char := t.text.toList.filter Text.isDigit

end Token

namespace Token

/-- A token is a piece of the text, and a number among them is a numeral. -/
theorem isNumeral_of_scan {source : String} {tokens : List Token}
    (h : scan source = .ok tokens) :
    ∀ t ∈ tokens, t.text.toList.length ≤ source.toList.length ∧
      (t.kind = .integer ∨ t.kind = .decimal → IsNumeral t.kind t.text.toList) := by
  intro t ht
  have hcut := (Tiled.of_scan h).isCut t ht
  refine ⟨?_, ?_⟩
  · have hstop := hcut.stop_eq
    have hle := hcut.stop_le
    omega
  · obtain ⟨-, -, hnext⟩ := hcut
    simp only [ofLexeme, String.toList_ofList]
    exact Lexeme.isNumeral_next hnext

theorem filter_isSign {sign : List Char} (hsign : IsSign sign) :
    sign.filter Text.isDigit = [] := by
  rcases hsign with rfl | rfl <;> rfl

/-- An integer of source text has a value unless it has too many digits. -/
theorem digitLimit_lt_of_readLooseInt? {t : Token} (ht : IsNumeral .integer t.text.toList)
    (h : Text.readLooseInt? t.text.toList = none) : Text.digitLimit < t.digits.length := by
  rw [Text.readLooseInt?_of_plain ht.isPlain] at h
  unfold digits
  generalize t.text.toList = cs at ht h ⊢
  cases ht with
  | @integer sign ds hsign hds =>
      obtain ⟨negative, hsplit⟩ := splitSign_of_isSign hsign hds []
      rw [List.append_nil] at hsplit
      rw [List.filter_append, filter_isSign hsign, List.nil_append,
        List.filter_eq_self.mpr hds.2]
      unfold Text.readInt? at h
      rw [hsplit] at h
      dsimp only at h
      split at h
      · cases h
      · rename_i hlong
        refine Nat.lt_of_not_le fun hlength => hlong ⟨hds.1, List.all_eq_true.mpr hds.2, hlength⟩

/-- A decimal of source text has a value unless it has digits beyond the range of
exponents. -/
theorem length_of_ofText? {t : Token} (ht : IsNumeral .decimal t.text.toList)
    (h : Decimal.ofText? t.text = none) : 10 ^ 18 ≤ t.text.toList.length := by
  rw [ht.ofText?] at h
  generalize t.text.toList = cs at ht h ⊢
  cases ht with
  | @decimal sign whole fraction hsign hwhole hfraction =>
      obtain ⟨negative, hread⟩ := ofChars?_pointed hsign hwhole hfraction
      rw [hread, Decimal.finiteInRange?] at h
      split at h
      · cases h
      · -- The coefficient has no more digits than the text, and the scale is the number of those
        -- behind the point, so that a decimal out of range takes that many characters.
        rename_i hrange
        have hall : ∀ c ∈ whole ++ fraction, Text.isDigit c = true := fun c hc =>
          (List.mem_append.mp hc).elim (hwhole.2 c) (hfraction.2 c)
        have hdigits := Text.length_digits_ofDigits hall (by simp [hwhole.1])
        simp only [Scaled.isInRange, Bool.and_eq_true, decide_eq_true_eq] at hrange
        simp only [Scaled.adjustedExponent, Scaled.digitCount, Scaled.finestScale,
          Scaled.greatestPower] at hrange
        simp only [List.length_append, List.length_cons] at hdigits ⊢
        omega

/-- A literal of source text has a value, unless it is an integer with more digits than are
converted or a decimal of a length that no memory holds. -/
theorem overlong_of_valueless {source : String} {tokens : List Token}
    (hscan : scan source = .ok tokens) {t : Token} (ht : t ∈ tokens) {f : ParseFailure}
    (hvalue : Literal.ofToken t = .error f) :
    (f = .integerNumeral ∧ t.kind = .integer ∧ Text.digitLimit < t.digits.length) ∨
      (f = .decimalNumeral ∧ t.kind = .decimal ∧ 10 ^ 18 ≤ source.toList.length) := by
  obtain ⟨hlength, hnumeral⟩ := isNumeral_of_scan hscan t ht
  unfold Literal.ofToken at hvalue
  split at hvalue
  · rename_i hkind
    split at hvalue
    · cases hvalue
    · rename_i hread
      cases hvalue
      have hinteger := hnumeral (Or.inl hkind)
      rw [hkind] at hinteger
      exact Or.inl ⟨rfl, hkind, digitLimit_lt_of_readLooseInt? hinteger hread⟩
  · rename_i hkind
    split at hvalue
    · cases hvalue
    · rename_i hread
      cases hvalue
      have hdecimal := hnumeral (Or.inr hkind)
      rw [hkind] at hdecimal
      exact Or.inr ⟨rfl, hkind, Nat.le_trans (length_of_ofText? hdecimal hread) hlength⟩
  · cases hvalue
  · cases hvalue

end Token

namespace Grammar

/-- A text has an integer numeral with more digits than are converted. -/
def HasLongInteger (text : String) : Prop :=
  ∃ tokens, Token.scan text = .ok tokens ∧
    ∃ t ∈ tokens, t.kind = .integer ∧ Text.digitLimit < t.digits.length

/-- Why a text is not parsed: a malformed literal, a token that does not follow the grammar,
an integer that is too long to be converted, or a decimal of a length that no memory holds. -/
theorem reason_of_parseProgram {text : String} {f : SyntaxFailure}
    (h : parseProgram text = .error f) :
    (∃ e, f = .lexical e) ∨ (∃ e, f = .grammatical (.rejected e)) ∨
      (f = .grammatical .integerNumeral ∧ HasLongInteger text) ∨
      (f = .grammatical .decimalNumeral ∧ 10 ^ 18 ≤ text.toList.length) := by
  unfold parseProgram at h
  split at h
  · cases h
    exact Or.inl ⟨_, rfl⟩
  · rename_i tokens hscan
    split at h
    · rename_i failure hparse
      cases h
      rcases (isReasonIn_of_parse hparse).rejected_or_valueless with ⟨e, rfl⟩ | ⟨t, ht, hvalue⟩
      · exact Or.inr (Or.inl ⟨e, rfl⟩)
      rcases Token.overlong_of_valueless hscan ht hvalue with
        ⟨rfl, hkind, hlong⟩ | ⟨rfl, -, hlong⟩
      · exact Or.inr (Or.inr (Or.inl ⟨rfl, tokens, hscan, t, ht, hkind, hlong⟩))
      · exact Or.inr (Or.inr (Or.inr ⟨rfl, hlong⟩))
    · cases h

end Grammar
end BlockScript
