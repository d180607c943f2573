import BlockScript.Proofs.Tree.Shape
import BlockScript.Running.Operator
import BlockScript.Typing.Operator

/-!
# Operators on typed values

An operator between plain scalars gives a plain scalar of the type that checking gives it,
or fails in a tolerated way: a program that keeps to its types fails only where the values
themselves, the depth of calls or the size of numbers bring it to an end.
-/

namespace BlockScript

namespace RunFailure

/-- A decimal leaves the range of exponents or of digits that decimals have. -/
def LeavesRange (e : RunFailure) : Prop := e = .overflow ∨ e = .outOfReach ∨ e = .undefinedResult

/-- A failure that no types rule out: a division by zero, a negative exponent, the order of
two nils, calls that nest too deep, and a number that is too long or out of range.  A run
that writes to files may also meet a text without a written form, but only with halves of
surrogate pairs in it (`runProgram_ne_unwritable`), and a run is given up where no steps are
left. -/
inductive IsTolerated (settings : Settings) : RunFailure → Prop
  | divisionByZero : IsTolerated settings (.raised .divisionByZero)
  | negativeExponent : IsTolerated settings (.raised .negativeExponent)
  | orderOfNils {operator : String} : operator = "<" ∨ operator = ">" →
      IsTolerated settings (.raised (.notComparable operator .nil .nil))
  | stackOverflow {function : String} {arity : Nat} :
      IsTolerated settings (.raised (.stackOverflow function arity))
  | numeral : IsTolerated settings .numeral
  | range {e : RunFailure} : e.LeavesRange → IsTolerated settings e
  | unwritable : settings.strict = true → IsTolerated settings .unwritable
  | exhausted : IsTolerated settings .exhausted

end RunFailure

/-- A value is a plain scalar of a type. -/
def Value.HasType (v : Value) (type : Option StaticType) : Prop :=
  ∃ s : Scalar, v = .scalar s ∧ s.IsPlain ∧ type = some s.type

/-- A result has a type, or its failure is tolerated. -/
def Typing.Suits (settings : Settings) (r : Except RunFailure Value)
    (type : Option StaticType) : Prop :=
  (∀ v, r = .ok v → v.HasType type) ∧ ∀ e, r = .error e → e.IsTolerated settings

namespace Running

open Typing RunFailure

variable {settings : Settings} {heap : Heap}

section Results

theorem suits_ok {s : Scalar} (hs : s.IsPlain) :
    Suits settings (.ok (.scalar s)) (some s.type) := by
  refine ⟨?_, nofun⟩
  rintro v h
  cases h
  exact ⟨s, rfl, hs, rfl⟩

theorem suits_error {e : RunFailure} {type : Option StaticType} (he : e.IsTolerated settings) :
    Suits settings (.error e) type := by
  refine ⟨nofun, ?_⟩
  rintro e' h
  cases h
  exact he

theorem hasType_boolean {v : Value} (h : v.HasType (some .boolean)) : ∃ b, v = .boolean b := by
  obtain ⟨s, rfl, _, htype⟩ := h
  cases s with
  | boolean b => exact ⟨b, rfl⟩
  | _ => cases htype

theorem text_error {s : Scalar} (hs : s.IsPlain) {e : TextFault} (h : s.text = .error e) :
    e = .numeral := by
  unfold Scalar.text at h
  split at h
  · cases h
  · cases h
  · split at h
    · cases h
    · cases h
      rfl
  · cases h
  · cases h
  · rename_i c hc
    cases c with
    | string text => exact (hc text rfl).elim
    | _ => cases hs
  · cases h
  · cases hs

theorem textOf_error {s : Scalar} (hs : s.IsPlain) {e : RunFailure}
    (h : textOf settings heap (.scalar s) = .error e) : e = .numeral := by
  unfold textOf Heap.text at h
  cases htext : s.text with
  | ok text =>
      rw [htext] at h
      cases h
  | error fault =>
      rw [htext, text_error hs htext] at h
      cases h
      rfl

theorem refuse_eq_false {a b : Scalar} (ha : a.IsPlain) (hb : b.IsPlain) :
    a.refuse b = false := by
  cases a with
  | decimal d =>
      cases b with
      | decimal d' =>
          cases d with
          | finite => cases d' with
            | finite => rfl
            | _ => cases hb
          | _ => cases ha
      | _ => rfl
  | _ => rfl

/-- Plain scalars are compared without a failure. -/
theorem valuesEqual_plain {a b : Scalar} (ha : a.IsPlain) (hb : b.IsPlain) :
    ∃ answer, valuesEqual settings heap (.scalar a) (.scalar b) = .ok answer := by
  unfold valuesEqual Heap.equal
  rw [refuse_eq_false ha hb]
  exact ⟨_, rfl⟩

end Results

section Decimals

theorem suits_exact {operation : Scaled → Scaled → Except DecimalFault Scaled} (a b : Scaled)
    (hoperation : ∀ fault, operation a b = .error fault →
      fault = .overflow ∨ fault = .outOfReach) :
    Suits settings (decimalResult (Decimal.exact operation (.finite a) (.finite b)))
      (some .decimal) := by
  unfold Decimal.exact
  dsimp only
  split
  · exact suits_error .numeral
  · cases hresult : operation a b with
    | error fault =>
        rcases hoperation fault hresult with rfl | rfl
        · exact suits_error (.range (Or.inl rfl))
        · exact suits_error (.range (Or.inr (Or.inl rfl)))
    | ok d =>
        dsimp only [bind, Except.bind]
        cases d.settled (a.exactPrecision b) with
        | some d => exact suits_ok trivial
        | none => exact suits_error (.range (Or.inl rfl))

theorem aligned_error {operation : Scaled → Scaled → Scaled} {a b : Scaled}
    {fault : DecimalFault} (h : Decimal.aligned operation a b = .error fault) :
    fault = .overflow ∨ fault = .outOfReach := by
  unfold Decimal.aligned at h
  split at h
  · cases h
    exact Or.inr rfl
  · split at h
    · cases h
      exact Or.inl rfl
    · cases h

theorem convertible_error {n : Nat} {fault : DecimalFault}
    (h : Decimal.convertible n = .error fault) : fault = .numeral := by
  unfold Decimal.convertible at h
  split at h
  · cases h
  · cases h
    rfl

/-- A quotient of finite decimals is finite, too long or out of range. -/
theorem suits_divide (a b : Scaled) (hb : b.isZero = false) :
    Suits settings (decimalResult (Decimal.divide (.finite a) (.finite b))) (some .decimal) := by
  unfold Decimal.divide Decimal.divisionCoefficient
  dsimp only
  cases ha : Decimal.convertible a.coefficient with
  | error fault =>
      rw [convertible_error ha]
      exact suits_error .numeral
  | ok n =>
      cases hn : Decimal.convertible b.coefficient with
      | error fault =>
          rw [convertible_error hn]
          exact suits_error .numeral
      | ok n' =>
          simp only [bind, Except.bind, hb, Bool.false_eq_true, if_false]
          cases hq : Decimal.convertible (Scaled.quotientCoefficient ⟨false, n, 0⟩ b) with
          | error fault =>
              rw [convertible_error hq]
              exact suits_error .numeral
          | ok q =>
              dsimp only
              split
              · exact suits_ok trivial
              · exact suits_error (.range (Or.inr (Or.inr rfl)))

end Decimals

section Operators

variable {a b : Scalar}

theorem integer_of_type (h : a.type = .integer) : ∃ n, a = .integer n := by
  cases a with
  | integer n => exact ⟨n, rfl⟩
  | _ => cases h

theorem decimal_of_type (ha : a.IsPlain) (h : a.type = .decimal) :
    ∃ d, a = .decimal (.finite d) := by
  cases a with
  | decimal d =>
      cases d with
      | finite d => exact ⟨d, rfl⟩
      | _ => cases ha
  | _ => cases h

/-- Two operands of one type of numbers are integers or finite decimals. -/
theorem numbers_of_sameNumbers (ha : a.IsPlain) (hb : b.IsPlain)
    (h : sameNumbers (some a.type) (some b.type) = true) :
    (∃ m n, a = .integer m ∧ b = .integer n) ∨
      ∃ c d, a = .decimal (.finite c) ∧ b = .decimal (.finite d) := by
  simp only [sameNumbers, Bool.and_eq_true, Bool.or_eq_true, beq_iff_eq,
    Option.some.injEq] at h
  obtain ⟨hsame, htype⟩ := h
  rcases htype with hinteger | hdecimal
  · obtain ⟨m, hm⟩ := integer_of_type hinteger
    obtain ⟨n, hn⟩ := integer_of_type (hsame ▸ hinteger)
    exact Or.inl ⟨m, n, hm, hn⟩
  · obtain ⟨c, hc⟩ := decimal_of_type ha hdecimal
    obtain ⟨d, hd⟩ := decimal_of_type hb (hsame ▸ hdecimal)
    exact Or.inr ⟨c, d, hc, hd⟩

theorem suits_integerArithmetic (operator : String) (m n : Int) :
    Suits settings (integerArithmetic operator m n) (some .integer) := by
  have hinteger (k : Int) : Suits settings (.ok (.scalar (.integer k))) (some .integer) :=
    suits_ok trivial
  unfold integerArithmetic
  split
  · exact hinteger _
  split
  · exact hinteger _
  split
  · exact hinteger _
  split
  · exact suits_error .divisionByZero
  · exact hinteger _

theorem suits_decimalArithmetic (operator : String) (c d : Scaled) :
    Suits settings (decimalArithmetic operator (.finite c) (.finite d)) (some .decimal) := by
  unfold decimalArithmetic
  split
  · exact suits_exact c d fun _ h => aligned_error h
  split
  · exact suits_exact c d fun _ h => aligned_error h
  split
  · exact suits_exact c d fun _ h => by cases h
  split
  · rename_i hsignals
    cases hsignals
  split
  · exact suits_error .divisionByZero
  · rename_i hzero
    exact suits_divide c d (by simpa [Decimal.isZero] using hzero)

theorem suits_arithmetic (operator : String) (ha : a.IsPlain) (hb : b.IsPlain)
    (h : sameNumbers (some a.type) (some b.type) = true) :
    Suits settings (arithmetic operator (.scalar a) (.scalar b)) (some a.type) := by
  rcases numbers_of_sameNumbers ha hb h with ⟨m, n, rfl, rfl⟩ | ⟨c, d, rfl, rfl⟩
  · exact suits_integerArithmetic operator m n
  · exact suits_decimalArithmetic operator c d

theorem isString_iff : isString (.scalar a) = true ↔ a.type = .string := by
  cases a <;> simp [isString, Scalar.type]

theorem suits_sum (ha : a.IsPlain) (hb : b.IsPlain) {type : Option StaticType}
    (h : binaryType "+" (some a.type) (some b.type) = .ok type) :
    Suits settings (sum settings heap (.scalar a) (.scalar b)) type := by
  unfold binaryType at h
  rw [if_neg (by decide), if_pos rfl] at h
  unfold sum
  by_cases hstring : some a.type = some StaticType.string ∨ some b.type = some StaticType.string
  · rw [if_pos hstring] at h
    cases h
    have hjoin : (isString (.scalar a) || isString (.scalar b)) = true := by
      rw [Bool.or_eq_true, isString_iff, isString_iff]
      simpa using hstring
    rw [if_pos hjoin]
    cases hs : textOf settings heap (.scalar a) with
    | error e =>
        rw [textOf_error ha hs]
        exact suits_error .numeral
    | ok s =>
        cases ht : textOf settings heap (.scalar b) with
        | error e =>
            rw [textOf_error hb ht]
            exact suits_error .numeral
        | ok t => exact suits_ok (s := .string (s ++ t)) trivial
  · rw [if_neg hstring] at h
    have hjoin : (isString (.scalar a) || isString (.scalar b)) ≠ true := by
      rw [Ne, Bool.or_eq_true, isString_iff, isString_iff]
      simpa using hstring
    rw [if_neg hjoin]
    split at h
    · rename_i hsame
      cases h
      exact suits_arithmetic "+" ha hb hsame
    · cases h

theorem suits_power (hm : a.type = .integer) (hn : b.type = .integer) :
    Suits settings (power (.scalar a) (.scalar b)) (some .integer) := by
  obtain ⟨m, rfl⟩ := integer_of_type hm
  obtain ⟨n, rfl⟩ := integer_of_type hn
  unfold power
  dsimp only
  split
  · exact suits_error .negativeExponent
  · exact suits_ok (s := .integer (m ^ n.toNat)) trivial

/-- Plain scalars of one type have an order unless they are nil. -/
theorem order_of_comparable (ha : a.IsPlain) (hb : b.IsPlain) (h : a.comparable b = true) :
    ∃ order, a.order b = .ok order := by
  unfold Scalar.comparable at h
  split at h
  · exact ⟨_, rfl⟩
  · exact ⟨_, rfl⟩
  · rename_i c d
    cases c with
    | finite c =>
        cases d with
        | finite d => exact ⟨_, rfl⟩
        | _ => cases hb
    | _ => cases ha
  · rename_i c d
    cases c with
    | string c =>
        cases d with
        | string d =>
            exact ⟨Text.compareTexts c d, by simp [Scalar.order, Json.order?, Scalar.orderOr]⟩
        | _ => cases hb
    | _ => cases ha
  · exact ⟨_, rfl⟩
  · cases h

theorem nil_of_not_comparable (ha : a.IsPlain) (hsame : a.type = b.type)
    (h : a.comparable b ≠ true) : a.type = .nil := by
  cases a with
  | nil => rfl
  | «foreign» => cases ha
  | _ =>
      cases b with
      | nil | boolean | integer | decimal | character | string | «foreign» =>
          first
          | exact absurd rfl h
          | cases hsame

theorem suits_ordered {operator : String} (wanted : Ordering) (ha : a.IsPlain) (hb : b.IsPlain)
    (hsame : a.type = b.type) (hoperator : operator = "<" ∨ operator = ">") :
    Suits settings (ordered operator wanted (.scalar a) (.scalar b)) (some .boolean) := by
  unfold ordered
  dsimp only
  split
  · rename_i hcomparable
    obtain ⟨order, horder⟩ := order_of_comparable ha hb hcomparable
    rw [horder]
    exact suits_ok (s := .boolean (order == wanted)) trivial
  · rename_i hcomparable
    have hnil := nil_of_not_comparable ha hsame hcomparable
    have hnil' : b.type = .nil := hsame ▸ hnil
    simp only [Value.type, hnil, hnil']
    exact suits_error (.orderOfNils hoperator)

theorem suits_map {f : Bool → Bool} (ha : a.IsPlain) (hb : b.IsPlain) :
    Suits settings ((valuesEqual settings heap (.scalar a) (.scalar b)).map fun answer =>
      .boolean (f answer)) (some .boolean) := by
  obtain ⟨answer, hanswer⟩ : ∃ answer,
      valuesEqual settings heap (.scalar a) (.scalar b) = .ok answer := valuesEqual_plain ha hb
  rw [hanswer]
  exact suits_ok (s := .boolean (f answer)) trivial

/-- Every operator but `&&` and `||` suits its type. -/
theorem suits_operate {operator : String} (hand : operator ≠ "&&") (hor : operator ≠ "||")
    (ha : a.IsPlain) (hb : b.IsPlain) {type : Option StaticType}
    (h : binaryType operator (some a.type) (some b.type) = .ok type) :
    Suits settings (operate settings heap operator (.scalar a) (.scalar b)) type := by
  by_cases hsum : operator = "+"
  · subst hsum
    exact suits_sum ha hb h
  unfold binaryType at h
  rw [if_neg (by simp [hand, hor]), if_neg hsum] at h
  by_cases harithmetic : operator ∈ arithmeticOperators
  · rw [if_pos harithmetic] at h
    split at h
    · rename_i hsame
      cases h
      have hsuits : Suits settings (arithmetic operator (.scalar a) (.scalar b)) (some a.type) :=
        suits_arithmetic operator ha hb hsame
      simp only [arithmeticOperators, List.mem_cons, List.not_mem_nil, or_false] at harithmetic
      rcases harithmetic with rfl | rfl | rfl <;> exact hsuits
    · cases h
  rw [if_neg harithmetic] at h
  by_cases hpower : operator = "^"
  · subst hpower
    rw [if_pos rfl] at h
    split at h
    · rename_i hintegers
      cases h
      exact suits_power (Option.some.inj hintegers.1) (Option.some.inj hintegers.2)
    · cases h
  rw [if_neg hpower] at h
  by_cases hcomparison : operator ∈ comparisonOperators
  · rw [if_pos hcomparison] at h
    split at h
    · rename_i hsame
      cases h
      have hsame' := Option.some.inj hsame
      simp only [comparisonOperators, List.mem_cons, List.not_mem_nil, or_false] at hcomparison
      rcases hcomparison with rfl | rfl | rfl | rfl
      · exact suits_ordered .lt ha hb hsame' (Or.inl rfl)
      · exact suits_ordered .gt ha hb hsame' (Or.inr rfl)
      · exact suits_map (f := id) ha hb
      · exact suits_map (f := not) ha hb
    · cases h
  · rw [if_neg hcomparison] at h
    cases h

end Operators

end Running
end BlockScript
