import BlockScript.Proofs.Tree.Placement
import BlockScript.Running.Operator

/-!
# What operators come to

An operator on two values gives a truth value, a joined text or a number, or it fails: with an
error of the language, because of its operands, or because the text of an operand or the
comparison of both fails.  `applied_operate` lists these outcomes with their reasons, so that
what is to be said of operators is said outcome by outcome.
-/

namespace BlockScript

namespace RunFailure

/-- A name is not bound, is bound already, or must not be assigned to. -/
def IsResolution : RunFailure → Prop
  | .raised (.scope _) => True
  | .raised .missingMain => True
  | .raised (.immutableTarget _) => True
  | _ => False

/-- A failure that is neither one of names, nor one of depth, nor one of writing. -/
structure ConcernsOperands (e : RunFailure) : Prop where
  resolved : ¬ e.IsResolution
  ended : e ≠ .endless
  written : e ≠ .unwritable

end RunFailure

namespace Running

/-- An error of the language that is about operands. -/
inductive OperandError : RunError → Prop
  | divisionByZero : OperandError .divisionByZero
  | negativeExponent : OperandError .negativeExponent
  | powerOperands (s t : StaticType) : OperandError (.powerOperands s t)
  | notComparable (operator : String) (s t : StaticType) :
      OperandError (.notComparable operator s t)
  | invalidOperands (operator : String) (s t : StaticType) :
      OperandError (.invalidOperands operator s t)
  | unsupportedOperator (operator : String) : OperandError (.unsupportedOperator operator)

/-- What an operator on two values comes to. -/
inductive Applied (settings : Settings) (heap : Heap) (operator : String) (a b : Value) :
    Except RunFailure Value → Prop
  | raised {error : RunError} : OperandError error →
      Applied settings heap operator a b (raise error)
  | truth (answer : Bool) : Applied settings heap operator a b (.ok (.boolean answer))
  | unequated {e : RunFailure} : valuesEqual settings heap a b = .error e →
      Applied settings heap operator a b (.error e)
  | undefinedOrder {s t : Scalar} : a = .scalar s → b = .scalar t → s.comparable t = true →
      s.order t = .error .undefined → Applied settings heap operator a b (.error .undefinedResult)
  | noOrder {s t : Scalar} : a = .scalar s → b = .scalar t → s.comparable t = true →
      s.order t = .error .unordered → Applied settings heap operator a b (.error .wrongShape)
  | joined {s t : String} : textOf settings heap a = .ok s → textOf settings heap b = .ok t →
      Applied settings heap operator a b (.ok (.scalar (.string (s ++ t))))
  | leftText {e : RunFailure} : textOf settings heap a = .error e →
      Applied settings heap operator a b (.error e)
  | rightText {e : RunFailure} : textOf settings heap b = .error e →
      Applied settings heap operator a b (.error e)
  | integer (n : Int) : operator ∈ Node.arithmeticOperators →
      Applied settings heap operator a b (.ok (.scalar (.integer n)))
  | decimal {c d : Decimal} : operator ∈ Node.arithmeticOperators → a = .scalar (.decimal c) →
      b = .scalar (.decimal d) → Applied settings heap operator a b (decimalArithmetic operator c d)

variable {settings : Settings} {heap : Heap} {operator : String} {a b : Value} {e : RunFailure}

theorem applied_valuesEqual (f : Bool → Bool) : Applied settings heap operator a b
    ((valuesEqual settings heap a b).map fun answer => .boolean (f answer)) := by
  cases hequal : valuesEqual settings heap a b with
  | ok answer => exact .truth _
  | error e => exact .unequated hequal

theorem applied_arithmetic (h : operator ∈ Node.arithmeticOperators) :
    Applied settings heap operator a b (arithmetic operator a b) := by
  unfold arithmetic
  split
  · unfold integerArithmetic
    split
    · exact .integer _ h
    split
    · exact .integer _ h
    split
    · exact .integer _ h
    split
    · exact .raised .divisionByZero
    · exact .integer _ h
  · exact .decimal h rfl rfl
  · exact .raised (.invalidOperands _ _ _)

theorem applied_sum : Applied settings heap "+" a b (sum settings heap a b) := by
  unfold sum
  split
  · cases hs : textOf settings heap a with
    | error e => exact .leftText hs
    | ok s =>
        cases ht : textOf settings heap b with
        | error e => exact .rightText ht
        | ok t => exact .joined hs ht
  · exact applied_arithmetic (by decide)

theorem applied_power (h : operator ∈ Node.arithmeticOperators) :
    Applied settings heap operator a b (power a b) := by
  unfold power
  split
  · split
    · exact .raised .negativeExponent
    · exact .integer _ h
  · exact .raised (.powerOperands _ _)

theorem applied_ordered (wanted : Ordering) :
    Applied settings heap operator a b (ordered operator wanted a b) := by
  unfold ordered
  split
  · split
    · rename_i s t hcomparable
      cases horder : s.order t with
      | ok order => exact .truth _
      | error fault =>
          cases fault with
          | undefined => exact .undefinedOrder rfl rfl hcomparable horder
          | unordered => exact .noOrder rfl rfl hcomparable horder
    · exact .raised (.notComparable _ _ _)
  · exact .raised (.notComparable _ _ _)

/-- Every operator comes to one of the outcomes. -/
theorem applied_operate (settings : Settings) (heap : Heap) (operator : String) (a b : Value) :
    Applied settings heap operator a b (operate settings heap operator a b) := by
  unfold operate
  split
  · exact applied_valuesEqual id
  split
  · exact applied_valuesEqual not
  split
  · rename_i hsum
    subst hsum
    exact applied_sum
  split
  · rename_i hnumbers
    refine applied_arithmetic ?_
    rcases hnumbers with rfl | rfl | rfl <;> decide
  split
  · rename_i hpower
    exact applied_power (hpower ▸ by decide)
  split
  · exact applied_ordered .lt
  split
  · exact applied_ordered .gt
  · exact .raised (.unsupportedOperator _)

section Failures

theorem OperandError.concerns {error : RunError} (h : OperandError error) :
    (RunFailure.raised error).ConcernsOperands := by
  cases h <;> exact ⟨id, nofun, nofun⟩

theorem decimalResult_error {r : Except DecimalFault Decimal} (h : decimalResult r = .error e) :
    e.ConcernsOperands := by
  unfold decimalResult at h
  split at h
  · cases h
  all_goals
    cases h
    exact ⟨id, nofun, nofun⟩

theorem decimalArithmetic_error {c d : Decimal} (h : decimalArithmetic operator c d = .error e) :
    e.ConcernsOperands := by
  unfold decimalArithmetic at h
  split at h
  · exact decimalResult_error h
  split at h
  · exact decimalResult_error h
  split at h
  · exact decimalResult_error h
  split at h
  · cases h
    exact ⟨id, nofun, nofun⟩
  split at h
  · cases h
    exact ⟨id, nofun, nofun⟩
  · exact decimalResult_error h

/-- Arithmetic on decimals gives decimals. -/
theorem decimalArithmetic_ok {c d : Decimal} {v : Value}
    (h : decimalArithmetic operator c d = .ok v) : ∃ e, v = .scalar (.decimal e) := by
  have hresult : ∀ {r : Except DecimalFault Decimal}, decimalResult r = .ok v →
      ∃ e, v = .scalar (.decimal e) := by
    intro r hr
    unfold decimalResult at hr
    split at hr
    · cases hr
      exact ⟨_, rfl⟩
    all_goals cases hr
  unfold decimalArithmetic at h
  split at h
  · exact hresult h
  split at h
  · exact hresult h
  split at h
  · exact hresult h
  split at h
  · cases h
  split at h
  · cases h
  · exact hresult h

/-- An operator fails because of its operands, or because the text of an operand or the
comparison of both does. -/
theorem operate_error (h : operate settings heap operator a b = .error e) :
    e.ConcernsOperands ∨ textOf settings heap a = .error e ∨
      textOf settings heap b = .error e ∨ valuesEqual settings heap a b = .error e := by
  have happlied := applied_operate settings heap operator a b
  generalize operate settings heap operator a b = r at h happlied
  cases happlied with
  | raised herror =>
      cases h
      exact Or.inl herror.concerns
  | truth | joined | integer => cases h
  | undefinedOrder | noOrder =>
      cases h
      exact Or.inl ⟨id, nofun, nofun⟩
  | unequated hequal =>
      cases h
      exact Or.inr (Or.inr (Or.inr hequal))
  | leftText htext =>
      cases h
      exact Or.inr (Or.inl htext)
  | rightText htext =>
      cases h
      exact Or.inr (Or.inr (Or.inl htext))
  | decimal => exact Or.inl (decimalArithmetic_error h)

/-- A text is made where a walk gives one. -/
theorem textOf_eq_ok {value : Value} {text : String} :
    textOf settings heap value = .ok text ↔ heap.text settings.nesting value = .ok text := by
  unfold textOf
  split <;> simp_all

/-- Where no text is made, a list has no end, a numeral is too long or a character is no text. -/
theorem textOf_eq_error {value : Value} (h : textOf settings heap value = .error e) :
    e = .endless ∨ e = .numeral ∨ e = .wrongShape := by
  unfold textOf at h
  split at h <;> cases h
  · exact .inl rfl
  · exact .inr (.inl rfl)
  · exact .inr (.inr rfl)

theorem textOf_ne_unwritable {v : Value} : textOf settings heap v ≠ .error .unwritable := by
  intro h
  rcases textOf_eq_error h with he | he | he <;> cases he

theorem valuesEqual_ne_unwritable : valuesEqual settings heap a b ≠ .error .unwritable := by
  unfold valuesEqual
  split <;> exact nofun

theorem operate_ne_unwritable : operate settings heap operator a b ≠ .error .unwritable := by
  intro h
  rcases operate_error h with hoperands | htext | htext | hequal
  · exact hoperands.written rfl
  · exact textOf_ne_unwritable htext
  · exact textOf_ne_unwritable htext
  · exact valuesEqual_ne_unwritable hequal

end Failures

end Running
end BlockScript
