import BlockScript.Proofs.Grammar.Literals
import BlockScript.Proofs.Running.Holdings
import BlockScript.Proofs.Running.Operations

/-!
# Decimals of a program stay fractional

Every decimal that a source text has as a literal has digits behind its point, and the
operators of the language make only such decimals from such ones.  So all decimals that a run
of the text comes across are finite with a negative exponent, in variables, in lists and as
results on the way.

No operation is refused to them for being special, any two of them are ordered, and the text of
one is never that of an integer.
-/

namespace BlockScript
namespace Running

variable {settings : Settings} {heap : Heap} {a b v : Value}

section Operators

theorem textOf_ne_specialOperand : textOf settings heap v ≠ .error .specialOperand := by
  intro h
  rcases textOf_eq_error h with he | he | he <;> cases he

theorem valuesEqual_ne_specialOperand :
    valuesEqual settings heap a b ≠ .error .specialOperand := by
  unfold valuesEqual
  split <;> exact nofun

/-- A result holds no decimal but a fractional one, or it is missing for a reason that is none
of the operands. -/
def GivesFractions (r : Except RunFailure Value) : Prop :=
  (∀ v, r = .ok v → v.Only Scalar.IsFractional) ∧ r ≠ .error .specialOperand

theorem givesFractions_ok (h : v.Only Scalar.IsFractional) : GivesFractions (.ok v) := by
  refine ⟨?_, nofun⟩
  rintro _ ⟨rfl⟩
  exact h

theorem givesFractions_error {e : RunFailure} (h : e ≠ .specialOperand) :
    GivesFractions (.error e) := by
  refine ⟨nofun, ?_⟩
  rintro ⟨rfl⟩
  exact h rfl

theorem givesFractions_decimalResult {r : Except DecimalFault Decimal}
    (h : Decimal.StaysFractional r) : GivesFractions (decimalResult r) := by
  obtain ⟨hok, hspecial⟩ := h
  cases r with
  | ok d => exact givesFractions_ok (hok d rfl)
  | error fault =>
      cases fault with
      | special => exact absurd rfl hspecial
      | _ => exact givesFractions_error nofun

theorem givesFractions_decimalArithmetic (operator : String) {c d : Decimal}
    (hc : c.IsFractional) (hd : d.IsFractional) :
    GivesFractions (decimalArithmetic operator c d) := by
  unfold decimalArithmetic
  split
  · exact givesFractions_decimalResult (Decimal.staysFractional_add hc hd)
  split
  · exact givesFractions_decimalResult (Decimal.staysFractional_sub hc hd)
  split
  · exact givesFractions_decimalResult (Decimal.staysFractional_mul hc hd)
  split
  · exact givesFractions_error nofun
  split
  · exact givesFractions_error nofun
  · exact givesFractions_decimalResult (Decimal.staysFractional_divide hc hd)

/-- Operators make only fractional decimals from fractional ones. -/
theorem givesFractions_operate (operator : String) (ha : a.Only Scalar.IsFractional)
    (hb : b.Only Scalar.IsFractional) : GivesFractions (operate settings heap operator a b) := by
  have happlied := applied_operate settings heap operator a b
  generalize operate settings heap operator a b = r at happlied ⊢
  cases happlied with
  | truth | joined | integer => exact givesFractions_ok trivial
  | raised | undefinedOrder | noOrder => exact givesFractions_error nofun
  | unequated hequal =>
      exact givesFractions_error fun he => valuesEqual_ne_specialOperand (he ▸ hequal)
  | leftText htext | rightText htext =>
      exact givesFractions_error fun he => textOf_ne_specialOperand (he ▸ htext)
  | decimal _ hc hd =>
      subst hc hd
      exact givesFractions_decimalArithmetic operator ha hb

/-- The language keeps decimals fractional. -/
theorem preserved_isFractional (settings : Settings) : Preserved settings Scalar.IsFractional where
  nil := trivial
  boolean _ := trivial
  tree _ _ _ value := by cases value <;> trivial
  operate _ operator _ _ v _ ha hb h := (givesFractions_operate operator ha hb).1 v h
  text _ _ _ _ _ _ := trivial
  composes := Text.composes_true

/-- Fractional decimals have an order. -/
theorem ordered_decimals {c d : Decimal} (hc : c.IsFractional) (hd : d.IsFractional)
    (operator : String) (wanted : Ordering) :
    ∃ truth, ordered operator wanted (.scalar (.decimal c)) (.scalar (.decimal d)) =
      .ok (.boolean truth) := by
  obtain ⟨order, horder⟩ := Decimal.order?_eq_some hc hd
  refine ⟨order == wanted, ?_⟩
  simp only [ordered, Scalar.comparable, Scalar.order, horder, Scalar.orderOr, if_true]

/-- The text of a fractional decimal shows its fraction and is not read as an integer. -/
theorem textOf_decimal {d : Decimal} (hd : d.IsFractional) :
    ∃ text, textOf settings heap (.scalar (.decimal d)) = .ok text ∧
      Scaled.ShowsFraction text.toList ∧ Text.readInt? text.toList = none := by
  have hshows := Decimal.showsFraction_toText hd
  refine ⟨d.toText, ?_, hshows, hshows.readInt?_eq_none⟩
  unfold textOf Heap.text
  rfl

end Operators

section Points

variable {δ : Type}

/-- The run of a point comes to apply an operator to two values. -/
inductive Point.Applies (settings : Settings) : Point δ → String → Value → Value → Machine → Prop
  | intro {steps calls : Nat} {operator : Name} {l r : Node} {a b : Value}
      {m m₁ m₂ : Machine} {d : δ} :
      evaluate settings steps calls l m = (.ok a, m₁) →
      operator.text ≠ "&&" → operator.text ≠ "||" →
      evaluate settings steps calls r m₁ = (.ok b, m₂) →
      Applies settings ⟨.expression, steps + 1, calls, .binary operator l r, m, d⟩ operator.text
        a b m₂

variable {P : Scalar → Prop} {p : Point δ} {operator : String} {m : Machine}

theorem Point.Applies.only (hP : Preserved settings P) (h : p.Applies settings operator a b m)
    (hp : p.Only P) : a.Only P ∧ b.Only P := by
  cases h with
  | @intro steps calls _ l r _ _ _ _ _ _ hleft _ _ hright =>
      obtain ⟨hm, _, hl, hr⟩ := hp
      have hl' := evaluates hP steps calls l hl
      have hr' := evaluates hP steps calls r hr
      exact ⟨hl'.gives hm hleft, hr'.gives (hl'.only hm hleft) hright⟩

end Points

/-- **Decimals of a source text stay finite and fractional.** At every point that a run of the
text reaches, checked or not, all decimals are, in variables, lists and functions and as
results, and so are those that the run leaves, however it ends.  No operator finds a special
operand.  Any two such decimals have a precision, a quotient that is not refused to them and an
order, and the text of one has a point or a negative power of ten, so that it does not read as
an integer. -/
theorem decimals_stay_fractional {text : String} {tree : Node}
    (hparse : Grammar.parseProgram text = .ok tree) (settings : Settings) (steps : Nat)
    (trace : Trace) {surroundings : List Scope} {heap : Heap}
    (hscopes : ∀ s ∈ surroundings,
      s.Every (Value.Only Scalar.IsFractional) (Function.Only Scalar.IsFractional))
    (hheap : heap.Every (Value.Only Scalar.IsFractional)) :
    (∀ p, Reached settings .trivial steps tree (.start surroundings heap trace) () p →
      p.machine.Only Scalar.IsFractional ∧
      (∀ v m, p.Ends settings v m →
        m.Only Scalar.IsFractional ∧ v.Only Scalar.IsFractional) ∧
      ∀ operator a b m, p.Applies settings operator a b m →
        a.Only Scalar.IsFractional ∧ b.Only Scalar.IsFractional ∧
          operate settings m.heap operator a b ≠ .error .specialOperand) ∧
    (∀ r m, runProgram settings steps tree (.start surroundings heap trace) = (r, m) →
      m.Only Scalar.IsFractional ∧ ∀ v, r = .ok v → v.Only Scalar.IsFractional) ∧
    ∀ d : Decimal, d.IsFractional →
      (∀ heap, ∃ text, textOf settings heap (.scalar (.decimal d)) = .ok text ∧
        Scaled.ShowsFraction text.toList ∧ Text.readInt? text.toList = none) ∧
      ∀ d' : Decimal, d'.IsFractional →
        (∃ n, d.exactPrecision d' = .ok n) ∧ d.divide d' ≠ .error .special ∧
          ∀ operator wanted, ∃ truth,
            ordered operator wanted (.scalar (.decimal d)) (.scalar (.decimal d')) =
              .ok (.boolean truth) := by
  have hP := preserved_isFractional settings
  have hliterals := Grammar.literals_of_parse hparse
  have hstart : (Machine.start surroundings heap trace).Only Scalar.IsFractional :=
    .start hscopes hheap trace
  refine ⟨?_, ?_, ?_⟩
  · intro p hp
    have honly := hp.only hP hliterals hstart
    refine ⟨honly.machine, fun v m hends => hends.only hP honly, ?_⟩
    intro operator a b m happlies
    obtain ⟨ha, hb⟩ := happlies.only hP honly
    exact ⟨ha, hb, (givesFractions_operate operator ha hb).2⟩
  · intro r m hrun
    have hruns := twinned_runProgram (harmless_eq settings _) hP steps hliterals
    refine ⟨hruns.only hstart hrun, ?_⟩
    rintro v rfl
    exact hruns.gives hstart hrun
  · intro d hd
    refine ⟨fun _ => textOf_decimal hd, fun d' hd' => ⟨?_, ?_, ?_⟩⟩
    · exact Decimal.exactPrecision_eq_ok hd hd'
    · exact (Decimal.staysFractional_divide hd hd').2
    · exact ordered_decimals hd hd'

/-- A text that divides and multiplies decimals, with a list among the places that hold them. -/
def thirdsText : String :=
  "LIST parts = [0.10, 3.0]; FUN main(): Decimal DO parts[0] = parts[0] / parts[1]; " ++
    "RETURN parts[0] * 0.5; END"

/-- How the run of a text ends. -/
def endOf? (text : String) : Option (Except RunFailure Value × Machine) :=
  (Grammar.parseProgram text).toOption.map fun tree =>
    runProgram .standard 20 tree (.start [] .empty (.start 0))

/-- Whether a run ends with a decimal. -/
def endsWith (d : Decimal) : Option (Except RunFailure Value × Machine) → Bool
  | some (.ok (.scalar (.decimal d')), _) => decide (d' = d)
  | _ => false

theorem exists_of_endsWith {text : String} {d : Decimal} (h : endsWith d (endOf? text) = true) :
    ∃ tree m, Grammar.parseProgram text = .ok tree ∧
      runProgram .standard 20 tree (.start [] .empty (.start 0)) =
        (.ok (.scalar (.decimal d)), m) := by
  unfold endOf? at h
  cases hparse : Grammar.parseProgram text with
  | error e =>
      rw [hparse] at h
      cases h
  | ok tree =>
      rw [hparse] at h
      unfold endsWith at h
      split at h
      · rename_i d' m hrun
        obtain rfl : d' = d := of_decide_eq_true h
        exact ⟨tree, m, rfl, Option.some.inj hrun⟩
      · cases h

/-- The sample ends with a decimal of three digits behind the point, and its list is left with
fractional decimals only. -/
theorem thirdsText_stays_fractional :
    ∃ tree m, Grammar.parseProgram thirdsText = .ok tree ∧
      runProgram .standard 20 tree (.start [] .empty (.start 0)) =
        (.ok (.scalar (.decimal (.finite ⟨false, 15, -3⟩))), m) ∧
      m.Only Scalar.IsFractional := by
  have hends : endsWith (.finite ⟨false, 15, -3⟩) (endOf? thirdsText) = true := by
    decide +kernel
  obtain ⟨tree, m, hparse, hrun⟩ := exists_of_endsWith hends
  have hholds := (decimals_stay_fractional hparse .standard 20 (.start 0)
    (List.forall_mem_nil _) Heap.every_empty).2.1 _ m hrun
  exact ⟨tree, m, hparse, hrun, hholds.1⟩

end Running
end BlockScript
