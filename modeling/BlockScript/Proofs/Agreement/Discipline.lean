import BlockScript.Proofs.Agreement.Operators
import BlockScript.Proofs.Running.Operations
import BlockScript.Proofs.Running.Rules
import BlockScript.Typing.Expression
import BlockScript.Typing.Statement

/-!
# Disciplines

How a run agrees with the check of its program is followed once for two purposes.  The one
discipline demands of values nothing, and so speaks of all programs, of which it shows that
their names are bound.  The other one demands that values have the types that checking
gives, and speaks of the programs that keep to what those types can say.
-/

namespace BlockScript

namespace Node

mutual

/-- Whether a statement ends the call that it belongs to, if it ends. -/
def returns : Node → Bool
  | returning _ => true
  | conditional _ thenBody elseBody => anyReturns thenBody && anyReturns elseBody
  | switch _ arms => !arms.isEmpty && allReturn arms
  | _ => false

/-- Whether some statement of a row returns. -/
def anyReturns : List Node → Bool
  | [] => false
  | node :: nodes => returns node || anyReturns nodes

/-- Whether the body of every case returns. -/
def allReturn : List Node → Bool
  | [] => true
  | arm _ body :: arms => anyReturns body && allReturn arms
  | _ :: _ => false

end

/-- A name of a type that says of its values which one they have. -/
def IsPrecise (typeName : Name) : Prop := typeName.text ≠ "Any" ∧ typeName.text ≠ "Comparable"

instance (typeName : Name) : Decidable (IsPrecise typeName) := inferInstanceAs (Decidable (_ ∧ _))

/-- A node that keeps to what types can say: it is no list and no index, a declaration has a
value, types are precise and given to all parameters, and a function returns unless its
type is nil. -/
def IsPrecisePart : Node → Prop
  | list _ => False
  | access _ offset => offset.isAbsent = true
  | global _ typeName _ value => value.isAbsent = false ∧ IsPrecise typeName
  | declaration _ typeName value => value.isAbsent = false ∧ IsPrecise typeName
  | function _ _ parameterTypes returnType body =>
      (∀ t ∈ parameterTypes, t.isMissing = false ∧ IsPrecise t) ∧ IsPrecise returnType ∧
        (returnType = .missing ∨ returnType.text = "Nil" ∨ anyReturns body = true)
  | _ => True

instance : DecidablePred IsPrecisePart
  | list _ => inferInstanceAs (Decidable False)
  | access _ offset => inferInstanceAs (Decidable (offset.isAbsent = true))
  | global _ typeName _ value | declaration _ typeName value =>
      inferInstanceAs (Decidable (value.isAbsent = false ∧ IsPrecise typeName))
  | function _ _ parameterTypes returnType body =>
      inferInstanceAs (Decidable ((∀ t ∈ parameterTypes, t.isMissing = false ∧ IsPrecise t) ∧
        IsPrecise returnType ∧
          (returnType = .missing ∨ returnType.text = "Nil" ∨ anyReturns body = true)))
  | absent | source _ _ | literal _ | group _ | binary _ _ _ | call _ _ | evaluation _
  | returning _ | assignment _ _ | conditional _ _ _ | loop _ _ | switch _ _ | arm _ _ =>
      inferInstanceAs (Decidable True)

end Node

/-- What is demanded of a run. -/
inductive Discipline
  /-- Names are bound. -/
  | names
  /-- Names are bound, and values have their types. -/
  | types
deriving DecidableEq

namespace Discipline

/-- A value meets what a discipline demands at a type. -/
def Fits : Discipline → Option StaticType → Value → Prop
  | names, _, _ => True
  | types, type, value => value.HasType type

/-- A failure that a discipline does not rule out. -/
def Accepts (settings : Settings) : Discipline → RunFailure → Prop
  | names, e => ¬ e.IsResolution
  | types, e => e.IsTolerated settings

/-- A name that neither a global nor the value of a switch has. -/
def Free (root : Scope) (name : Name) : Prop :=
  root.findVariable? name = none ∧ name.same Running.switchName = false

/-- A part of a program that a discipline speaks of, below the bindings of the root. -/
def Admits (root : Scope) : Discipline → Node → Prop
  | names, node => node.IsInner
  | types, node =>
      node.IsInner ∧ node.IsPrecisePart ∧
        ∀ name typeName value, node = .declaration name typeName value → Free root name

variable {settings : Settings} {heap : Heap} {d : Discipline}

theorem Admits.inner {root : Scope} {node : Node} (h : d.Admits root node) : node.IsInner := by
  cases d with
  | names => exact h
  | types => exact h.1

theorem inner_of_admits {root : Scope} {node : Node} (h : node.Every (d.Admits root)) :
    node.Every Node.IsInner :=
  h.map fun _ hp => hp.inner

theorem innerOf_of_admits {root : Scope} {nodes : List Node}
    (h : Node.EveryOf (d.Admits root) nodes) : Node.EveryOf Node.IsInner nodes :=
  h.map fun _ hp => hp.inner

theorem Admits.precise {root : Scope} {node : Node} (h : Discipline.types.Admits root node) :
    node.IsPrecisePart := h.2.1

section Failures

theorem accepts_exhausted : d.Accepts settings .exhausted := by
  cases d with
  | names => exact id
  | types => exact .exhausted

theorem accepts_unwritable (h : settings.strict = true) : d.Accepts settings .unwritable := by
  cases d with
  | names => exact id
  | types => exact .unwritable h

theorem accepts_overflowIn {name : String} {arity : Nat} {e : RunFailure}
    (h : d.Accepts settings e ∨ e = .endless) :
    d.Accepts settings (Running.overflowIn name arity e) := by
  rcases h with h | rfl
  · cases e with
    | endless =>
        cases d with
        | names => exact id
        | types => exact .stackOverflow
    | _ => exact h
  · cases d with
    | names => exact id
    | types => exact .stackOverflow

theorem textOf_not_resolution {value : Value} {e : RunFailure}
    (h : Running.textOf settings heap value = .error e) : ¬ e.IsResolution := by
  rcases Running.textOf_eq_error h with rfl | rfl | rfl <;> exact id

theorem accepts_textOf {type : Option StaticType} {value : Value} (hvalue : d.Fits type value)
    {e : RunFailure} (h : Running.textOf settings heap value = .error e) :
    d.Accepts settings e := by
  cases d with
  | names => exact textOf_not_resolution h
  | types =>
      obtain ⟨s, rfl, hs, _⟩ := hvalue
      rw [Running.textOf_error hs h]
      exact .numeral

theorem valuesEqual_not_resolution {a b : Value} {e : RunFailure}
    (h : Running.valuesEqual settings heap a b = .error e) : ¬ e.IsResolution := by
  unfold Running.valuesEqual at h
  split at h
  · cases h
  all_goals
    cases h
    exact id

theorem accepts_valuesEqual {s t : Option StaticType} {a b : Value} (ha : d.Fits s a)
    (hb : d.Fits t b) {e : RunFailure} (h : Running.valuesEqual settings heap a b = .error e) :
    d.Accepts settings e := by
  cases d with
  | names => exact valuesEqual_not_resolution h
  | types =>
      obtain ⟨sa, rfl, hsa, _⟩ := ha
      obtain ⟨sb, rfl, hsb, _⟩ := hb
      obtain ⟨answer, hanswer⟩ : ∃ answer,
          Running.valuesEqual settings heap (.scalar sa) (.scalar sb) = .ok answer :=
        Running.valuesEqual_plain hsa hsb
      rw [hanswer] at h
      cases h

/-- The failure where a truth value is demanded and there is none. -/
theorem accepts_notBoolean {value : Value} (hvalue : d.Fits (some .boolean) value)
    (hnot : ∀ b, value ≠ .boolean b) (what : String) (type : StaticType) :
    d.Accepts settings (.raised (.notBoolean what type)) := by
  cases d with
  | names => exact id
  | types =>
      obtain ⟨b, hb⟩ := Running.hasType_boolean hvalue
      exact absurd hb (hnot b)

end Failures

section Values

theorem fits_scalar {s : Scalar} (hs : s.IsPlain) : d.Fits (some s.type) (.scalar s) := by
  cases d with
  | names => trivial
  | types => exact ⟨s, rfl, hs, rfl⟩

theorem fits_boolean (b : Bool) : d.Fits (some .boolean) (.boolean b) := by
  have hb : (Scalar.boolean b).IsPlain := trivial
  exact fits_scalar hb

theorem fits_nil : d.Fits (some .nil) .nil := by
  have hnil : Scalar.nil.IsPlain := trivial
  exact fits_scalar hnil

theorem fits_literal {s : Scalar} (hs : s.IsPlain) {type : StaticType}
    (h : Typing.literalType s = .ok type) : d.Fits (some type) (.scalar s) := by
  have htype : type = s.type := by
    unfold Typing.literalType at h
    split at h
    · split at h
      · cases h
        rfl
      · split at h <;> cases h
    · split at h
      · cases h
      split at h
      · cases h
      · cases h
        rfl
    · cases h
    · cases h
      rfl
  subst htype
  exact fits_scalar hs

/-- A value that fits one type fits another precise one that it may be stored at. -/
theorem fits_precise {target : StaticType} {source : Option StaticType} {value : Value}
    (hprecise : d = .types → target ≠ .any ∧ target ≠ .comparable)
    (haccepts : StaticType.accepts (some target) source = true) (hvalue : d.Fits source value) :
    d.Fits (some target) value := by
  cases d with
  | names => trivial
  | types =>
      obtain ⟨hany, hcomparable⟩ := hprecise rfl
      simp only [StaticType.accepts, Bool.or_eq_true, Bool.and_eq_true, beq_iff_eq,
        Option.some.injEq, hany, hcomparable, false_and, or_false] at haccepts
      rwa [haccepts] at hvalue

/-- A value that fits one type fits that of a variable that it may be stored into. -/
theorem fits_of_accepts {target source : Option StaticType} {old value : Value}
    (hold : d.Fits target old) (haccepts : StaticType.accepts target source = true)
    (hvalue : d.Fits source value) : d.Fits target value := by
  cases d with
  | names => trivial
  | types =>
      obtain ⟨s, _, hs, rfl⟩ := hold
      refine fits_precise (fun _ => ⟨?_, ?_⟩) haccepts hvalue
      · cases s with
        | «foreign» => cases hs
        | _ => simp [Scalar.type]
      · cases s <;> simp [Scalar.type]

end Values

section Operators

theorem operate_not_resolution {operator : String} {a b : Value} {e : RunFailure}
    (h : Running.operate settings heap operator a b = .error e) : ¬ e.IsResolution := by
  rcases Running.operate_error h with he | ha | hb | hab
  · exact he.resolved
  · exact textOf_not_resolution ha
  · exact textOf_not_resolution hb
  · exact valuesEqual_not_resolution hab

theorem fits_operate {operator : String} (hand : operator ≠ "&&") (hor : operator ≠ "||")
    {s t type : Option StaticType} (htype : Typing.binaryType operator s t = .ok type)
    {a b : Value} (ha : d.Fits s a) (hb : d.Fits t b) :
    (∀ v, Running.operate settings heap operator a b = .ok v → d.Fits type v) ∧
      ∀ e, Running.operate settings heap operator a b = .error e → d.Accepts settings e := by
  cases d with
  | names => exact ⟨fun _ _ => trivial, fun _ h => operate_not_resolution h⟩
  | types =>
      obtain ⟨sa, rfl, hsa, rfl⟩ := ha
      obtain ⟨sb, rfl, hsb, rfl⟩ := hb
      exact Running.suits_operate hand hor hsa hsb htype

end Operators

end Discipline
end BlockScript
