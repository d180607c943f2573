import BlockScript.Proofs.Effect
import BlockScript.Typing.Statement

/-!
# Steps of a check

What a statement does by itself, without its bodies, is a step.  Names and functions are bound by
declarations alone: every other step looks at the scopes and leaves the state of the check as it
is, also where it fails.  And only the step of a return fails because no function encloses it
(`Inert`).
-/

namespace BlockScript
namespace Typing

open BlockScript.Computation

/-- The failure of a return that no function encloses. -/
def outside : CheckFailure := .rejected .returnOutsideFunction

section Failures

variable {α β : Type}

/-- A result is no failure of a return that no function encloses. -/
def Avoids (r : Except CheckFailure α) : Prop := r ≠ .error outside

theorem avoids_ok (a : α) : Avoids (.ok a : Except CheckFailure α) := nofun

theorem avoids_error {e : CheckFailure} (h : e ≠ outside) :
    Avoids (.error e : Except CheckFailure α) := by
  rintro ⟨⟩
  exact h rfl

theorem Avoids.bind {r : Except CheckFailure α} {next : α → Except CheckFailure β}
    (h : Avoids r) (hnext : ∀ a, Avoids (next a)) : Avoids (r >>= next) := by
  cases r with
  | ok a => exact hnext a
  | error e => exact avoids_error fun he => h (by rw [he])

theorem avoids_reject {error : CheckError} (h : error ≠ .returnOutsideFunction) :
    Avoids (reject error : Except CheckFailure α) :=
  avoids_error fun he => h (CheckFailure.rejected.inj he)

theorem avoids_named (type : Option StaticType) : Avoids (named type) := by
  cases type <;> nofun

theorem avoids_rejectNaming {error : StaticType → CheckError} (type : Option StaticType)
    (h : ∀ t, error t ≠ .returnOutsideFunction) :
    Avoids (rejectNaming type error : Except CheckFailure α) :=
  (avoids_named type).bind fun t => avoids_reject (h t)

theorem avoids_rejectNamingBoth {error : StaticType → StaticType → CheckError}
    (left right : Option StaticType) (h : ∀ l r, error l r ≠ .returnOutsideFunction) :
    Avoids (rejectNamingBoth left right error : Except CheckFailure α) :=
  (avoids_named left).bind fun l => (avoids_named right).bind fun r => avoids_reject (h l r)

theorem avoids_boundUnder (name : Name) (binding : Except ScopeFault α) :
    Avoids (boundUnder name binding) := by
  unfold boundUnder bound
  split
  · split
    · exact avoids_ok _
    · exact avoids_reject nofun
  · nofun

theorem avoids_unless {p : Prop} [Decidable p] {r : Except CheckFailure α} (a : α)
    (h : Avoids r) : Avoids (if p then .ok a else r) := by
  split
  · exact avoids_ok a
  · exact h

theorem avoids_literalType (value : Scalar) : Avoids (literalType value) := by
  unfold literalType
  split
  · refine avoids_unless _ ?_
    split
    · exact avoids_reject nofun
    · nofun
  · split
    · nofun
    · split
      · exact avoids_reject nofun
      · exact avoids_ok _
  · exact avoids_reject nofun
  · exact avoids_ok _

theorem avoids_binaryType (operator : String) (left right : Option StaticType) :
    Avoids (binaryType operator left right) := by
  unfold binaryType
  split
  · exact avoids_unless _ (avoids_rejectNamingBoth _ _ fun _ => nofun)
  split
  · exact avoids_unless _ (avoids_unless _ (avoids_rejectNamingBoth _ _ fun _ => nofun))
  split
  · exact avoids_unless _ (avoids_rejectNamingBoth _ _ fun _ => nofun)
  split
  · exact avoids_unless _ (avoids_rejectNamingBoth _ _ fun _ => nofun)
  split
  · exact avoids_unless _ (avoids_rejectNamingBoth _ _ fun _ => nofun)
  · exact avoids_reject nofun

theorem avoids_withElement (listType type : Option StaticType) :
    Avoids (withElement listType type) :=
  avoids_unless _ (avoids_unless _ (avoids_rejectNamingBoth _ _ fun _ => nofun))

theorem avoids_requireAssignable (target source : Option StaticType) :
    Avoids (requireAssignable target source) :=
  avoids_unless _ (avoids_rejectNamingBoth _ _ fun _ => nofun)

theorem avoids_requireArgument (function : String) (target source : Option StaticType) :
    Avoids (requireArgument function target source) :=
  avoids_unless _ (avoids_rejectNamingBoth _ _ fun _ => nofun)

theorem avoids_requireIndex (name : Name) (type : Option StaticType) :
    Avoids (requireIndex name type) :=
  avoids_unless _ (avoids_rejectNaming _ nofun)

theorem avoids_requireReturn (f : Function) (type : Option StaticType) :
    Avoids (requireReturn f type) :=
  avoids_unless _ (avoids_rejectNaming _ nofun)

theorem avoids_typeNamed (name : Name) : Avoids (typeNamed name) := by
  unfold typeNamed
  split
  · split
    · exact avoids_ok _
    · exact avoids_reject nofun
  · nofun

theorem avoids_typeNamedOr (otherwise : StaticType) (name : Name) :
    Avoids (typeNamedOr otherwise name) :=
  avoids_unless _ (avoids_typeNamed name)

theorem avoids_signature (name : Name) (parameters parameterTypes : List Name)
    (returnType : Name) (body : List Node) :
    Avoids (signature name parameters parameterTypes returnType body) := by
  have htypes : Avoids (parameterTypes.mapM (typeNamedOr .any)) := by
    induction parameterTypes with
    | nil => exact avoids_ok _
    | cons typeName typeNames ih =>
        rw [List.mapM_cons]
        exact (avoids_typeNamedOr _ typeName).bind fun _ => ih.bind fun _ => avoids_ok _
  exact htypes.bind fun _ => (avoids_typeNamedOr _ _).bind fun _ => avoids_ok _

mutual

theorem avoids_typeOf (scopes : Chain) : ∀ (expected : Option StaticType) (node : Node),
    Avoids (typeOf scopes expected node)
  | _, .literal value => by
      unfold typeOf
      exact (avoids_literalType value).bind fun _ => avoids_ok _
  | _, .group inner => by
      unfold typeOf
      split
      · exact (avoids_typeOf scopes none inner).bind fun _ => avoids_ok _
      · exact avoids_reject nofun
  | _, .binary _ left right => by
      unfold typeOf
      refine (avoids_typeOf scopes none left).bind fun _ => ?_
      refine (avoids_typeOf scopes none right).bind fun _ => ?_
      exact (avoids_binaryType _ _ _).bind fun _ => avoids_ok _
  | _, .access name offset => by
      unfold typeOf
      refine (avoids_typeOfOffset scopes name offset).bind fun _ => ?_
      exact (avoids_boundUnder _ _).bind fun _ => avoids_ok _
  | _, .call name arguments => by
      unfold typeOf
      refine (avoids_boundUnder _ _).bind fun callee => ?_
      exact (avoids_typeOfArguments scopes _ arguments _).bind fun _ => avoids_ok _
  | expected, .list elements => by
      unfold typeOf
      exact (avoids_typeOfElements scopes expected elements).bind fun _ => avoids_ok _
  | _, .absent | _, .source _ _ | _, .global _ _ _ _ | _, .function _ _ _ _ _
  | _, .evaluation _ | _, .declaration _ _ _ | _, .assignment _ _ | _, .conditional _ _ _
  | _, .arm _ _ | _, .switch _ _ | _, .loop _ _ | _, .returning _ => by
      unfold typeOf
      nofun

theorem avoids_typeOfOffset (scopes : Chain) (name : Name) : ∀ offset : Node,
    Avoids (typeOfOffset scopes name offset)
  | offset => by
      unfold typeOfOffset
      split
      · exact avoids_ok _
      · refine (avoids_typeOf scopes none offset).bind fun _ => ?_
        exact (avoids_requireIndex _ _).bind fun _ => avoids_ok _

theorem avoids_typeOfArguments (scopes : Chain) (function : String) :
    ∀ (arguments : List Node) (types : List StaticType),
    Avoids (typeOfArguments scopes function arguments types)
  | argument :: arguments, type :: types => by
      unfold typeOfArguments
      refine (avoids_typeOf scopes none argument).bind fun _ => ?_
      refine (avoids_requireArgument _ _ _).bind fun _ => ?_
      exact (avoids_typeOfArguments scopes function arguments types).bind fun _ => avoids_ok _
  | [], _ => by
      unfold typeOfArguments
      exact avoids_ok _
  | _ :: _, [] => by
      unfold typeOfArguments
      exact avoids_ok _

theorem avoids_typeOfElements (scopes : Chain) : ∀ (listType : Option StaticType)
    (elements : List Node), Avoids (typeOfElements scopes listType elements)
  | _, [] => by
      unfold typeOfElements
      exact avoids_ok _
  | listType, element :: elements => by
      unfold typeOfElements
      refine (avoids_typeOf scopes none element).bind fun _ => ?_
      refine (avoids_withElement _ _).bind fun type => ?_
      exact (avoids_typeOfElements scopes type elements).bind fun _ => avoids_ok _

end

end Failures

section Steps

variable {α β : Type} {m : Checking α}

/-- A step does not fail as a return does that no function encloses. -/
def Refrains (m : Checking α) : Prop := ∀ s, Avoids (m s).1

theorem refrains_lift {r : Except CheckFailure α} (h : Avoids r) : Refrains (lift r) := by
  intro s
  cases r with
  | ok a => exact avoids_ok a
  | error e => exact h

theorem Refrains.bind {next : α → Checking β} (h : Refrains m) (hnext : ∀ a, Refrains (next a)) :
    Refrains (m >>= next) := by
  intro s
  have hs := h s
  rw [bind_apply]
  cases hm : m s with
  | mk r t =>
      rw [hm] at hs
      cases r with
      | ok a => exact hnext a t
      | error e => exact avoids_error fun he => hs (by rw [he])

/-- A step leaves the state as it is, and does not fail for want of an enclosing function. -/
structure Inert (m : Checking α) : Prop where
  steady : m.Obeys Eq
  refrains : Refrains m

theorem Inert.obeys {R : CheckState → CheckState → Prop} [Std.Refl R] (h : Inert m) : m.Obeys R :=
  h.steady.of_steady

theorem inert_pure (a : α) : Inert (pure a) := ⟨obeys_pure a, fun _ => avoids_ok a⟩

theorem inert_lift {r : Except CheckFailure α} (h : Avoids r) : Inert (lift r) :=
  ⟨obeys_lift r, refrains_lift h⟩

theorem inert_fail {e : CheckFailure} (h : e ≠ outside) : Inert (fail e : Checking α) :=
  ⟨obeys_fail e, fun _ => avoids_error h⟩

theorem Inert.bind {next : α → Checking β} (h : Inert m) (hnext : ∀ a, Inert (next a)) :
    Inert (m >>= next) :=
  ⟨h.steady.bind fun a => (hnext a).steady, h.refrains.bind fun a => (hnext a).refrains⟩

theorem inert_typeHere (expected : Option StaticType) (node : Node) :
    Inert (typeHere expected node) :=
  ⟨obeys_state.bind fun _ => obeys_lift _, fun s => refrains_lift (avoids_typeOf _ _ _) s⟩

theorem inert_declaredType (name typeName : Name) (value : Node) :
    Inert (declaredType name typeName value) := by
  unfold declaredType
  split
  · split
    · exact inert_lift (avoids_reject nofun)
    · exact inert_typeHere _ _
  · refine (inert_lift (avoids_typeNamed _)).bind fun declared => ?_
    split
    · exact inert_pure _
    · refine (inert_typeHere _ _).bind fun _ => ?_
      exact (inert_lift (avoids_requireAssignable _ _)).bind fun _ => inert_pure _

theorem inert_condition (statement : String) (node : Node) : Inert (condition statement node) := by
  refine (inert_typeHere _ _).bind fun found => ?_
  split
  · exact inert_pure _
  · exact inert_lift (avoids_rejectNaming _ nofun)

theorem inert_assignment (target value : Node) : Inert (assignment target value) := by
  refine (inert_typeHere _ _).bind fun place => ?_
  split
  · exact inert_fail nofun
  · split
    · refine (inert_typeHere _ _).bind fun _ => ?_
      exact (inert_lift (avoids_requireAssignable _ _)).bind fun _ => inert_pure _
    · exact inert_lift (avoids_reject nofun)

theorem inert_caseValue (type : Option StaticType) (position : Nat) (arm : Node) :
    Inert (caseValue type position arm) := by
  unfold caseValue
  split
  · exact inert_fail nofun
  · refine (inert_typeHere _ _).bind fun found => ?_
    split
    · exact inert_pure _
    · exact inert_lift (avoids_rejectNaming _ nofun)
  · exact inert_lift (avoids_reject nofun)

theorem inert_lastCaseValue (arm : Node) : Inert (lastCaseValue arm) := by
  unfold lastCaseValue
  split
  · exact inert_fail nofun
  · exact inert_pure _
  · exact inert_lift (avoids_reject nofun)

/-- The check of the value of a case in front of other ones. -/
def valueOfArm (type : Option StaticType) (position : Nat) (arm : Node) (arms : List Node) :
    Checking (List Annotation) :=
  if arms.isEmpty then lastCaseValue arm else caseValue type position arm

theorem inert_valueOfArm (type : Option StaticType) (position : Nat) (arm : Node)
    (arms : List Node) : Inert (valueOfArm type position arm arms) := by
  unfold valueOfArm
  split
  · exact inert_lastCaseValue arm
  · exact inert_caseValue type position arm

/-- The cases of a switch are checked one by one, the value before the body. -/
theorem checkArms_cons_eq (type : Option StaticType) (position : Nat) (arm : Node)
    (arms : List Node) : checkArms type position (arm :: arms) = (do
      let found ← valueOfArm type position arm arms
      let inBody ← checkArmBody arm
      let others ← checkArms type (position + 1) arms
      return found ++ inBody ++ others) := by
  rw [checkArms, valueOfArm]
  dsimp only
  split <;> rfl

theorem inert_optionalExpression (value : Node) : Inert (optionalExpression value) := by
  unfold optionalExpression
  split
  · exact inert_pure _
  · exact (inert_typeHere _ _).bind fun _ => inert_pure _

/-- The check of a return against the type that a function gives. -/
def returningFrom (f : Function) (value : Node) : Checking (List Annotation) :=
  if value.isAbsent then do
    lift (requireReturn f (some .nil))
    return []
  else do
    let found ← typeHere none value
    lift (requireReturn f found.type)
    return found.annotations

theorem inert_returningFrom (f : Function) (value : Node) : Inert (returningFrom f value) := by
  unfold returningFrom
  split
  · exact (inert_lift (avoids_requireReturn _ _)).bind fun _ => inert_pure _
  · refine (inert_typeHere _ _).bind fun _ => ?_
    exact (inert_lift (avoids_requireReturn _ _)).bind fun _ => inert_pure _

/-- A return is checked against the function that the state knows, and refused if it knows
none. -/
theorem returning_eq (value : Node) (s : CheckState) : returning value s =
    match s.enclosing with
    | none => (.error outside, s)
    | some f => returningFrom f value s := by
  unfold returning returningFrom
  rw [bind_apply, state_apply]
  dsimp only
  cases s.enclosing <;> rfl

theorem steady_returning (value : Node) : (returning value).Obeys Eq := by
  intro s
  rw [returning_eq]
  cases s.enclosing with
  | none => rfl
  | some f => exact (inert_returningFrom f value).steady s

end Steps

section Bindings

variable {R : CheckState → CheckState → Prop} [IsPreorder CheckState R]

theorem refrains_bindVariable (v : Variable) : Refrains (bindVariable v) :=
  fun s => Refrains.bind (refrains_lift (avoids_boundUnder _ _)) (fun _ _ => avoids_ok ()) s

theorem refrains_bindFunction (f : Function) : Refrains (bindFunction f) :=
  fun s => Refrains.bind (refrains_lift (avoids_boundUnder _ _)) (fun _ _ => avoids_ok ()) s

/-- Parameters are bound one by one, like variables. -/
theorem obeys_bindParameters (h : ∀ v, (bindVariable v).Obeys R) (names : List Name)
    (types : List StaticType) : (bindParameters names types).Obeys R := by
  induction names generalizing types with
  | nil => exact obeys_pure ()
  | cons name names ih =>
      cases types with
      | nil => exact obeys_pure ()
      | cons type types => exact (h _).bind fun _ => ih types

theorem refrains_bindParameters (names : List Name) (types : List StaticType) :
    Refrains (bindParameters names types) := by
  induction names generalizing types with
  | nil => exact (inert_pure ()).refrains
  | cons name names ih =>
      cases types with
      | nil => exact (inert_pure ()).refrains
      | cons type types => exact (refrains_bindVariable _).bind fun _ => ih types

theorem refrains_declare (node : Node) (verb : String) (name typeName : Name) (isMutable : Bool)
    (value : Node) : Refrains (declare node verb name typeName isMutable value) := by
  refine (inert_declaredType _ _ _).refrains.bind fun _ => ?_
  refine (refrains_bindVariable _).bind fun _ => ?_
  refine (refrains_lift (avoids_named _)).bind fun _ => ?_
  exact Refrains.bind (fun _ => avoids_ok ()) fun _ => (inert_pure _).refrains

end Bindings

end Typing
end BlockScript
