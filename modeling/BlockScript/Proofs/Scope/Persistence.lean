import BlockScript.Proofs.Scope.Names
import BlockScript.Scope.Chain
import Mathlib.Data.List.Forall2

/-!
# What stays of scopes

A scope persists while its variables and functions stay what they are, apart from the values
of its mutable variables.  A chain persists when it has the same scopes one after the other,
each of which persists; it grows when its current scope, and no other one, may have got
further names.

Storing a value into a mutable variable lets a chain persist, since no other variable of the
scope has its name.
-/

namespace BlockScript

section Rows

variable {α : Type} {R : α → α → Prop}

theorem forall₂_trans [IsTrans α R] {as bs cs : List α} (h : List.Forall₂ R as bs)
    (h' : List.Forall₂ R bs cs) : List.Forall₂ R as cs := by
  induction h generalizing cs with
  | nil => exact h'
  | cons hab _ ih =>
      cases h' with
      | cons hbc h' => exact .cons (IsTrans.trans _ _ _ hab hbc) (ih h')

instance isPreorder_forall₂ [IsPreorder α R] : IsPreorder (List α) (List.Forall₂ R) where
  refl := List.forall₂_refl
  trans _ _ _ := forall₂_trans

theorem forall₂_append_left {as bs cs : List α} (h : List.Forall₂ R (as ++ bs) cs) :
    ∃ as' bs', cs = as' ++ bs' ∧ List.Forall₂ R as as' ∧ List.Forall₂ R bs bs' := by
  induction as generalizing cs with
  | nil => exact ⟨[], cs, rfl, .nil, h⟩
  | cons a as ih =>
      cases h with
      | cons ha h =>
          obtain ⟨as', bs', rfl, has, hbs⟩ := ih h
          exact ⟨_ :: as', bs', rfl, .cons ha has, hbs⟩

theorem exists_of_forall₂_right {as bs : List α} (h : List.Forall₂ R as bs) {b : α}
    (hb : b ∈ bs) : ∃ a ∈ as, R a b := by
  induction h with
  | nil => cases hb
  | @cons a b' as bs hab _ ih =>
      rcases List.mem_cons.mp hb with rfl | hb
      · exact ⟨a, List.mem_cons_self, hab⟩
      · obtain ⟨a', ha', hr⟩ := ih hb
        exact ⟨a', List.mem_cons_of_mem _ ha', hr⟩

end Rows

/-- A variable later on: at most its value is another, and only if the variable is mutable. -/
structure Variable.Persists (v w : Variable) : Prop where
  name : w.name = v.name
  exportedName : w.exportedName = v.exportedName
  type : w.type = v.type
  isMutable : w.isMutable = v.isMutable
  value : v.isMutable = false → w.value = v.value

instance : IsPreorder Variable Variable.Persists where
  refl _ := ⟨rfl, rfl, rfl, rfl, fun _ => rfl⟩
  trans _ _ _ h h' :=
    ⟨h'.name.trans h.name, h'.exportedName.trans h.exportedName, h'.type.trans h.type,
      h'.isMutable.trans h.isMutable,
      fun hv => (h'.value (h.isMutable.trans hv)).trans (h.value hv)⟩

namespace Scope

/-- A scope later on, with the same names for the same variables and functions. -/
structure Persists (s t : Scope) : Prop where
  vars : List.Forall₂ Variable.Persists s.vars t.vars
  functions : t.functions = s.functions

instance : IsPreorder Scope Persists where
  refl s := ⟨refl s.vars, rfl⟩
  trans _ _ _ h h' := ⟨IsTrans.trans _ _ _ h.vars h'.vars, h'.functions.trans h.functions⟩

/-- A scope later on, with names that it got in the meantime. -/
def Grows (s t : Scope) : Prop :=
  ∃ vars functions kept, s.Persists kept ∧
    t = ⟨vars ++ kept.vars, functions ++ kept.functions⟩

variable {s t : Scope} {name : Name} {v : Variable} {value : Value}

theorem Persists.grows (h : s.Persists t) : s.Grows t := ⟨[], [], t, h, rfl⟩

instance : IsPreorder Scope Grows where
  refl s := (refl (r := Persists) s).grows
  trans s t u := by
    rintro ⟨vars, functions, kept, hkept, rfl⟩ ⟨vars', functions', kept', hkept', rfl⟩
    obtain ⟨news, olds, hvars, _, holds⟩ := forall₂_append_left hkept'.vars
    refine ⟨vars' ++ news, functions' ++ functions, ⟨olds, kept.functions⟩, ?_, ?_⟩
    · exact ⟨IsTrans.trans _ _ _ hkept.vars holds, hkept.functions⟩
    · rw [hvars, hkept'.functions, List.append_assoc, List.append_assoc]

theorem Persists.distinct (h : s.Persists t) (hs : s.Distinct) : t.Distinct := by
  unfold Distinct at hs ⊢
  obtain ⟨hvars, _⟩ := h
  generalize s.vars = vs at hs hvars
  generalize t.vars = ws at hvars
  induction hvars with
  | nil => exact .nil
  | @cons v w vs ws hv hvs ih =>
      obtain ⟨hhead, htail⟩ := List.pairwise_cons.mp hs
      refine .cons ?_ (ih htail)
      intro w' hw'
      obtain ⟨v', hv', hpersists⟩ := exists_of_forall₂_right hvs hw'
      unfold Differ
      rw [hpersists.name, hv.name]
      exact hhead v' hv'

/-- A store into a mutable variable leaves all other variables of its scope alone. -/
theorem persists_setVariable (hs : s.Distinct) (hv : s.findVariable? name = some v)
    (hmutable : v.isMutable = true) : s.Persists (s.setVariable name value) := by
  refine ⟨?_, rfl⟩
  unfold setVariable
  refine List.forall₂_map_right_iff.mpr (List.forall₂_same.mpr ?_)
  intro w hw
  by_cases hsame : w.name.same name = true
  · rw [if_pos hsame]
    refine ⟨rfl, rfl, rfl, rfl, ?_⟩
    intro hw'
    rw [hs.eq_of_same hv hw hsame, hmutable] at hw'
    cases hw'
  · rw [if_neg hsame]
    exact refl w

end Scope

namespace Chain

/-- No scope has two variables of one name. -/
def Distinct (c : Chain) : Prop := ∀ s ∈ c.toList, s.Distinct

/-- A chain later on, with the same scopes. -/
def Persists (c d : Chain) : Prop := List.Forall₂ Scope.Persists c.toList d.toList

/-- A chain later on, whose current scope may have further names. -/
structure Grows (c d : Chain) : Prop where
  current : c.current.Grows d.current
  outer : List.Forall₂ Scope.Persists c.outer d.outer

instance : IsPreorder Chain Persists where
  refl c := refl c.toList
  trans _ _ _ h h' := forall₂_trans h h'

instance : IsPreorder Chain Grows where
  refl c := ⟨refl c.current, refl c.outer⟩
  trans _ _ _ h h' :=
    ⟨IsTrans.trans _ _ _ h.current h'.current, IsTrans.trans _ _ _ h.outer h'.outer⟩

variable {c d : Chain} {name : Name} {v : Variable} {value : Value}

theorem persists_iff :
    c.Persists d ↔ c.current.Persists d.current ∧ List.Forall₂ Scope.Persists c.outer d.outer :=
  List.forall₂_cons

theorem Persists.grows (h : c.Persists d) : c.Grows d :=
  ⟨(persists_iff.mp h).1.grows, (persists_iff.mp h).2⟩

theorem Persists.distinct (h : c.Persists d) (hc : c.Distinct) : d.Distinct := by
  intro t ht
  obtain ⟨s, hs, hpersists⟩ := exists_of_forall₂_right h ht
  exact hpersists.distinct (hc s hs)

theorem Grows.depth (h : c.Grows d) : d.depth = c.depth := by
  unfold Chain.depth toList
  rw [List.length_cons, List.length_cons, h.outer.length_eq]

theorem Distinct.push (hc : c.Distinct) : c.push.Distinct := by
  intro s hs
  rcases List.mem_cons.mp hs with rfl | hs
  · exact .nil
  · exact hc s hs

/-- Behind a scope of its own a chain is back at the scopes that it had. -/
theorem Grows.pop (h : c.push.Grows d) : c.Persists d.pop := by
  obtain ⟨current, outer⟩ := d
  cases h.outer with
  | cons hs houter => exact .cons hs houter

theorem persists_setIn {ss : List Scope} (hss : ∀ s ∈ ss, s.Distinct)
    (hv : (ss.findSome? fun s => s.findVariable? name) = some v) (hmutable : v.isMutable = true) :
    List.Forall₂ Scope.Persists ss (setIn name value ss) := by
  induction ss with
  | nil => cases hv
  | cons s ss ih =>
      rw [List.findSome?_cons] at hv
      unfold setIn
      cases hs : s.findVariable? name with
      | some w =>
          rw [hs] at hv
          cases hv
          rw [if_pos (by simp)]
          exact .cons (Scope.persists_setVariable (hss s List.mem_cons_self) hs hmutable) (refl ss)
      | none =>
          rw [hs] at hv
          rw [if_neg (by simp)]
          exact .cons (refl s) (ih (fun t ht => hss t (List.mem_cons_of_mem _ ht)) hv)

/-- A store into a mutable variable changes nothing but its value. -/
theorem persists_setVariable (hc : c.Distinct) (hv : c.lookupVariable name = .ok v)
    (hmutable : v.isMutable = true) : c.Persists (c.setVariable name value) := by
  unfold Persists
  rw [toList_setVariable]
  refine persists_setIn hc ?_ hmutable
  unfold lookupVariable at hv
  split at hv
  · cases hv
    assumption
  · cases hv

/-- What binding a variable comes to: it was not bound in the current scope, and now is. -/
theorem defineVariable_eq_ok_iff :
    c.defineVariable v = .ok d ↔ c.current.findVariable? v.name = none ∧
      d = { c with current := { c.current with vars := v :: c.current.vars } } := by
  unfold defineVariable Scope.defineVariable
  cases c.current.findVariable? v.name with
  | some w => simp [Except.map]
  | none => simp [Except.map, eq_comm]

/-- What binding a function comes to: it was not bound in the current scope, and now is. -/
theorem defineFunction_eq_ok_iff {f : Function} :
    c.defineFunction f = .ok d ↔ c.current.findFunction? f.name f.arity = none ∧
      d = { c with current := { c.current with functions := f :: c.current.functions } } := by
  unfold defineFunction Scope.defineFunction
  cases c.current.findFunction? f.name f.arity with
  | some g => simp [Except.map]
  | none => simp [Except.map, eq_comm]

end Chain
end BlockScript
