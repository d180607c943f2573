import BlockScript.Proofs.Scope.Names
import BlockScript.Scope.Chain
import BlockScript.Value.Basic

/-!
# What is bound in scopes and held in lists

Properties of values and of functions, for all that the scopes of a chain bind and
for all items of a heap.  They are kept by every step on scopes and lists, as long as what is
bound or stored has them.
-/

namespace BlockScript

variable {V : Value → Prop} {F : Function → Prop}

/-- The values and the functions that a scope binds have given properties. -/
structure Scope.Every (V : Value → Prop) (F : Function → Prop) (s : Scope) : Prop where
  vars : ∀ v ∈ s.vars, V v.value
  functions : ∀ f ∈ s.functions, F f

/-- The values and the functions that the scopes of a chain bind have given properties. -/
def Chain.Every (V : Value → Prop) (F : Function → Prop) (c : Chain) : Prop :=
  ∀ s ∈ c.toList, s.Every V F

/-- The items of all lists have a given property. -/
def Heap.Every (V : Value → Prop) (h : Heap) : Prop := ∀ r, ∀ v ∈ h.items r, V v

namespace Scope

variable {s : Scope}

theorem every_empty : Scope.empty.Every V F := ⟨nofun, nofun⟩

theorem every_builtin (hprint : F .print) : Scope.builtin.Every V F :=
  ⟨nofun, List.forall_mem_singleton.mpr hprint⟩

theorem Every.setVariable (h : s.Every V F) (name : Name) {value : Value} (hvalue : V value) :
    (s.setVariable name value).Every V F := by
  refine ⟨?_, h.functions⟩
  intro w hw
  obtain ⟨v, hv, rfl⟩ := List.mem_map.mp hw
  split
  · exact hvalue
  · exact h.vars v hv

end Scope

/-- A function that is found takes as many arguments as were asked for. -/
theorem Chain.arity_of_lookupFunction {c : Chain} {name : Name} {arity : Nat} {f : Function}
    (h : c.lookupFunction name arity = .ok f) : f.arity = arity := by
  unfold Chain.lookupFunction at h
  split at h
  · rename_i found hfound
    cases h
    obtain ⟨s, _, hs⟩ := List.exists_of_findSome?_eq_some hfound
    exact (of_findFunction? hs).2.2
  · cases h

namespace Chain.Every

variable {c c' : Chain}

theorem root (hprint : F .print) {surroundings : List Scope}
    (h : ∀ s ∈ surroundings, s.Every V F) : (Chain.root surroundings).Every V F :=
  List.forall_mem_cons.mpr ⟨Scope.every_builtin hprint, h⟩

theorem push (h : c.Every V F) : c.push.Every V F :=
  List.forall_mem_cons.mpr ⟨Scope.every_empty, h⟩

theorem pop (h : c.Every V F) : c.pop.Every V F := by
  obtain ⟨current, outer⟩ := c
  cases outer with
  | nil => exact h
  | cons s outer => exact (List.forall_mem_cons.mp h).2

theorem lookupVariable (h : c.Every V F) {name : Name} {v : Variable}
    (hv : c.lookupVariable name = .ok v) : V v.value := by
  unfold Chain.lookupVariable at hv
  split at hv
  · rename_i found hfound
    cases hv
    obtain ⟨s, hs, hvar⟩ := List.exists_of_findSome?_eq_some hfound
    exact (h s hs).vars v (List.mem_of_find?_eq_some hvar)
  · cases hv

theorem lookupFunction (h : c.Every V F) {name : Name} {arity : Nat} {f : Function}
    (hf : c.lookupFunction name arity = .ok f) : F f := by
  unfold Chain.lookupFunction at hf
  split at hf
  · rename_i found hfound
    cases hf
    obtain ⟨s, hs, hfun⟩ := List.exists_of_findSome?_eq_some hfound
    exact (h s hs).functions f (List.mem_of_find?_eq_some hfun)
  · cases hf

theorem defineVariable (h : c.Every V F) {v : Variable} (hv : V v.value)
    (hc' : c.defineVariable v = .ok c') : c'.Every V F := by
  unfold Chain.defineVariable Scope.defineVariable at hc'
  obtain ⟨hcurrent, houter⟩ := List.forall_mem_cons.mp h
  split at hc'
  · cases hc'
  · cases hc'
    exact List.forall_mem_cons.mpr
      ⟨⟨List.forall_mem_cons.mpr ⟨hv, hcurrent.vars⟩, hcurrent.functions⟩, houter⟩

theorem defineFunction (h : c.Every V F) {f : Function} (hf : F f)
    (hc' : c.defineFunction f = .ok c') : c'.Every V F := by
  unfold Chain.defineFunction Scope.defineFunction at hc'
  obtain ⟨hcurrent, houter⟩ := List.forall_mem_cons.mp h
  split at hc'
  · cases hc'
  · cases hc'
    exact List.forall_mem_cons.mpr
      ⟨⟨hcurrent.vars, List.forall_mem_cons.mpr ⟨hf, hcurrent.functions⟩⟩, houter⟩

theorem setIn {ss : List Scope} (h : ∀ s ∈ ss, s.Every V F) (name : Name) {value : Value}
    (hvalue : V value) : ∀ s ∈ Chain.setIn name value ss, s.Every V F := by
  induction ss with
  | nil => exact nofun
  | cons s ss ih =>
      obtain ⟨hs, hss⟩ := List.forall_mem_cons.mp h
      unfold Chain.setIn
      split
      · exact List.forall_mem_cons.mpr ⟨hs.setVariable name hvalue, hss⟩
      · exact List.forall_mem_cons.mpr ⟨hs, ih hss⟩

theorem setVariable (h : c.Every V F) (name : Name) {value : Value} (hvalue : V value) :
    (c.setVariable name value).Every V F := by
  unfold Chain.Every
  rw [Chain.toList_setVariable]
  exact setIn h name hvalue

end Chain.Every

namespace Heap

variable {h : Heap}

theorem every_empty : Heap.empty.Every V := by
  intro r v hv
  simp [Heap.empty, Heap.items] at hv

theorem Every.getD (hh : h.Every V) (hnil : V .nil) (reference index : Nat) :
    V ((h.items reference).getD index .nil) := by
  rw [List.getD_eq_getElem?_getD]
  cases hitem : (h.items reference)[index]? with
  | none => exact hnil
  | some v => exact hh reference v (List.mem_of_getElem? hitem)

theorem Every.allocate (hh : h.Every V) {items : List Value} (hitems : ∀ v ∈ items, V v) :
    (h.allocate items).2.Every V := by
  intro r v hv
  rw [Heap.items_allocate] at hv
  split at hv
  · exact hitems v hv
  · exact hh r v hv

theorem Every.store (hh : h.Every V) (reference index : Nat) {value : Value}
    (hvalue : V value) : (h.store reference index value).Every V := by
  intro r v hv
  rw [Heap.items_store] at hv
  split at hv
  · rcases List.mem_or_eq_of_mem_set hv with hv | rfl
    · exact hh reference v hv
    · exact hvalue
  · exact hh r v hv

mutual

/-- What is loaded has the property where lists and the values of trees have it. -/
theorem Every.load (hlist : ∀ r, V (.list r)) (hjson : ∀ value, V (.scalar (.ofJson [] value)))
    {h : Heap} (hh : h.Every V) : (value : Json) → V (h.load value).1 ∧ (h.load value).2.Every V
  | .array items => by
      obtain ⟨hvalues, hh'⟩ := Every.loadAll hlist hjson hh items
      rw [Heap.load]
      exact ⟨hlist _, hh'.allocate hvalues⟩
  | .null => ⟨hjson .null, hh⟩
  | .boolean b => ⟨hjson (.boolean b), hh⟩
  | .integer n => ⟨hjson (.integer n), hh⟩
  | .real d => ⟨hjson (.real d), hh⟩
  | .string s => ⟨hjson (.string s), hh⟩
  | .object o => ⟨hjson (.object o), hh⟩

/-- The values of a row that is loaded have the property. -/
theorem Every.loadAll (hlist : ∀ r, V (.list r))
    (hjson : ∀ value, V (.scalar (.ofJson [] value))) {h : Heap} (hh : h.Every V) :
    (items : List Json) → (∀ v ∈ (h.loadAll items).1, V v) ∧ (h.loadAll items).2.Every V
  | [] => ⟨nofun, hh⟩
  | item :: items => by
      obtain ⟨hvalue, hh'⟩ := Every.load hlist hjson hh item
      obtain ⟨hvalues, hh''⟩ := Every.loadAll hlist hjson hh' items
      rw [Heap.loadAll]
      exact ⟨List.forall_mem_cons.mpr ⟨hvalue, hvalues⟩, hh''⟩

end

end Heap
end BlockScript
