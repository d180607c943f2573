import BlockScript.Value.Basic
import BlockScript.Value.Walk
import Mathlib.Data.Finset.Card
import Mathlib.Logic.Relation

/-!
# How lists nest

A list holds the lists among its items, and contains those that it holds directly or
through others.  A heap is acyclic when no list contains itself.  Making a list keeps a
heap acyclic.  Storing an item can close a cycle, which then passes through the item
that was stored: the text of that item has no end.
-/

namespace BlockScript
namespace Heap

open Relation

/-- A list has another one among its items. -/
def Holds (h : Heap) (r s : Nat) : Prop := Value.list s ∈ h.items r

/-- No list contains itself, directly or through others. -/
def Acyclic (h : Heap) : Prop := ∀ r, ¬ TransGen h.Holds r r

/-- A value refers to no list that the heap does not have. -/
def Knows (h : Heap) (v : Value) : Prop := ∀ r, v = .list r → r < h.size

/-- The items of lists refer to lists of the heap. -/
def Closed (h : Heap) : Prop := ∀ r, ∀ v ∈ h.items r, h.Knows v

/-- No list that a value reaches contains itself. -/
def Grounded (h : Heap) (v : Value) : Prop :=
  ∀ r s, v = .list r → ReflTransGen h.Holds r s → ¬ TransGen h.Holds s s

section Knowledge

variable {h h' : Heap}

theorem knows_scalar (h : Heap) (s : Scalar) : h.Knows (.scalar s) := by
  intro r hr
  cases hr

theorem Knows.mono {v : Value} (hv : h.Knows v) (hsize : h.size ≤ h'.size) : h'.Knows v :=
  fun r hr => Nat.lt_of_lt_of_le (hv r hr) hsize

theorem items_eq_nil {r : Nat} (hr : h.size ≤ r) : h.items r = [] := by
  rw [items, Array.getD_eq_getD_getElem?, Array.getElem?_eq_none hr]
  rfl

/-- No list contains itself where every list holds older ones only. -/
theorem acyclic_of_lt (hlt : ∀ r s, h.Holds r s → s < r) : h.Acyclic := by
  intro r hcycle
  have hpath : ∀ s, TransGen h.Holds r s → s < r := by
    intro s hs
    induction hs with
    | single hs => exact hlt r _ hs
    | tail _ hs ih => exact Nat.lt_trans (hlt _ _ hs) ih
  exact Nat.lt_irrefl r (hpath r hcycle)

theorem Acyclic.grounded (hacyclic : h.Acyclic) (v : Value) : h.Grounded v :=
  fun _ s _ _ => hacyclic s

theorem Grounded.item {r : Nat} {v : Value} (hgrounded : h.Grounded (.list r))
    (hv : v ∈ h.items r) : h.Grounded v := by
  intro s t hs hst
  subst hs
  exact hgrounded r t rfl (ReflTransGen.head hv hst)

end Knowledge

section Making

variable {h : Heap}

theorem closed_allocate {items : List Value} (hclosed : h.Closed)
    (hitems : ∀ v ∈ items, h.Knows v) : (h.allocate items).2.Closed := by
  intro r v hv
  have hsize : h.size ≤ (h.allocate items).2.size := by simp
  rw [items_allocate] at hv
  by_cases hr : r = h.size
  · rw [if_pos hr] at hv
    exact (hitems v hv).mono hsize
  · rw [if_neg hr] at hv
    exact (hclosed r v hv).mono hsize

theorem knows_allocate (h : Heap) (items : List Value) :
    (h.allocate items).2.Knows (h.allocate items).1 := by
  intro r hr
  rw [allocate_value] at hr
  cases hr
  simp

/-- A new list is held by no other one. -/
theorem acyclic_allocate {items : List Value} (hclosed : h.Closed) (hacyclic : h.Acyclic)
    (hitems : ∀ v ∈ items, h.Knows v) : (h.allocate items).2.Acyclic := by
  have hholds : ∀ r s, (h.allocate items).2.Holds r s → s < h.size := by
    intro r s hs
    rw [Holds, items_allocate] at hs
    by_cases hr : r = h.size
    · rw [if_pos hr] at hs
      exact hitems _ hs s rfl
    · rw [if_neg hr] at hs
      exact hclosed r _ hs s rfl
  have hold : ∀ r s, TransGen (h.allocate items).2.Holds r s → r < h.size →
      TransGen h.Holds r s := by
    intro r s hrs hr
    induction hrs using TransGen.head_induction_on with
    | single hs =>
        rw [Holds, items_allocate, if_neg (Nat.ne_of_lt hr)] at hs
        exact .single hs
    | head hs _ ih =>
        have hlt := hholds _ _ hs
        rw [Holds, items_allocate, if_neg (Nat.ne_of_lt hr)] at hs
        exact .head hs (ih hlt)
  intro r hr
  have hlt : r < h.size := by
    cases hr with
    | single hs => exact hholds _ _ hs
    | tail _ hs => exact hholds _ _ hs
  exact hacyclic r (hold r r hr hlt)

end Making

section Storing

variable {h : Heap}

theorem closed_store {r i : Nat} {v : Value} (hclosed : h.Closed) (hv : h.Knows v) :
    (h.store r i v).Closed := by
  intro s w hw
  have hsize : h.size ≤ (h.store r i v).size := by simp
  rw [items_store] at hw
  by_cases hs : s = r
  · rw [if_pos hs] at hw
    rcases List.mem_or_eq_of_mem_set hw with hw | rfl
    · exact (hclosed r w hw).mono hsize
    · exact hv.mono hsize
  · rw [if_neg hs] at hw
    exact (hclosed s w hw).mono hsize

theorem holds_of_holds_store {r i s t : Nat} {v : Value} (hs : (h.store r i v).Holds s t) :
    h.Holds s t ∨ (s = r ∧ v = .list t) := by
  rw [Holds, items_store] at hs
  by_cases hr : s = r
  · rw [if_pos hr] at hs
    rcases List.mem_or_eq_of_mem_set hs with hs | hs
    · left
      rw [hr]
      exact hs
    · exact Or.inr ⟨hr, hs.symm⟩
  · rw [if_neg hr] at hs
    exact Or.inl hs

/-- A path behind a store is an old one, or it passes through the list that was written and
the list that was stored. -/
theorem path_of_path_store {r i s t : Nat} {v : Value}
    (hpath : TransGen (h.store r i v).Holds s t) :
    TransGen h.Holds s t ∨ ∃ w, v = .list w ∧ ReflTransGen (h.store r i v).Holds s r ∧
      (h.store r i v).Holds r w ∧ ReflTransGen (h.store r i v).Holds w t := by
  induction hpath with
  | single hs =>
      rcases holds_of_holds_store hs with hold | ⟨rfl, rfl⟩
      · exact Or.inl (.single hold)
      · exact Or.inr ⟨_, rfl, .refl, hs, .refl⟩
  | tail hpath hs ih =>
      rcases holds_of_holds_store hs with hold | ⟨rfl, rfl⟩
      · rcases ih with hpath | ⟨w, hw, hsr, hrw, hwt⟩
        · exact Or.inl (.tail hpath hold)
        · exact Or.inr ⟨w, hw, hsr, hrw, .tail hwt hs⟩
      · exact Or.inr ⟨_, rfl, hpath.to_reflTransGen, hs, .refl⟩

/-- A cycle that a store closes passes through the value that was stored. -/
theorem acyclic_store {r i : Nat} {v : Value} (hacyclic : h.Acyclic)
    (hv : (h.store r i v).Grounded v) : (h.store r i v).Acyclic := by
  intro s hs
  rcases path_of_path_store hs with hold | ⟨w, hw, hsr, hrw, hws⟩
  · exact hacyclic s hold
  · have hcycle : TransGen (h.store r i v).Holds w w :=
      TransGen.trans_right (hws.trans hsr) (.single hrw)
    exact hv w w hw .refl hcycle

end Storing

section Loading

/-- What loading keeps. -/
structure Loads (h h' : Heap) : Prop where
  size_le : h.size ≤ h'.size
  closed : h'.Closed
  acyclic : h'.Acyclic

mutual

theorem loads_load (h : Heap) (hclosed : h.Closed) (hacyclic : h.Acyclic) :
    (json : Json) → Loads h (h.load json).2 ∧ (h.load json).2.Knows (h.load json).1
  | .array items => by
      obtain ⟨hloads, hvalues⟩ := loads_loadAll h hclosed hacyclic items
      rw [load]
      refine ⟨⟨?_, ?_, ?_⟩, knows_allocate _ _⟩
      · have hsize := hloads.size_le
        rw [size_allocate]
        omega
      · exact closed_allocate hloads.closed hvalues
      · exact acyclic_allocate hloads.closed hloads.acyclic hvalues
  | .null | .boolean _ | .integer _ | .real _ | .string _ | .object _ =>
      ⟨⟨Nat.le_refl _, hclosed, hacyclic⟩, knows_scalar _ _⟩

theorem loads_loadAll (h : Heap) (hclosed : h.Closed) (hacyclic : h.Acyclic) :
    (items : List Json) → Loads h (h.loadAll items).2 ∧
      ∀ v ∈ (h.loadAll items).1, (h.loadAll items).2.Knows v
  | [] => ⟨⟨Nat.le_refl _, hclosed, hacyclic⟩, by simp [loadAll]⟩
  | item :: items => by
      obtain ⟨hitem, hvalue⟩ := loads_load h hclosed hacyclic item
      obtain ⟨hrest, hvalues⟩ := loads_loadAll _ hitem.closed hitem.acyclic items
      rw [loadAll]
      refine ⟨⟨Nat.le_trans hitem.size_le hrest.size_le, hrest.closed, hrest.acyclic⟩, ?_⟩
      intro v hv
      rcases List.mem_cons.mp hv with rfl | hv
      · exact hvalue.mono hrest.size_le
      · exact hvalues v hv

end

end Loading

end Heap
end BlockScript
