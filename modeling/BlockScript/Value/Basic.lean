import BlockScript.Scalar

/-!
# Values and the heap

A value is a scalar or a list.  Lists are shared: a value refers to one, and every
holder of the reference sees what is stored into it.  The heap holds the items of all
lists that were made.

A value that a tree brings along becomes a value of the run: an array becomes a list, and
so do the arrays among its items, which are made before it.
-/

namespace BlockScript

/-- A value: a scalar, or a reference to a list of the heap. -/
inductive Value
  | scalar (value : Scalar)
  | list (reference : Nat)
deriving DecidableEq, Inhabited

namespace Value

/-- The value of nothing. -/
def nil : Value := scalar .nil

/-- A truth value. -/
def boolean (b : Bool) : Value := scalar (.boolean b)

/-- The static type that matches a value; lists have none of their own. -/
def type : Value → StaticType
  | scalar s => s.type
  | list _ => .any

/-- Whether a value is an integer. -/
def isInteger : Value → Bool
  | scalar (.integer _) => true
  | _ => false

end Value

/-- The items of all lists, found by reference. -/
structure Heap where
  lists : Array (List Value)
deriving Inhabited

namespace Heap

/-- The heap without lists. -/
def empty : Heap := ⟨#[]⟩

/-- The items of a list. -/
def items (h : Heap) (reference : Nat) : List Value := h.lists.getD reference []

/-- A heap with one more list, and the value that refers to it. -/
def allocate (h : Heap) (items : List Value) : Value × Heap :=
  (.list h.lists.size, ⟨h.lists.push items⟩)

/-- Stores a value as an item of a list. -/
def store (h : Heap) (reference index : Nat) (value : Value) : Heap :=
  ⟨h.lists.modify reference fun items => items.set index value⟩

/-- Number of lists. -/
def size (h : Heap) : Nat := h.lists.size

mutual

/-- The value that a JSON value becomes, and the heap with the lists that it needs. -/
def load (h : Heap) : Json → Value × Heap
  | .array items =>
      let (values, h') := loadAll h items
      h'.allocate values
  | value => (.scalar (.ofJson [] value), h)

/-- The values that the items of an array become. -/
def loadAll (h : Heap) : List Json → List Value × Heap
  | [] => ([], h)
  | item :: items =>
      let (value, h') := load h item
      let (values, h'') := loadAll h' items
      (value :: values, h'')

end

section Items

@[simp] theorem allocate_value (h : Heap) (items : List Value) :
    (h.allocate items).1 = .list h.size := rfl

@[simp] theorem size_allocate (h : Heap) (items : List Value) :
    (h.allocate items).2.size = h.size + 1 := by
  simp [allocate, size]

/-- A new list holds its items, and the others stay as they are. -/
theorem items_allocate (h : Heap) (items : List Value) (r : Nat) :
    (h.allocate items).2.items r = if r = h.size then items else h.items r := by
  simp only [allocate, Heap.items, size, Array.getD_eq_getD_getElem?, Array.getElem?_push]
  split <;> simp_all

@[simp] theorem size_store (h : Heap) (r i : Nat) (v : Value) :
    (h.store r i v).size = h.size := by
  simp [store, size]

/-- Storing changes one item of one list. -/
theorem items_store (h : Heap) (r i : Nat) (v : Value) (s : Nat) :
    (h.store r i v).items s = if s = r then (h.items r).set i v else h.items s := by
  simp only [store, Heap.items, Array.getD_eq_getD_getElem?, Array.getElem?_modify]
  by_cases hs : s = r
  · subst hs
    cases h.lists[s]? <;> simp
  · simp [hs, Ne.symm hs]

end Items

end Heap
end BlockScript
