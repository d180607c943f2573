import BlockScript.Proofs.Value.Key
import BlockScript.Proofs.Value.Walks

/-!
# Equality as the same view

Equality walks through lists and knows the kinds of values.  Two values are equal when they look
the same at every place inside them, where a scalar shows its kind and its key and a list the
number of its items (`Heap.equal_eq`).  Equality is then as lawful as that of two views.

The walk comes to an end for values whose lists do not contain themselves, and it answers for
those without undefined numbers.
-/

namespace BlockScript

/-- What a comparison sees of a value: the kind and the key of a scalar, and the number of items
of a list. -/
inductive Face
  | scalar (type : StaticType) (key : List (ℤ ×ₗ ℚ))
  | list (length : Nat)

namespace Heap

/-- A value that is lawful to compare: its lists nest no deeper than a bound, so that none of
them contains itself, and none of its scalars is undefined. -/
inductive Lawful (h : Heap) : Nat → Value → Prop
  | scalar {bound : Nat} {s : Scalar} (defined : s.IsDefined) : Lawful h bound (.scalar s)
  | list {bound r : Nat} (items : ∀ v ∈ h.items r, Lawful h bound v) :
      Lawful h (bound + 1) (.list r)

/-- The value at a place inside another one, which is a row of indices from the outside in. -/
def inside (h : Heap) : List Nat → Value → Option Value
  | [], v => some v
  | i :: place, .list r => (h.items r)[i]?.bind (inside h place)
  | _ :: _, .scalar _ => none

/-- What a comparison sees of a value. -/
def face (h : Heap) : Value → Face
  | .scalar s => .scalar s.type s.key
  | .list r => .list (h.items r).length

/-- What a comparison sees of a value at all places inside it. -/
def view (h : Heap) (v : Value) (place : List Nat) : Option Face := (h.inside place v).map h.face

variable {h : Heap} {bound : Nat}

section Views

theorem view_cons (i : Nat) (place : List Nat) (r : Nat) :
    h.view (.list r) (i :: place) = (h.items r)[i]?.bind fun v => h.view v place := by
  rw [view, inside, Option.map_bind]
  rfl

/-- Two lists look the same when their items do. -/
theorem view_list_eq_iff {r s : Nat} :
    h.view (.list r) = h.view (.list s) ↔ (h.items r).map h.view = (h.items s).map h.view := by
  constructor
  · intro hview
    have hlength : (h.items r).length = (h.items s).length := by
      have hface := congrFun hview []
      simpa [view, inside, face] using hface
    refine List.ext_getElem (by simpa using hlength) fun i hr hs => ?_
    rw [List.length_map] at hr hs
    rw [List.getElem_map, List.getElem_map]
    funext place
    have hitem := congrFun hview (i :: place)
    rw [view_cons, view_cons, List.getElem?_eq_getElem hr, List.getElem?_eq_getElem hs] at hitem
    exact hitem
  · intro hitems
    have hlength : (h.items r).length = (h.items s).length := by
      simpa using congrArg List.length hitems
    funext place
    cases place with
    | nil => simp [view, inside, face, hlength]
    | cons i place =>
        have hitem := congrArg (fun views => views[i]?.bind fun view => view place) hitems
        simpa [view_cons, Option.bind_map, Function.comp_def] using hitem

theorem view_scalar_eq_iff {s t : Scalar} :
    h.view (.scalar s) = h.view (.scalar t) ↔ s.type = t.type ∧ s.key = t.key := by
  constructor
  · intro hview
    simpa [view, inside, face] using congrFun hview []
  · rintro ⟨htype, hkey⟩
    funext place
    cases place with
    | nil => simp [view, inside, face, htype, hkey]
    | cons i place => rfl

theorem view_scalar_ne_list (s : Scalar) (r : Nat) : h.view (.scalar s) ≠ h.view (.list r) := by
  intro hview
  have hface := congrFun hview []
  simp [view, inside, face] at hface

/-- Values that look the same have values of one kind at each place inside them. -/
theorem type_eq_of_view_eq {a b x y : Value} {place : List Nat} (hview : h.view a = h.view b)
    (hx : h.inside place a = some x) (hy : h.inside place b = some y) : x.type = y.type := by
  have hface := congrFun hview place
  rw [view, view, hx, hy, Option.map_some, Option.map_some, Option.some.injEq] at hface
  cases x with
  | scalar s =>
      cases y with
      | scalar t => exact (Face.scalar.inj hface).1
      | list r => cases hface
  | list r =>
      cases y with
      | scalar t => cases hface
      | list s => rfl

end Views

section Equality

open Classical in
theorem allEqual_eq {equal : Value → Value → Except EqualityFault Bool} {as bs : List Value}
    (hlength : as.length = bs.length)
    (hequal : ∀ a ∈ as, ∀ b ∈ bs, equal a b = .ok (decide (h.view a = h.view b))) :
    allEqual equal as bs = .ok (decide (as.map h.view = bs.map h.view)) := by
  induction as generalizing bs with
  | nil =>
      cases bs with
      | nil => simp [allEqual]
      | cons b bs => cases hlength
  | cons a as ih =>
      cases bs with
      | nil => cases hlength
      | cons b bs =>
          have htail := ih (Nat.succ.inj hlength) fun a ha b hb =>
            hequal a (List.mem_cons_of_mem _ ha) b (List.mem_cons_of_mem _ hb)
          rw [allEqual, hequal a (by simp) b (by simp)]
          by_cases hview : h.view a = h.view b
          · simp [hview, htail]
          · simp [hview]

open Classical in
/-- Two values are equal when they look the same at all places inside them. -/
theorem equal_eq {a b : Value} (ha : h.Lawful bound a) (hb : h.Lawful bound b) :
    h.equal bound a b = .ok (decide (h.view a = h.view b)) := by
  induction ha generalizing b with
  | scalar hs =>
      cases hb with
      | scalar ht =>
          rw [equal_scalar, Scalar.refuse_eq_false hs ht, if_neg Bool.false_ne_true,
            Except.ok.injEq, Bool.eq_iff_iff, Scalar.equal_eq_true_iff hs ht, decide_eq_true_iff,
            view_scalar_eq_iff]
      | list => simp [equal, view_scalar_ne_list]
  | @list bound r _ ih =>
      cases hb with
      | scalar ht => simp [equal, (view_scalar_ne_list _ r).symm]
      | @list _ s hitems =>
          rw [equal]
          by_cases hlength : (h.items r).length = (h.items s).length
          · rw [if_pos hlength, allEqual_eq hlength fun a ha b hb => ih a ha (hitems b hb)]
            simp only [view_list_eq_iff]
          · have hview : h.view (.list r) ≠ h.view (.list s) := fun hview =>
              hlength (by simpa using congrArg List.length (view_list_eq_iff.mp hview))
            rw [if_neg hlength, decide_eq_false hview]

theorem equal_eq_true_iff {a b : Value} (ha : h.Lawful bound a) (hb : h.Lawful bound b) :
    h.equal bound a b = .ok true ↔ h.view a = h.view b := by
  classical
  rw [equal_eq ha hb, Except.ok.injEq, decide_eq_true_iff]

end Equality

section Depth

open Relation

theorem Lawful.mono {bound' : Nat} {v : Value} (hv : h.Lawful bound v) (hbound : bound ≤ bound') :
    h.Lawful bound' v := by
  induction hv generalizing bound' with
  | scalar hs => exact .scalar hs
  | list _ ih =>
      obtain ⟨k, rfl⟩ : ∃ k, bound' = k + 1 := ⟨bound' - 1, by omega⟩
      exact .list fun v hv => ih v hv (by omega)

/-- Every scalar inside a value is defined. -/
def Defined (h : Heap) (v : Value) : Prop :=
  ∀ place s, h.inside place v = some (.scalar s) → s.IsDefined

/-- What is inside an item of a list is inside the list. -/
theorem exists_inside_list {r : Nat} {v w : Value} (hv : v ∈ h.items r) {place : List Nat}
    (hw : h.inside place v = some w) : ∃ place', h.inside place' (.list r) = some w := by
  obtain ⟨i, hi⟩ := List.mem_iff_getElem?.mp hv
  refine ⟨i :: place, ?_⟩
  rw [inside, hi]
  exact hw

theorem Defined.item {r : Nat} {v : Value} (hdefined : h.Defined (.list r)) (hv : v ∈ h.items r) :
    h.Defined v := by
  intro place s hs
  obtain ⟨place', hs'⟩ := exists_inside_list hv hs
  exact hdefined place' s hs'

theorem lawful_list {r : Nat} (hclosed : h.Closed) (hgrounded : h.Grounded (.list r))
    (hdefined : h.Defined (.list r)) (hbound : (h.contents r).card < bound) :
    h.Lawful bound (.list r) := by
  induction bound generalizing r with
  | zero => omega
  | succ bound ih =>
      refine .list fun v hv => ?_
      cases v with
      | scalar s => exact .scalar (hdefined.item hv [] s rfl)
      | list s =>
          have hitem := hgrounded.item hv
          have hlt := card_contents_lt hclosed hv (hitem s s rfl .refl)
          exact ih hitem (hdefined.item hv) (by omega)

/-- A value without undefined numbers that reaches no list containing itself is lawful to
compare. -/
theorem lawful_of_grounded {v : Value} (hclosed : h.Closed) (hknows : h.Knows v)
    (hgrounded : h.Grounded v) (hdefined : h.Defined v) (hbound : h.size ≤ bound) :
    h.Lawful bound v := by
  cases v with
  | scalar s => exact .scalar (hdefined [] s rfl)
  | list r =>
      have hlt := card_contents_lt_size (hknows r rfl) (hgrounded r r rfl .refl)
      exact lawful_list hclosed hgrounded hdefined (by omega)

end Depth

end Heap

end BlockScript
