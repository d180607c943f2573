import BlockScript.Proofs.Decimal.Order
import BlockScript.Proofs.Value.Walks

/-!
# Equality does not depend on the order of its arguments

A comparison gives the same answer when its two values change places: the same truth value, or
the same reason to give none, under every bound on its depth.

Objects are compared member by member, as maps.  A row of members that repeats a key is no map,
so the objects inside of the values are to have distinct keys.
-/

namespace BlockScript

namespace Decimal

theorem equal_eq_true_iff_position {a b : Decimal} (ha : a.IsNumber) (hb : b.IsNumber) :
    a.equal b = true ↔ a.position = b.position := by
  rw [equal, order?_eq ha hb, beq_iff_eq, Option.some.injEq, compare_eq_iff_eq]

theorem equal_undefined (a : Decimal) (negative signals : Bool) (payload : Nat) :
    a.equal (undefined negative signals payload) = false := by
  cases a <;> rfl

theorem undefined_equal (a : Decimal) (negative signals : Bool) (payload : Nat) :
    (undefined negative signals payload).equal a = false := rfl

theorem equal_comm (a b : Decimal) : a.equal b = b.equal a := by
  by_cases ha : a.IsNumber
  · by_cases hb : b.IsNumber
    · rw [Bool.eq_iff_iff, equal_eq_true_iff_position ha hb, equal_eq_true_iff_position hb ha,
        eq_comm]
    · cases b with
      | undefined => rw [equal_undefined, undefined_equal]
      | finite | infinite => exact absurd trivial hb
  · cases a with
    | undefined => rw [equal_undefined, undefined_equal]
    | finite | infinite => exact absurd trivial ha

end Decimal

namespace Json

/-- No object inside a value repeats a key. -/
inductive HasDistinctKeys : Json → Prop
  | null : HasDistinctKeys null
  | boolean (b : Bool) : HasDistinctKeys (boolean b)
  | integer (n : Int) : HasDistinctKeys (integer n)
  | real (d : Decimal) : HasDistinctKeys (real d)
  | string (text : String) : HasDistinctKeys (string text)
  | array {items : List Json} (hitems : ∀ item ∈ items, HasDistinctKeys item) :
      HasDistinctKeys (array items)
  | object {members : List (String × Json)} (hkeys : (members.map Prod.fst).Nodup)
      (hvalues : ∀ m ∈ members, HasDistinctKeys m.2) : HasDistinctKeys (object members)

theorem equalNumbers_comm (a b : Decimal) : equalNumbers a b = equalNumbers b a := by
  rw [equalNumbers, equalNumbers, Decimal.equal_comm, Bool.and_comm]

section Rows

theorem equalItems_comm {as bs : List Json}
    (h : ∀ a ∈ as, ∀ b ∈ bs, a.equal b = b.equal a) : equalItems as bs = equalItems bs as := by
  induction as generalizing bs with
  | nil => cases bs <;> rfl
  | cons a as ih =>
      cases bs with
      | nil => rfl
      | cons b bs =>
          rw [equalItems, equalItems, h a (by simp) b (by simp),
            ih fun a ha b hb => h a (List.mem_cons_of_mem _ ha) b (List.mem_cons_of_mem _ hb)]

/-- In a map a key is looked up to its only member. -/
theorem lookup_eq_some_iff {members : List (String × Json)}
    (hkeys : (members.map Prod.fst).Nodup) {key : String} {value : Json} :
    members.lookup key = some value ↔ (key, value) ∈ members := by
  induction members with
  | nil => simp
  | cons m members ih =>
      obtain ⟨key', value'⟩ := m
      rw [List.map_cons, List.nodup_cons] at hkeys
      rw [List.lookup_cons, List.mem_cons, Prod.mk.injEq]
      by_cases hkey : key = key'
      · subst hkey
        have hnot : (key, value) ∉ members := fun hmem =>
          hkeys.1 (List.mem_map.mpr ⟨_, hmem, rfl⟩)
        simp [hnot, eq_comm]
      · have hbeq : (key == key') = false := beq_eq_false_iff_ne.mpr hkey
        simp only [hbeq, hkey, false_and, false_or]
        exact ih hkeys.2

theorem equalMembers_eq_true_iff {as bs : List (String × Json)} :
    equalMembers as bs = true ↔
      ∀ m ∈ as, ∃ value, bs.lookup m.1 = some value ∧ m.2.equal value = true := by
  induction as with
  | nil => simp [equalMembers]
  | cons m as ih =>
      obtain ⟨key, a⟩ := m
      rw [equalMembers, Bool.and_eq_true, ih, List.forall_mem_cons]
      refine and_congr_left fun _ => ?_
      cases bs.lookup key <;> simp

/-- Where all members of a map have equal ones in another map of the same size, the other map
has no further keys. -/
theorem equalMembers_swap {as bs : List (String × Json)} (has : (as.map Prod.fst).Nodup)
    (hbs : (bs.map Prod.fst).Nodup) (hlength : as.length = bs.length)
    (hequal : ∀ m ∈ as, ∀ m' ∈ bs, m.2.equal m'.2 = m'.2.equal m.2)
    (h : equalMembers as bs = true) : equalMembers bs as = true := by
  rw [equalMembers_eq_true_iff] at h ⊢
  have hsubset : as.map Prod.fst ⊆ bs.map Prod.fst := by
    intro key hkey
    obtain ⟨m, hm, rfl⟩ := List.mem_map.mp hkey
    obtain ⟨value, hvalue, _⟩ := h m hm
    exact List.mem_map.mpr ⟨_, (lookup_eq_some_iff hbs).mp hvalue, rfl⟩
  have hperm : (as.map Prod.fst).Perm (bs.map Prod.fst) :=
    (has.subperm hsubset).perm_of_length_le (by simp [hlength])
  intro m' hm'
  obtain ⟨m, hm, hkey⟩ := List.mem_map.mp (hperm.mem_iff.mpr (List.mem_map_of_mem hm'))
  obtain ⟨value, hvalue, htrue⟩ := h m hm
  rw [hkey] at hvalue
  have hsame : value = m'.2 :=
    Option.some.inj (hvalue.symm.trans ((lookup_eq_some_iff hbs).mpr hm'))
  refine ⟨m.2, (lookup_eq_some_iff has).mpr (by rw [← hkey]; exact hm), ?_⟩
  rw [← hequal m hm m' hm', ← hsame]
  exact htrue

end Rows

theorem equal_comm {a b : Json} (ha : a.HasDistinctKeys) (hb : b.HasDistinctKeys) :
    a.equal b = b.equal a := by
  induction ha generalizing b with
  | null => cases b <;> simp [equal, number?]
  | boolean | integer | real => cases b <;> simp [equal, number?, equalNumbers_comm]
  | string => cases b <;> simp [equal, number?, eq_comm]
  | array _ ih =>
      cases hb with
      | array hitems => simpa [equal] using equalItems_comm fun a ha b hb => ih a ha (hitems b hb)
      | null | boolean | integer | real | string | object => simp [equal, number?]
  | @object as has _ ih =>
      cases hb with
      | @object bs hbs hvalues =>
          have hequal : ∀ m ∈ as, ∀ m' ∈ bs, m.2.equal m'.2 = m'.2.equal m.2 :=
            fun m hm m' hm' => ih m hm (hvalues m' hm')
          rw [equal, equal, Bool.eq_iff_iff, Bool.and_eq_true, Bool.and_eq_true, beq_iff_eq,
            beq_iff_eq]
          constructor
          · rintro ⟨hlength, hmembers⟩
            exact ⟨hlength.symm, equalMembers_swap has hbs hlength hequal hmembers⟩
          · rintro ⟨hlength, hmembers⟩
            exact ⟨hlength.symm, equalMembers_swap hbs has hlength
              (fun m' hm' m hm => (hequal m hm m' hm').symm) hmembers⟩
      | null | boolean | integer | real | string | array => simp [equal, number?]

end Json

namespace Scalar

/-- No object inside a value repeats a key. -/
def HasDistinctKeys : Scalar → Prop
  | character value => value.HasDistinctKeys
  | foreign value _ => value.HasDistinctKeys
  | _ => True

theorem refuse_comm (s t : Scalar) : s.refuse t = t.refuse s := by
  cases s <;> cases t <;> simp [refuse, Bool.or_comm]

theorem equal_of_type_ne {s t : Scalar} (h : s.type ≠ t.type) : s.equal t = false := by
  unfold equal
  split <;> first | rfl | exact absurd rfl h

theorem equal_comm {s t : Scalar} (hs : s.HasDistinctKeys) (ht : t.HasDistinctKeys) :
    s.equal t = t.equal s := by
  by_cases htype : s.type = t.type
  case neg => rw [equal_of_type_ne htype, equal_of_type_ne (Ne.symm htype)]
  cases s <;> cases t <;> try first | rfl | (cases htype; done)
  case boolean.boolean a b | integer.integer a b | string.string a b =>
    simp [equal, eq_comm]
  case decimal.decimal a b => exact Decimal.equal_comm a b
  case character.character a b => exact Json.equal_comm hs ht
  case foreign.foreign a _ b _ =>
    by_cases hreal : (∃ x, a = .real x) ∧ ∃ y, b = .real y
    · obtain ⟨⟨x, rfl⟩, ⟨y, rfl⟩⟩ := hreal
      exact Decimal.equal_comm x y
    · have hjson := Json.equal_comm hs ht
      cases a <;> cases b <;> first | exact hjson | exact absurd ⟨⟨_, rfl⟩, ⟨_, rfl⟩⟩ hreal

end Scalar

namespace Heap

/-- A value that a heap can hold: a scalar whose objects have distinct keys, or a list that is
there. -/
inductive Admits (h : Heap) : Value → Prop
  | scalar {s : Scalar} (hkeys : s.HasDistinctKeys) : Admits h (.scalar s)
  | list {r : Nat} (hr : r < h.size) : Admits h (.list r)

/-- The items of all lists are values that the heap can hold. -/
def WellFormed (h : Heap) : Prop := ∀ r, ∀ v ∈ h.items r, h.Admits v

variable {h : Heap}

theorem Admits.knows {v : Value} : h.Admits v → h.Knows v
  | .scalar _ => h.knows_scalar _
  | .list hr => fun _ heq => Value.list.inj heq ▸ hr

theorem WellFormed.closed (hheap : h.WellFormed) : h.Closed :=
  fun r v hv => (hheap r v hv).knows

theorem allEqual_comm {equal : Value → Value → Except EqualityFault Bool} {as bs : List Value}
    (h : ∀ a ∈ as, ∀ b ∈ bs, equal a b = equal b a) :
    allEqual equal as bs = allEqual equal bs as := by
  induction as generalizing bs with
  | nil => cases bs <;> rfl
  | cons a as ih =>
      cases bs with
      | nil => rfl
      | cons b bs =>
          have htail := ih fun a ha b hb =>
            h a (List.mem_cons_of_mem _ ha) b (List.mem_cons_of_mem _ hb)
          rw [allEqual, allEqual, h a (by simp) b (by simp), htail]

/-- Two values compare alike in either order, to the same truth value or the same fault. -/
theorem equal_comm (hheap : h.WellFormed) {a b : Value} (ha : h.Admits a) (hb : h.Admits b)
    (bound : Nat) : h.equal bound a b = h.equal bound b a := by
  induction bound generalizing a b with
  | zero =>
      cases ha with
      | list => cases hb <;> rfl
      | scalar hs =>
          cases hb with
          | list => rfl
          | scalar ht =>
              rw [equal_scalar, equal_scalar, Scalar.refuse_comm, Scalar.equal_comm hs ht]
  | succ bound ih =>
      cases ha with
      | scalar hs =>
          cases hb with
          | list => rfl
          | scalar ht =>
              rw [equal_scalar, equal_scalar, Scalar.refuse_comm, Scalar.equal_comm hs ht]
      | @list r =>
          cases hb with
          | scalar => rfl
          | @list s =>
              have hitems := allEqual_comm fun a ha b hb => ih (hheap r a ha) (hheap s b hb)
              rw [equal, equal]
              by_cases hlength : (h.items r).length = (h.items s).length
              · rw [if_pos hlength, if_pos hlength.symm, hitems]
              · rw [if_neg hlength, if_neg fun hswap => hlength hswap.symm]

end Heap

end BlockScript
