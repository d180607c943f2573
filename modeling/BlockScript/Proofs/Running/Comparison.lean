import BlockScript.Proofs.Decimal.Precision
import BlockScript.Proofs.Value.View
import BlockScript.Running.Operator

/-!
# The laws of equality and order

Equality and order take different routes, and both come to a comparison of keys: two values are
equal when they look the same, and those of one kind that has an order are ordered as the rows of
numbers that they are compared by.  The laws of the operators are those of equal views and of the
order of rows.
-/

namespace BlockScript

namespace Value

/-- A value of a kind that has an order.  Lists have none, nor has nil. -/
def HasOrder (v : Value) : Prop := v.type ≠ .any ∧ v.type ≠ .nil

/-- The numbers that a value is compared by with others of its kind. -/
def key : Value → List (ℤ ×ₗ ℚ)
  | scalar s => s.key
  | list _ => []

/-- Values that look the same are of one kind and are compared by the same numbers. -/
theorem eq_of_view_eq {h : Heap} {v w : Value} (hview : h.view v = h.view w) :
    v.type = w.type ∧ v.key = w.key := by
  cases v with
  | scalar s =>
      cases w with
      | scalar t => exact Heap.view_scalar_eq_iff.mp hview
      | list r => exact absurd hview (Heap.view_scalar_ne_list s r)
  | list r =>
      cases w with
      | scalar t => exact absurd hview.symm (Heap.view_scalar_ne_list t r)
      | list s => exact ⟨rfl, rfl⟩

/-- Values of one kind that has an order look the same when they are compared by the same
numbers. -/
theorem view_eq_iff {h : Heap} {v w : Value} (horder : v.HasOrder) (htype : v.type = w.type) :
    h.view v = h.view w ↔ v.key = w.key := by
  refine ⟨fun hview => (eq_of_view_eq hview).2, fun hkey => ?_⟩
  cases v with
  | list r => exact absurd rfl horder.1
  | scalar s =>
      cases w with
      | list r => exact absurd htype horder.1
      | scalar t => exact Heap.view_scalar_eq_iff.mpr ⟨htype, hkey⟩

end Value

namespace Running

/-- The laws of equality: an equivalence of values, which are apart where values of different
kinds stand at one place inside them. -/
structure LawfulEquality (settings : Settings) (heap : Heap) : Prop where
  decided : ∀ a b, heap.Lawful settings.nesting a → heap.Lawful settings.nesting b →
    ∃ answer, valuesEqual settings heap a b = .ok answer
  reflexive : ∀ a, heap.Lawful settings.nesting a → valuesEqual settings heap a a = .ok true
  symmetric : ∀ a b, heap.Lawful settings.nesting a → heap.Lawful settings.nesting b →
    valuesEqual settings heap a b = valuesEqual settings heap b a
  transitive : ∀ a b c, heap.Lawful settings.nesting a → heap.Lawful settings.nesting b →
    heap.Lawful settings.nesting c → valuesEqual settings heap a b = .ok true →
    valuesEqual settings heap b c = .ok true → valuesEqual settings heap a c = .ok true
  apart : ∀ a b, heap.Lawful settings.nesting a → heap.Lawful settings.nesting b →
    ∀ place x y, heap.inside place a = some x → heap.inside place b = some y →
      x.type ≠ y.type → valuesEqual settings heap a b = .ok false

/-- The laws of order, by what the operators give: a linear order within each kind that has one,
which equality agrees with, and no order anywhere else. -/
structure LawfulOrder (settings : Settings) (heap : Heap) : Prop where
  decided : ∀ a b, heap.Lawful settings.nesting a → heap.Lawful settings.nesting b →
    a.HasOrder → a.type = b.type →
    ∃ order : Ordering, operate settings heap "<" a b = .ok (.boolean (order == .lt)) ∧
      operate settings heap "==" a b = .ok (.boolean (order == .eq)) ∧
      operate settings heap ">" a b = .ok (.boolean (order == .gt))
  transitive : ∀ a b c, heap.Lawful settings.nesting a → heap.Lawful settings.nesting b →
    heap.Lawful settings.nesting c → operate settings heap "<" a b = .ok (.boolean true) →
    operate settings heap "<" b c = .ok (.boolean true) →
    operate settings heap "<" a c = .ok (.boolean true)
  converse : ∀ a b, heap.Lawful settings.nesting a → heap.Lawful settings.nesting b →
    a.HasOrder → a.type = b.type → operate settings heap ">" a b = operate settings heap "<" b a
  congruent : ∀ a b c, heap.Lawful settings.nesting a → heap.Lawful settings.nesting b →
    heap.Lawful settings.nesting c → operate settings heap "==" a b = .ok (.boolean true) →
    ∀ operator ∈ ["<", "==", ">"],
      operate settings heap operator a c = operate settings heap operator b c ∧
        operate settings heap operator c a = operate settings heap operator c b
  nowhereElse : ∀ a b, ¬ (a.HasOrder ∧ a.type = b.type) → ∀ operator ∈ ["<", ">"],
    operate settings heap operator a b = raise (.notComparable operator a.type b.type)

section Operators

variable {settings : Settings} {heap : Heap} {bound : Nat} {a b : Value}

open Classical in
theorem valuesEqual_eq (ha : heap.Lawful settings.nesting a)
    (hb : heap.Lawful settings.nesting b) :
    valuesEqual settings heap a b = .ok (decide (heap.view a = heap.view b)) := by
  rw [valuesEqual, Heap.equal_eq ha hb]

theorem valuesEqual_eq_true_iff (ha : heap.Lawful settings.nesting a)
    (hb : heap.Lawful settings.nesting b) :
    valuesEqual settings heap a b = .ok true ↔ heap.view a = heap.view b := by
  classical
  rw [valuesEqual_eq ha hb, Except.ok.injEq, decide_eq_true_iff]

theorem operate_equal (settings : Settings) (heap : Heap) (a b : Value) :
    operate settings heap "==" a b = (valuesEqual settings heap a b).map Value.boolean := rfl

theorem operate_equal_eq_true_iff (ha : heap.Lawful settings.nesting a)
    (hb : heap.Lawful settings.nesting b) :
    operate settings heap "==" a b = .ok (.boolean true) ↔ heap.view a = heap.view b := by
  classical
  rw [operate_equal, valuesEqual_eq ha hb]
  simp [Except.map, Value.boolean]

theorem operate_below (settings : Settings) (heap : Heap) (a b : Value) :
    operate settings heap "<" a b = ordered "<" .lt a b := rfl

theorem operate_above (settings : Settings) (heap : Heap) (a b : Value) :
    operate settings heap ">" a b = ordered ">" .gt a b := rfl

/-- Values of one kind that has an order are ordered by their keys. -/
theorem ordered_eq (ha : heap.Lawful bound a) (hb : heap.Lawful bound b)
    (horder : a.HasOrder) (htype : a.type = b.type) (operator : String) (wanted : Ordering) :
    ordered operator wanted a b = .ok (.boolean (compare a.key b.key == wanted)) := by
  cases ha with
  | list => exact absurd rfl horder.1
  | @scalar _ s hs =>
      cases hb with
      | list => exact absurd htype horder.1
      | @scalar _ t ht =>
          have hcomparable : s.comparable t = true :=
            Scalar.comparable_eq_true_iff.mpr ⟨htype, horder⟩
          rw [ordered, if_pos hcomparable, Scalar.order_eq hs ht hcomparable]
          rfl

theorem ordered_eq_raise (h : ¬ (a.HasOrder ∧ a.type = b.type)) (operator : String)
    (wanted : Ordering) :
    ordered operator wanted a b = raise (.notComparable operator a.type b.type) := by
  cases a with
  | list r => rfl
  | scalar s =>
      cases b with
      | list r => rfl
      | scalar t =>
          have hcomparable : s.comparable t ≠ true := fun hcomparable =>
            h ((Scalar.comparable_eq_true_iff.mp hcomparable).symm)
          rw [ordered, if_neg hcomparable]

/-- Where two values are in order, they are of one kind that has an order. -/
theorem hasOrder_of_ordered {operator : String} {wanted : Ordering} {v : Value}
    (h : ordered operator wanted a b = .ok v) : a.HasOrder ∧ a.type = b.type := by
  by_contra hnot
  rw [ordered_eq_raise hnot] at h
  cases h

theorem ordered_eq_true_iff (ha : heap.Lawful bound a) (hb : heap.Lawful bound b)
    (horder : a.HasOrder) (htype : a.type = b.type) (operator : String) (wanted : Ordering) :
    ordered operator wanted a b = .ok (.boolean true) ↔ compare a.key b.key = wanted := by
  rw [ordered_eq ha hb horder htype]
  simp [Value.boolean]

/-- The order of two values depends on how they look alone. -/
theorem ordered_congr {a' b' : Value} (ha : heap.Lawful bound a) (ha' : heap.Lawful bound a')
    (hb : heap.Lawful bound b) (hb' : heap.Lawful bound b') (hleft : heap.view a = heap.view a')
    (hright : heap.view b = heap.view b') (operator : String) (wanted : Ordering) :
    ordered operator wanted a b = ordered operator wanted a' b' := by
  obtain ⟨htype, hkey⟩ := Value.eq_of_view_eq hleft
  obtain ⟨htype', hkey'⟩ := Value.eq_of_view_eq hright
  by_cases h : a.HasOrder ∧ a.type = b.type
  · have horder : a'.HasOrder := by
      rw [Value.HasOrder, ← htype]
      exact h.1
    rw [ordered_eq ha hb h.1 h.2, ordered_eq ha' hb' horder (by rw [← htype, ← htype', h.2]),
      hkey, hkey']
  · have h' : ¬ (a'.HasOrder ∧ a'.type = b'.type) := by
      rw [Value.HasOrder, ← htype, ← htype']
      exact h
    rw [ordered_eq_raise h, ordered_eq_raise h', htype, htype']

end Operators

section Laws

variable (settings : Settings) (heap : Heap)

theorem lawfulEquality : LawfulEquality settings heap where
  decided a b ha hb := by
    classical
    exact ⟨_, valuesEqual_eq ha hb⟩
  reflexive a ha := (valuesEqual_eq_true_iff ha ha).mpr rfl
  symmetric a b ha hb := by
    classical
    rw [valuesEqual_eq ha hb, valuesEqual_eq hb ha]
    simp only [eq_comm]
  transitive a b c ha hb hc hab hbc := by
    rw [valuesEqual_eq_true_iff ha hb] at hab
    rw [valuesEqual_eq_true_iff hb hc] at hbc
    exact (valuesEqual_eq_true_iff ha hc).mpr (hab.trans hbc)
  apart a b ha hb place x y hx hy htype := by
    classical
    have hview : heap.view a ≠ heap.view b := fun hview =>
      htype (Heap.type_eq_of_view_eq hview hx hy)
    rw [valuesEqual_eq ha hb, decide_eq_false hview]

theorem lawfulOrder : LawfulOrder settings heap where
  decided a b ha hb horder htype := by
    classical
    refine ⟨compare a.key b.key, ordered_eq ha hb horder htype _ _, ?_,
      ordered_eq ha hb horder htype _ _⟩
    rw [operate_equal, valuesEqual_eq ha hb]
    have hequal : decide (heap.view a = heap.view b) = (compare a.key b.key == .eq) := by
      rw [Bool.eq_iff_iff, decide_eq_true_iff, Value.view_eq_iff horder htype, beq_iff_eq,
        Std.compare_eq_iff_eq]
    rw [hequal]
    rfl
  transitive a b c ha hb hc hab hbc := by
    obtain ⟨horder, htype⟩ := hasOrder_of_ordered hab
    obtain ⟨horder', htype'⟩ := hasOrder_of_ordered hbc
    rw [operate_below, ordered_eq_true_iff ha hb horder htype] at hab
    rw [operate_below, ordered_eq_true_iff hb hc horder' htype'] at hbc
    rw [operate_below, ordered_eq_true_iff ha hc horder (htype.trans htype')]
    exact Std.TransCmp.lt_trans hab hbc
  converse a b ha hb horder htype := by
    have horder' : b.HasOrder := by
      rw [Value.HasOrder, ← htype]
      exact horder
    rw [operate_above, operate_below, ordered_eq ha hb horder htype,
      ordered_eq hb ha horder' htype.symm, Std.OrientedOrd.eq_swap]
    cases compare b.key a.key <;> rfl
  congruent a b c ha hb hc hab operator hoperator := by
    rw [operate_equal_eq_true_iff ha hb] at hab
    simp only [List.mem_cons, List.not_mem_nil, or_false] at hoperator
    rcases hoperator with rfl | rfl | rfl
    · exact ⟨ordered_congr ha hb hc hc hab rfl _ _, ordered_congr hc hc ha hb rfl hab _ _⟩
    · rw [operate_equal, operate_equal, operate_equal, operate_equal]
      classical
      rw [valuesEqual_eq ha hc, valuesEqual_eq hb hc, valuesEqual_eq hc ha, valuesEqual_eq hc hb,
        hab]
      exact ⟨rfl, rfl⟩
    · exact ⟨ordered_congr ha hb hc hc hab rfl _ _, ordered_congr hc hc ha hb rfl hab _ _⟩
  nowhereElse a b h operator hoperator := by
    simp only [List.mem_cons, List.not_mem_nil, or_false] at hoperator
    rcases hoperator with rfl | rfl
    · exact ordered_eq_raise h _ _
    · exact ordered_eq_raise h _ _

/-- **Equality and order of values are lawful.** On values without undefined numbers and without
lists that contain themselves, equality is an equivalence and tells values of different kinds
apart wherever they stand; the values of each kind that has an order are ordered linearly, in
agreement with equality, and no other two values are ordered. -/
theorem comparisons_are_lawful :
    LawfulEquality settings heap ∧ LawfulOrder settings heap ∧
      (heap.Closed → heap.size ≤ settings.nesting → ∀ v, heap.Knows v → heap.Grounded v →
        heap.Defined v → heap.Lawful settings.nesting v) :=
  ⟨lawfulEquality settings heap, lawfulOrder settings heap,
    fun hclosed hbound _ hknows hgrounded hdefined =>
      Heap.lawful_of_grounded hclosed hknows hgrounded hdefined hbound⟩

/-- Two lists of equal decimals that differ in their scales and in the sign of a zero. -/
def scaledPairs : Heap :=
  ⟨#[[.ofScaled ⟨false, 10, -1⟩, .ofScaled ⟨false, 0, -1⟩],
    [.ofScaled ⟨false, 100, -2⟩, .ofScaled ⟨true, 0, -1⟩]]⟩

theorem scaledPairs_are_interchangeable :
    valuesEqual .standard scaledPairs (.list 1) (.list 0) = .ok true ∧
      operate .standard scaledPairs "<" (.ofScaled ⟨false, 10, -1⟩) (.ofScaled ⟨false, 3, 0⟩) =
        operate .standard scaledPairs "<" (.ofScaled ⟨false, 100, -2⟩) (.ofScaled ⟨false, 3, 0⟩) ∧
      operate .standard scaledPairs "<" (.list 0) (.list 1) =
        raise (.notComparable "<" .any .any) := by
  obtain ⟨hequality, horder, -⟩ := comparisons_are_lawful .standard scaledPairs
  have hscaled : ∀ bound d, scaledPairs.Lawful bound (.ofScaled d) := fun _ _ => .scalar trivial
  have hleft : scaledPairs.Lawful Settings.standard.nesting (.list 0) := by
    refine .list fun v hv => ?_
    obtain rfl | rfl : v = .ofScaled ⟨false, 10, -1⟩ ∨ v = .ofScaled ⟨false, 0, -1⟩ := by
      simpa [scaledPairs, Heap.items] using hv
    all_goals exact hscaled _ _
  have hright : scaledPairs.Lawful Settings.standard.nesting (.list 1) := by
    refine .list fun v hv => ?_
    obtain rfl | rfl : v = .ofScaled ⟨false, 100, -2⟩ ∨ v = .ofScaled ⟨true, 0, -1⟩ := by
      simpa [scaledPairs, Heap.items] using hv
    all_goals exact hscaled _ _
  have hone : Scaled.order ⟨false, 10, -1⟩ ⟨false, 100, -2⟩ = .eq := by
    rw [Scaled.order_eq, compare_eq_iff_eq]
    norm_num [Scaled.value, Scaled.signedCoefficient]
  have hzero : Scaled.order ⟨false, 0, -1⟩ ⟨true, 0, -1⟩ = .eq := by
    rw [Scaled.order_eq, compare_eq_iff_eq]
    norm_num [Scaled.value, Scaled.signedCoefficient]
  refine ⟨?_, ?_, ?_⟩
  · rw [hequality.symmetric _ _ hright hleft]
    simp [valuesEqual, Heap.equal, Heap.allEqual, scaledPairs, Heap.items, Value.ofScaled,
      Scalar.equal, Scalar.refuse, Decimal.equal, Decimal.order?, Decimal.signals, hone,
      hzero, Settings.standard]
  · have hequal : operate .standard scaledPairs "==" (.ofScaled ⟨false, 10, -1⟩)
        (.ofScaled ⟨false, 100, -2⟩) = .ok (.boolean true) := by
      simp [operate, valuesEqual, Heap.equal, Value.ofScaled, Scalar.equal, Scalar.refuse,
        Decimal.equal, Decimal.order?, Decimal.signals, hone, Except.map, Value.boolean]
    exact (horder.congruent _ _ _ (hscaled _ _) (hscaled _ _) (hscaled _ _) hequal "<"
      (by simp)).1
  · exact horder.nowhereElse _ _ (fun h => h.1.1 rfl) "<" (by simp)

end Laws

end Running
end BlockScript
