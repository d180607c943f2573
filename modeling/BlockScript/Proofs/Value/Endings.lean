import BlockScript.Proofs.Value.Symmetry
import BlockScript.Proofs.Value.View
import Mathlib.Data.Finset.Sym

/-!
# Walks through lists end off cycles

The walk that writes a value comes to an end exactly where no list that it reaches contains
itself, as long as every scalar on its way has a text.  The walk that compares two values comes
to an end where one of them reaches no such list.

A walk that ends does not go deeper than there are lists, and a comparison not deeper than there
are pairs of lists, whatever else the heap holds.  The reason is the same for both: a bound that
is the least one for a list is one more than the least bound of a list on the way, so that each
smaller bound is the least one for some list, and no list has two of them
(`within_card_of_within`).
-/

namespace BlockScript

/-- A value that has a text: an integer that is not too long to be written, a character that
holds a text, or any value of another kind. -/
def Scalar.IsWritable : Scalar → Prop
  | integer n => ∃ numeral, Text.intText? n = some numeral
  | character value => ∃ text, value = .string text
  | _ => True

theorem Scalar.IsWritable.exists_text {s : Scalar} (h : s.IsWritable) :
    ∃ text, s.text = .ok text := by
  cases s with
  | integer n =>
      obtain ⟨numeral, hn⟩ := h
      refine ⟨numeral, ?_⟩
      unfold Scalar.text
      simp only [hn]
  | character value =>
      obtain ⟨text, rfl⟩ := h
      exact ⟨text, rfl⟩
  | nil | boolean | decimal | string | foreign => exact ⟨_, rfl⟩

namespace Heap

/-- The text of a value is made without going deeper than a bound. -/
def TextWithin (h : Heap) (bound : Nat) (v : Value) : Prop := h.text bound v ≠ .error .endless

/-- The making of a text comes to an end. -/
def TextEnds (h : Heap) (v : Value) : Prop := ∃ bound, h.TextWithin bound v

/-- Two values are compared without going deeper than a bound. -/
def EqualityWithin (h : Heap) (bound : Nat) (a b : Value) : Prop :=
  h.equal bound a b ≠ .error .endless

/-- A comparison comes to an end. -/
def EqualityEnds (h : Heap) (a b : Value) : Prop := ∃ bound, h.EqualityWithin bound a b

/-- Every scalar inside a value has a text. -/
def Writable (h : Heap) (v : Value) : Prop :=
  ∀ place s, h.inside place v = some (.scalar s) → s.IsWritable

variable {h : Heap}

theorem Writable.item {r : Nat} {v : Value} (hwritable : h.Writable (.list r))
    (hv : v ∈ h.items r) : h.Writable v := by
  intro place s hs
  obtain ⟨place', hs'⟩ := exists_inside_list hv hs
  exact hwritable place' s hs'

/-- In a heap whose scalars have texts, so have those inside its lists. -/
theorem writable_list (hitems : ∀ r s, .scalar s ∈ h.items r → s.IsWritable) (r : Nat) :
    h.Writable (.list r) := by
  intro place s hs
  induction place generalizing r with
  | nil => cases hs
  | cons i place ih =>
      rw [inside, Option.bind_eq_some_iff] at hs
      obtain ⟨v, hv, hplace⟩ := hs
      cases v with
      | list r' => exact ih r' hplace
      | scalar t =>
          cases place with
          | nil =>
              cases hplace
              exact hitems r s (List.mem_of_getElem? hv)
          | cons j place => cases hplace

section Steadiness

/-- Where one function gives the same results as another one, up to a fault, it does so along
a row that the other one passes without the fault. -/
theorem mapM_eq_of_ne {α β ε : Type} {f g : α → Except ε β} {fault : ε} {as : List α}
    (hf : as.mapM f ≠ .error fault) (hg : ∀ a ∈ as, f a ≠ .error fault → g a = f a) :
    as.mapM g = as.mapM f := by
  induction as with
  | nil => rfl
  | cons a as ih =>
      rw [List.mapM_cons] at hf ⊢
      cases ha : f a with
      | error e =>
          have hne : f a ≠ .error fault := by
            intro heq
            rw [heq] at hf
            exact hf rfl
          rw [List.mapM_cons, hg a (by simp) hne, ha]
          rfl
      | ok b =>
          have htail : as.mapM f ≠ .error fault := by
            intro heq
            rw [ha, heq] at hf
            exact hf rfl
          rw [List.mapM_cons, hg a (by simp) (by simp [ha]), ha,
            ih htail fun a ha => hg a (List.mem_cons_of_mem _ ha)]

/-- The same for comparisons along two rows. -/
theorem allEqual_eq_of_ne {f g : Value → Value → Except EqualityFault Bool}
    {fault : EqualityFault} {as bs : List Value} (hf : allEqual f as bs ≠ .error fault)
    (hg : ∀ a ∈ as, ∀ b ∈ bs, f a b ≠ .error fault → g a b = f a b) :
    allEqual g as bs = allEqual f as bs := by
  induction as generalizing bs with
  | nil => rfl
  | cons a as ih =>
      cases bs with
      | nil => rfl
      | cons b bs =>
          have hhead : f a b ≠ .error fault := by
            intro heq
            rw [allEqual, heq] at hf
            exact hf rfl
          rw [allEqual, allEqual, hg a (by simp) b (by simp) hhead]
          split
          · rename_i htrue
            rw [allEqual, htrue] at hf
            exact ih hf fun a ha b hb =>
              hg a (List.mem_cons_of_mem _ ha) b (List.mem_cons_of_mem _ hb)
          · rfl

theorem textWithin_list {bound r : Nat} :
    h.TextWithin (bound + 1) (.list r) ↔ (h.items r).mapM (h.text bound) ≠ .error .endless := by
  rw [TextWithin, text]
  cases (h.items r).mapM (h.text bound) with
  | error e =>
      constructor <;> intro hne heq <;> cases heq <;> exact hne rfl
  | ok parts =>
      constructor <;> intro hne heq <;> cases heq

theorem equalityWithin_list {bound r s : Nat} :
    h.EqualityWithin (bound + 1) (.list r) (.list s) ↔
      ((h.items r).length = (h.items s).length →
        allEqual (h.equal bound) (h.items r) (h.items s) ≠ .error .endless) := by
  rw [EqualityWithin, equal]
  by_cases hlength : (h.items r).length = (h.items s).length
  · simp [hlength]
  · simp [hlength]

/-- A text that is made within a bound is the same one under the next bound. -/
theorem text_succ {bound : Nat} {v : Value} (hv : h.TextWithin bound v) :
    h.text (bound + 1) v = h.text bound v := by
  induction bound generalizing v with
  | zero =>
      cases v with
      | scalar s => rw [text_scalar, text_scalar]
      | list r => exact absurd rfl hv
  | succ bound ih =>
      cases v with
      | scalar s => rw [text_scalar, text_scalar]
      | list r =>
          rw [text, text, mapM_eq_of_ne (textWithin_list.mp hv) fun v _ hv => ih hv]

/-- A comparison that ends within a bound has the same answer under the next bound. -/
theorem equal_succ {bound : Nat} {a b : Value} (hab : h.EqualityWithin bound a b) :
    h.equal (bound + 1) a b = h.equal bound a b := by
  induction bound generalizing a b with
  | zero =>
      cases a with
      | scalar s => cases b <;> rfl
      | list r =>
          cases b with
          | scalar t => rfl
          | list s => exact absurd rfl hab
  | succ bound ih =>
      cases a with
      | scalar s => cases b <;> rfl
      | list r =>
          cases b with
          | scalar t => rfl
          | list s =>
              rw [equal, equal]
              by_cases hlength : (h.items r).length = (h.items s).length
              · rw [if_pos hlength, if_pos hlength]
                exact allEqual_eq_of_ne (equalityWithin_list.mp hab hlength)
                  fun a _ b _ hab => ih hab
              · rw [if_neg hlength, if_neg hlength]

theorem text_of_le {bound bound' : Nat} {v : Value} (hv : h.TextWithin bound v)
    (hle : bound ≤ bound') : h.text bound' v = h.text bound v := by
  induction hle with
  | refl => rfl
  | step _ ih => rw [text_succ (by rwa [TextWithin, ih]), ih]

theorem equal_of_le {bound bound' : Nat} {a b : Value} (hab : h.EqualityWithin bound a b)
    (hle : bound ≤ bound') : h.equal bound' a b = h.equal bound a b := by
  induction hle with
  | refl => rfl
  | step _ ih => rw [equal_succ (by rwa [EqualityWithin, ih]), ih]

theorem TextWithin.mono {bound bound' : Nat} {v : Value} (hv : h.TextWithin bound v)
    (hle : bound ≤ bound') : h.TextWithin bound' v := by
  rwa [TextWithin, text_of_le hv hle]

theorem EqualityWithin.mono {bound bound' : Nat} {a b : Value}
    (hab : h.EqualityWithin bound a b) (hle : bound ≤ bound') : h.EqualityWithin bound' a b := by
  rwa [EqualityWithin, equal_of_le hab hle]

end Steadiness

section Depth

/-- Of finitely many nodes, each that comes to an end at all does so within as many steps as
there are nodes, when a node that needs more than one step has a node behind it that needs just
one step less. -/
theorem within_card_of_within {α : Type} (nodes : Finset α) (Within : Nat → α → Prop)
    (hzero : ∀ a, ¬ Within 0 a)
    (hmono : ∀ {k l : Nat} {a : α}, Within k a → k ≤ l → Within l a)
    (hstep : ∀ {k : Nat} {a : α}, a ∈ nodes → Within (k + 2) a → ¬ Within (k + 1) a →
      ∃ b ∈ nodes, Within (k + 1) b ∧ ¬ Within k b)
    {a : α} (ha : a ∈ nodes) {k : Nat} (hk : Within k a) : Within nodes.card a := by
  classical
  have hends : ∃ k, Within k a := ⟨k, hk⟩
  obtain ⟨least, hleast⟩ : ∃ least, Nat.find hends = least + 1 :=
    Nat.exists_eq_succ_of_ne_zero fun hnone => hzero a (hnone ▸ Nat.find_spec hends)
  have hwithin : Within (least + 1) a := hleast ▸ Nat.find_spec hends
  have hnot : ¬ Within least a := Nat.find_min hends (by omega)
  -- Every bound up to the least one for `a` is the least one for some node.
  have hlevels : ∀ j < least + 1, ∃ b ∈ nodes, Within (j + 1) b ∧ ¬ Within j b := by
    intro j hj
    have hle : j ≤ least := by omega
    clear hj
    induction hle using Nat.decreasingInduction with
    | self => exact ⟨a, ha, hwithin, hnot⟩
    | of_succ j _ ih =>
        obtain ⟨b, hb, hb', hb''⟩ := ih
        exact hstep hb hb' hb''
  have : Nonempty α := ⟨a⟩
  choose! node hmem hnode hbelow using hlevels
  have hinjective : Set.InjOn node (Finset.range (least + 1)) := by
    intro i hi j hj hij
    rw [Finset.coe_range, Set.mem_Iio] at hi hj
    rcases lt_trichotomy i j with hlt | heq | hgt
    · exact absurd (hmono (hij ▸ hnode i hi) hlt) (hbelow j hj)
    · exact heq
    · exact absurd (hmono (hij ▸ hnode j hj) hgt) (hbelow i hi)
  have hcard := Finset.card_le_card_of_injOn node
    (fun j hj => hmem j (Finset.mem_range.mp hj)) hinjective
  rw [Finset.card_range] at hcard
  exact hmono hwithin hcard

/-- Where a text needs a larger bound, so does the text of an item. -/
theorem exists_item_of_not_textWithin {bound r : Nat}
    (hwithin : h.TextWithin (bound + 2) (.list r)) (hnot : ¬ h.TextWithin (bound + 1) (.list r)) :
    ∃ s, .list s ∈ h.items r ∧ h.TextWithin (bound + 1) (.list s) ∧
      ¬ h.TextWithin bound (.list s) := by
  by_contra hnone
  have hitem : ∀ v ∈ h.items r, h.TextWithin (bound + 1) v → h.TextWithin bound v := by
    intro v hv hv'
    cases v with
    | scalar s => exact fun heq => s.text_ne_endless (by rwa [text_scalar] at heq)
    | list s => exact by_contra fun hv'' => hnone ⟨s, hv, hv', hv''⟩
  have hrow := mapM_eq_of_ne (textWithin_list.mp hwithin)
    fun v hv hv' => (text_succ (hitem v hv hv')).symm
  refine hnot (textWithin_list.mpr ?_)
  rw [hrow]
  exact textWithin_list.mp hwithin

/-- Where a comparison needs a larger bound, so does that of two items. -/
theorem exists_items_of_not_equalityWithin {bound r s : Nat}
    (hwithin : h.EqualityWithin (bound + 2) (.list r) (.list s))
    (hnot : ¬ h.EqualityWithin (bound + 1) (.list r) (.list s)) :
    ∃ r' s', .list r' ∈ h.items r ∧ .list s' ∈ h.items s ∧
      h.EqualityWithin (bound + 1) (.list r') (.list s') ∧
      ¬ h.EqualityWithin bound (.list r') (.list s') := by
  by_contra hnone
  have hitem : ∀ a ∈ h.items r, ∀ b ∈ h.items s, h.EqualityWithin (bound + 1) a b →
      h.EqualityWithin bound a b := by
    intro a ha b hb hab hendless
    obtain ⟨r', s', rfl, rfl⟩ := lists_of_equal_endless hendless
    exact hnone ⟨r', s', ha, hb, hab, fun hwithin => hwithin hendless⟩
  refine hnot (equalityWithin_list.mpr fun hlength => ?_)
  have hrow := equalityWithin_list.mp hwithin hlength
  rw [allEqual_eq_of_ne hrow fun a ha b hb hab => (equal_succ (hitem a ha b hb hab)).symm]
  exact hrow

/-- A text that comes to an end nests no deeper than there are lists. -/
theorem textWithin_size (hclosed : h.Closed) {v : Value} (hknows : h.Knows v)
    (hends : h.TextEnds v) : h.TextWithin h.size v := by
  obtain ⟨bound, hbound⟩ := hends
  cases v with
  | scalar s => rwa [TextWithin, text_scalar, ← text_scalar h bound]
  | list r =>
      have hcard := within_card_of_within (Finset.range h.size)
        (fun k r => h.TextWithin k (.list r)) (fun _ hzero => hzero rfl)
        (fun hk hle => hk.mono hle) (fun _ hwithin hnot => ?_)
        (Finset.mem_range.mpr (hknows r rfl)) hbound
      · rwa [Finset.card_range] at hcard
      · obtain ⟨s, hs, hstep⟩ := exists_item_of_not_textWithin hwithin hnot
        exact ⟨s, Finset.mem_range.mpr (hclosed _ _ hs s rfl), hstep⟩

/-- The number of pairs of lists, in which the order does not matter and a list may stand
twice. -/
def pairs (h : Heap) : Nat := h.size * (h.size + 1) / 2

theorem card_sym2_lists (h : Heap) : (Finset.range h.size).sym2.card = h.pairs := by
  rw [Finset.card_sym2, Finset.card_range, Nat.choose_two_right, Nat.add_sub_cancel, pairs,
    Nat.mul_comm]

/-- A comparison that comes to an end nests no deeper than there are pairs of lists. -/
theorem equalityWithin_pairs (hheap : h.WellFormed) {a b : Value} (ha : h.Admits a)
    (hb : h.Admits b) (hends : h.EqualityEnds a b) : h.EqualityWithin h.pairs a b := by
  intro hendless
  obtain ⟨r, s, rfl, rfl⟩ := lists_of_equal_endless hendless
  obtain ⟨bound, hbound⟩ := hends
  -- A pair is compared in either order, since the two comparisons nest equally deep.
  have hlist : ∀ {r' s'}, r' < h.size → s' < h.size → ∀ k,
      (∃ r'' s'', s(r', s') = s(r'', s'') ∧ h.EqualityWithin k (.list r'') (.list s'')) →
        h.EqualityWithin k (.list r') (.list s') := by
    rintro r' s' hr hs k ⟨r'', s'', hpair, hk⟩
    rcases Sym2.eq_iff.mp hpair with ⟨rfl, rfl⟩ | ⟨rfl, rfl⟩
    · exact hk
    · rwa [EqualityWithin, equal_comm hheap (.list hr) (.list hs)]
  have hcard := within_card_of_within (Finset.range h.size).sym2
    (fun k p => ∃ r s, p = s(r, s) ∧ h.EqualityWithin k (.list r) (.list s))
    (fun _ ⟨_, _, _, hzero⟩ => hzero rfl)
    (fun ⟨r, s, hp, hk⟩ hle => ⟨r, s, hp, hk.mono hle⟩) (fun hp hwithin hnot => ?_)
    (a := s(r, s)) ?_ ⟨r, s, rfl, hbound⟩
  · rw [card_sym2_lists] at hcard
    cases ha with
    | list hr =>
        cases hb with
        | list hs => exact hlist hr hs _ hcard hendless
  · obtain ⟨r, s, rfl, hwithin⟩ := hwithin
    obtain ⟨r', s', hr', hs', hstep, hstep'⟩ :=
      exists_items_of_not_equalityWithin hwithin fun hk => hnot ⟨r, s, rfl, hk⟩
    have hr := (hheap _ _ hr').knows r' rfl
    have hs := (hheap _ _ hs').knows s' rfl
    refine ⟨s(r', s'), ?_, ⟨r', s', rfl, hstep⟩, fun hk => hstep' (hlist hr hs _ hk)⟩
    rw [Finset.mk_mem_sym2_iff, Finset.mem_range, Finset.mem_range]
    exact ⟨hr, hs⟩
  · rw [Finset.mk_mem_sym2_iff, Finset.mem_range, Finset.mem_range]
    exact ⟨ha.knows r rfl, hb.knows s rfl⟩

end Depth

section Cycles

open Relation

/-- Where every scalar has a text, nothing but its depth keeps a text from being made. -/
theorem text_eq_ok_or_endless {v : Value} (hwritable : h.Writable v) (bound : Nat) :
    (∃ text, h.text bound v = .ok text) ∨ h.text bound v = .error .endless := by
  induction bound generalizing v with
  | zero =>
      cases v with
      | scalar s =>
          rw [text_scalar]
          exact Or.inl (hwritable [] s rfl).exists_text
      | list r => exact Or.inr rfl
  | succ bound ih =>
      cases v with
      | scalar s =>
          rw [text_scalar]
          exact Or.inl (hwritable [] s rfl).exists_text
      | list r =>
          rw [text]
          cases hrow : (h.items r).mapM (h.text bound) with
          | ok parts => exact Or.inl ⟨_, rfl⟩
          | error e =>
              obtain ⟨v, hv, hfault⟩ := exists_error_of_mapM hrow
              rcases ih (hwritable.item hv) with ⟨text, htext⟩ | hendless
              · rw [htext] at hfault
                cases hfault
              · rw [hendless] at hfault
                cases hfault
                exact Or.inr rfl

theorem grounded_of_textEnds {v : Value} (hwritable : h.Writable v) (hends : h.TextEnds v) :
    h.Grounded v := by
  obtain ⟨bound, hbound⟩ := hends
  rcases text_eq_ok_or_endless hwritable bound with ⟨text, htext⟩ | hendless
  · exact grounded_of_text htext
  · exact absurd hendless hbound

theorem equalityEnds_of_grounded (hheap : h.WellFormed) {a b : Value} (ha : h.Admits a)
    (hb : h.Admits b) (hgrounded : h.Grounded a ∨ h.Grounded b) : h.EqualityEnds a b := by
  refine ⟨h.size, ?_⟩
  rcases hgrounded with hgrounded | hgrounded
  · exact equal_ne_endless hheap.closed ha.knows hgrounded (Nat.le_refl _)
  · rw [EqualityWithin, equal_comm hheap ha hb]
    exact equal_ne_endless hheap.closed hb.knows hgrounded (Nat.le_refl _)

/-- The text of a value whose scalars have texts is finished exactly where the value reaches no
list that contains itself, and a text that is finished at all goes no deeper than there are
lists.  A comparison ends where one of its values reaches no such list; it comes to the same in
either order, under every bound; and one that ends goes no deeper than there are pairs of
lists. -/
theorem walks_end_off_cycles (h : Heap) (hheap : h.WellFormed) :
    (∀ v, h.Admits v →
      (h.Writable v → (h.TextEnds v ↔ h.Grounded v)) ∧
      (h.TextEnds v → ∀ bound, h.size ≤ bound →
        h.TextWithin bound v ∧ h.text bound v = h.text h.size v)) ∧
    ∀ a b, h.Admits a → h.Admits b →
      (h.Grounded a ∨ h.Grounded b → h.EqualityEnds a b) ∧
      (∀ bound, h.equal bound a b = h.equal bound b a) ∧
      (h.EqualityEnds a b → ∀ bound, h.pairs ≤ bound →
        h.EqualityWithin bound a b ∧ h.equal bound a b = h.equal h.pairs a b) := by
  refine ⟨fun v hv => ⟨fun hwritable => ⟨grounded_of_textEnds hwritable, fun hgrounded => ?_⟩,
    fun hends bound hbound => ?_⟩, fun a b ha hb => ⟨equalityEnds_of_grounded hheap ha hb,
      equal_comm hheap ha hb, fun hends bound hbound => ?_⟩⟩
  · exact ⟨h.size, text_ne_endless hheap.closed hv.knows hgrounded (Nat.le_refl _)⟩
  · have hwithin := textWithin_size hheap.closed hv.knows hends
    exact ⟨hwithin.mono hbound, text_of_le hwithin hbound⟩
  · have hwithin := equalityWithin_pairs hheap ha hb hends
    exact ⟨hwithin.mono hbound, equal_of_le hwithin hbound⟩

/-- A heap of a list, a list that holds it twice, and a list that holds itself and the first
one. -/
def loopedHeap : Heap :=
  ⟨#[[.list 1, .list 1], [.scalar (.integer 7)], [.list 2, .list 1]]⟩

theorem mem_items_loopedHeap {r : Nat} {v : Value} (hv : v ∈ loopedHeap.items r) :
    v = .scalar (.integer 7) ∨ v = .list 1 ∨ v = .list 2 := by
  match r with
  | 0 | 1 | 2 =>
      simp only [loopedHeap, items, Array.getD_eq_getD_getElem?] at hv
      simp at hv
      tauto
  | r + 3 =>
      simp [loopedHeap, items, Array.getD_eq_getD_getElem?] at hv

/-- In the sample the list that contains itself has no text, the other ones have, and it can be
compared with them in either order. -/
theorem loopedHeap_walks_end :
    loopedHeap.TextWithin 3 (.list 0) ∧ ¬ loopedHeap.TextEnds (.list 2) ∧
      loopedHeap.EqualityWithin 6 (.list 0) (.list 2) ∧
      loopedHeap.EqualityWithin 6 (.list 2) (.list 0) := by
  have hheap : loopedHeap.WellFormed := by
    intro r v hv
    rcases mem_items_loopedHeap hv with rfl | rfl | rfl
    · exact .scalar trivial
    · exact .list (by decide)
    · exact .list (by decide)
  have hwritable : ∀ r, loopedHeap.Writable (.list r) := by
    refine writable_list fun r s hs => ?_
    rcases mem_items_loopedHeap hs with heq | heq | heq <;> cases heq
    exact ⟨_, if_pos (Nat.lt_of_lt_of_le (by decide : 7 < 10 ^ 1)
      (Nat.pow_le_pow_right (by decide) (by decide)))⟩
  have hone : loopedHeap.TextWithin 1 (.list 1) := by
    refine textWithin_list.mpr fun hendless => ?_
    obtain ⟨v, hv, hfault⟩ := exists_error_of_mapM hendless
    rw [List.mem_singleton.mp hv] at hfault
    exact Scalar.text_ne_endless _ hfault
  have hzero : loopedHeap.TextWithin 2 (.list 0) := by
    refine textWithin_list.mpr fun hendless => ?_
    obtain ⟨v, hv, hfault⟩ := exists_error_of_mapM hendless
    rcases List.mem_pair.mp hv with rfl | rfl <;> exact hone hfault
  have hlist : ∀ r < 3, loopedHeap.Admits (.list r) := fun r hr => .list hr
  obtain ⟨htext, hequal⟩ := walks_end_off_cycles loopedHeap hheap
  obtain ⟨hiff, hsize⟩ := htext (.list 0) (hlist 0 (by decide))
  obtain ⟨hiff', -⟩ := htext (.list 2) (hlist 2 (by decide))
  obtain ⟨hends, hswap, hpairs⟩ :=
    hequal (.list 0) (.list 2) (hlist 0 (by decide)) (hlist 2 (by decide))
  have hgrounded := (hiff (hwritable 0)).mp ⟨2, hzero⟩
  have hwithin := (hpairs (hends (Or.inl hgrounded)) 6 (by decide)).1
  refine ⟨(hsize ⟨2, hzero⟩ 3 (by decide)).1, fun hcyclic => ?_, hwithin, ?_⟩
  · have hholds : loopedHeap.Holds 2 2 := List.mem_cons_self
    exact (hiff' (hwritable 2)).mp hcyclic 2 2 rfl .refl (.single hholds)
  · rwa [EqualityWithin, ← hswap]

end Cycles

end Heap

end BlockScript
