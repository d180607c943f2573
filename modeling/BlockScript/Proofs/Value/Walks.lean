import BlockScript.Proofs.Value.Nesting

/-!
# How deep walks through lists go

The text of a value exists only where no list that the value reaches contains itself.  In
a closed heap a walk from such a value goes no deeper than there are lists, since every
step leaves fewer lists to be reached.
-/

namespace BlockScript

theorem Scalar.text_ne_endless (s : Scalar) : s.text ≠ .error .endless := by
  unfold Scalar.text
  split
  case h_3 =>
    split
    · simp
    · simp
  all_goals simp

namespace Heap

open Relation

section Rows

variable {α β ε : Type}

theorem exists_ok_of_mapM {f : α → Except ε β} {as : List α} {bs : List β}
    (h : as.mapM f = .ok bs) : ∀ a ∈ as, ∃ b, f a = .ok b := by
  induction as generalizing bs with
  | nil =>
      simp
  | cons a as ih =>
      rw [List.mapM_cons] at h
      cases ha : f a with
      | error e =>
          rw [ha] at h
          cases h
      | ok b =>
          cases has : as.mapM f with
          | error e =>
              rw [ha, has] at h
              cases h
          | ok bs' =>
              intro a' ha'
              rcases List.mem_cons.mp ha' with rfl | ha'
              · exact ⟨b, ha⟩
              · exact ih has a' ha'

theorem exists_of_mem_mapM {f : α → Except ε β} {as : List α} {bs : List β}
    (h : as.mapM f = .ok bs) : ∀ b ∈ bs, ∃ a ∈ as, f a = .ok b := by
  induction as generalizing bs with
  | nil =>
      cases h
      exact nofun
  | cons a as ih =>
      rw [List.mapM_cons] at h
      cases ha : f a with
      | error e =>
          rw [ha] at h
          cases h
      | ok b =>
          cases has : as.mapM f with
          | error e =>
              rw [ha, has] at h
              cases h
          | ok bs' =>
              rw [ha, has] at h
              cases h
              refine List.forall_mem_cons.mpr ⟨⟨a, List.mem_cons_self, ha⟩, ?_⟩
              intro b' hb'
              obtain ⟨a', ha', hf⟩ := ih has b' hb'
              exact ⟨a', List.mem_cons_of_mem _ ha', hf⟩

theorem exists_error_of_mapM {f : α → Except ε β} {as : List α} {e : ε}
    (h : as.mapM f = .error e) : ∃ a ∈ as, f a = .error e := by
  induction as with
  | nil =>
      cases h
  | cons a as ih =>
      rw [List.mapM_cons] at h
      cases ha : f a with
      | error e' =>
          rw [ha] at h
          cases h
          exact ⟨a, by simp, ha⟩
      | ok b =>
          cases has : as.mapM f with
          | error e' =>
              rw [ha, has] at h
              cases h
              obtain ⟨a', ha', hf⟩ := ih has
              exact ⟨a', by simp [ha'], hf⟩
          | ok bs =>
              rw [ha, has] at h
              cases h

end Rows

section Texts

variable {h : Heap}

@[simp] theorem text_scalar (h : Heap) (bound : Nat) (s : Scalar) :
    h.text bound (.scalar s) = s.text := by
  cases bound <;> rfl

theorem text_list {bound : Nat} {r : Nat} {s : String}
    (htext : h.text (bound + 1) (.list r) = .ok s) :
    ∀ v ∈ h.items r, ∃ t, h.text bound v = .ok t := by
  rw [text] at htext
  cases hparts : (h.items r).mapM (h.text bound) with
  | error e =>
      rw [hparts] at htext
      cases htext
  | ok parts =>
      exact exists_ok_of_mapM hparts

/-- Along a path the text of a list takes a smaller bound. -/
theorem exists_text_of_path {r t : Nat} (hpath : TransGen h.Holds r t) :
    ∀ {bound : Nat} {s : String}, h.text bound (.list r) = .ok s →
      ∃ bound' s', bound' < bound ∧ h.text bound' (.list t) = .ok s' := by
  induction hpath using TransGen.head_induction_on with
  | single hs =>
      intro bound s htext
      cases bound with
      | zero =>
          cases htext
      | succ bound =>
          obtain ⟨s', hs'⟩ := text_list htext _ hs
          exact ⟨bound, s', Nat.lt_succ_self _, hs'⟩
  | head hs _ ih =>
      intro bound s htext
      cases bound with
      | zero =>
          cases htext
      | succ bound =>
          obtain ⟨s', hs'⟩ := text_list htext _ hs
          obtain ⟨bound', s'', hlt, hs''⟩ := ih hs'
          exact ⟨bound', s'', Nat.lt_succ_of_lt hlt, hs''⟩

theorem text_ne_ok_of_cycle {t : Nat} (hcycle : TransGen h.Holds t t) (bound : Nat) :
    ∀ s, h.text bound (.list t) ≠ .ok s := by
  induction bound using Nat.strongRecOn with
  | ind bound ih =>
      intro s htext
      obtain ⟨bound', s', hlt, hs'⟩ := exists_text_of_path hcycle htext
      exact ih bound' hlt s' hs'

/-- A value that has a text reaches no list that contains itself. -/
theorem grounded_of_text {bound : Nat} {v : Value} {s : String} (htext : h.text bound v = .ok s) :
    h.Grounded v := by
  intro r t hr hrt hcycle
  subst hr
  rcases reflTransGen_iff_eq_or_transGen.mp hrt with rfl | hpath
  · exact text_ne_ok_of_cycle hcycle bound s htext
  · obtain ⟨bound', s', _, hs'⟩ := exists_text_of_path hpath htext
    exact text_ne_ok_of_cycle hcycle bound' s' hs'

end Texts

section Depth

variable {h : Heap}

open Classical in
/-- The lists that a list contains. -/
noncomputable def contents (h : Heap) (r : Nat) : Finset Nat :=
  (Finset.range h.size).filter fun s => TransGen h.Holds r s

theorem mem_contents {r s : Nat} :
    s ∈ h.contents r ↔ s < h.size ∧ TransGen h.Holds r s := by
  simp [contents]

theorem contents_subset_range (h : Heap) (r : Nat) : h.contents r ⊆ Finset.range h.size := by
  intro s hs
  rw [Finset.mem_range]
  exact (mem_contents.mp hs).1

/-- A list contains more lists than one that it holds. -/
theorem card_contents_lt {r s : Nat} (hclosed : h.Closed) (hs : h.Holds r s)
    (hacyclic : ¬ TransGen h.Holds s s) : (h.contents s).card < (h.contents r).card := by
  refine Finset.card_lt_card ⟨?_, ?_⟩
  · intro t ht
    obtain ⟨hlt, hpath⟩ := mem_contents.mp ht
    exact mem_contents.mpr ⟨hlt, .head hs hpath⟩
  · intro hsub
    have hmem : s ∈ h.contents r := mem_contents.mpr ⟨hclosed r _ hs s rfl, .single hs⟩
    exact hacyclic (mem_contents.mp (hsub hmem)).2

theorem card_contents_lt_size {r : Nat} (hr : r < h.size) (hacyclic : ¬ TransGen h.Holds r r) :
    (h.contents r).card < h.size := by
  have hsub : h.contents r ⊂ Finset.range h.size := by
    refine ⟨contents_subset_range h r, fun hsub => ?_⟩
    exact hacyclic (mem_contents.mp (hsub (Finset.mem_range.mpr hr))).2
  have hlt := Finset.card_lt_card hsub
  rwa [Finset.card_range] at hlt

theorem text_list_ne_endless {r : Nat} (hclosed : h.Closed) {bound : Nat}
    (hgrounded : h.Grounded (.list r)) (hbound : (h.contents r).card < bound) :
    h.text bound (.list r) ≠ .error .endless := by
  induction bound generalizing r with
  | zero =>
      omega
  | succ bound ih =>
      intro htext
      rw [text] at htext
      cases hparts : (h.items r).mapM (h.text bound) with
      | ok parts =>
          rw [hparts] at htext
          cases htext
      | error e =>
          rw [hparts] at htext
          cases htext
          obtain ⟨v, hv, hfault⟩ := exists_error_of_mapM hparts
          cases v with
          | scalar s =>
              rw [text_scalar] at hfault
              exact s.text_ne_endless hfault
          | list s =>
              have hitem := hgrounded.item hv
              have hlt := card_contents_lt hclosed hv (hitem s s rfl .refl)
              exact ih hitem (by omega) hfault

/-- A walk from a value that reaches no list containing itself goes no deeper than the number
of lists. -/
theorem text_ne_endless {v : Value} (hclosed : h.Closed) (hknows : h.Knows v)
    (hgrounded : h.Grounded v) {bound : Nat} (hbound : h.size ≤ bound) :
    h.text bound v ≠ .error .endless := by
  cases v with
  | scalar s =>
      rw [text_scalar]
      exact s.text_ne_endless
  | list r =>
      have hlt := card_contents_lt_size (hknows r rfl) (hgrounded r r rfl .refl)
      exact text_list_ne_endless hclosed hgrounded (by omega)

end Depth

section Equality

variable {h : Heap}

theorem exists_error_of_allEqual {equal : Value → Value → Except EqualityFault Bool}
    {as bs : List Value} {e : EqualityFault} (h : allEqual equal as bs = .error e) :
    ∃ a ∈ as, ∃ b ∈ bs, equal a b = .error e := by
  induction as generalizing bs with
  | nil =>
      cases h
  | cons a as ih =>
      cases bs with
      | nil =>
          cases h
      | cons b bs =>
          rw [allEqual] at h
          cases hab : equal a b with
          | error e' =>
              rw [hab] at h
              cases h
              exact ⟨a, by simp, b, by simp, hab⟩
          | ok answer =>
              rw [hab] at h
              cases answer with
              | false =>
                  cases h
              | true =>
                  obtain ⟨a', ha', b', hb', hfault⟩ := ih h
                  exact ⟨a', by simp [ha'], b', by simp [hb'], hfault⟩

theorem equal_scalar (h : Heap) (bound : Nat) (s t : Scalar) :
    h.equal bound (.scalar s) (.scalar t) =
      if s.refuse t then .error .refused else .ok (s.equal t) := by
  cases bound <;> rfl

/-- Only two lists are walked. -/
theorem lists_of_equal_endless {bound : Nat} {a b : Value}
    (hequal : h.equal bound a b = .error .endless) : ∃ r s, a = .list r ∧ b = .list s := by
  cases a with
  | list r =>
      cases b with
      | list s => exact ⟨r, s, rfl, rfl⟩
      | scalar t => cases bound <;> cases hequal
  | scalar s =>
      cases b with
      | list r => cases bound <;> cases hequal
      | scalar t =>
          rw [equal_scalar] at hequal
          split at hequal <;> cases hequal

theorem equal_list_ne_endless {r s : Nat} (hclosed : h.Closed) {bound : Nat}
    (hgrounded : h.Grounded (.list r)) (hbound : (h.contents r).card < bound) :
    h.equal bound (.list r) (.list s) ≠ .error .endless := by
  induction bound generalizing r s with
  | zero =>
      omega
  | succ bound ih =>
      intro hequal
      rw [equal] at hequal
      by_cases hlength : (h.items r).length = (h.items s).length
      · rw [if_pos hlength] at hequal
        obtain ⟨a, ha, b, hb, hfault⟩ := exists_error_of_allEqual hequal
        obtain ⟨r', s', rfl, rfl⟩ := lists_of_equal_endless hfault
        have hitem := hgrounded.item ha
        have hlt := card_contents_lt hclosed ha (hitem r' r' rfl .refl)
        exact ih hitem (by omega) hfault
      · rw [if_neg hlength] at hequal
        cases hequal

/-- A comparison goes no deeper than the number of lists when its first value reaches no list
containing itself. -/
theorem equal_ne_endless {a b : Value} (hclosed : h.Closed) (hknows : h.Knows a)
    (hgrounded : h.Grounded a) {bound : Nat} (hbound : h.size ≤ bound) :
    h.equal bound a b ≠ .error .endless := by
  intro hequal
  obtain ⟨r, s, rfl, rfl⟩ := lists_of_equal_endless hequal
  have hlt := card_contents_lt_size (hknows r rfl) (hgrounded r r rfl .refl)
  exact equal_list_ne_endless hclosed hgrounded (by omega) hequal

end Equality

end Heap
end BlockScript
