import BlockScript.Proofs.Outcome
import BlockScript.Proofs.Value.Walks
import BlockScript.Running.Program

/-!
# Lists while a program runs

Everything that a sound machine refers to is in its heap, and the heap is acyclic.  What
a program does keeps a machine sound, as far as it goes on: an assignment to an item can
close a cycle, but then the message about it has no end, and the assignment fails.
-/

namespace BlockScript

/-- A scope refers to lists of a heap only. -/
structure Scope.Within (s : Scope) (h : Heap) : Prop where
  vars : ∀ v ∈ s.vars, h.Knows v.value
  functions : ∀ f ∈ s.functions, ∀ v, f.action = .constant v → h.Knows v

namespace Scope

variable {s : Scope} {h h' : Heap}

theorem Within.mono (hs : s.Within h) (hsize : h.size ≤ h'.size) : s.Within h' where
  vars v hv := (hs.vars v hv).mono hsize
  functions f hf v hv := (hs.functions f hf v hv).mono hsize

theorem within_empty (h : Heap) : Scope.empty.Within h where
  vars v hv := by cases hv
  functions f hf := by cases hf

theorem within_builtin (h : Heap) : Scope.builtin.Within h where
  vars v hv := by cases hv
  functions f hf v hv := by
    rcases List.mem_singleton.mp hf with rfl
    cases hv

theorem Within.setVariable (hs : s.Within h) {name : Name} {value : Value}
    (hvalue : h.Knows value) : (s.setVariable name value).Within h where
  vars v hv := by
    obtain ⟨w, hw, rfl⟩ := List.mem_map.mp hv
    by_cases hname : w.name.same name = true
    · rw [if_pos hname]
      exact hvalue
    · rw [if_neg hname]
      exact hs.vars w hw
  functions := hs.functions

end Scope

namespace Machine

/-- Everything refers to lists that are there, and no list contains itself. -/
structure Sound (m : Machine) : Prop where
  closed : m.heap.Closed
  acyclic : m.heap.Acyclic
  scopes : ∀ s ∈ m.scopes.toList, s.Within m.heap
  loaded : ∀ entry ∈ m.loaded, m.heap.Knows entry.2

/-- A machine is sound and has the lists of an earlier one. -/
structure Follows (m m' : Machine) : Prop where
  sound : m'.Sound
  size_le : m.heap.size ≤ m'.heap.size

namespace Follows

variable {m m' m'' : Machine}

theorem refl (hm : m.Sound) : Follows m m := ⟨hm, Nat.le_refl _⟩

theorem trans (h : Follows m m') (h' : Follows m' m'') : Follows m m'' :=
  ⟨h'.sound, Nat.le_trans h.size_le h'.size_le⟩

theorem knows {v : Value} (h : Follows m m') (hv : m.heap.Knows v) : m'.heap.Knows v :=
  hv.mono h.size_le

end Follows

variable {m : Machine}

theorem sound_start {surroundings : List Scope} {heap : Heap} {trace : Trace}
    (hclosed : heap.Closed) (hacyclic : heap.Acyclic)
    (hscopes : ∀ s ∈ surroundings, s.Within heap) :
    (start surroundings heap trace).Sound where
  closed := hclosed
  acyclic := hacyclic
  scopes s hs := by
    rcases List.mem_cons.mp hs with rfl | hs
    · exact Scope.within_builtin heap
    · exact hscopes s hs
  loaded entry hentry := by cases hentry

theorem Sound.enter (hm : m.Sound) : m.enter.Sound where
  closed := hm.closed
  acyclic := hm.acyclic
  scopes s hs := by
    rcases List.mem_cons.mp hs with rfl | hs
    · exact Scope.within_empty _
    · exact hm.scopes s hs
  loaded := hm.loaded

theorem Sound.leave (hm : m.Sound) : m.leave.Sound where
  closed := hm.closed
  acyclic := hm.acyclic
  scopes s hs := by
    refine hm.scopes s ?_
    cases houter : m.scopes.outer with
    | nil =>
        simpa [Machine.leave, Chain.pop, houter] using hs
    | cons s' outer =>
        have hmem : s ∈ s' :: outer := by
          simpa [Machine.leave, Chain.pop, houter, Chain.toList] using hs
        simp only [Chain.toList, houter]
        exact List.mem_cons_of_mem _ hmem
  loaded := hm.loaded

/-- Only the scopes and the heap matter. -/
theorem Sound.of_eq {m' : Machine} (hm : m.Sound) (hheap : m'.heap = m.heap)
    (hscopes : ∀ s ∈ m'.scopes.toList, s.Within m.heap) (hloaded : m'.loaded = m.loaded) :
    m'.Sound where
  closed := by
    rw [hheap]
    exact hm.closed
  acyclic := by
    rw [hheap]
    exact hm.acyclic
  scopes s hs := by
    rw [hheap]
    exact hscopes s hs
  loaded := by
    rw [hheap, hloaded]
    exact hm.loaded

/-- The heap may be replaced by a later one. -/
theorem Sound.withHeap {heap : Heap} (hm : m.Sound) (hsize : m.heap.size ≤ heap.size)
    (hclosed : heap.Closed) (hacyclic : heap.Acyclic) : { m with heap := heap }.Sound where
  closed := hclosed
  acyclic := hacyclic
  scopes s hs := (hm.scopes s hs).mono hsize
  loaded entry hentry := (hm.loaded entry hentry).mono hsize

end Machine

namespace Chain

variable {c c' : Chain} {h : Heap}

theorem within_of_lookupVariable {name : Name} {v : Variable}
    (hc : ∀ s ∈ c.toList, s.Within h) (hv : c.lookupVariable name = .ok v) :
    h.Knows v.value := by
  unfold lookupVariable at hv
  split at hv
  · rename_i w hw
    cases hv
    obtain ⟨s, hs, hfind⟩ := List.exists_of_findSome?_eq_some hw
    exact (hc s hs).vars v (List.mem_of_find?_eq_some hfind)
  · cases hv

theorem within_of_lookupFunction {name : Name} {arity : Nat} {f : Function}
    (hc : ∀ s ∈ c.toList, s.Within h) (hf : c.lookupFunction name arity = .ok f) :
    ∀ v, f.action = .constant v → h.Knows v := by
  unfold lookupFunction at hf
  split at hf
  · rename_i g hg
    cases hf
    obtain ⟨s, hs, hfind⟩ := List.exists_of_findSome?_eq_some hg
    exact (hc s hs).functions f (List.mem_of_find?_eq_some hfind)
  · cases hf

theorem within_defineVariable {v : Variable} (hc : ∀ s ∈ c.toList, s.Within h)
    (hv : h.Knows v.value) (hdefine : c.defineVariable v = .ok c') :
    ∀ s ∈ c'.toList, s.Within h := by
  unfold defineVariable Scope.defineVariable at hdefine
  split at hdefine
  · cases hdefine
  · cases hdefine
    intro s hs
    rcases List.mem_cons.mp hs with rfl | hs
    · have hcurrent := hc c.current (by simp [toList])
      refine ⟨?_, hcurrent.functions⟩
      intro w hw
      rcases List.mem_cons.mp hw with rfl | hw
      · exact hv
      · exact hcurrent.vars w hw
    · exact hc s (by simp [toList, hs])

theorem within_defineFunction {f : Function} (hc : ∀ s ∈ c.toList, s.Within h)
    (hf : ∀ v, f.action = .constant v → h.Knows v) (hdefine : c.defineFunction f = .ok c') :
    ∀ s ∈ c'.toList, s.Within h := by
  unfold defineFunction Scope.defineFunction at hdefine
  split at hdefine
  · cases hdefine
  · cases hdefine
    intro s hs
    rcases List.mem_cons.mp hs with rfl | hs
    · have hcurrent := hc c.current (by simp [toList])
      refine ⟨hcurrent.vars, ?_⟩
      intro g hg
      rcases List.mem_cons.mp hg with rfl | hg
      · exact hf
      · exact hcurrent.functions g hg
    · exact hc s (by simp [toList, hs])

theorem within_setIn {name : Name} {value : Value} {ss : List Scope}
    (hss : ∀ s ∈ ss, s.Within h) (hvalue : h.Knows value) :
    ∀ s ∈ setIn name value ss, s.Within h := by
  induction ss with
  | nil =>
      intro s hs
      cases hs
  | cons s' ss ih =>
      intro s hs
      rw [setIn] at hs
      by_cases hfind : (s'.findVariable? name).isSome = true
      · rw [if_pos hfind] at hs
        rcases List.mem_cons.mp hs with rfl | hs
        · exact (hss s' (by simp)).setVariable hvalue
        · exact hss s (by simp [hs])
      · rw [if_neg hfind] at hs
        rcases List.mem_cons.mp hs with rfl | hs
        · exact hss s (by simp)
        · exact ih (fun t ht => hss t (by simp [ht])) s hs

end Chain
end BlockScript
