import BlockScript.Scope.Basic
import Mathlib.Data.List.Pairwise

/-!
# The names of a scope

A scope binds a name at most once.  What is found under a name is then the one variable of
that name.
-/

namespace BlockScript

namespace Scope

/-- The names of two variables differ. -/
def Differ (v w : Variable) : Prop := w.name.same v.name = false

instance : Std.Symm Differ where
  symm v w h := by
    unfold Differ Name.same at *
    rwa [Bool.beq_comm]

/-- No two variables have one name. -/
def Distinct (s : Scope) : Prop := s.vars.Pairwise Differ

end Scope

variable {name : Name}

theorem findVariable?_congr {name' : Name} (s : Scope) (h : name.same name' = true) :
    s.findVariable? name = s.findVariable? name' := by
  unfold Scope.findVariable? Name.same
  rw [Name.same_iff.mp h]

theorem mem_of_findVariable? {s : Scope} {v : Variable} (h : s.findVariable? name = some v) :
    v ∈ s.vars ∧ v.name.same name = true := by
  unfold Scope.findVariable? at h
  exact ⟨List.mem_of_find?_eq_some h, by simpa using List.find?_some h⟩

theorem answers_iff {f : Function} {arity : Nat} :
    f.answers name arity = true ↔ f.name.same name = true ∧ f.arity = arity := by
  simp [Function.answers]

theorem of_findFunction? {s : Scope} {arity : Nat} {f : Function}
    (h : s.findFunction? name arity = some f) :
    f ∈ s.functions ∧ f.name.same name = true ∧ f.arity = arity := by
  unfold Scope.findFunction? at h
  have hanswers := List.find?_some h
  exact ⟨List.mem_of_find?_eq_some h, answers_iff.mp hanswers⟩

theorem findFunction?_congr {arity : Nat} {f : Function} (s : Scope)
    (h : f.answers name arity = true) :
    s.findFunction? f.name f.arity = s.findFunction? name arity := by
  obtain ⟨hname, rfl⟩ := answers_iff.mp h
  unfold Scope.findFunction? Function.answers Name.same
  rw [Name.same_iff.mp hname]

theorem findFunction?_of_noFunctions {s : Scope} (h : s.functions = []) (name : Name)
    (arity : Nat) : s.findFunction? name arity = none := by
  unfold Scope.findFunction?
  rw [h, List.find?_nil]

theorem Scope.Distinct.cons {s : Scope} (h : s.Distinct) {v : Variable}
    (hv : s.findVariable? v.name = none) : Scope.Distinct { s with vars := v :: s.vars } := by
  refine List.Pairwise.cons ?_ h
  intro w hw
  have hnot := List.find?_eq_none.mp hv w hw
  simpa [Scope.Differ] using hnot

theorem Scope.Distinct.eq_of_same {s : Scope} (h : s.Distinct) {v w : Variable}
    (hv : s.findVariable? name = some v) (hw : w ∈ s.vars) (hsame : w.name.same name = true) :
    w = v := by
  obtain ⟨hmem, hname⟩ := mem_of_findVariable? hv
  by_contra hne
  have hdifferent : Scope.Differ w v := h.forall hw hmem hne
  unfold Scope.Differ at hdifferent
  rw [Name.same_iff.mpr ((Name.same_iff.mp hname).trans (Name.same_iff.mp hsame).symm)]
    at hdifferent
  cases hdifferent

end BlockScript
