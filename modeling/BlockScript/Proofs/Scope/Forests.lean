import BlockScript.Proofs.Scope.Names
import BlockScript.Scope.Forest

/-!
# Lookups in a forest

A lookup goes up the path of a scope and takes what it finds in the nearest scope that has
something (`IsNearest`).  A new scope has a path of its own and leaves all others as they are;
replacing the bindings of a scope changes no path.
-/

namespace BlockScript

/-- A number is the first one in a row that has a property. -/
def IsNearest (p : Nat → Prop) (row : List Nat) (j : Nat) : Prop :=
  ∃ inner outer, row = inner ++ j :: outer ∧ p j ∧ ∀ i ∈ inner, ¬ p i

namespace IsNearest

variable {p q : Nat → Prop} {row : List Nat} {i j : Nat}

theorem mem (h : IsNearest p row j) : j ∈ row := by
  obtain ⟨inner, outer, rfl, -, -⟩ := h
  exact List.mem_append_right _ List.mem_cons_self

theorem holds (h : IsNearest p row j) : p j := by
  obtain ⟨inner, outer, -, hj, -⟩ := h
  exact hj

theorem congr (h : ∀ i, p i ↔ q i) : IsNearest p row j ↔ IsNearest q row j := by
  have hpq : p = q := funext fun i => propext (h i)
  rw [hpq]

/-- The first number has the property, or the nearest one is further on. -/
theorem cons_iff : IsNearest p (i :: row) j ↔ p i ∧ j = i ∨ ¬ p i ∧ IsNearest p row j := by
  constructor
  · rintro ⟨_ | ⟨k, inner⟩, outer, heq, hj, hinner⟩
    · obtain ⟨rfl, rfl⟩ := List.cons.inj heq
      exact .inl ⟨hj, rfl⟩
    · obtain ⟨rfl, rfl⟩ := List.cons.inj heq
      obtain ⟨hi, hinner⟩ := List.forall_mem_cons.mp hinner
      exact .inr ⟨hi, inner, outer, rfl, hj, hinner⟩
  · rintro (⟨hi, rfl⟩ | ⟨hi, inner, outer, rfl, hj, hinner⟩)
    · exact ⟨[], row, rfl, hi, nofun⟩
    · exact ⟨i :: inner, outer, rfl, hj, List.forall_mem_cons.mpr ⟨hi, hinner⟩⟩

theorem unique (h : IsNearest p row i) (h' : IsNearest p row j) : i = j := by
  induction row with
  | nil => exact absurd h.mem List.not_mem_nil
  | cons k row ih =>
      rcases cons_iff.mp h with ⟨hk, rfl⟩ | ⟨hk, h⟩
      · rcases cons_iff.mp h' with ⟨-, rfl⟩ | ⟨hk', -⟩
        · rfl
        · exact absurd hk hk'
      · rcases cons_iff.mp h' with ⟨hk', -⟩ | ⟨-, h'⟩
        · exact absurd hk' hk
        · exact ih h h'

/-- What a search finds is in the nearest place that has something. -/
theorem findSome?_iff {α : Type} {look : Nat → Option α} {a : α} : row.findSome? look = some a ↔
    ∃ j, IsNearest (fun j => look j ≠ none) row j ∧ look j = some a := by
  rw [List.findSome?_eq_some_iff]
  constructor
  · rintro ⟨inner, j, outer, rfl, hj, hinner⟩
    exact ⟨j, ⟨inner, outer, rfl, by simp [hj], by simpa using hinner⟩, hj⟩
  · rintro ⟨j, ⟨inner, outer, rfl, -, hinner⟩, hj⟩
    exact ⟨inner, j, outer, rfl, hj, by simpa using hinner⟩

section Defined

variable {α : Type} {look look' : Nat → Option α} {p : Prop} [Decidable p] {a : α}
  (hlook : ∀ j, look' j = (look j).or (if i = j ∧ p then some a else none))

include hlook

/-- What one place has got is found where it is the nearest. -/
theorem findSome?_of_defined (hp : p) (hnone : look i = none)
    (h : IsNearest (fun j => j = i ∨ look j ≠ none) row i) : row.findSome? look' = some a := by
  have hi : look' i = some a := by rw [hlook, hnone, if_pos ⟨rfl, hp⟩, Option.none_or]
  refine findSome?_iff.mpr ⟨i, (congr fun j => ?_).mp h, hi⟩
  by_cases hj : j = i
  · simp [hj, hi]
  · rw [hlook, if_neg fun hat => hj hat.1.symm, Option.or_none, or_iff_right hj]

/-- A search goes on as before where it does not come to the place that has got something. -/
theorem findSome?_of_not_defined
    (h : ¬ (p ∧ IsNearest (fun j => j = i ∨ look j ≠ none) row i)) :
    row.findSome? look' = row.findSome? look := by
  induction row with
  | nil => rfl
  | cons k row ih =>
      rw [List.findSome?_cons, List.findSome?_cons, hlook k]
      cases hfind : look k with
      | some a => rfl
      | none =>
          have hk : ¬ (i = k ∧ p) := fun hat =>
            h ⟨hat.2, cons_iff.mpr (.inl ⟨.inl hat.1.symm, hat.1⟩)⟩
          rw [if_neg hk]
          refine ih fun hnear => h ⟨hnear.1, cons_iff.mpr (.inr ⟨?_, hnear.2⟩)⟩
          rintro (rfl | hne)
          · exact hk ⟨rfl, hnear.1⟩
          · exact hne hfind

end Defined

end IsNearest

namespace Scope

variable {s : Scope} {x y : Name} {value : Value}

theorem findVariable?_cons (s : Scope) (v : Variable) (x : Name) :
    Scope.findVariable? { s with vars := v :: s.vars } x =
      if v.name.same x then some v else s.findVariable? x := by
  unfold findVariable?
  rw [List.find?_cons]
  cases v.name.same x <;> rfl

theorem findFunction?_cons (s : Scope) (g : Function) (x : Name) (arity : Nat) :
    Scope.findFunction? { s with functions := g :: s.functions } x arity =
      if g.answers x arity then some g else s.findFunction? x arity := by
  unfold findFunction?
  rw [List.find?_cons]
  cases g.answers x arity <;> rfl

/-- A store changes the value of the variable of its name, and no other variable. -/
theorem findVariable?_setVariable : (s.setVariable y value).findVariable? x =
    if y.same x then (s.findVariable? x).map fun v => { v with value := value }
    else s.findVariable? x := by
  have hname : ∀ v : Variable, ((fun w : Variable => w.name.same x) ∘ fun w =>
      if w.name.same y then { w with value := value } else w) v = v.name.same x := by
    intro v
    dsimp only [Function.comp]
    split <;> rfl
  unfold findVariable? setVariable
  rw [List.find?_map, funext hname]
  cases hfind : s.vars.find? fun v => v.name.same x with
  | none => simp
  | some v =>
      have hv : v.name.key = x.key := Name.same_iff.mp (by simpa using List.find?_some hfind)
      have hsame : v.name.same y = y.same x := by
        rw [Bool.eq_iff_iff, Name.same_iff, Name.same_iff, hv, eq_comm]
      rw [Option.map_some, hsame]
      cases y.same x <;> rfl

end Scope

namespace Forest

variable {f g : Forest} {i j : Nat} {s : Scope} {parent : Option Nat} {x : Name}

/-- Number of scopes. -/
def size (f : Forest) : Nat := f.scopes.size

theorem size_add (f : Forest) (parent : Option Nat) : (f.add parent).2.size = f.size + 1 :=
  Array.size_push _

theorem size_replace (f : Forest) (i : Nat) (s : Scope) : (f.replace i s).size = f.size :=
  Array.size_modify

/-- A new scope has no bindings, and neither had its number before. -/
theorem scope_add (f : Forest) (parent : Option Nat) (j : Nat) :
    (f.add parent).2.scope j = f.scope j := by
  unfold scope add
  simp only [Array.getD_eq_getD_getElem?, Array.getElem?_push]
  split
  · rename_i heq
    simp [heq]
  · rfl

theorem scope_replace (hi : i < f.size) (s : Scope) (j : Nat) :
    (f.replace i s).scope j = if j = i then s else f.scope j := by
  unfold scope replace
  simp only [Array.getD_eq_getD_getElem?, Array.getElem?_modify]
  by_cases heq : i = j
  · subst heq
    have hentry : f.scopes[i]? = some f.scopes[i] := Array.getElem?_eq_getElem hi
    simp [hentry]
  · simp [heq, Ne.symm heq]

theorem parent?_replace (f : Forest) (i : Nat) (s : Scope) (j : Nat) :
    (f.replace i s).parent? j = f.parent? j := by
  have hentry : ((f.replace i s).scopes.getD j (none, .empty)).1 =
      (f.scopes.getD j (none, .empty)).1 := by
    unfold replace
    simp only [Array.getD_eq_getD_getElem?, Array.getElem?_modify]
    by_cases heq : i = j
    · rw [if_pos heq]
      cases f.scopes[j]? <;> rfl
    · rw [if_neg heq]
  unfold parent?
  rw [hentry]

theorem parent?_add_of_ne (parent : Option Nat) (hj : j ≠ f.size) :
    (f.add parent).2.parent? j = f.parent? j := by
  have hne : j ≠ f.scopes.size := hj
  unfold parent? add
  simp only [Array.getD_eq_getD_getElem?, Array.getElem?_push]
  rw [if_neg hne]

theorem parent?_add_size (h : ∀ p ∈ parent, p < f.size) :
    (f.add parent).2.parent? f.size = parent := by
  unfold parent? add
  simp only [Array.getD_eq_getD_getElem?]
  rw [size, Array.getElem?_push_size]
  cases parent with
  | none => rfl
  | some p => exact if_pos (h p rfl)

/-- The path of a scope is that of the scope around it, with the scope in front. -/
theorem path_eq (f : Forest) (i : Nat) : f.path i = i :: ((f.parent? i).elim [] f.path) := by
  rw [path]
  split
  · rename_i heq
    rw [heq]
    rfl
  · rename_i heq
    rw [heq]
    rfl

theorem path_congr (h : ∀ j ≤ i, f.parent? j = g.parent? j) : f.path i = g.path i := by
  induction i using Nat.strongRecOn with
  | ind i ih =>
      rw [path_eq, path_eq g, h i (Nat.le_refl i)]
      cases hparent : g.parent? i with
      | none => rfl
      | some p =>
          have hlt := parent?_lt hparent
          exact congrArg (List.cons i)
            (ih p hlt fun j hj => h j (Nat.le_trans hj (Nat.le_of_lt hlt)))

theorem path_replace (f : Forest) (i : Nat) (s : Scope) (j : Nat) :
    (f.replace i s).path j = f.path j :=
  path_congr fun k _ => parent?_replace f i s k

theorem path_add (parent : Option Nat) (hi : i < f.size) :
    (f.add parent).2.path i = f.path i :=
  path_congr fun _ hj => parent?_add_of_ne parent (Nat.ne_of_lt (Nat.lt_of_le_of_lt hj hi))

/-- The path of a new scope goes on with that of the scope around it. -/
theorem path_add_size (h : ∀ p ∈ parent, p < f.size) :
    (f.add parent).2.path f.size = f.size :: parent.elim [] f.path := by
  rw [path_eq, parent?_add_size h]
  cases parent with
  | none => rfl
  | some p => exact congrArg (List.cons f.size) (path_add _ (h p rfl))

/-- A lookup gives the variable of the nearest scope that has one. -/
theorem lookupVariable_eq_ok_iff {v : Variable} : f.lookupVariable i x = .ok v ↔
    ∃ j, IsNearest (fun j => (f.scope j).findVariable? x ≠ none) (f.path i) j ∧
      (f.scope j).findVariable? x = some v := by
  rw [← IsNearest.findSome?_iff]
  unfold lookupVariable
  cases (f.path i).findSome? fun j => (f.scope j).findVariable? x <;> simp

theorem lookupVariable_eq_error_iff : f.lookupVariable i x = .error (.undefinedVariable x.text) ↔
    ∀ j ∈ f.path i, (f.scope j).findVariable? x = none := by
  rw [← List.findSome?_eq_none_iff]
  unfold lookupVariable
  cases (f.path i).findSome? fun j => (f.scope j).findVariable? x <;> simp

theorem lookupVariable_error {e : ScopeFault} (h : f.lookupVariable i x = .error e) :
    e = .undefinedVariable x.text := by
  unfold lookupVariable at h
  split at h
  · cases h
  · exact (Except.error.inj h).symm

/-- A lookup gives the function of the nearest scope that has one. -/
theorem lookupFunction_eq_ok_iff {arity : Nat} {h : Function} :
    f.lookupFunction i x arity = .ok h ↔
    ∃ j, IsNearest (fun j => (f.scope j).findFunction? x arity ≠ none) (f.path i) j ∧
      (f.scope j).findFunction? x arity = some h := by
  rw [← IsNearest.findSome?_iff]
  unfold lookupFunction
  cases (f.path i).findSome? fun j => (f.scope j).findFunction? x arity <;> simp

theorem lookupFunction_eq_error_iff {arity : Nat} :
    f.lookupFunction i x arity = .error (.undefinedFunction x.text arity) ↔
    ∀ j ∈ f.path i, (f.scope j).findFunction? x arity = none := by
  rw [← List.findSome?_eq_none_iff]
  unfold lookupFunction
  cases (f.path i).findSome? fun j => (f.scope j).findFunction? x arity <;> simp

theorem lookupFunction_error {arity : Nat} {e : ScopeFault}
    (h : f.lookupFunction i x arity = .error e) : e = .undefinedFunction x.text arity := by
  unfold lookupFunction at h
  split at h
  · cases h
  · exact (Except.error.inj h).symm

theorem defineVariable_eq_ok_iff {v : Variable} : f.defineVariable i v = .ok g ↔
    (f.scope i).findVariable? v.name = none ∧
      g = f.replace i { f.scope i with vars := v :: (f.scope i).vars } := by
  unfold defineVariable Scope.defineVariable
  cases (f.scope i).findVariable? v.name <;> simp [Except.map, eq_comm]

theorem defineVariable_eq_error_iff {v : Variable} {e : ScopeFault} :
    f.defineVariable i v = .error e ↔
      (f.scope i).findVariable? v.name ≠ none ∧ e = .variableDefined v.name.text := by
  unfold defineVariable Scope.defineVariable
  cases (f.scope i).findVariable? v.name <;> simp [Except.map, eq_comm]

theorem defineFunction_eq_ok_iff {h : Function} : f.defineFunction i h = .ok g ↔
    (f.scope i).findFunction? h.name h.arity = none ∧
      g = f.replace i { f.scope i with functions := h :: (f.scope i).functions } := by
  unfold defineFunction Scope.defineFunction
  cases (f.scope i).findFunction? h.name h.arity <;> simp [Except.map, eq_comm]

theorem defineFunction_eq_error_iff {h : Function} {e : ScopeFault} :
    f.defineFunction i h = .error e ↔
      (f.scope i).findFunction? h.name h.arity ≠ none ∧
        e = .functionDefined h.name.text h.arity := by
  unfold defineFunction Scope.defineFunction
  cases (f.scope i).findFunction? h.name h.arity <;> simp [Except.map, eq_comm]

/-- A name is resolved to the nearest scope that has a variable of it. -/
theorem owner?_eq_some_iff : f.owner? i x = some j ↔
    IsNearest (fun j => (f.scope j).findVariable? x ≠ none) (f.path i) j := by
  unfold owner?
  rw [List.find?_eq_some_iff_append]
  constructor
  · rintro ⟨hj, inner, outer, heq, hinner⟩
    exact ⟨inner, outer, heq, Option.isSome_iff_ne_none.mp hj, by simpa using hinner⟩
  · rintro ⟨inner, outer, heq, hj, hinner⟩
    exact ⟨Option.isSome_iff_ne_none.mpr hj, inner, outer, heq, by simpa using hinner⟩

end Forest
end BlockScript
