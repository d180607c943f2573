import BlockScript.Proofs.Scope.Forests

/-!
# Forests in use

Scopes are made, names are defined and looked up, and values are stored into variables that
were looked up before.  A stored value goes to the variable that was looked up, also when a
nearer scope has got a variable of that name since.

Whatever is done, no path of a scope changes, and the variables and functions of a scope stay
but for the values that are stored.
-/

namespace BlockScript
namespace Forest

/-- A variable that was looked up: the number of the scope that has it, and its name. -/
structure Reference where
  scope : Nat
  name : Name

/-- What is done with a forest. -/
inductive Operation
  | newScope (parent : Option Nat)
  | defineVariable (scope : Nat) (v : Variable)
  | defineFunction (scope : Nat) (g : Function)
  | lookupVariable (scope : Nat) (name : Name)
  | lookupFunction (scope : Nat) (name : Name) (arity : Nat)
  /-- Stores a value into a variable that was looked up: the one of this number among those that
  lookups gave. -/
  | store (reference : Nat) (value : Value)

namespace Operation

/-- The scopes that an operation names are among the first `n`. -/
def Fits (n : Nat) : Operation → Prop
  | newScope parent => ∀ p ∈ parent, p < n
  | defineVariable i _ | defineFunction i _ | lookupVariable i _ | lookupFunction i _ _ => i < n
  | store _ _ => True

instance (n : Nat) : DecidablePred (Fits n)
  | newScope parent => inferInstanceAs (Decidable (∀ p ∈ parent, p < n))
  | defineVariable i _ => inferInstanceAs (Decidable (i < n))
  | defineFunction i _ => inferInstanceAs (Decidable (i < n))
  | lookupVariable i _ => inferInstanceAs (Decidable (i < n))
  | lookupFunction i _ _ => inferInstanceAs (Decidable (i < n))
  | store _ _ => inferInstanceAs (Decidable True)

/-- Number of scopes that an operation makes. -/
def scopes : Operation → Nat
  | newScope _ => 1
  | _ => 0

/-- The variable of a name that an operation is to make in one scope. -/
def madeVariable? (j : Nat) (x : Name) : Operation → Option Variable
  | defineVariable i v => if i = j ∧ v.name.same x = true then some v else none
  | _ => none

/-- The function of a name and a number of parameters that an operation is to make. -/
def madeFunction? (j : Nat) (x : Name) (arity : Nat) : Operation → Option Function
  | defineFunction i g => if i = j ∧ g.answers x arity = true then some g else none
  | _ => none

end Operation

/-- A forest in use: its scopes, and the variables that lookups gave so far. -/
structure Session where
  forest : Forest
  references : List Reference

namespace Session

/-- The session in which nothing was done yet. -/
def start : Session := ⟨.empty, []⟩

/-- Does one operation, if it can be done. -/
def perform (s : Session) : Operation → Except ScopeFault Session
  | .newScope parent => .ok { s with forest := (s.forest.add parent).2 }
  | .defineVariable i v => (s.forest.defineVariable i v).map fun f => { s with forest := f }
  | .defineFunction i g => (s.forest.defineFunction i g).map fun f => { s with forest := f }
  | .lookupVariable i x =>
      match s.forest.owner? i x with
      | some j => .ok { s with references := s.references ++ [⟨j, x⟩] }
      | none => .error (.undefinedVariable x.text)
  | .lookupFunction i x arity => (s.forest.lookupFunction i x arity).map fun _ => s
  | .store k value =>
      match s.references[k]? with
      | some r => (s.forest.setVariable r.scope r.name value).map fun f => { s with forest := f }
      | none => .ok s

/-- The session behind an operation, which is the same where the operation fails. -/
def apply (s : Session) (op : Operation) : Session := (s.perform op).toOption.getD s

/-- The variable of a name in one scope. -/
def variableAt (s : Session) (j : Nat) (x : Name) : Option Variable :=
  (s.forest.scope j).findVariable? x

/-- The function of a name and a number of parameters in one scope. -/
def functionAt (s : Session) (j : Nat) (x : Name) (arity : Nat) : Option Function :=
  (s.forest.scope j).findFunction? x arity

/-- The value that an operation stores into the variable of a name in one scope. -/
def storedBy? (s : Session) (j : Nat) (x : Name) : Operation → Option Value
  | .store k value =>
      match s.references[k]? with
      | some r => if r.scope = j ∧ r.name.same x = true then some value else none
      | none => none
  | _ => none

/-- The values that operations store into the variable of a name in one scope, in order. -/
def stored (s : Session) (j : Nat) (x : Name) : List Operation → List Value
  | [] => []
  | op :: ops => (s.storedBy? j x op).toList ++ (s.apply op).stored j x ops

/-- What was looked up is still there. -/
def IsSound (s : Session) : Prop := ∀ r ∈ s.references, s.variableAt r.scope r.name ≠ none

variable {s : Session} {op : Operation} {i j k : Nat} {x : Name} {value : Value}

theorem lt_size_of_variableAt (h : s.variableAt j x ≠ none) : j < s.forest.size := by
  by_contra hj
  refine h ?_
  unfold variableAt scope
  rw [Array.getD_eq_getD_getElem?, Array.getElem?_eq_none (Nat.le_of_not_lt hj)]
  rfl

theorem apply_defineVariable (s : Session) (i : Nat) (v : Variable) :
    s.apply (.defineVariable i v) =
      if s.variableAt i v.name = none then
        { s with forest := s.forest.replace i
                  { s.forest.scope i with vars := v :: (s.forest.scope i).vars } }
      else s := by
  rw [apply, perform]
  unfold Forest.defineVariable Scope.defineVariable variableAt
  cases (s.forest.scope i).findVariable? v.name <;> rfl

theorem apply_defineFunction (s : Session) (i : Nat) (g : Function) :
    s.apply (.defineFunction i g) =
      if s.functionAt i g.name g.arity = none then
        { s with forest := s.forest.replace i
                  { s.forest.scope i with functions := g :: (s.forest.scope i).functions } }
      else s := by
  rw [apply, perform]
  unfold Forest.defineFunction Scope.defineFunction functionAt
  cases (s.forest.scope i).findFunction? g.name g.arity <;> rfl

theorem apply_lookupFunction (s : Session) (i : Nat) (x : Name) (arity : Nat) :
    s.apply (.lookupFunction i x arity) = s := by
  rw [apply, perform]
  cases s.forest.lookupFunction i x arity <;> rfl

theorem forest_apply_lookupVariable (s : Session) (i : Nat) (x : Name) :
    (s.apply (.lookupVariable i x)).forest = s.forest := by
  rw [apply, perform]
  cases s.forest.owner? i x <;> rfl

/-- A variable that was looked up is found again from the scope that has it. -/
theorem IsSound.owner? (hs : s.IsSound) {r : Reference} (hr : r ∈ s.references) :
    s.forest.owner? r.scope r.name = some r.scope :=
  owner?_eq_some_iff.mpr
    ⟨[], _, by rw [path_eq, List.nil_append], hs r hr, by simp⟩

theorem IsSound.setVariable (hs : s.IsSound) {r : Reference} (hr : r ∈ s.references)
    (value : Value) : s.forest.setVariable r.scope r.name value =
      .ok (s.forest.replace r.scope ((s.forest.scope r.scope).setVariable r.name value)) := by
  unfold Forest.setVariable
  rw [hs.owner? hr]

theorem apply_store_of_some (hs : s.IsSound) {r : Reference} (hr : s.references[k]? = some r) :
    s.apply (.store k value) = { s with
      forest := s.forest.replace r.scope ((s.forest.scope r.scope).setVariable r.name value) } := by
  rw [apply, perform]
  rw [hr]
  dsimp only
  rw [hs.setVariable (List.mem_of_getElem? hr)]
  rfl

theorem apply_store_of_none (hr : s.references[k]? = none) : s.apply (.store k value) = s := by
  rw [apply, perform]
  rw [hr]
  rfl

/-- An operation makes a scope, leaves the forest as it is, or replaces a scope. -/
theorem forest_apply (s : Session) (op : Operation) :
    (∃ parent, op = .newScope parent ∧ (s.apply op).forest = (s.forest.add parent).2) ∨
    op.scopes = 0 ∧
      ((s.apply op).forest = s.forest ∨ ∃ i t, (s.apply op).forest = s.forest.replace i t) := by
  cases op with
  | newScope parent => exact .inl ⟨parent, rfl, rfl⟩
  | defineVariable i v =>
      rw [apply_defineVariable]
      split
      · exact .inr ⟨rfl, .inr ⟨_, _, rfl⟩⟩
      · exact .inr ⟨rfl, .inl rfl⟩
  | defineFunction i g =>
      rw [apply_defineFunction]
      split
      · exact .inr ⟨rfl, .inr ⟨_, _, rfl⟩⟩
      · exact .inr ⟨rfl, .inl rfl⟩
  | lookupVariable i x => exact .inr ⟨rfl, .inl (forest_apply_lookupVariable s i x)⟩
  | lookupFunction i x arity =>
      rw [apply_lookupFunction]
      exact .inr ⟨rfl, .inl rfl⟩
  | store k value =>
      refine .inr ⟨rfl, ?_⟩
      rw [apply, perform]
      cases s.references[k]? with
      | none => exact .inl rfl
      | some r =>
          dsimp only
          unfold Forest.setVariable
          cases s.forest.owner? r.scope r.name with
          | none => exact .inl rfl
          | some j => exact .inr ⟨_, _, rfl⟩

theorem size_apply (s : Session) (op : Operation) :
    (s.apply op).forest.size = s.forest.size + op.scopes := by
  rcases forest_apply s op with ⟨parent, rfl, h⟩ | ⟨hscopes, h | ⟨i, t, h⟩⟩
  · rw [h, size_add]
    rfl
  · rw [h, hscopes, Nat.add_zero]
  · rw [h, hscopes, size_replace, Nat.add_zero]

/-- An operation leaves the paths of all scopes as they are. -/
theorem path_apply (op : Operation) (hj : j < s.forest.size) :
    (s.apply op).forest.path j = s.forest.path j := by
  rcases forest_apply s op with ⟨parent, rfl, h⟩ | ⟨-, h | ⟨i, t, h⟩⟩
  · rw [h, path_add parent hj]
  · rw [h]
  · rw [h, path_replace]

theorem variableAt_replace (hi : i < s.forest.size) (t : Scope) (j : Nat) (x : Name) :
    variableAt { s with forest := s.forest.replace i t } j x =
      if j = i then t.findVariable? x else s.variableAt j x := by
  unfold variableAt
  rw [scope_replace hi]
  split <;> rfl

theorem variableAt_replace_of_eq (hi : i < s.forest.size) {t : Scope}
    (ht : t.findVariable? x = s.variableAt i x) (j : Nat) :
    variableAt { s with forest := s.forest.replace i t } j x = s.variableAt j x := by
  rw [variableAt_replace hi]
  split
  · subst j
    exact ht
  · rfl

theorem functionAt_replace (hi : i < s.forest.size) (t : Scope) (j : Nat) (x : Name)
    (arity : Nat) : functionAt { s with forest := s.forest.replace i t } j x arity =
      if j = i then t.findFunction? x arity else s.functionAt j x arity := by
  unfold functionAt
  rw [scope_replace hi]
  split <;> rfl

theorem functionAt_replace_of_eq (hi : i < s.forest.size) {t : Scope} {arity : Nat}
    (ht : t.findFunction? x arity = s.functionAt i x arity) (j : Nat) :
    functionAt { s with forest := s.forest.replace i t } j x arity =
      s.functionAt j x arity := by
  rw [functionAt_replace hi]
  split
  · subst j
    exact ht
  · rfl

theorem variableAt_apply_defineVariable (hi : i < s.forest.size) (v : Variable) (j : Nat)
    (x : Name) : (s.apply (.defineVariable i v)).variableAt j x =
      (s.variableAt j x).or (if i = j ∧ v.name.same x = true then some v else none) := by
  rw [apply_defineVariable]
  by_cases hmade : i = j ∧ v.name.same x = true
  · rw [if_pos hmade]
    obtain ⟨rfl, hx⟩ := hmade
    have hname : s.variableAt i v.name = s.variableAt i x := findVariable?_congr _ hx
    rw [hname]
    cases hfind : s.variableAt i x with
    | some w => rw [if_neg nofun, hfind, Option.some_or]
    | none =>
        rw [if_pos rfl, variableAt_replace hi, if_pos rfl, Scope.findVariable?_cons, if_pos hx,
          Option.none_or]
  · rw [if_neg hmade, Option.or_none]
    split
    · rw [variableAt_replace hi, Scope.findVariable?_cons]
      split
      · subst j
        exact if_neg fun hx => hmade ⟨rfl, hx⟩
      · rfl
    · rfl

theorem functionAt_apply_defineFunction (hi : i < s.forest.size) (g : Function) (j : Nat)
    (x : Name) (arity : Nat) : (s.apply (.defineFunction i g)).functionAt j x arity =
      (s.functionAt j x arity).or
        (if i = j ∧ g.answers x arity = true then some g else none) := by
  rw [apply_defineFunction]
  by_cases hmade : i = j ∧ g.answers x arity = true
  · rw [if_pos hmade]
    obtain ⟨rfl, hg⟩ := hmade
    have hname : s.functionAt i g.name g.arity = s.functionAt i x arity :=
      findFunction?_congr _ hg
    rw [hname]
    cases hfind : s.functionAt i x arity with
    | some w => rw [if_neg nofun, hfind, Option.some_or]
    | none =>
        rw [if_pos rfl, functionAt_replace hi, if_pos rfl, Scope.findFunction?_cons, if_pos hg,
          Option.none_or]
  · rw [if_neg hmade, Option.or_none]
    split
    · rw [functionAt_replace hi, Scope.findFunction?_cons]
      split
      · subst j
        exact if_neg fun hg => hmade ⟨rfl, hg⟩
      · rfl
    · rfl

/-- A value that is the old one changes nothing. -/
theorem map_same_value (o : Option Variable) :
    o.map (fun v => { v with value := v.value }) = o := Option.map_id'

theorem variableAt_apply_store (hs : s.IsSound) (k : Nat) (value : Value) (j : Nat) (x : Name) :
    (s.apply (.store k value)).variableAt j x = (s.variableAt j x).map fun v =>
      { v with value := (s.storedBy? j x (.store k value)).getD v.value } := by
  cases hr : s.references[k]? with
  | none =>
      have hstored : s.storedBy? j x (.store k value) = none := by rw [storedBy?, hr]
      rw [apply_store_of_none hr, hstored]
      exact (map_same_value _).symm
  | some r =>
      have hi := lt_size_of_variableAt (hs r (List.mem_of_getElem? hr))
      have hstored : s.storedBy? j x (.store k value) =
          if r.scope = j ∧ r.name.same x = true then some value else none := by
        rw [storedBy?, hr]
      rw [apply_store_of_some hs hr, variableAt_replace hi, Scope.findVariable?_setVariable,
        hstored]
      by_cases hat : r.scope = j ∧ r.name.same x = true
      · rw [if_pos hat, if_pos hat.1.symm, if_pos hat.2, hat.1]
        rfl
      · rw [if_neg hat]
        refine Eq.trans ?_ (map_same_value _).symm
        split
        · subst j
          exact if_neg fun hx => hat ⟨rfl, hx⟩
        · rfl

theorem variableAt_apply_other (hop : op.Fits s.forest.size)
    (hdefine : ∀ i v, op ≠ .defineVariable i v) (hstore : ∀ k value, op ≠ .store k value)
    (j : Nat) (x : Name) : (s.apply op).variableAt j x = s.variableAt j x := by
  cases op with
  | newScope parent => exact congrArg (Scope.findVariable? · x) (scope_add s.forest parent j)
  | defineVariable i v => exact absurd rfl (hdefine i v)
  | defineFunction i g =>
      rw [apply_defineFunction]
      split
      · refine variableAt_replace_of_eq hop ?_ j
        rfl
      · rfl
  | lookupVariable i y =>
      unfold variableAt
      rw [forest_apply_lookupVariable]
  | lookupFunction i y arity => rw [apply_lookupFunction]
  | store k value => exact absurd rfl (hstore k value)

theorem functionAt_apply_other (hs : s.IsSound) (hop : op.Fits s.forest.size)
    (hdefine : ∀ i g, op ≠ .defineFunction i g) (j : Nat) (x : Name) (arity : Nat) :
    (s.apply op).functionAt j x arity = s.functionAt j x arity := by
  cases op with
  | newScope parent =>
      exact congrArg (Scope.findFunction? · x arity) (scope_add s.forest parent j)
  | defineVariable i v =>
      rw [apply_defineVariable]
      split
      · refine functionAt_replace_of_eq hop ?_ j
        rfl
      · rfl
  | defineFunction i g => exact absurd rfl (hdefine i g)
  | lookupVariable i y =>
      unfold functionAt
      rw [forest_apply_lookupVariable]
  | lookupFunction i y arity => rw [apply_lookupFunction]
  | store k value =>
      cases hr : s.references[k]? with
      | none => rw [apply_store_of_none hr]
      | some r =>
          have hi := lt_size_of_variableAt (hs r (List.mem_of_getElem? hr))
          rw [apply_store_of_some hs hr]
          refine functionAt_replace_of_eq hi ?_ j
          rfl

/-- What an operation does to the variable of a name in one scope. -/
theorem variableAt_apply (hs : s.IsSound) (hop : op.Fits s.forest.size) (j : Nat) (x : Name) :
    (s.apply op).variableAt j x =
      ((s.variableAt j x).map fun v =>
        { v with value := (s.storedBy? j x op).getD v.value }).or (op.madeVariable? j x) := by
  have hsame : s.variableAt j x = ((s.variableAt j x).map fun v =>
      { v with value := v.value }).or none := by rw [map_same_value, Option.or_none]
  cases op with
  | defineVariable i v =>
      rw [variableAt_apply_defineVariable hop]
      exact congrArg (Option.or · _) (map_same_value _).symm
  | store k value => exact (variableAt_apply_store hs k value j x).trans Option.or_none.symm
  | newScope parent => exact (variableAt_apply_other hop nofun nofun j x).trans hsame
  | defineFunction i g => exact (variableAt_apply_other hop nofun nofun j x).trans hsame
  | lookupVariable i y => exact (variableAt_apply_other hop nofun nofun j x).trans hsame
  | lookupFunction i y arity => exact (variableAt_apply_other hop nofun nofun j x).trans hsame

/-- What an operation does to the function of a name and a number of parameters. -/
theorem functionAt_apply (hs : s.IsSound) (hop : op.Fits s.forest.size) (j : Nat) (x : Name)
    (arity : Nat) :
    (s.apply op).functionAt j x arity =
      (s.functionAt j x arity).or (op.madeFunction? j x arity) := by
  have hother (h : ∀ i g, op ≠ .defineFunction i g) :
      (s.apply op).functionAt j x arity = (s.functionAt j x arity).or none :=
    (functionAt_apply_other hs hop h j x arity).trans Option.or_none.symm
  cases op with
  | defineFunction i g => exact functionAt_apply_defineFunction hop g j x arity
  | newScope parent => exact hother nofun
  | defineVariable i v => exact hother nofun
  | lookupVariable i y => exact hother nofun
  | lookupFunction i y arity => exact hother nofun
  | store k value => exact hother nofun

theorem perform_defineVariable_eq_error_iff {v : Variable} {e : ScopeFault} :
    s.perform (.defineVariable i v) = .error e ↔
      s.variableAt i v.name ≠ none ∧ e = .variableDefined v.name.text := by
  unfold variableAt
  rw [perform, ← defineVariable_eq_error_iff]
  cases s.forest.defineVariable i v <;> simp [Except.map]

theorem perform_defineFunction_eq_error_iff {g : Function} {e : ScopeFault} :
    s.perform (.defineFunction i g) = .error e ↔
      s.functionAt i g.name g.arity ≠ none ∧ e = .functionDefined g.name.text g.arity := by
  unfold functionAt
  rw [perform, ← defineFunction_eq_error_iff]
  cases s.forest.defineFunction i g <;> simp [Except.map]

/-! ### Lookups behind an operation -/

/-- A variable that was just defined is found from where no nearer scope has one. -/
theorem lookupVariable_of_defined {v : Variable} (hi : i < s.forest.size)
    (hk : k < s.forest.size) (hx : v.name.same x = true) (hnone : s.variableAt i x = none)
    (h : IsNearest (fun j => j = i ∨ s.variableAt j x ≠ none) (s.forest.path k) i) :
    (s.apply (.defineVariable i v)).forest.lookupVariable k x = .ok v := by
  have hfound := IsNearest.findSome?_of_defined
    (fun j => variableAt_apply_defineVariable hi v j x) hx hnone h
  unfold variableAt at hfound
  unfold lookupVariable
  rw [path_apply _ hk, hfound]

theorem lookupVariable_of_not_defined {v : Variable} (hi : i < s.forest.size)
    (hk : k < s.forest.size) (h : ¬ (v.name.same x = true ∧
      IsNearest (fun j => j = i ∨ s.variableAt j x ≠ none) (s.forest.path k) i)) :
    (s.apply (.defineVariable i v)).forest.lookupVariable k x = s.forest.lookupVariable k x := by
  have hfound := IsNearest.findSome?_of_not_defined
    (fun j => variableAt_apply_defineVariable hi v j x) h
  unfold variableAt at hfound
  unfold lookupVariable
  rw [path_apply _ hk, hfound]

/-- A function that was just defined is found from where no nearer scope has one. -/
theorem lookupFunction_of_defined {g : Function} {arity : Nat} (hi : i < s.forest.size)
    (hk : k < s.forest.size) (hg : g.answers x arity = true)
    (hnone : s.functionAt i x arity = none)
    (h : IsNearest (fun j => j = i ∨ s.functionAt j x arity ≠ none) (s.forest.path k) i) :
    (s.apply (.defineFunction i g)).forest.lookupFunction k x arity = .ok g := by
  have hfound := IsNearest.findSome?_of_defined
    (fun j => functionAt_apply_defineFunction hi g j x arity) hg hnone h
  unfold functionAt at hfound
  unfold lookupFunction
  rw [path_apply _ hk, hfound]

theorem lookupFunction_of_not_defined {g : Function} {arity : Nat} (hi : i < s.forest.size)
    (hk : k < s.forest.size) (h : ¬ (g.answers x arity = true ∧
      IsNearest (fun j => j = i ∨ s.functionAt j x arity ≠ none) (s.forest.path k) i)) :
    (s.apply (.defineFunction i g)).forest.lookupFunction k x arity =
      s.forest.lookupFunction k x arity := by
  have hfound := IsNearest.findSome?_of_not_defined
    (fun j => functionAt_apply_defineFunction hi g j x arity) h
  unfold functionAt at hfound
  unfold lookupFunction
  rw [path_apply _ hk, hfound]

theorem lookupVariable_apply_other (hop : op.Fits s.forest.size) (hk : k < s.forest.size)
    (hdefine : ∀ i v, op ≠ .defineVariable i v) (hstore : ∀ l value, op ≠ .store l value)
    (x : Name) : (s.apply op).forest.lookupVariable k x = s.forest.lookupVariable k x := by
  have hsame := funext fun j => variableAt_apply_other hop hdefine hstore j x
  unfold variableAt at hsame
  unfold lookupVariable
  rw [path_apply _ hk, hsame]

theorem lookupFunction_apply_other (hs : s.IsSound) (hop : op.Fits s.forest.size)
    (hk : k < s.forest.size) (hdefine : ∀ i g, op ≠ .defineFunction i g) (x : Name)
    (arity : Nat) :
    (s.apply op).forest.lookupFunction k x arity = s.forest.lookupFunction k x arity := by
  have hsame := funext fun j => functionAt_apply_other hs hop hdefine j x arity
  unfold functionAt at hsame
  unfold lookupFunction
  rw [path_apply _ hk, hsame]

/-- A stored value is seen from everywhere where the name is resolved to the same scope. -/
theorem lookupVariable_apply_store (hs : s.IsSound) {r : Reference}
    (hr : s.references[k]? = some r) (value : Value) (i : Nat) (x : Name) :
    (s.apply (.store k value)).forest.lookupVariable i x =
      (s.forest.lookupVariable i x).map fun w =>
        if r.name.same x = true ∧ s.forest.owner? i x = some r.scope then
          { w with value := value }
        else w := by
  have hpath : (s.apply (.store k value)).forest.path i = s.forest.path i := by
    rw [apply_store_of_some hs hr]
    exact path_replace _ _ _ _
  have hafter := fun j => variableAt_apply_store hs k value j x
  unfold variableAt at hafter
  cases hlook : s.forest.lookupVariable i x with
  | error e =>
      obtain rfl := lookupVariable_error hlook
      refine lookupVariable_eq_error_iff.mpr fun j hj => ?_
      rw [hpath] at hj
      rw [hafter, lookupVariable_eq_error_iff.mp hlook j hj]
      rfl
  | ok w =>
      obtain ⟨j, hnear, hw⟩ := lookupVariable_eq_ok_iff.mp hlook
      have hstored : s.storedBy? j x (.store k value) =
          if r.scope = j ∧ r.name.same x = true then some value else none := by
        rw [storedBy?, hr]
      refine lookupVariable_eq_ok_iff.mpr ⟨j, ?_, ?_⟩
      · rw [hpath]
        refine (IsNearest.congr fun i => ?_).mp hnear
        rw [hafter, Ne, Ne, Option.map_eq_none_iff]
      · have howner := owner?_eq_some_iff.mpr hnear
        rw [hafter, hw, hstored]
        refine congrArg some ?_
        dsimp only
        by_cases hat : r.scope = j ∧ r.name.same x = true
        · rw [if_pos hat, if_pos ⟨hat.2, howner.trans (congrArg some hat.1.symm)⟩]
          rfl
        · have hnot : ¬ (r.name.same x = true ∧ s.forest.owner? i x = some r.scope) :=
            fun hat' => hat ⟨Option.some_inj.mp (hat'.2.symm.trans howner), hat'.1⟩
          rw [if_neg hat, if_neg hnot]
          rfl

/-! ### What was looked up -/

theorem mem_references_apply {r : Reference} (hr : r ∈ (s.apply op).references) :
    r ∈ s.references ∨
      ∃ i, op = .lookupVariable i r.name ∧ s.forest.owner? i r.name = some r.scope := by
  cases op with
  | newScope parent => exact .inl hr
  | defineVariable i v =>
      rw [apply_defineVariable] at hr
      split at hr <;> exact .inl hr
  | defineFunction i g =>
      rw [apply_defineFunction] at hr
      split at hr <;> exact .inl hr
  | lookupVariable i x =>
      rw [apply, perform] at hr
      cases howner : s.forest.owner? i x with
      | none =>
          rw [howner] at hr
          exact .inl hr
      | some j =>
          rw [howner] at hr
          rcases List.mem_append.mp hr with hr | hr
          · exact .inl hr
          · obtain rfl := List.mem_singleton.mp hr
            exact .inr ⟨i, rfl, howner⟩
  | lookupFunction i x arity =>
      rw [apply_lookupFunction] at hr
      exact .inl hr
  | store k value =>
      rw [apply, perform] at hr
      cases hfound : s.references[k]? with
      | none =>
          rw [hfound] at hr
          exact .inl hr
      | some r' =>
          rw [hfound] at hr
          dsimp only at hr
          cases hset : s.forest.setVariable r'.scope r'.name value with
          | error e =>
              rw [hset] at hr
              exact .inl hr
          | ok f =>
              rw [hset] at hr
              exact .inl hr

theorem IsSound.apply (hs : s.IsSound) (hop : op.Fits s.forest.size) :
    (s.apply op).IsSound := by
  intro r hr
  have hfound : s.variableAt r.scope r.name ≠ none := by
    rcases mem_references_apply hr with hr | ⟨i, -, howner⟩
    · exact hs r hr
    · exact (owner?_eq_some_iff.mp howner).holds
  rw [variableAt_apply hs hop]
  intro hnone
  rw [Option.or_eq_none_iff, Option.map_eq_none_iff] at hnone
  exact hfound hnone.1

/-- Only what was looked up is stored into. -/
theorem IsSound.storedBy?_eq_none (hs : s.IsSound) (h : s.variableAt j x = none) :
    s.storedBy? j x op = none := by
  unfold storedBy?
  split
  · rename_i k value
    split
    · rename_i r hr
      refine if_neg ?_
      rintro ⟨rfl, hx⟩
      have hname : s.variableAt r.scope r.name = s.variableAt r.scope x :=
        findVariable?_congr _ hx
      exact hs r (List.mem_of_getElem? hr) (hname.trans h)
    · rfl
  · rfl

end Session

end Forest
end BlockScript
