import BlockScript.Proofs.Alongside
import BlockScript.Scope.Chain

/-!
# Chains that differ in hidden variables

A program may be run beside another one that keeps a value under a different name.  Two names
are hidden from both programs: nothing is looked up under them, and nothing is bound under the
first of them, which is the reserved one.

Two chains match layer by layer when they have the same scopes but for hidden variables: a layer
is a scope of both chains, which may hold reserved variables of its own in each of them behind
the common ones, or a scope of only one of them with hidden variables alone.  From chains that
match every lookup gives the same, and binding and storing lead to chains that match in the same
layers.
-/

namespace BlockScript

open BlockScript.Computation (Related)

/-- A name is one of two that are hidden, the first of which is reserved. -/
def Name.IsHidden (name t u : Name) : Prop := name.same t = true ∨ name.same u = true

/-- A layer of two chains: a scope of both, with reserved variables behind the common ones, or a
scope of only one of them. -/
inductive Overlay
  | shared (extra extra' : List Variable)
  | left (s : Scope)
  | right (s : Scope)

/-- Variables are bound under the reserved name. -/
def Reserved (t : Name) (vars : List Variable) : Prop := ∀ v ∈ vars, v.name.same t = true

/-- A scope holds nothing but hidden variables. -/
structure Scope.IsHidden (t u : Name) (s : Scope) : Prop where
  vars : ∀ v ∈ s.vars, v.name.IsHidden t u
  functions : s.functions = []

/-- Two rows of scopes match in given layers. -/
inductive Matching (t u : Name) : List Overlay → List Scope → List Scope → Prop
  | nil : Matching t u [] [] []
  | shared {vars extra extra' : List Variable} {functions : List Function} {layers : List Overlay}
      {ss ss' : List Scope} (hextra : Reserved t extra) (hextra' : Reserved t extra')
      (rest : Matching t u layers ss ss') :
      Matching t u (.shared extra extra' :: layers) (⟨vars ++ extra, functions⟩ :: ss)
        (⟨vars ++ extra', functions⟩ :: ss')
  | left {s : Scope} {layers : List Overlay} {ss ss' : List Scope} (hs : s.IsHidden t u)
      (rest : Matching t u layers ss ss') : Matching t u (.left s :: layers) (s :: ss) ss'
  | right {s : Scope} {layers : List Overlay} {ss ss' : List Scope} (hs : s.IsHidden t u)
      (rest : Matching t u layers ss ss') : Matching t u (.right s :: layers) ss (s :: ss')

/-- Some layer is a scope of both chains. -/
def Overlay.Founded (layers : List Overlay) : Prop := ∃ extra extra', shared extra extra' ∈ layers

theorem Overlay.Founded.cons {layer : Overlay} {layers : List Overlay} (h : Founded layers) :
    Founded (layer :: layers) := by
  obtain ⟨extra, extra', hmem⟩ := h
  exact ⟨extra, extra', List.mem_cons_of_mem _ hmem⟩

/-- A layer of a single chain is no foundation for the others. -/
theorem Overlay.Founded.of_cons {layer : Overlay} {layers : List Overlay}
    (h : Founded (layer :: layers)) (hlayer : ∀ extra extra', shared extra extra' ≠ layer) :
    Founded layers := by
  obtain ⟨extra, extra', hmem⟩ := h
  exact ⟨extra, extra', (List.mem_cons.mp hmem).resolve_left (hlayer extra extra')⟩

section Scopes

variable {t u name : Name} {vars extra : List Variable} {functions : List Function}

theorem Name.not_same_of_same {a : Name} (ha : a.same t = true) (hname : name.same t = false) :
    a.same name = false := by
  rw [Name.same_iff] at ha
  have hkey : name.key ≠ t.key := fun h => Bool.false_ne_true (hname.symm.trans (same_iff.mpr h))
  simpa [Name.same, ha] using hkey.symm

namespace Scope

theorem findVariable?_append (hname : name.same t = true → extra = [])
    (hextra : Reserved t extra) :
    findVariable? ⟨vars ++ extra, functions⟩ name = findVariable? ⟨vars, functions⟩ name := by
  cases hsame : name.same t with
  | true => rw [hname hsame, List.append_nil]
  | false =>
      have hnone : extra.find? (fun v => v.name.same name) = none := by
        rw [List.find?_eq_none]
        intro v hv
        simp [Name.not_same_of_same (hextra v hv) hsame]
      unfold findVariable?
      rw [List.find?_append, hnone, Option.or_none]

theorem findVariable?_visible (hname : ¬ name.IsHidden t u) (hextra : Reserved t extra) :
    findVariable? ⟨vars ++ extra, functions⟩ name = findVariable? ⟨vars, functions⟩ name :=
  findVariable?_append (fun hsame => absurd (.inl hsame) hname) hextra

theorem findVariable?_of_isHidden {s : Scope} (hname : ¬ name.IsHidden t u)
    (hs : s.IsHidden t u) : s.findVariable? name = none := by
  obtain ⟨ht, hu⟩ := not_or.mp hname
  rw [Bool.not_eq_true] at ht hu
  unfold findVariable?
  rw [List.find?_eq_none]
  intro v hv
  rcases hs.vars v hv with hsame | hsame
  · simp [Name.not_same_of_same hsame ht]
  · simp [Name.not_same_of_same hsame hu]

theorem setVariable_append (hname : name.same t = false) (hextra : Reserved t extra)
    (value : Value) :
    setVariable ⟨vars ++ extra, functions⟩ name value =
      ⟨(setVariable ⟨vars, functions⟩ name value).vars ++ extra, functions⟩ := by
  have hextra' : extra.map (fun v => if v.name.same name then { v with value := value } else v) =
      extra := by
    refine (List.map_congr_left fun v hv => ?_).trans (List.map_id extra)
    simp [Name.not_same_of_same (hextra v hv) hname]
  simp [setVariable, hextra']

end Scope

end Scopes

/-- What is not hidden is not reserved. -/
theorem Name.same_eq_false {t u name : Name} (h : ¬ name.IsHidden t u) : name.same t = false :=
  Bool.eq_false_iff.mpr (not_or.mp h).1

namespace Matching

open Name (same_eq_false)

variable {t u name : Name} {layers : List Overlay} {ss ss' : List Scope}

theorem lookupVariable (h : Matching t u layers ss ss') (hname : ¬ name.IsHidden t u) :
    (ss.findSome? fun s => s.findVariable? name) =
      ss'.findSome? fun s => s.findVariable? name := by
  induction h with
  | nil => rfl
  | shared hextra hextra' _ ih =>
      rw [List.findSome?_cons, List.findSome?_cons, ih,
        Scope.findVariable?_visible hname hextra, Scope.findVariable?_visible hname hextra']
  | left hs _ ih =>
      rw [List.findSome?_cons, Scope.findVariable?_of_isHidden hname hs, ih]
  | right hs _ ih =>
      rw [List.findSome?_cons, Scope.findVariable?_of_isHidden hname hs, ih]

theorem lookupFunction (h : Matching t u layers ss ss') (arity : Nat) :
    (ss.findSome? fun s => s.findFunction? name arity) =
      ss'.findSome? fun s => s.findFunction? name arity := by
  induction h with
  | nil => rfl
  | shared _ _ _ ih =>
      rw [List.findSome?_cons, List.findSome?_cons, ih]
      rfl
  | left hs _ ih =>
      rw [List.findSome?_cons, Scope.findFunction?, hs.functions, ih]
      rfl
  | right hs _ ih =>
      rw [List.findSome?_cons, Scope.findFunction?, hs.functions, ih]
      rfl

theorem setIn (h : Matching t u layers ss ss') (hname : ¬ name.IsHidden t u)
    (value : Value) :
    Matching t u layers (Chain.setIn name value ss) (Chain.setIn name value ss') := by
  induction h with
  | nil => exact .nil
  | @shared vars extra extra' functions layers ss ss' hextra hextra' rest ih =>
      unfold Chain.setIn
      rw [Scope.findVariable?_visible hname hextra, Scope.findVariable?_visible hname hextra']
      split
      · rw [Scope.setVariable_append (same_eq_false hname) hextra,
          Scope.setVariable_append (same_eq_false hname) hextra']
        exact .shared hextra hextra' rest
      · exact .shared hextra hextra' ih
  | left hs rest ih =>
      rw [Chain.setIn, Scope.findVariable?_of_isHidden hname hs]
      exact .left hs ih
  | right hs rest ih =>
      rw [Chain.setIn, Scope.findVariable?_of_isHidden hname hs]
      exact .right hs ih

/-- Where a layer is a scope of both chains, neither chain is empty. -/
theorem ne_nil (h : Matching t u layers ss ss') (hfounded : Overlay.Founded layers) :
    ss ≠ [] ∧ ss' ≠ [] := by
  induction h with
  | nil =>
      obtain ⟨_, _, hmem⟩ := hfounded
      cases hmem
  | shared => exact ⟨List.cons_ne_nil _ _, List.cons_ne_nil _ _⟩
  | left _ _ ih =>
      exact ⟨List.cons_ne_nil _ _, (ih (hfounded.of_cons nofun)).2⟩
  | right _ _ ih =>
      exact ⟨(ih (hfounded.of_cons nofun)).1, List.cons_ne_nil _ _⟩

/-- Scopes of the second row alone stand in front of the others. -/
theorem rights {rs : List Scope} (h : Matching t u (rs.map .right ++ layers) ss ss') :
    ∃ rest, ss' = rs ++ rest := by
  induction rs generalizing ss' with
  | nil => exact ⟨ss', rfl⟩
  | cons r rs ih =>
      cases h with
      | right _ hrest =>
          obtain ⟨rest, rfl⟩ := ih hrest
          exact ⟨rest, rfl⟩

/-- A scope is opened on both sides, or in the first row beside one of the second row that has
reserved variables only. -/
theorem opened {extra' : List Variable} (hextra' : Reserved t extra')
    (h : Matching t u layers ss ss') :
    Matching t u (.shared [] extra' :: layers) (.empty :: ss) (⟨extra', []⟩ :: ss') := by
  have hshared : Matching t u (.shared [] extra' :: layers) (⟨[] ++ [], []⟩ :: ss)
      (⟨[] ++ extra', []⟩ :: ss') := .shared nofun hextra' h
  exact hshared

/-- A row of scopes matches itself. -/
protected theorem rfl (ss : List Scope) : Matching t u (ss.map fun _ => .shared [] []) ss ss := by
  induction ss with
  | nil => exact .nil
  | cons s ss ih =>
      have hs : s = ⟨s.vars ++ [], s.functions⟩ := by rw [List.append_nil]
      rw [List.map_cons, hs]
      exact .shared nofun nofun ih

/-- Rows that match without hidden variables are the same. -/
theorem eq {ss ss' : List Scope} (hlayers : ∀ l ∈ layers, l = .shared [] [])
    (h : Matching t u layers ss ss') : ss = ss' := by
  induction h with
  | nil => rfl
  | shared _ _ _ ih =>
      obtain ⟨hlayer, hrest⟩ := List.forall_mem_cons.mp hlayers
      cases hlayer
      rw [ih hrest]
  | left _ _ _ => cases (List.forall_mem_cons.mp hlayers).1
  | right _ _ _ => cases (List.forall_mem_cons.mp hlayers).1

end Matching

namespace Chain

/-- Two chains match in given layers. -/
def Matches (t u : Name) (layers : List Overlay) (c c' : Chain) : Prop :=
  Matching t u layers c.toList c'.toList

namespace Matches

variable {t u name : Name} {layers : List Overlay} {c c' : Chain} {extra extra' : List Variable}

theorem push (h : c.Matches t u layers c') :
    c.push.Matches t u (.shared [] [] :: layers) c'.push :=
  Matching.opened nofun h

theorem pop (h : c.Matches t u (.shared extra extra' :: layers) c')
    (hfounded : Overlay.Founded layers) : c.pop.Matches t u layers c'.pop := by
  obtain ⟨current, outer⟩ := c
  obtain ⟨current', outer'⟩ := c'
  cases h with
  | shared _ _ rest =>
      obtain ⟨hne, hne'⟩ := rest.ne_nil hfounded
      obtain ⟨s, ss, rfl⟩ := List.exists_cons_of_ne_nil hne
      obtain ⟨s', ss', rfl⟩ := List.exists_cons_of_ne_nil hne'
      exact rest

section OneSided

variable {s s' : Scope}

theorem pushLeft (h : c.Matches t u layers c') :
    c.push.Matches t u (.left .empty :: layers) c' :=
  Matching.left ⟨nofun, rfl⟩ h

theorem pushRight (h : c.Matches t u layers c') :
    c.Matches t u (.right .empty :: layers) c'.push :=
  Matching.right ⟨nofun, rfl⟩ h

theorem popLeft (h : c.Matches t u (.left s :: layers) c') (hfounded : Overlay.Founded layers) :
    c.pop.Matches t u layers c' := by
  obtain ⟨current, outer⟩ := c
  cases h with
  | left _ rest =>
      obtain ⟨s, ss, rfl⟩ := List.exists_cons_of_ne_nil (rest.ne_nil hfounded).1
      exact rest

theorem popRight (h : c.Matches t u (.right s :: layers) c')
    (hfounded : Overlay.Founded layers) : c.Matches t u layers c'.pop := by
  obtain ⟨current', outer'⟩ := c'
  cases h with
  | right _ rest =>
      obtain ⟨s, ss, rfl⟩ := List.exists_cons_of_ne_nil (rest.ne_nil hfounded).2
      exact rest

theorem swap (h : c.Matches t u (.left s :: .right s' :: layers) c') :
    c.Matches t u (.right s' :: .left s :: layers) c' := by
  obtain ⟨current, outer⟩ := c
  obtain ⟨current', outer'⟩ := c'
  cases h with
  | left hs rest =>
      cases rest with
      | right hs' rest => exact Matching.right hs' (Matching.left hs rest)

theorem current_left (h : c.Matches t u (.left s :: layers) c') : c.current = s := by
  obtain ⟨current, outer⟩ := c
  cases h
  rfl

theorem current_right (h : c.Matches t u (.right s :: layers) c') : c'.current = s := by
  obtain ⟨current', outer'⟩ := c'
  cases h
  rfl

/-- The first scope of a single chain may be replaced by another one. -/
theorem replaceLeft (h : c.Matches t u (.left s :: layers) c') (hs' : s'.IsHidden t u) :
    Matches t u (.left s' :: layers) ⟨s', c.outer⟩ c' := by
  obtain ⟨current, outer⟩ := c
  cases h with
  | left _ rest => exact Matching.left hs' rest

theorem replaceRight (h : c.Matches t u (.right s :: layers) c') (hs' : s'.IsHidden t u) :
    c.Matches t u (.right s' :: layers) ⟨s', c'.outer⟩ := by
  obtain ⟨current', outer'⟩ := c'
  cases h with
  | right _ rest => exact Matching.right hs' rest

/-- A scope of the second chain with reserved variables only goes along with one that is opened
in the first chain. -/
theorem pushBeside (h : c.Matches t u (.right s :: layers) c') (hvars : Reserved t s.vars)
    (hfunctions : s.functions = []) : c.push.Matches t u (.shared [] s.vars :: layers) c' := by
  obtain ⟨vars, functions⟩ := s
  obtain ⟨current', outer'⟩ := c'
  cases hfunctions
  cases h with
  | right _ rest => exact Matching.opened hvars rest

end OneSided

theorem lookupVariable (h : c.Matches t u layers c') (hname : ¬ name.IsHidden t u)
    : c'.lookupVariable name = c.lookupVariable name := by
  rw [Chain.lookupVariable, Chain.lookupVariable, Matching.lookupVariable h hname]

theorem lookupFunction (h : c.Matches t u layers c') (name : Name) (arity : Nat) :
    c'.lookupFunction name arity = c.lookupFunction name arity := by
  rw [Chain.lookupFunction, Chain.lookupFunction, Matching.lookupFunction h arity]

theorem setVariable (h : c.Matches t u layers c') (hname : ¬ name.IsHidden t u)
    (value : Value) :
    (c.setVariable name value).Matches t u layers (c'.setVariable name value) := by
  unfold Matches
  rw [toList_setVariable, toList_setVariable]
  exact Matching.setIn h hname value

/-- A reserved variable is bound alike where no side has reserved variables of its own. -/
theorem defineVariable (h : c.Matches t u (.shared extra extra' :: layers) c')
    {v : Variable} (hname : v.name.same t = true → extra = [] ∧ extra' = []) :
    Related Eq (Matches t u (.shared extra extra' :: layers)) (c.defineVariable v)
      (c'.defineVariable v) := by
  obtain ⟨current, outer⟩ := c
  obtain ⟨current', outer'⟩ := c'
  cases h with
  | @shared vars _ _ functions _ _ _ hextra hextra' rest =>
      have hbound : Matching t u (.shared extra extra' :: layers)
          (⟨(v :: vars) ++ extra, functions⟩ :: outer)
          (⟨(v :: vars) ++ extra', functions⟩ :: outer') := .shared hextra hextra' rest
      unfold Chain.defineVariable Scope.defineVariable
      dsimp only
      rw [Scope.findVariable?_append (fun h => (hname h).1) hextra,
        Scope.findVariable?_append (fun h => (hname h).2) hextra']
      split
      · exact .error rfl
      · exact .ok hbound

theorem defineFunction (h : c.Matches t u (.shared extra extra' :: layers) c')
    (f : Function) :
    Related Eq (Matches t u (.shared extra extra' :: layers)) (c.defineFunction f)
      (c'.defineFunction f) := by
  obtain ⟨current, outer⟩ := c
  obtain ⟨current', outer'⟩ := c'
  cases h with
  | shared hextra hextra' rest =>
      unfold Chain.defineFunction Scope.defineFunction Scope.findFunction?
      dsimp only
      split
      · exact .error rfl
      · exact .ok (Matching.shared hextra hextra' rest)

end Matches

end Chain
end BlockScript
