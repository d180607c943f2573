import BlockScript.Proofs.Agreement.Discipline
import BlockScript.Proofs.Scope.Persistence

/-!
# The scopes of a run and those of the text

While a program runs the scopes of callers stand around those of the function that runs,
and every switch opens a scope that the text does not have.  Layer by layer, the scopes of
the machine agree with scopes of the text: those around the statement that runs, then those
around the call that is under way in the caller, and so on up to the root.

A name that the text binds is bound to something of the same kind while the program runs.
It need not be the same binding: a local variable of a caller may stand before a global.
-/

namespace BlockScript

namespace Scope

/-- The functions of a scope are among those of another one with the same variables. -/
structure Below (s root : Scope) : Prop where
  vars : s.vars = root.vars
  functions : ∀ name arity f, s.findFunction? name arity = some f →
    root.findFunction? name arity = some f

end Scope

/-- What a scope of the machine is in the text. -/
inductive Layer
  /-- A scope of the text. -/
  | scope (s : Scope)
  /-- The scope of a switch, which the text does not have. -/
  | switch (isBound : Bool)

namespace Layer

/-- The scope of the text, if there is one. -/
def scope? : Layer → Option Scope
  | scope s => some s
  | switch _ => none

/-- The scopes that the text has. -/
def view (layers : List Layer) : List Scope := layers.filterMap scope?

@[simp] theorem view_scope (s : Scope) (layers : List Layer) :
    view (scope s :: layers) = s :: view layers := rfl

@[simp] theorem view_switch (isBound : Bool) (layers : List Layer) :
    view (switch isBound :: layers) = view layers := rfl

@[simp] theorem view_append (as bs : List Layer) : view (as ++ bs) = view as ++ view bs :=
  List.filterMap_append

end Layer

/-- A variable of the machine is one of the text, with a value that fits. -/
structure Variable.Agrees (d : Discipline) (declared v : Variable) : Prop where
  name : v.name = declared.name
  isMutable : v.isMutable = declared.isMutable
  fits : d.Fits declared.type v.value

/-- A function of the machine does what one of the text says. -/
structure Function.Agrees (declared f : Function) : Prop where
  name : f.name = declared.name
  arity : f.arity = declared.arity
  action : f.action = declared.action

/-- A scope of the machine is a scope of the text inside a function. -/
structure Scope.Agrees (s : Scope) (d : Discipline) (root r : Scope) : Prop where
  vars : List.Forall₂ (Variable.Agrees d) s.vars r.vars
  distinct : s.Distinct
  isMutable : ∀ v ∈ s.vars, v.isMutable = true
  free : d = .types → ∀ v ∈ s.vars, Discipline.Free root v.name
  noFunctions : s.functions = [] ∧ r.functions = []

/-- A scope of the machine is the scope of a switch. -/
structure Scope.IsSwitch (r : Scope) (isBound : Bool) : Prop where
  vars : ∀ v ∈ r.vars, v.name = Running.switchName
  empty : isBound = false → r.vars = []
  noFunctions : r.functions = []

/-- The outermost scope of the machine is that of the text. -/
structure Scope.IsRoot (r : Scope) (d : Discipline) (root : Scope) : Prop where
  vars : List.Forall₂ (Variable.Agrees d) root.vars r.vars
  distinct : root.Distinct
  functions : List.Forall₂ Function.Agrees root.functions r.functions

/-- A scope of the machine is what a layer says. -/
def Layer.Agrees (d : Discipline) (root : Scope) : Layer → Scope → Prop
  | .scope s, r => s.Agrees d root r
  | .switch isBound, r => r.IsSwitch isBound

/-- The scopes of the machine are those of layers, and behind them the root. -/
inductive Stacked (d : Discipline) (root : Scope) : List Layer → List Scope → Prop
  | root {r : Scope} : r.IsRoot d root → Stacked d root [] [r]
  | layer {l : Layer} {layers : List Layer} {r : Scope} {rs : List Scope} :
      l.Agrees d root r → Stacked d root layers rs → Stacked d root (l :: layers) (r :: rs)

/-- The scopes of the text at some place: those of layers, and behind them the root as far
as it is known there. -/
def Sees (root : Scope) (scopes : Chain) (layers : List Layer) : Prop :=
  ∃ known : Scope, known.Below root ∧ scopes.toList = Layer.view layers ++ [known]

namespace Chain

variable {c : Chain} {name : Name}

/-- A variable that is found is the first one of its name along the scopes. -/
theorem findSome?_of_lookupVariable {v : Variable} (h : c.lookupVariable name = .ok v) :
    (c.toList.findSome? fun s => s.findVariable? name) = some v := by
  unfold lookupVariable at h
  split at h
  · cases h
    assumption
  · cases h

/-- A function that is found is the first one of its name along the scopes. -/
theorem findSome?_of_lookupFunction {arity : Nat} {f : Function}
    (h : c.lookupFunction name arity = .ok f) :
    (c.toList.findSome? fun s => s.findFunction? name arity) = some f := by
  unfold lookupFunction at h
  split at h
  · cases h
    assumption
  · cases h

end Chain

section Lookups

variable {d : Discipline} {root : Scope} {name : Name}

theorem rel_find? {α β : Type} {R : α → β → Prop} {p : α → Bool} {q : β → Bool} {as : List α}
    {bs : List β} (h : List.Forall₂ R as bs) (hpq : ∀ a b, R a b → p a = q b) :
    Option.Rel R (as.find? p) (bs.find? q) := by
  induction h with
  | nil => exact .none
  | @cons a b as bs hab _ ih =>
      rw [List.find?_cons, List.find?_cons, ← hpq a b hab]
      cases p a with
      | true => exact .some hab
      | false => exact ih

theorem findVariable?_agrees {s r : Scope}
    (h : List.Forall₂ (Variable.Agrees d) s.vars r.vars) :
    Option.Rel (Variable.Agrees d) (s.findVariable? name) (r.findVariable? name) :=
  rel_find? h fun _ _ hv => by rw [hv.name]

theorem findFunction?_agrees {s r : Scope} {arity : Nat}
    (h : List.Forall₂ Function.Agrees s.functions r.functions) :
    Option.Rel Function.Agrees (s.findFunction? name arity) (r.findFunction? name arity) :=
  rel_find? h fun _ _ hf => by
    unfold Function.answers
    rw [hf.name, hf.arity]

theorem Scope.IsSwitch.findVariable? {isBound : Bool} {r : Scope} (h : r.IsSwitch isBound)
    (hname : name.same Running.switchName = false) : r.findVariable? name = none := by
  refine List.find?_eq_none.mpr fun v hv hsame => ?_
  rw [h.vars v hv, Name.same_iff] at hsame
  rw [Name.same_iff.mpr hsame.symm] at hname
  cases hname

/-- The variable that the text finds along all layers is the one that the machine finds. -/
theorem Stacked.find {layers : List Layer} {rs : List Scope} (h : Stacked d root layers rs)
    (hname : name.same Running.switchName = false) :
    Option.Rel (Variable.Agrees d)
      ((Layer.view layers ++ [root]).findSome? fun s => s.findVariable? name)
      (rs.findSome? fun s => s.findVariable? name) := by
  induction h with
  | @root r hr =>
      have hrel : Option.Rel (Variable.Agrees d) (root.findVariable? name)
          (r.findVariable? name) := findVariable?_agrees hr.vars
      simp only [Layer.view, List.filterMap_nil, List.nil_append, List.findSome?_singleton]
      exact hrel
  | @layer l layers r rs hl _ ih =>
      cases l with
      | scope s =>
          have hrel : Option.Rel (Variable.Agrees d) (s.findVariable? name)
              (r.findVariable? name) := findVariable?_agrees hl.vars
          rw [Layer.view_scope, List.cons_append, List.findSome?_cons, List.findSome?_cons]
          cases hs : s.findVariable? name with
          | none =>
              rw [hs] at hrel
              cases hr : r.findVariable? name with
              | none => exact ih
              | some w =>
                  rw [hr] at hrel
                  cases hrel
          | some v =>
              rw [hs] at hrel
              cases hr : r.findVariable? name with
              | none =>
                  rw [hr] at hrel
                  cases hrel
              | some w =>
                  rw [hr] at hrel
                  exact hrel
      | switch isBound =>
          rw [Layer.view_switch, List.findSome?_cons, hl.findVariable? hname]
          exact ih

theorem findSome?_append {α β : Type} {f : α → Option β} {as bs : List α} {b : β} :
    (as ++ bs).findSome? f = some b ↔
      as.findSome? f = some b ∨ as.findSome? f = none ∧ bs.findSome? f = some b := by
  rw [List.findSome?_append]
  cases as.findSome? f with
  | none => simp
  | some a => simp

theorem mem_view {layers : List Layer} {rs : List Scope} (h : Stacked d root layers rs)
    {s : Scope} (hs : s ∈ Layer.view layers) : ∃ r, s.Agrees d root r := by
  induction h with
  | root => cases hs
  | @layer l layers r rs hl _ ih =>
      cases l with
      | scope s' =>
          rcases List.mem_cons.mp hs with rfl | hs
          · exact ⟨r, hl⟩
          · exact ih hs
      | switch isBound => exact ih hs

/-- A global that is found at a place is found along the layers of the callers, or hidden by
a local variable of one of them. -/
theorem Stacked.find_global {layers : List Layer} {rs : List Scope}
    (h : Stacked d root layers rs) {v : Variable} (hv : root.findVariable? name = some v) :
    ∃ w, ((Layer.view layers ++ [root]).findSome? fun s => s.findVariable? name) = some w ∧
      (v.isMutable = true → w.isMutable = true) ∧
      ∀ value, d.Fits w.type value ↔ d.Fits v.type value := by
  cases hlocal : (Layer.view layers).findSome? fun s => s.findVariable? name with
  | none =>
      refine ⟨v, findSome?_append.mpr (Or.inr ⟨hlocal, ?_⟩), id, fun _ => Iff.rfl⟩
      rw [List.findSome?_singleton]
      exact hv
  | some w =>
      refine ⟨w, findSome?_append.mpr (Or.inl hlocal), ?_⟩
      obtain ⟨s, hs, hw⟩ := List.exists_of_findSome?_eq_some hlocal
      obtain ⟨r, hr⟩ := mem_view h hs
      obtain ⟨hmem, hsame⟩ := mem_of_findVariable? hw
      refine ⟨fun _ => hr.isMutable w hmem, ?_⟩
      cases d with
      | names => exact fun _ => Iff.rfl
      | types =>
          have hfree := (hr.free rfl w hmem).1
          rw [findVariable?_congr root hsame, hv] at hfree
          cases hfree

/-- What the text finds at a place is found along all layers, or hidden by a local variable
of a caller. -/
theorem Sees.find {scopes : Chain} {own callers : List Layer} {rs : List Scope} {v : Variable}
    (hsees : Sees root scopes own) (h : Stacked d root callers rs)
    (hv : scopes.lookupVariable name = .ok v) :
    ∃ w, ((Layer.view (own ++ callers) ++ [root]).findSome? fun s => s.findVariable? name) =
        some w ∧
      (v.isMutable = true → w.isMutable = true) ∧
      ∀ value, d.Fits w.type value ↔ d.Fits v.type value := by
  obtain ⟨known, hbelow, hlist⟩ := hsees
  have hfind := Chain.findSome?_of_lookupVariable hv
  rw [hlist] at hfind
  rw [Layer.view_append, List.append_assoc]
  rcases findSome?_append.mp hfind with hown | ⟨hown, hknown⟩
  · exact ⟨v, findSome?_append.mpr (Or.inl hown), id, fun _ => Iff.rfl⟩
  · rw [List.findSome?_singleton] at hknown
    have hroot : root.findVariable? name = some v := by
      unfold Scope.findVariable? at hknown ⊢
      rwa [← hbelow.vars]
    obtain ⟨w, hw, hkind⟩ := h.find_global hroot
    exact ⟨w, findSome?_append.mpr (Or.inr ⟨hown, hw⟩), hkind⟩

theorem Stacked.behind {own callers : List Layer} {rs : List Scope}
    (h : Stacked d root (own ++ callers) rs) : ∃ rs', Stacked d root callers rs' := by
  induction own generalizing rs with
  | nil => exact ⟨rs, h⟩
  | cons l own ih =>
      cases h with
      | layer _ h => exact ih h

/-- What the text finds at a place the machine finds too, of the same kind. -/
theorem Sees.lookupVariable {scopes c : Chain} {own callers : List Layer} {v : Variable}
    (hsees : Sees root scopes own) (h : Stacked d root (own ++ callers) c.toList)
    (hname : name.same Running.switchName = false) (hv : scopes.lookupVariable name = .ok v) :
    ∃ w, c.lookupVariable name = .ok w ∧ (v.isMutable = true → w.isMutable = true) ∧
      d.Fits v.type w.value := by
  obtain ⟨rs, hcallers⟩ := h.behind
  obtain ⟨declared, hdeclared, hmutable, hfits⟩ := hsees.find hcallers hv
  have hrel := h.find hname
  rw [hdeclared] at hrel
  cases hfound : c.toList.findSome? fun s => s.findVariable? name with
  | none =>
      rw [hfound] at hrel
      cases hrel
  | some w =>
      rw [hfound] at hrel
      cases hrel with
      | some hw =>
          refine ⟨w, ?_, ?_, (hfits w.value).mp hw.fits⟩
          · unfold Chain.lookupVariable
            rw [hfound]
          · intro hv
            rw [hw.isMutable]
            exact hmutable hv

theorem Stacked.findFunction {layers : List Layer} {rs : List Scope} {arity : Nat}
    (h : Stacked d root layers rs) :
    Option.Rel Function.Agrees (root.findFunction? name arity)
      (rs.findSome? fun s => s.findFunction? name arity) := by
  induction h with
  | @root r hr =>
      rw [List.findSome?_singleton]
      exact findFunction?_agrees hr.functions
  | @layer l layers r rs hl _ ih =>
      have hnone : r.functions = [] := by
        cases l with
        | scope s => exact hl.noFunctions.2
        | switch isBound => exact hl.noFunctions
      rw [List.findSome?_cons, findFunction?_of_noFunctions hnone]
      exact ih

/-- What a lookup in the machine finds is what the root finds. -/
theorem Stacked.lookupFunction {c : Chain} {arity : Nat} {f : Function}
    (h : Stacked d root layers c.toList) (hf : root.findFunction? name arity = some f) :
    ∃ g, c.lookupFunction name arity = .ok g ∧ f.Agrees g := by
  have hrel : Option.Rel Function.Agrees (root.findFunction? name arity)
      (c.toList.findSome? fun s => s.findFunction? name arity) := h.findFunction
  rw [hf] at hrel
  cases hfound : c.toList.findSome? fun s => s.findFunction? name arity with
  | none =>
      rw [hfound] at hrel
      cases hrel
  | some g =>
      rw [hfound] at hrel
      cases hrel with
      | some hg =>
          refine ⟨g, ?_, hg⟩
          unfold Chain.lookupFunction
          rw [hfound]

/-- The text finds functions in its outermost scope only. -/
theorem Stacked.findFunction_known {scopes : Chain} {own callers : List Layer} {rs : List Scope}
    {known : Scope} {arity : Nat} {f : Function} (h : Stacked d root (own ++ callers) rs)
    (hlist : scopes.toList = Layer.view own ++ [known])
    (hf : scopes.lookupFunction name arity = .ok f) : known.findFunction? name arity = some f := by
  have hfind := Chain.findSome?_of_lookupFunction hf
  rw [hlist] at hfind
  rcases findSome?_append.mp hfind with hown | ⟨_, hknown⟩
  · obtain ⟨s, hs, hf⟩ := List.exists_of_findSome?_eq_some hown
    have hmem : s ∈ Layer.view (own ++ callers) := by
      rw [Layer.view_append]
      exact List.mem_append_left _ hs
    obtain ⟨r, hr⟩ := mem_view h hmem
    rw [findFunction?_of_noFunctions hr.noFunctions.1] at hf
    cases hf
  · rwa [List.findSome?_singleton] at hknown

theorem Sees.findFunction {scopes : Chain} {own callers : List Layer} {rs : List Scope}
    {arity : Nat} {f : Function} (hsees : Sees root scopes own)
    (h : Stacked d root (own ++ callers) rs) (hf : scopes.lookupFunction name arity = .ok f) :
    root.findFunction? name arity = some f := by
  obtain ⟨known, hbelow, hlist⟩ := hsees
  exact hbelow.functions name arity f (h.findFunction_known hlist hf)

/-- A function that the text finds at a place is the one that the machine finds. -/
theorem Sees.lookupFunction {scopes c : Chain} {own callers : List Layer} {arity : Nat}
    {f : Function} (hsees : Sees root scopes own)
    (h : Stacked d root (own ++ callers) c.toList)
    (hf : scopes.lookupFunction name arity = .ok f) :
    ∃ g, c.lookupFunction name arity = .ok g ∧ f.Agrees g :=
  h.lookupFunction (hsees.findFunction h hf)

end Lookups

section Scopes

variable {d : Discipline} {root : Scope} {layers : List Layer} {c : Chain}

theorem agrees_empty (d : Discipline) (root : Scope) : Scope.empty.Agrees d root .empty where
  vars := .nil
  distinct := .nil
  isMutable v hv := by cases hv
  free _ v hv := by cases hv
  noFunctions := ⟨rfl, rfl⟩

theorem Stacked.enter (h : Stacked d root layers c.toList) :
    Stacked d root (.scope .empty :: layers) c.push.toList :=
  .layer (agrees_empty d root) h

theorem Stacked.enterSwitch (h : Stacked d root layers c.toList) :
    Stacked d root (.switch false :: layers) c.push.toList := by
  refine .layer ⟨?_, fun _ => rfl, rfl⟩ h
  intro v hv
  cases hv

/-- Behind no layer there is the root only. -/
theorem Stacked.outermost (h : Stacked d root [] c.toList) :
    c = ⟨c.current, []⟩ ∧ c.current.IsRoot d root := by
  obtain ⟨current, outer⟩ := c
  change Stacked d root [] (current :: outer) at h
  cases h with
  | root hr => exact ⟨rfl, hr⟩

/-- The nearest layer is the current scope, and the other ones are behind it. -/
theorem Stacked.nearest {l : Layer} (h : Stacked d root (l :: layers) c.toList) :
    l.Agrees d root c.current ∧ Stacked d root layers c.outer := by
  obtain ⟨current, outer⟩ := c
  change Stacked d root (l :: layers) (current :: outer) at h
  cases h with
  | layer hl h => exact ⟨hl, h⟩

theorem Stacked.leave {l : Layer} (h : Stacked d root (l :: layers) c.toList) :
    Stacked d root layers c.pop.toList := by
  obtain ⟨_, hbehind⟩ := h.nearest
  obtain ⟨current, outer⟩ := c
  cases outer with
  | nil => cases hbehind
  | cons s outer => exact hbehind

theorem findVariable?_eq_none_of_agrees {s r : Scope}
    (h : List.Forall₂ (Variable.Agrees d) s.vars r.vars) {name : Name}
    (hnone : s.findVariable? name = none) : r.findVariable? name = none := by
  have hrel : Option.Rel (Variable.Agrees d) (s.findVariable? name) (r.findVariable? name) :=
    findVariable?_agrees h
  rw [hnone] at hrel
  cases hr : r.findVariable? name with
  | none => rfl
  | some w =>
      rw [hr] at hrel
      cases hrel

theorem findFunction?_eq_none_of_agrees {s r : Scope}
    (h : List.Forall₂ Function.Agrees s.functions r.functions) {name : Name} {arity : Nat}
    (hnone : s.findFunction? name arity = none) : r.findFunction? name arity = none := by
  have hrel : Option.Rel Function.Agrees (s.findFunction? name arity)
      (r.findFunction? name arity) := findFunction?_agrees h
  rw [hnone] at hrel
  cases hr : r.findFunction? name arity with
  | none => rfl
  | some g =>
      rw [hr] at hrel
      cases hrel

/-- A declaration binds the same name in the text and in the machine. -/
theorem Stacked.define {s : Scope} (h : Stacked d root (.scope s :: layers) c.toList)
    {declared : Variable} {value : Value} (hnone : s.findVariable? declared.name = none)
    (hmutable : declared.isMutable = true) (hfits : d.Fits declared.type value)
    (hfree : d = .types → Discipline.Free root declared.name) :
    ∃ c', c.defineVariable (Running.boundVariable declared.name true value) = .ok c' ∧
      Stacked d root (.scope { s with vars := declared :: s.vars } :: layers) c'.toList := by
  obtain ⟨hs, h⟩ := h.nearest
  have hnew := findVariable?_eq_none_of_agrees hs.vars hnone
  refine ⟨_, Chain.defineVariable_eq_ok_iff.mpr ⟨hnew, rfl⟩, ?_⟩
  refine .layer ⟨?_, hs.distinct.cons hnone, ?_, ?_, hs.noFunctions⟩ h
  · exact .cons ⟨rfl, hmutable.symm, hfits⟩ hs.vars
  · intro v hv
    rcases List.mem_cons.mp hv with rfl | hv
    · exact hmutable
    · exact hs.isMutable v hv
  · intro htypes v hv
    rcases List.mem_cons.mp hv with rfl | hv
    · exact hfree htypes
    · exact hs.free htypes v hv

theorem Stacked.defineGlobal (h : Stacked d root [] c.toList) (declared : Variable)
    {value : Value} (hnone : root.findVariable? declared.name = none)
    (hfits : d.Fits declared.type value) :
    ∃ c', c.defineVariable (Running.boundVariable declared.name declared.isMutable value) =
        .ok c' ∧
      Stacked d { root with vars := declared :: root.vars } [] c'.toList := by
  obtain ⟨hc, hr⟩ := h.outermost
  have hnew := findVariable?_eq_none_of_agrees hr.vars hnone
  refine ⟨_, Chain.defineVariable_eq_ok_iff.mpr ⟨hnew, rfl⟩, ?_⟩
  rw [hc]
  exact .root ⟨.cons ⟨rfl, rfl, hfits⟩ hr.vars, hr.distinct.cons hnone, hr.functions⟩

theorem Stacked.defineFunction (h : Stacked d root [] c.toList) {declared f : Function}
    (hagrees : declared.Agrees f)
    (hnone : root.findFunction? declared.name declared.arity = none) :
    ∃ c', c.defineFunction f = .ok c' ∧
      Stacked d { root with functions := declared :: root.functions } [] c'.toList := by
  obtain ⟨hc, hr⟩ := h.outermost
  have hmachine : c.current.findFunction? f.name f.arity = none := by
    rw [hagrees.name, hagrees.arity]
    exact findFunction?_eq_none_of_agrees hr.functions hnone
  refine ⟨_, Chain.defineFunction_eq_ok_iff.mpr ⟨hmachine, rfl⟩, ?_⟩
  rw [hc]
  exact .root ⟨hr.vars, hr.distinct, .cons hagrees hr.functions⟩

theorem Stacked.defineSwitch (h : Stacked d root (.switch false :: layers) c.toList)
    (value : Value) :
    ∃ c', c.defineVariable (Running.boundVariable Running.switchName true value) = .ok c' ∧
      Stacked d root (.switch true :: layers) c'.toList := by
  obtain ⟨hs, h⟩ := h.nearest
  have hnone : c.current.findVariable? Running.switchName = none := by
    unfold Scope.findVariable?
    rw [hs.empty rfl, List.find?_nil]
  refine ⟨_, Chain.defineVariable_eq_ok_iff.mpr ⟨hnone, rfl⟩,
    .layer ⟨?_, nofun, hs.noFunctions⟩ h⟩
  intro v hv
  rcases List.mem_cons.mp hv with rfl | hv
  · rfl
  · exact hs.vars v hv

end Scopes

section Assignments

variable {d : Discipline} {root : Scope} {name : Name} {value : Value}

/-- Storing a value that fits the variable keeps a scope in agreement. -/
theorem forall₂_setVariable {s r : Scope}
    (h : List.Forall₂ (Variable.Agrees d) s.vars r.vars)
    (hfits : ∀ v ∈ s.vars, v.name.same name = true → d.Fits v.type value) :
    List.Forall₂ (Variable.Agrees d) s.vars (r.setVariable name value).vars := by
  unfold Scope.setVariable
  dsimp only
  generalize s.vars = vs at h hfits
  generalize r.vars = ws at h
  induction h with
  | nil => exact .nil
  | @cons v w vs ws hv _ ih =>
      have hrest := ih fun u hu => hfits u (List.mem_cons_of_mem _ hu)
      by_cases hname : w.name.same name = true
      · rw [List.map_cons, if_pos hname]
        rw [hv.name] at hname
        exact .cons ⟨hv.name, hv.isMutable, hfits v List.mem_cons_self hname⟩ hrest
      · rw [List.map_cons, if_neg hname]
        exact .cons hv hrest

theorem Scope.Distinct.fits {s : Scope} (h : s.Distinct) {v : Variable}
    (hv : s.findVariable? name = some v) (hfits : d.Fits v.type value) :
    ∀ w ∈ s.vars, w.name.same name = true → d.Fits w.type value := by
  intro w hw hsame
  rwa [h.eq_of_same hv hw hsame]

/-- An assignment reaches the variable that the text finds along all layers, and keeps the
layers when the value fits it. -/
theorem Stacked.set {layers : List Layer} {rs : List Scope} (h : Stacked d root layers rs)
    (hname : name.same Running.switchName = false) {v : Variable}
    (hv : ((Layer.view layers ++ [root]).findSome? fun s => s.findVariable? name) = some v)
    (hfits : d.Fits v.type value) : Stacked d root layers (Chain.setIn name value rs) := by
  induction h with
  | @root r hr =>
      have hroot : root.findVariable? name = some v := by
        simpa [Layer.view] using hv
      have hvars := forall₂_setVariable hr.vars (hr.distinct.fits hroot hfits)
      unfold Chain.setIn
      split
      · exact .root ⟨hvars, hr.distinct, hr.functions⟩
      · exact .root hr
  | @layer l layers r rs hl h ih =>
      cases l with
      | scope s =>
          rw [Layer.view_scope, List.cons_append, List.findSome?_cons] at hv
          have hrel : Option.Rel (Variable.Agrees d) (s.findVariable? name)
              (r.findVariable? name) := findVariable?_agrees hl.vars
          unfold Chain.setIn
          cases hs : s.findVariable? name with
          | some w =>
              rw [hs] at hv hrel
              cases hv
              have hsome : (r.findVariable? name).isSome = true := by
                cases hr : r.findVariable? name with
                | none =>
                    rw [hr] at hrel
                    cases hrel
                | some w => rfl
              rw [if_pos hsome]
              have hvars := forall₂_setVariable hl.vars (hl.distinct.fits hs hfits)
              exact .layer ⟨hvars, hl.distinct, hl.isMutable, hl.free, hl.noFunctions⟩ h
          | none =>
              rw [hs] at hv
              rw [findVariable?_eq_none_of_agrees hl.vars hs]
              exact .layer hl (ih hv)
      | switch isBound =>
          unfold Chain.setIn
          rw [hl.findVariable? hname]
          exact .layer hl (ih hv)

/-- An assignment of a value that fits what the text finds keeps the layers. -/
theorem Sees.setVariable {scopes c : Chain} {own callers : List Layer} {v : Variable}
    (hsees : Sees root scopes own) (h : Stacked d root (own ++ callers) c.toList)
    (hname : name.same Running.switchName = false) (hv : scopes.lookupVariable name = .ok v)
    (hfits : d.Fits v.type value) :
    Stacked d root (own ++ callers) (c.setVariable name value).toList := by
  obtain ⟨rs, hcallers⟩ := h.behind
  obtain ⟨declared, hdeclared, _, hsame⟩ := hsees.find hcallers hv
  rw [Chain.toList_setVariable]
  exact h.set hname hdeclared ((hsame value).mpr hfits)

end Assignments

end BlockScript
