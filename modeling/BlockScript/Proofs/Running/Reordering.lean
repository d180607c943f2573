import BlockScript.Proofs.Alongside
import BlockScript.Proofs.Running.Closure
import Mathlib.Data.List.Forall2

/-!
# Functions in another order

A scope answers a lookup by name and number of parameters.  So two scopes with the same
functions in different orders are interchangeable as long as they give every such lookup the same
answer, and they stay so under new bindings, stores and blocks.  Two machines that differ only in
this, and in the order of some messages of their traces, go on side by side: every evaluation and
every execution gives equal results or failures and leaves machines that differ only in this.
-/

namespace BlockScript

/-- Two scopes with the same variables, and the same functions in any order. -/
structure Scope.Reordered (s t : Scope) : Prop where
  vars : t.vars = s.vars
  functions : s.functions.Perm t.functions
  find : ∀ name arity, t.findFunction? name arity = s.findFunction? name arity

/-- Two chains whose scopes differ only in the order of functions. -/
def Chain.Reordered (c d : Chain) : Prop := List.Forall₂ Scope.Reordered c.toList d.toList

/-- Two traces of one level with the same messages, but for the order of some special ones that
stand together. -/
structure Trace.Reordered (special : Nat × String → Prop) (t t' : Trace) : Prop where
  level : t'.level = t.level
  messages : ∃ behind among among' before, t.messages = behind ++ (among ++ before) ∧
    t'.messages = behind ++ (among' ++ before) ∧ among.Perm among' ∧ ∀ e ∈ among, special e

/-- Two machines that differ only in the order of functions and of special messages. -/
structure Machine.Reordered (special : Nat × String → Prop) (m m' : Machine) : Prop where
  scopes : m.scopes.Reordered m'.scopes
  heap : m'.heap = m.heap
  output : m'.output = m.output
  trace : m.trace.Reordered special m'.trace
  loaded : m'.loaded = m.loaded

namespace Scope.Reordered

variable {s t : Scope}

protected theorem rfl : s.Reordered s := ⟨rfl, .refl _, fun _ _ => rfl⟩

theorem findVariable? (h : s.Reordered t) (name : Name) :
    t.findVariable? name = s.findVariable? name := by
  unfold Scope.findVariable?
  rw [h.vars]

theorem bindVariable (h : s.Reordered t) (v : Variable) :
    Reordered { s with vars := v :: s.vars } { t with vars := v :: t.vars } :=
  ⟨by rw [h.vars], h.functions, h.find⟩

theorem bindFunction (h : s.Reordered t) (f : Function) :
    Reordered { s with functions := f :: s.functions } { t with functions := f :: t.functions } := by
  refine ⟨h.vars, h.functions.cons f, fun name arity => ?_⟩
  have hfind := h.find name arity
  unfold Scope.findFunction? at hfind ⊢
  rw [List.find?_cons, List.find?_cons, hfind]

theorem setVariable (h : s.Reordered t) (name : Name) (value : Value) :
    (s.setVariable name value).Reordered (t.setVariable name value) :=
  ⟨by simp only [Scope.setVariable, h.vars], h.functions, h.find⟩

end Scope.Reordered

namespace Chain.Reordered

variable {c d : Chain}

protected theorem rfl : c.Reordered c := List.forall₂_same.mpr fun _ _ => .rfl

theorem current (h : c.Reordered d) : c.current.Reordered d.current := (List.forall₂_cons.mp h).1

theorem outer (h : c.Reordered d) : List.Forall₂ Scope.Reordered c.outer d.outer :=
  (List.forall₂_cons.mp h).2

theorem push (h : c.Reordered d) : c.push.Reordered d.push := .cons .rfl h

theorem pop (h : c.Reordered d) : c.pop.Reordered d.pop := by
  obtain ⟨s, outer⟩ := c
  obtain ⟨t, outer'⟩ := d
  have houter := h.outer
  cases houter with
  | nil => exact h
  | cons hs houter => exact .cons hs houter

theorem findSome? {α : Type} {f : Scope → Option α} (hf : ∀ s t, Scope.Reordered s t → f t = f s)
    {ss ts : List Scope} (h : List.Forall₂ Scope.Reordered ss ts) :
    ts.findSome? f = ss.findSome? f := by
  induction h with
  | nil => rfl
  | cons hs _ ih => rw [List.findSome?_cons, List.findSome?_cons, hf _ _ hs, ih]

theorem lookupVariable (h : c.Reordered d) (name : Name) :
    d.lookupVariable name = c.lookupVariable name := by
  unfold Chain.lookupVariable
  rw [findSome? (fun _ _ hs => hs.findVariable? name) h]

theorem lookupFunction (h : c.Reordered d) (name : Name) (arity : Nat) :
    d.lookupFunction name arity = c.lookupFunction name arity := by
  unfold Chain.lookupFunction
  rw [findSome? (fun _ _ hs => hs.find name arity) h]

theorem setIn (name : Name) (value : Value) {ss ts : List Scope}
    (h : List.Forall₂ Scope.Reordered ss ts) :
    List.Forall₂ Scope.Reordered (Chain.setIn name value ss) (Chain.setIn name value ts) := by
  induction h with
  | nil => exact .nil
  | cons hs hrest ih =>
      simp only [Chain.setIn, hs.findVariable? name]
      split
      · exact .cons (hs.setVariable name value) hrest
      · exact .cons hs ih

theorem setVariable (h : c.Reordered d) (name : Name) (value : Value) :
    (c.setVariable name value).Reordered (d.setVariable name value) := by
  unfold Reordered
  rw [toList_setVariable, toList_setVariable]
  exact setIn name value h

open BlockScript.Computation (Related)

/-- A variable is bound in both of two reordered chains, or in neither of them. -/
theorem defineVariable (h : c.Reordered d) (v : Variable) :
    Related Eq Reordered (c.defineVariable v) (d.defineVariable v) := by
  unfold Chain.defineVariable Scope.defineVariable
  rw [h.current.findVariable? v.name]
  cases c.current.findVariable? v.name with
  | some w => exact .error rfl
  | none => exact .ok (.cons (h.current.bindVariable v) h.outer)

/-- A function is bound in both of two reordered chains, or in neither of them. -/
theorem defineFunction (h : c.Reordered d) (f : Function) :
    Related Eq Reordered (c.defineFunction f) (d.defineFunction f) := by
  unfold Chain.defineFunction Scope.defineFunction
  rw [h.current.find f.name f.arity]
  cases c.current.findFunction? f.name f.arity with
  | some g => exact .error rfl
  | none => exact .ok (.cons (h.current.bindFunction f) h.outer)

end Chain.Reordered

namespace Trace.Reordered

variable {special : Nat × String → Prop} {t t' : Trace}

protected theorem rfl : t.Reordered special t :=
  ⟨rfl, [], [], [], t.messages, rfl, rfl, .nil, nofun⟩

theorem note (h : t.Reordered special t') (level : Nat) (message : String) :
    (t.note level message).Reordered special (t'.note level message) := by
  obtain ⟨behind, among, among', before, hmessages, hmessages', hperm, hspecial⟩ := h.messages
  unfold Trace.note
  rw [h.level]
  split
  · refine ⟨rfl, (level, message) :: behind, among, among', before, ?_, ?_, hperm, hspecial⟩
    · rw [hmessages]
      rfl
    · rw [hmessages']
      rfl
  · exact h

end Trace.Reordered

namespace Machine.Reordered

variable {special : Nat × String → Prop} {m m' : Machine}

protected theorem rfl : m.Reordered special m := ⟨.rfl, rfl, rfl, .rfl, rfl⟩

theorem enter (h : m.Reordered special m') : m.enter.Reordered special m'.enter :=
  ⟨h.scopes.push, h.heap, h.output, h.trace, h.loaded⟩

theorem leave (h : m.Reordered special m') : m.leave.Reordered special m'.leave :=
  ⟨h.scopes.pop, h.heap, h.output, h.trace, h.loaded⟩

/-- The second of two machines is the first one with other scopes and another trace. -/
theorem eq (h : m.Reordered special m') :
    m' = { m with scopes := m'.scopes, trace := m'.trace } := by
  obtain ⟨_, heap, output, _, loaded⟩ := h
  cases m'
  cases heap
  cases output
  cases loaded
  rfl

end Machine.Reordered

namespace Running

open BlockScript.Computation

variable {settings : Settings} {special : Nat × String → Prop} {α : Type}

/-- A computation goes on in the same way from machines that differ only in the order of
functions and of special messages. -/
abbrev IgnoresOrder (special : Nat × String → Prop) (c : Running α) : Prop :=
  Alongside (Machine.Reordered special) Eq Eq c c

section Steps

theorem related_rfl {r : Except RunFailure α} : Related Eq Eq r r := by
  cases r with
  | ok a => exact .ok rfl
  | error e => exact .error rfl

theorem Aside.ignoresOrder {c : Running α} (h : Aside c) : IgnoresOrder special c := by
  intro m m' hm
  have hright := h m m'.scopes m'.trace
  rw [← hm.eq] at hright
  rw [hright]
  refine ⟨related_rfl, ?_⟩
  exact ⟨h.scopes_eq m ▸ hm.scopes, rfl, rfl, h.trace_eq m ▸ hm.trace, rfl⟩

theorem ignoresOrder_note (level : Nat) (message : String) :
    IgnoresOrder special (note settings level message) := by
  intro m m' hm
  have hrefuses : refuses settings m'.trace level message =
      refuses settings m.trace level message := by
    unfold refuses
    rw [hm.trace.level]
  rw [note_apply, note_apply, hrefuses]
  split
  · exact ⟨.ok rfl, hm⟩
  split
  · exact ⟨.error rfl, hm⟩
  · exact ⟨.ok rfl, hm.scopes, hm.heap, hm.output, hm.trace.note level message, hm.loaded⟩

/-- A binding in reordered chains is the same fault, or leads to reordered chains. -/
theorem alongside_boundUnder (name : Name) {gives : α → α → Prop}
    {binding binding' : Except ScopeFault α} (h : Related Eq gives binding binding') :
    Alongside (Machine.Reordered special) Eq gives (lift (boundUnder name binding))
      (lift (boundUnder name binding')) := by
  refine alongside_lift ?_
  unfold boundUnder
  split
  · cases h with
    | ok h => exact .ok h
    | error h => exact .error (h ▸ rfl)
  · exact .error rfl

theorem ignoresOrder_lookupVariable (name : Name) :
    IgnoresOrder special (lookupVariable name) := by
  refine alongside_state fun m m' hm => ?_
  rw [hm.scopes.lookupVariable name]
  exact alongside_lift related_rfl

theorem ignoresOrder_lookupFunction (name : Name) (arity : Nat) :
    IgnoresOrder special (lookupFunction name arity) := by
  refine alongside_state fun m m' hm => ?_
  rw [hm.scopes.lookupFunction name arity]
  exact alongside_lift related_rfl

theorem ignoresOrder_mainFunction : IgnoresOrder special mainFunction := by
  refine alongside_state fun m m' hm => ?_
  rw [hm.scopes.lookupFunction "main" 0]
  split
  · exact alongside_pure rfl
  · exact alongside_fail rfl

/-- Reordered chains take the place of the scopes. -/
theorem alongside_withScopes {c d : Chain} (h : c.Reordered d) :
    Alongside (Machine.Reordered special) Eq Eq
      (change fun m => { m with scopes := c } : Running Unit)
      (change fun m => { m with scopes := d }) :=
  (alongside_change fun _ _ hm => ⟨h, hm.heap, hm.output, hm.trace, hm.loaded⟩).imp
    fun _ _ _ => rfl

theorem ignoresOrder_bindVariable (name : Name) (isMutable : Bool) (value : Value) :
    IgnoresOrder special (bindVariable name isMutable value) :=
  alongside_state fun _ _ hm =>
    (alongside_boundUnder name (hm.scopes.defineVariable _)).bind fun _ _ => alongside_withScopes

theorem ignoresOrder_bindFunction (f : Function) : IgnoresOrder special (bindFunction f) :=
  alongside_state fun _ _ hm =>
    (alongside_boundUnder f.name (hm.scopes.defineFunction f)).bind
      fun _ _ => alongside_withScopes

theorem ignoresOrder_setVariable (name : Name) (value : Value) :
    IgnoresOrder special (setVariable name value) :=
  (alongside_change fun _ _ hm =>
    ⟨hm.scopes.setVariable name value, hm.heap, hm.output, hm.trace, hm.loaded⟩).imp
    fun _ _ _ => rfl

theorem IgnoresOrder.inScope {c : Running α} (h : IgnoresOrder special c) :
    IgnoresOrder special (inScope c) :=
  (alongside_change fun _ _ hm => hm.enter).bind fun _ _ _ =>
    Alongside.afterwards h fun _ _ hm => hm.leave

/-- No step of a run looks at the order of functions. -/
theorem inherited_ignoresOrder :
    Inherited settings (fun {α : Type} (c : Running α) => IgnoresOrder special c) where
  aside h := h.ignoresOrder
  bind h hnext := h.bind fun a _ hab => hab ▸ hnext a
  inScope h := h.inScope
  mapFailure f h := h.mapFailure fun _ _ he => congrArg f he
  note := ignoresOrder_note
  lookupVariable := ignoresOrder_lookupVariable
  lookupFunction := ignoresOrder_lookupFunction
  bindVariable := ignoresOrder_bindVariable
  bindFunction := ignoresOrder_bindFunction
  setVariable := ignoresOrder_setVariable

end Steps

end Running
end BlockScript
