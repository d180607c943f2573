import BlockScript.Proofs.Alongside
import BlockScript.Proofs.Running.Rules
import BlockScript.Proofs.Tree.Returning
import Mathlib.Data.List.Forall2

/-!
# Machines that are alike

The machines of two programs that differ in dead statements only are equal but for the
bodies of the functions that their scopes bind, and those are alike.  The steps of a run
keep this: what they look up, compute and write is equal, and what they bind is alike.
-/

namespace BlockScript

open BlockScript.Computation

section Relations

/-- Two failures are equal, or report nodes of one kind. -/
inductive RunFailure.Alike : RunFailure → RunFailure → Prop
  | same (e : RunFailure) : RunFailure.Alike e e
  | misplacedStatement {node node' : Node} : node.kindName = node'.kindName →
      RunFailure.Alike (.misplacedStatement node) (.misplacedStatement node')
  | misplacedExpression {node node' : Node} : node.kindName = node'.kindName →
      RunFailure.Alike (.misplacedExpression node) (.misplacedExpression node')

/-- Two actions are equal, or run bodies that are alike. -/
inductive Action.Alike : Action → Action → Prop
  | same (action : Action) : Action.Alike action action
  | declared {body body' : List Node} (parameters : List Name) : Node.AlikeBody body body' →
      Action.Alike (.declared parameters body) (.declared parameters body')

/-- Two functions agree but for dead statements. -/
structure Function.Alike (f f' : Function) : Prop where
  name : f.name = f'.name
  parameterTypes : f.parameterTypes = f'.parameterTypes
  action : f.action.Alike f'.action

/-- Two scopes bind the same variables, and functions that agree but for dead statements. -/
structure Scope.Alike (s s' : Scope) : Prop where
  vars : s.vars = s'.vars
  functions : List.Forall₂ Function.Alike s.functions s'.functions

/-- Two chains are alike scope by scope. -/
structure Chain.Alike (c c' : Chain) : Prop where
  current : c.current.Alike c'.current
  outer : List.Forall₂ Scope.Alike c.outer c'.outer

/-- Two machines agree but for dead statements in functions. -/
structure Machine.Alike (m m' : Machine) : Prop where
  scopes : m.scopes.Alike m'.scopes
  heap : m.heap = m'.heap
  output : m.output = m'.output
  trace : m.trace = m'.trace
  loaded : m.loaded = m'.loaded

theorem forall₂_refl {α : Type} {R : α → α → Prop} (h : ∀ a, R a a) :
    (as : List α) → List.Forall₂ R as as
  | [] => .nil
  | a :: as => .cons (h a) (forall₂_refl h as)

theorem Function.Alike.refl (f : Function) : f.Alike f := ⟨rfl, rfl, .same _⟩

theorem Scope.Alike.refl (s : Scope) : s.Alike s := ⟨rfl, forall₂_refl Function.Alike.refl _⟩

theorem Chain.Alike.refl (c : Chain) : c.Alike c :=
  ⟨.refl _, forall₂_refl Scope.Alike.refl _⟩

theorem Machine.Alike.refl (m : Machine) : m.Alike m := ⟨.refl _, rfl, rfl, rfl, rfl⟩

end Relations

section Scopes

variable {s s' : Scope} {c c' : Chain}

theorem Function.Alike.answers_eq {f f' : Function} (h : f.Alike f') (name : Name)
    (arity : Nat) : f.answers name arity = f'.answers name arity := by
  rw [Function.answers, Function.answers, Function.arity, Function.arity, h.name,
    h.parameterTypes]

namespace Scope

theorem Alike.findVariable?_eq (h : s.Alike s') (name : Name) :
    s.findVariable? name = s'.findVariable? name := by
  rw [findVariable?, findVariable?, h.vars]

theorem Alike.findFunction? (h : s.Alike s') (name : Name) (arity : Nat) :
    Option.Rel Function.Alike (s.findFunction? name arity) (s'.findFunction? name arity) := by
  unfold Scope.findFunction?
  have hfunctions := h.functions
  generalize s.functions = functions at hfunctions ⊢
  generalize s'.functions = functions' at hfunctions ⊢
  induction hfunctions with
  | nil => exact .none
  | @cons f f' _ _ hf _ ih =>
      rw [List.find?_cons, List.find?_cons, ← hf.answers_eq]
      cases f.answers name arity with
      | true => exact .some hf
      | false => exact ih

theorem Alike.defineVariable (h : s.Alike s') (v : Variable) :
    Related Eq Alike (s.defineVariable v) (s'.defineVariable v) := by
  unfold Scope.defineVariable
  rw [h.findVariable?_eq]
  split
  · exact .error rfl
  · exact .ok ⟨congrArg (v :: ·) h.vars, h.functions⟩

theorem Alike.defineFunction (h : s.Alike s') {f f' : Function} (hf : f.Alike f') :
    Related Eq Alike (s.defineFunction f) (s'.defineFunction f') := by
  have hfind := h.findFunction? f.name f.arity
  have harity : f.arity = f'.arity := by
    rw [Function.arity, Function.arity, hf.parameterTypes]
  unfold Scope.defineFunction
  rw [← hf.name, ← harity]
  cases hfound : s.findFunction? f.name f.arity <;>
    cases hfound' : s'.findFunction? f.name f.arity <;> rw [hfound, hfound'] at hfind
  · exact .ok ⟨h.vars, .cons hf h.functions⟩
  · cases hfind
  · cases hfind
  · exact .error rfl

theorem Alike.setVariable (h : s.Alike s') (name : Name) (value : Value) :
    (s.setVariable name value).Alike (s'.setVariable name value) := by
  refine ⟨?_, h.functions⟩
  unfold Scope.setVariable
  rw [h.vars]

end Scope

namespace Chain

theorem Alike.toList (h : c.Alike c') : List.Forall₂ Scope.Alike c.toList c'.toList :=
  .cons h.current h.outer

theorem Alike.push (h : c.Alike c') : c.push.Alike c'.push :=
  ⟨.refl _, h.toList⟩

theorem Alike.pop (h : c.Alike c') : c.pop.Alike c'.pop := by
  obtain ⟨current, outer⟩ := c
  obtain ⟨current', outer'⟩ := c'
  have houter := h.outer
  unfold Chain.pop
  cases houter with
  | nil => exact h
  | cons hs hss => exact ⟨hs, hss⟩

/-- Scopes that are alike bind the same variables. -/
theorem Alike.vars_eq (h : c.Alike c') :
    c.toList.map Scope.vars = c'.toList.map Scope.vars := by
  have hscopes := h.toList
  generalize c.toList = ss at hscopes ⊢
  generalize c'.toList = ss' at hscopes ⊢
  induction hscopes with
  | nil => rfl
  | cons hs _ ih => rw [List.map_cons, List.map_cons, hs.vars, ih]

theorem Alike.lookupVariable_eq (h : c.Alike c') (name : Name) :
    c.lookupVariable name = c'.lookupVariable name := by
  have hscopes := h.toList
  unfold Chain.lookupVariable
  generalize c.toList = ss at hscopes ⊢
  generalize c'.toList = ss' at hscopes ⊢
  have hfind : ss.findSome? (fun s => s.findVariable? name) =
      ss'.findSome? fun s => s.findVariable? name := by
    induction hscopes with
    | nil => rfl
    | cons hs _ ih => rw [List.findSome?_cons, List.findSome?_cons, hs.findVariable?_eq, ih]
  rw [hfind]

/-- Scopes that are alike give functions that are. -/
theorem Alike.findFunctions {ss ss' : List Scope} (h : List.Forall₂ Scope.Alike ss ss')
    (name : Name) (arity : Nat) :
    Option.Rel Function.Alike (ss.findSome? fun s => s.findFunction? name arity)
      (ss'.findSome? fun s => s.findFunction? name arity) := by
  induction h with
  | nil => exact .none
  | @cons s s' _ _ hs _ ih =>
      have hhead := hs.findFunction? name arity
      rw [List.findSome?_cons, List.findSome?_cons]
      cases hfound : s.findFunction? name arity <;>
        cases hfound' : s'.findFunction? name arity <;> rw [hfound, hfound'] at hhead
      · exact ih
      · cases hhead
      · cases hhead
      · exact hhead

theorem Alike.lookupFunction (h : c.Alike c') (name : Name) (arity : Nat) :
    Related Eq Function.Alike (c.lookupFunction name arity) (c'.lookupFunction name arity) := by
  have hfind := Alike.findFunctions h.toList name arity
  unfold Chain.lookupFunction
  generalize c.toList.findSome? (fun s => s.findFunction? name arity) = found at hfind ⊢
  generalize c'.toList.findSome? (fun s => s.findFunction? name arity) = found' at hfind ⊢
  cases hfind with
  | none => exact .error rfl
  | some hf => exact .ok hf

theorem Alike.define {r r' : Except ScopeFault Scope} (h : c.Alike c')
    (hr : Related Eq Scope.Alike r r') :
    Related Eq Alike (r.map fun s => { c with current := s })
      (r'.map fun s => { c' with current := s }) := by
  cases hr with
  | error hfault => exact .error hfault
  | ok hs => exact .ok ⟨hs, h.outer⟩

theorem Alike.setIn {ss ss' : List Scope} (h : List.Forall₂ Scope.Alike ss ss') (name : Name)
    (value : Value) : List.Forall₂ Scope.Alike (setIn name value ss) (setIn name value ss') := by
  induction h with
  | nil => exact .nil
  | cons hs hss ih =>
      unfold Chain.setIn
      rw [hs.findVariable?_eq]
      split
      · exact .cons (hs.setVariable name value) hss
      · exact .cons hs ih

theorem Alike.setVariable (h : c.Alike c') (name : Name) (value : Value) :
    (c.setVariable name value).Alike (c'.setVariable name value) := by
  unfold Chain.setVariable
  rw [h.current.findVariable?_eq]
  split
  · exact ⟨h.current.setVariable name value, h.outer⟩
  · exact ⟨h.current, Alike.setIn h.outer name value⟩

end Chain

end Scopes

namespace Running

/-- From machines that are alike, two computations give related results or failures that
are alike, and leave machines that are. -/
abbrev RunsAlike {α : Type} (gives : α → α → Prop) (c c' : Running α) : Prop :=
  Alongside Machine.Alike RunFailure.Alike gives c c'

section Steps

variable {α : Type}

theorem related_same (r : Except RunFailure α) : Related RunFailure.Alike Eq r r := by
  cases r with
  | ok a => exact .ok rfl
  | error e => exact .error (.same e)

theorem alike_pure (a : α) : RunsAlike Eq (pure a) (pure a) := alongside_pure rfl

theorem alike_fail (e : RunFailure) {gives : α → α → Prop} :
    RunsAlike gives (fail e) (fail e) :=
  alongside_fail (.same e)

/-- What depends on lists only is the same in machines that are alike. -/
theorem alike_ofHeap (answer : Heap → Except RunFailure α) :
    RunsAlike Eq (do let m ← state; lift (answer m.heap))
      (do let m ← state; lift (answer m.heap)) := by
  refine alongside_state ?_
  intro m m' hm
  rw [hm.heap]
  exact alongside_lift (related_same _)

theorem alike_note (settings : Settings) (level : Nat) (message : String) :
    RunsAlike Eq (note settings level message) (note settings level message) := by
  intro m m' hm
  rw [note_apply, note_apply, hm.trace]
  split
  · exact ⟨.ok rfl, hm⟩
  split
  · exact ⟨.error (.same _), hm⟩
  · exact ⟨.ok rfl, hm.scopes, hm.heap, hm.output, rfl, hm.loaded⟩

theorem alike_noteValue (settings : Settings) (level : Nat) (message : String) (value : Value) :
    RunsAlike Eq (noteValue settings level message value)
      (noteValue settings level message value) := by
  unfold noteValue
  split
  · refine alongside_state ?_
    intro m m' hm
    rw [hm.heap]
    refine (alongside_lift (related_same _)).bind ?_
    rintro text _ rfl
    exact alike_note settings level _
  · exact alike_pure ()

theorem alike_inScope {gives : α → α → Prop} {c c' : Running α} (h : RunsAlike gives c c') :
    RunsAlike gives (inScope c) (inScope c') := by
  have henter : RunsAlike (fun _ _ => True) (change Machine.enter) (change Machine.enter) :=
    alongside_change fun _ _ hm => ⟨hm.scopes.push, hm.heap, hm.output, hm.trace, hm.loaded⟩
  refine henter.bind ?_
  intro _ _ _
  exact h.afterwards fun _ _ hm => ⟨hm.scopes.pop, hm.heap, hm.output, hm.trace, hm.loaded⟩

theorem related_boundUnder {gives : α → α → Prop} {r r' : Except ScopeFault α} (name : Name)
    (h : Related Eq gives r r') :
    Related RunFailure.Alike gives (boundUnder name r) (boundUnder name r') := by
  unfold boundUnder
  split
  · cases h with
    | ok hab => exact .ok hab
    | @error fault _ hfault =>
        subst hfault
        exact .error (.same (.raised (.scope fault)))
  · exact .error (.same _)

theorem alike_lookupVariable (name : Name) :
    RunsAlike Eq (lookupVariable name) (lookupVariable name) := by
  refine alongside_state ?_
  intro m m' hm
  rw [hm.scopes.lookupVariable_eq]
  exact alongside_lift (related_same _)

theorem alike_lookupFunction (name : Name) (arity : Nat) :
    RunsAlike Function.Alike (lookupFunction name arity) (lookupFunction name arity) := by
  refine alongside_state ?_
  intro m m' hm
  exact alongside_lift (related_boundUnder name (hm.scopes.lookupFunction name arity))

/-- Scopes that are alike take the place of scopes that are. -/
theorem alike_withScopes {c c' : Chain} (h : c.Alike c') :
    RunsAlike Eq (change fun m => { m with scopes := c })
      (change fun m => { m with scopes := c' }) :=
  fun _ _ hm => ⟨.ok rfl, h, hm.heap, hm.output, hm.trace, hm.loaded⟩

theorem alike_bindVariable (name : Name) (isMutable : Bool) (value : Value) :
    RunsAlike Eq (bindVariable name isMutable value) (bindVariable name isMutable value) := by
  refine alongside_state ?_
  intro m m' hm
  have hdefine := hm.scopes.define
    (hm.scopes.current.defineVariable (boundVariable name isMutable value))
  refine (alongside_lift (related_boundUnder name hdefine)).bind ?_
  intro c c' hc
  exact alike_withScopes hc

theorem alike_bindFunction {f f' : Function} (hf : f.Alike f') :
    RunsAlike Eq (bindFunction f) (bindFunction f') := by
  refine alongside_state ?_
  intro m m' hm
  have hdefine := hm.scopes.define (hm.scopes.current.defineFunction hf)
  rw [hf.name]
  refine (alongside_lift (related_boundUnder f'.name hdefine)).bind ?_
  intro c c' hc
  exact alike_withScopes hc

theorem alike_bindParameters (names : List Name) (values : List Value) :
    RunsAlike Eq (bindParameters names values) (bindParameters names values) := by
  induction names generalizing values with
  | nil => exact alike_pure ()
  | cons name names ih =>
      cases values with
      | nil => exact alike_pure ()
      | cons value values =>
          refine (alike_bindVariable name true value).bind ?_
          intro _ _ _
          exact ih values

theorem alike_setVariable (name : Name) (value : Value) :
    RunsAlike Eq (setVariable name value) (setVariable name value) :=
  fun _ _ hm =>
    ⟨.ok rfl, hm.scopes.setVariable name value, hm.heap, hm.output, hm.trace, hm.loaded⟩

theorem alike_makeList (items : List Value) :
    RunsAlike Eq (makeList items) (makeList items) := by
  intro m m' hm
  unfold makeList
  rw [hm.heap]
  exact ⟨.ok rfl, hm.scopes, rfl, hm.output, hm.trace, hm.loaded⟩

theorem alike_literalValue (s : Scalar) : RunsAlike Eq (literalValue s) (literalValue s) := by
  by_cases harray : ∃ items place, s = .foreign (.array items) place
  · obtain ⟨items, place, rfl⟩ := harray
    intro m m' hm
    rw [literalValue_array_apply, literalValue_array_apply, hm.heap, hm.loaded]
    split
    · exact ⟨.ok rfl, hm⟩
    · exact ⟨.ok rfl, hm.scopes, rfl, hm.output, hm.trace, rfl⟩
  · rw [literalValue_eq_pure fun items place hs => harray ⟨items, place, hs⟩]
    exact alike_pure _

theorem alike_itemAt (reference index : Nat) :
    RunsAlike Eq (itemAt reference index) (itemAt reference index) := by
  intro m m' hm
  unfold itemAt
  rw [hm.heap]
  exact ⟨.ok rfl, hm⟩

theorem alike_storeItem (reference index : Nat) (value : Value) :
    RunsAlike Eq (storeItem reference index value) (storeItem reference index value) :=
  fun _ _ hm => ⟨.ok rfl, hm.scopes,
    congrArg (fun heap => heap.store reference index value) hm.heap, hm.output, hm.trace,
    hm.loaded⟩

theorem alike_requireBoolean (what : String) (value : Value) :
    RunsAlike Eq (requireBoolean what value) (requireBoolean what value) := by
  unfold requireBoolean
  split
  · exact alike_pure _
  · exact alike_fail _

theorem alike_requireList (name : Name) (value : Value) :
    RunsAlike Eq (requireList name value) (requireList name value) := by
  unfold requireList
  split
  · exact alike_pure _
  · exact alike_fail _

theorem alike_requireIndex (reference : Nat) (value : Value) :
    RunsAlike Eq (requireIndex reference value) (requireIndex reference value) := by
  unfold requireIndex
  split
  · refine alongside_state ?_
    intro m m' hm
    rw [hm.heap]
    split
    · exact alike_pure _
    split
    · exact alike_fail _
    · exact alike_fail _
  · exact alike_fail _

theorem alike_applyOperator (settings : Settings) (operator : String) (a b : Value) :
    RunsAlike Eq (applyOperator settings operator a b) (applyOperator settings operator a b) :=
  alike_ofHeap fun heap => operate settings heap operator a b

theorem alike_equalHere (settings : Settings) (a b : Value) :
    RunsAlike Eq (equalHere settings a b) (equalHere settings a b) :=
  alike_ofHeap fun heap => valuesEqual settings heap a b

theorem alike_writeLine (settings : Settings) (text : String) :
    RunsAlike Eq (writeLine settings text) (writeLine settings text) := by
  unfold writeLine
  split
  · exact alike_fail _
  · intro m m' hm
    refine ⟨.ok rfl, hm.scopes, hm.heap, ?_, hm.trace, hm.loaded⟩
    exact congrArg (fun output => output ++ text ++ "\n") hm.output

theorem alike_print (settings : Settings) (values : List Value) :
    RunsAlike Eq (print settings values) (print settings values) := by
  cases values with
  | nil => exact alike_fail _
  | cons value values =>
      refine alongside_state ?_
      intro m m' hm
      rw [hm.heap]
      refine (alongside_lift (related_same _)).bind ?_
      rintro text _ rfl
      refine (alike_writeLine settings text).bind ?_
      intro _ _ _
      exact alike_pure _

theorem alike_mainFunction : RunsAlike Function.Alike mainFunction mainFunction := by
  refine alongside_state ?_
  intro m m' hm
  have hmain := hm.scopes.lookupFunction "main" 0
  generalize m.scopes.lookupFunction "main" 0 = found at hmain ⊢
  generalize m'.scopes.lookupFunction "main" 0 = found' at hmain ⊢
  cases hmain with
  | ok hf => exact alongside_pure hf
  | error _ => exact alike_fail _

end Steps

end Running
end BlockScript
