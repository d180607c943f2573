import BlockScript.Proofs.Running.Closure
import BlockScript.Proofs.Scope.Contents
import BlockScript.Proofs.Scope.Overlay
import BlockScript.Proofs.Tree.Shape

/-!
# Runs on machines that differ in hidden variables

Two machines that differ only in hidden variables and in the messages of their traces go on side
by side under every tree that spares these variables: the functions that such a tree defines
spare them too, and a call finds the same function on both sides, with the callers' hidden
variables around it.

The two runs need not have the same number of steps.  A comparison is made from one side: the run
of that side has no more steps than the other, and either it takes more than it was given, or
both runs give the same in machines that go on differing only in hidden variables
(`beside_steps`, by induction on the steps).
-/

namespace BlockScript

open BlockScript.Computation (Related)
open Running (switchName)

/-- A node binds nothing under a scratch name, and looks no variable up under it or under the
name of the value of a switch. -/
def Node.Spares (t : Name) : Node → Prop
  | «global» name _ _ _ | declaration name _ _ => name.same t = false
  | function _ parameters _ _ _ => ∀ p ∈ parameters, p.same t = false
  | access name _ => ¬ name.IsHidden t switchName
  | assignment target _ => ∀ name ∈ target.name?, ¬ name.IsHidden t switchName
  | _ => True

/-- What a function does spares the hidden names. -/
def Action.Spares (t : Name) : Action → Prop
  | .declared parameters body =>
      (∀ p ∈ parameters, p.same t = false) ∧ Node.EveryOf (Node.Spares t) body
  | .printer | .constant _ | .collector => True

/-- A function spares the hidden names. -/
def Function.Spares (t : Name) (f : Function) : Prop := f.action.Spares t

/-- Two machines differ in hidden variables and in messages only, and all of their functions
spare the hidden names. -/
structure Machine.Shadows (t : Name) (layers : List Overlay) (m m' : Machine) : Prop where
  scopes : m.scopes.Matches t switchName layers m'.scopes
  founded : Overlay.Founded layers
  spared : m.scopes.Every (fun _ => True) (Function.Spares t)
  heap : m'.heap = m.heap
  output : m'.output = m.output
  level : m'.trace.level = m.trace.level
  loaded : m'.loaded = m.loaded

/-- Two machines are the same but for their traces. -/
def Machine.SameButTrace (m m' : Machine) : Prop := m' = { m with trace := m'.trace }

namespace Machine.SameButTrace

variable {m₁ m₂ m₃ : Machine}

theorem symm (h : m₁.SameButTrace m₂) : m₂.SameButTrace m₁ := by
  unfold SameButTrace at h ⊢
  rw [h]

theorem trans (h : m₁.SameButTrace m₂) (h' : m₂.SameButTrace m₃) : m₁.SameButTrace m₃ := by
  unfold SameButTrace at h h' ⊢
  rw [h', h]

end Machine.SameButTrace

namespace Machine.Shadows

variable {t : Name} {layers : List Overlay} {extra extra' : List Variable} {m m' : Machine}

theorem enter (h : m.Shadows t layers m') :
    m.enter.Shadows t (.shared [] [] :: layers) m'.enter :=
  ⟨h.scopes.push, ⟨[], [], .head _⟩, h.spared.push, h.heap, h.output, h.level, h.loaded⟩

theorem leave (h : m.Shadows t (.shared extra extra' :: layers) m')
    (hfounded : Overlay.Founded layers) : m.leave.Shadows t layers m'.leave :=
  ⟨h.scopes.pop hfounded, hfounded, h.spared.pop, h.heap, h.output, h.level, h.loaded⟩

/-- A machine differs from itself in nothing. -/
protected theorem rfl (hm : m.scopes.Every (fun _ => True) (Function.Spares t)) :
    m.Shadows t (m.scopes.toList.map fun _ => .shared [] []) m :=
  ⟨Matching.rfl _, ⟨[], [], .head _⟩, hm, rfl, rfl, rfl, rfl⟩

section OneSided

variable {s s' : Scope}

theorem enterLeft (h : m.Shadows t layers m') : m.enter.Shadows t (.left .empty :: layers) m' :=
  ⟨h.scopes.pushLeft, h.founded.cons, h.spared.push, h.heap, h.output, h.level, h.loaded⟩

theorem enterRight (h : m.Shadows t layers m') : m.Shadows t (.right .empty :: layers) m'.enter :=
  ⟨h.scopes.pushRight, h.founded.cons, h.spared, h.heap, h.output, h.level, h.loaded⟩

theorem leaveLeft (h : m.Shadows t (.left s :: layers) m') : m.leave.Shadows t layers m' :=
  have hfounded := h.founded.of_cons nofun
  ⟨h.scopes.popLeft hfounded, hfounded, h.spared.pop, h.heap, h.output, h.level, h.loaded⟩

theorem leaveRight (h : m.Shadows t (.right s :: layers) m') : m.Shadows t layers m'.leave :=
  have hfounded := h.founded.of_cons nofun
  ⟨h.scopes.popRight hfounded, hfounded, h.spared, h.heap, h.output, h.level, h.loaded⟩

theorem enterBeside (h : m.Shadows t (.right s :: layers) m') (hvars : Reserved t s.vars)
    (hfunctions : s.functions = []) : m.enter.Shadows t (.shared [] s.vars :: layers) m' :=
  ⟨h.scopes.pushBeside hvars hfunctions, ⟨[], _, .head _⟩, h.spared.push, h.heap, h.output,
    h.level, h.loaded⟩

end OneSided

/-- The second of two machines is the first one with other scopes and another trace. -/
theorem eq (h : m.Shadows t layers m') :
    m' = { m with scopes := m'.scopes, trace := m'.trace } := by
  obtain ⟨_, _, _, heap, output, _, loaded⟩ := h
  cases m'
  cases heap
  cases output
  cases loaded
  rfl

/-- Machines without hidden variables differ in their traces only. -/
theorem sameButTrace (h : m.Shadows t layers m') (hlayers : ∀ l ∈ layers, l = .shared [] []) :
    m.SameButTrace m' := by
  obtain ⟨hcurrent, houter⟩ := List.cons.inj (Matching.eq hlayers h.scopes)
  have hscopes : m'.scopes = m.scopes := by
    cases hm : m.scopes
    cases hm' : m'.scopes
    rw [hm, hm'] at hcurrent houter
    cases hcurrent
    cases houter
    rfl
  have heq := h.eq
  rw [hscopes] at heq
  exact heq

/-- Traces may be replaced by others of one level. -/
theorem withTraces (h : m.Shadows t layers m') (trace trace' : Trace)
    (hlevel : trace'.level = trace.level) :
    Shadows t layers { m with trace := trace } { m' with trace := trace' } :=
  ⟨h.scopes, h.founded, h.spared, h.heap, h.output, hlevel, h.loaded⟩

end Machine.Shadows

namespace Running

open BlockScript.Computation Machine

/-- One of two runs that are compared. -/
inductive Side
  | first
  | second

namespace Side

/-- What belongs to a side. -/
def of {α : Type} : Side → α → α → α
  | first, a, _ => a
  | second, _, a => a

/-- The run of a side has no more steps than the other one. -/
def Within : Side → Nat → Nat → Prop
  | first, steps, steps' => steps ≤ steps'
  | second, steps, steps' => steps' ≤ steps

end Side

section Rules

variable {side : Side} {t : Name} {layers : List Overlay} {extra extra' : List Variable}
  {settings : Settings} {α β : Type}

/-- As seen from a side, two outcomes agree: that side took more steps than it was given, or
both have the same result or failure, in related machines. -/
def Agree (side : Side) (states : Machine → Machine → Prop)
    (o o' : Except RunFailure α × Machine) : Prop :=
  (side.of o o').1 = .error .exhausted ∨ o'.1 = o.1 ∧ states o.2 o'.2

/-- From machines that differ in hidden variables, two computations agree and leave such
machines. -/
def RunsBeside (side : Side) (t : Name) (layers : List Overlay) (c c' : Running α) : Prop :=
  ∀ ⦃m m' : Machine⦄, m.Shadows t layers m' → Agree side (Shadows t layers) (c m) (c' m')

theorem Agree.imp {S T : Machine → Machine → Prop} {o o' : Except RunFailure α × Machine}
    (h : Agree side S o o') (himp : ∀ s s', S s s' → T s s') : Agree side T o o' :=
  h.imp_right fun ⟨hresult, hstates⟩ => ⟨hresult, himp _ _ hstates⟩

/-- Outcomes that agree still do when each side changes its machine. -/
theorem Agree.change {S T : Machine → Machine → Prop} {o o' : Except RunFailure α × Machine}
    {f g : Machine → Machine} (h : Agree side S o o') (hST : ∀ s s', S s s' → T (f s) (g s')) :
    Agree side T (o.1, f o.2) (o'.1, g o'.2) := by
  rcases h with hspent | ⟨hresult, hstates⟩
  · refine .inl ?_
    cases side <;> exact hspent
  · exact .inr ⟨hresult, hST _ _ hstates⟩

/-- Chains agree if their first parts do, and what follows agrees from there. -/
theorem Agree.bind {S T : Machine → Machine → Prop} {c c' : Running α}
    {next next' : α → Running β} {m m' : Machine} (h : Agree side S (c m) (c' m'))
    (hfail : ∀ s s', S s s' → T s s')
    (hnext : ∀ a s s', c m = (.ok a, s) → S s s' → Agree side T (next a s) (next' a s')) :
    Agree side T ((c >>= next) m) ((c' >>= next') m') := by
  rw [bind_apply, bind_apply]
  cases hc : c m with
  | mk r s =>
      cases hc' : c' m' with
      | mk r' s' =>
          rw [hc, hc'] at h
          rcases h with hspent | ⟨hresult, hstates⟩
          · refine .inl ?_
            cases side
            · cases (hspent : r = _)
              rfl
            · cases (hspent : r' = _)
              rfl
          · cases (hresult : r' = r)
            cases r with
            | ok a => exact hnext a s s' hc hstates
            | error e => exact .inr ⟨rfl, hfail s s' hstates⟩

theorem beside_pure (a : α) : RunsBeside side t layers (pure a) (pure a) :=
  fun _ _ h => .inr ⟨rfl, h⟩

theorem beside_fail (e : RunFailure) :
    RunsBeside side t layers (fail e : Running α) (fail e) :=
  fun _ _ h => .inr ⟨rfl, h⟩

theorem RunsBeside.bind {c c' : Running α} {next next' : α → Running β}
    (h : RunsBeside side t layers c c') (hnext : ∀ a, RunsBeside side t layers (next a) (next' a)) :
    RunsBeside side t layers (c >>= next) (c' >>= next') :=
  fun _ _ hm => (h hm).bind (fun _ _ hs => hs) fun a _ _ _ hs => hnext a hs

theorem beside_state {next next' : Machine → Running α}
    (h : ∀ m m', m.Shadows t layers m' →
      Agree side (Shadows t layers) (next m m) (next' m' m')) :
    RunsBeside side t layers (state >>= next) (state >>= next') := h

theorem Aside.beside {c : Running α} (h : Aside c) : RunsBeside side t layers c c := by
  intro m m' hm
  have hright := h m m'.scopes m'.trace
  rw [← hm.eq] at hright
  have hscopes := h.scopes_eq m
  rw [hright]
  exact .inr ⟨rfl, hscopes ▸ hm.scopes, hm.founded, hscopes ▸ hm.spared, rfl, rfl,
    h.trace_eq m ▸ hm.level, rfl⟩

/-- A trace has its level whatever it notes. -/
theorem level_note (trace : Trace) (level : Nat) (message : String) :
    (trace.note level message).level = trace.level := by
  unfold Trace.note
  split <;> rfl

theorem beside_note (level : Nat) (message : String) :
    RunsBeside side t layers (note settings level message) (note settings level message) := by
  intro m m' hm
  have hrefuses : refuses settings m'.trace level message =
      refuses settings m.trace level message := by
    unfold refuses
    rw [hm.level]
  rw [note_apply, note_apply, hrefuses]
  split
  · exact .inr ⟨rfl, hm⟩
  split
  · exact .inr ⟨rfl, hm⟩
  · refine .inr ⟨rfl, hm.withTraces _ _ ?_⟩
    rw [level_note, level_note, hm.level]

theorem beside_noteValue (level : Nat) (message : String) (value : Value) :
    RunsBeside side t layers (noteValue settings level message value)
      (noteValue settings level message value) := by
  rw [noteValue_eq]
  split
  · exact (aside_textHere settings value).beside.bind fun text => beside_note level _
  · exact beside_pure ()

theorem beside_lookupVariable {name : Name} (hname : ¬ name.IsHidden t switchName) :
    RunsBeside side t layers (lookupVariable name) (lookupVariable name) := by
  refine beside_state fun m m' hm => ?_
  rw [hm.scopes.lookupVariable hname]
  cases boundUnder name (m.scopes.lookupVariable name) <;> exact .inr ⟨rfl, hm⟩

/-- Both sides find the same function, and it spares the hidden names. -/
theorem beside_lookupFunction {name : Name} {arity : Nat} {next next' : Function → Running α}
    (hnext : ∀ f, f.Spares t → RunsBeside side t layers (next f) (next' f)) :
    RunsBeside side t layers (lookupFunction name arity >>= next)
      (lookupFunction name arity >>= next') := by
  intro m m' hm
  change Agree side _ ((lift (boundUnder name (m.scopes.lookupFunction name arity)) >>= next) m)
    ((lift (boundUnder name (m'.scopes.lookupFunction name arity)) >>= next') m')
  rw [hm.scopes.lookupFunction name arity]
  unfold boundUnder
  split
  · cases hfound : m.scopes.lookupFunction name arity with
    | error fault => exact .inr ⟨rfl, hm⟩
    | ok f => exact hnext f (hm.spared.lookupFunction hfound) hm
  · exact .inr ⟨rfl, hm⟩

/-- A binding goes on on both sides when it does in chains that match. -/
theorem beside_binding {name : Name} {define : Chain → Except ScopeFault Chain}
    (hdefine : ∀ c c', c.Matches t switchName layers c' →
      Related Eq (Chain.Matches t switchName layers) (define c) (define c'))
    (hspared : ∀ c d, c.Every (fun _ => True) (Function.Spares t) → define c = .ok d →
      d.Every (fun _ => True) (Function.Spares t)) :
    let bind : Running Unit := do
      let m ← state
      let scopes ← lift (boundUnder name (define m.scopes))
      change fun m => { m with scopes := scopes }
    RunsBeside side t layers bind bind := by
  refine beside_state fun m m' hm => ?_
  have hbound := hdefine _ _ hm.scopes
  unfold boundUnder
  split
  · cases hd : define m.scopes with
    | error fault =>
        cases hd' : define m'.scopes with
        | error fault' =>
            rw [hd, hd'] at hbound
            cases hbound with
            | error hfault =>
                cases hfault
                exact .inr ⟨rfl, hm⟩
        | ok d' =>
            rw [hd, hd'] at hbound
            cases hbound
    | ok d =>
        cases hd' : define m'.scopes with
        | error fault' =>
            rw [hd, hd'] at hbound
            cases hbound
        | ok d' =>
            rw [hd, hd'] at hbound
            cases hbound with
            | ok hmatches =>
                exact .inr ⟨rfl, hmatches, hm.founded, hspared _ _ hm.spared hd, hm.heap,
                  hm.output, hm.level, hm.loaded⟩
  · exact .inr ⟨rfl, hm⟩

theorem beside_bindVariable {name : Name}
    (hname : name.same t = true → extra = [] ∧ extra' = []) (isMutable : Bool) (value : Value) :
    RunsBeside side t (.shared extra extra' :: layers) (bindVariable name isMutable value)
      (bindVariable name isMutable value) :=
  beside_binding (fun _ _ h => h.defineVariable hname) fun _ _ h hd =>
    h.defineVariable trivial hd

theorem beside_bindSpared {name : Name} (hname : name.same t = false) (isMutable : Bool)
    (value : Value) :
    RunsBeside side t (.shared extra extra' :: layers) (bindVariable name isMutable value)
      (bindVariable name isMutable value) :=
  beside_bindVariable (fun h => absurd (hname.symm.trans h) Bool.false_ne_true) isMutable value

theorem beside_bindFunction {f : Function} (hf : f.Spares t) :
    RunsBeside side t (.shared extra extra' :: layers) (bindFunction f) (bindFunction f) :=
  beside_binding (fun _ _ h => h.defineFunction f) fun _ _ h hd => h.defineFunction hf hd

theorem beside_bindParameters {names : List Name} (hnames : ∀ p ∈ names, p.same t = false)
    (values : List Value) :
    RunsBeside side t (.shared extra extra' :: layers) (bindParameters names values)
      (bindParameters names values) := by
  induction names generalizing values with
  | nil => exact beside_pure ()
  | cons name names ih =>
      obtain ⟨hname, hnames⟩ := List.forall_mem_cons.mp hnames
      cases values with
      | nil => exact beside_pure ()
      | cons value values =>
          exact (beside_bindSpared hname true value).bind fun _ => ih hnames values

theorem beside_setVariable {name : Name} (hname : ¬ name.IsHidden t switchName)
    (value : Value) :
    RunsBeside side t layers (setVariable name value) (setVariable name value) :=
  fun _ _ hm => .inr ⟨rfl, hm.scopes.setVariable hname value, hm.founded,
    hm.spared.setVariable name trivial, hm.heap, hm.output, hm.level, hm.loaded⟩

theorem RunsBeside.inScope {c c' : Running α}
    (h : RunsBeside side t (.shared [] [] :: layers) c c') :
    RunsBeside side t layers (inScope c) (inScope c') := by
  intro m m' hm
  exact (h hm.enter).change fun _ _ hs => hs.leave hm.founded

theorem RunsBeside.mapFailure {c c' : Running α} {f : RunFailure → RunFailure}
    (h : RunsBeside side t layers c c') (hf : f .exhausted = .exhausted) :
    RunsBeside side t layers (c.mapFailure f) (c'.mapFailure f) := by
  intro m m' hm
  have hagree := h hm
  unfold Computation.mapFailure
  cases hc : c m with
  | mk r s =>
      cases hc' : c' m' with
      | mk r' s' =>
          rw [hc, hc'] at hagree
          rcases hagree with hspent | ⟨hresult, hstates⟩
          · refine .inl ?_
            cases side
            · cases (hspent : r = _)
              exact congrArg Except.error hf
            · cases (hspent : r' = _)
              exact congrArg Except.error hf
          · cases (hresult : r' = r)
            cases r <;> exact .inr ⟨rfl, hstates⟩

end Rules

section Parts

variable {side : Side} {t : Name} {layers : List Overlay} {extra extra' : List Variable}
  {settings : Settings} {evaluate evaluate' : Node → Running Value}
  {execute execute' : Node → Running Completion}

/-- Expressions that spare the hidden names are evaluated alike. -/
def EvaluatesBeside (side : Side) (t : Name) (evaluate evaluate' : Node → Running Value) : Prop :=
  ∀ ⦃layers : List Overlay⦄ ⦃node : Node⦄, node.Every (Node.Spares t) →
    RunsBeside side t layers (evaluate node) (evaluate' node)

/-- Statements that spare the hidden names are executed alike, in a scope of both sides. -/
def ExecutesBeside (side : Side) (t : Name) (execute execute' : Node → Running Completion) :
    Prop :=
  ∀ ⦃extra extra' : List Variable⦄ ⦃layers : List Overlay⦄ ⦃node : Node⦄,
    node.Every (Node.Spares t) →
    RunsBeside side t (.shared extra extra' :: layers) (execute node) (execute' node)

theorem beside_evaluateAll (heval : EvaluatesBeside side t evaluate evaluate')
    {nodes : List Node} (h : Node.EveryOf (Node.Spares t) nodes) :
    RunsBeside side t layers (evaluateAll evaluate nodes) (evaluateAll evaluate' nodes) := by
  induction nodes with
  | nil => exact beside_pure _
  | cons node nodes ih =>
      exact (heval h.1).bind fun _ => (ih h.2).bind fun _ => beside_pure _

theorem beside_evaluateOptional (heval : EvaluatesBeside side t evaluate evaluate')
    {node : Node} (h : node.Every (Node.Spares t)) :
    RunsBeside side t layers (evaluateOptional evaluate node)
      (evaluateOptional evaluate' node) := by
  unfold evaluateOptional
  split
  · exact beside_pure _
  · exact heval h

theorem beside_executeAll (hexec : ExecutesBeside side t execute execute')
    {nodes : List Node} (h : Node.EveryOf (Node.Spares t) nodes) :
    RunsBeside side t (.shared extra extra' :: layers) (executeAll execute nodes)
      (executeAll execute' nodes) := by
  induction nodes with
  | nil => exact beside_pure _
  | cons node nodes ih =>
      refine (hexec h.1).bind fun ending => ?_
      cases ending with
      | finished => exact ih h.2
      | returned value => exact beside_pure _

theorem beside_body (hexec : ExecutesBeside side t execute execute') {nodes : List Node}
    (h : Node.EveryOf (Node.Spares t) nodes) :
    RunsBeside side t layers (inScope (executeAll execute nodes))
      (inScope (executeAll execute' nodes)) :=
  (beside_executeAll hexec h).inScope

theorem beside_secondTruth (heval : EvaluatesBeside side t evaluate evaluate')
    (operator : String) {right : Node} (h : right.Every (Node.Spares t)) :
    RunsBeside side t layers (secondTruth evaluate operator right)
      (secondTruth evaluate' operator right) :=
  (heval h).bind fun value =>
    (aside_requireBoolean operator value).beside.bind fun _ => beside_pure _

theorem beside_evaluateBinary (heval : EvaluatesBeside side t evaluate evaluate')
    (operator : String) {left right : Node} (hleft : left.Every (Node.Spares t))
    (hright : right.Every (Node.Spares t)) :
    RunsBeside side t layers (evaluateBinary settings evaluate operator left right)
      (evaluateBinary settings evaluate' operator left right) := by
  refine (heval hleft).bind fun a => ?_
  split
  · refine (aside_requireBoolean operator a).beside.bind fun truth => ?_
    split
    · exact beside_secondTruth heval operator hright
    · exact beside_pure _
  split
  · refine (aside_requireBoolean operator a).beside.bind fun truth => ?_
    split
    · exact beside_pure _
    · exact beside_secondTruth heval operator hright
  · exact (heval hright).bind fun b => (aside_applyOperator settings operator a b).beside

theorem beside_locate (heval : EvaluatesBeside side t evaluate evaluate') (name : Name)
    (value : Value) {offset : Node} (h : offset.Every (Node.Spares t)) :
    RunsBeside side t layers (locate evaluate name value offset)
      (locate evaluate' name value offset) :=
  (aside_requireList name value).beside.bind fun reference =>
    (heval h).bind fun index =>
      (aside_requireIndex reference index).beside.bind fun _ => beside_pure _

theorem beside_evaluateAccess (heval : EvaluatesBeside side t evaluate evaluate')
    {name : Name} (hname : ¬ name.IsHidden t switchName) {offset : Node}
    (h : offset.Every (Node.Spares t)) :
    RunsBeside side t layers (evaluateAccess evaluate name offset)
      (evaluateAccess evaluate' name offset) := by
  refine (beside_lookupVariable hname).bind fun v => ?_
  split
  · exact beside_pure _
  · exact (beside_locate heval name v.value h).bind fun place => (aside_itemAt _ _).beside

theorem beside_noted (message : String) (value : Value) :
    RunsBeside side t layers (do noteValue settings 2 message value; return Completion.finished)
      (do noteValue settings 2 message value; return Completion.finished) :=
  (beside_noteValue 2 message value).bind fun _ => beside_pure _

theorem beside_assign (heval : EvaluatesBeside side t evaluate evaluate') {target : Node}
    (htarget : target.Every (Node.Spares t))
    (hname : ∀ name ∈ target.name?, ¬ name.IsHidden t switchName) (value : Value) :
    RunsBeside side t layers (assign settings evaluate target value)
      (assign settings evaluate' target value) := by
  unfold assign
  split
  · rename_i name offset
    refine (beside_lookupVariable htarget.self).bind fun v => ?_
    split
    · split
      · exact (beside_setVariable htarget.self value).bind fun _ => beside_noted _ value
      · exact beside_fail _
    · refine (beside_locate heval name v.value htarget.2).bind fun place => ?_
      exact (aside_storeItem _ _ value).beside.bind fun _ => beside_noted _ value
  · split
    · rename_i name hsome
      exact (beside_lookupVariable (hname name hsome)).bind fun _ => beside_fail _
    · exact beside_fail _

theorem beside_invoke {execute execute' : Nat → Node → Running Completion}
    (hexec : ∀ calls, ExecutesBeside side t (execute calls) (execute' calls)) (calls : Nat)
    {f : Function} (hf : f.Spares t) (values : List Value) :
    RunsBeside side t layers (invoke settings execute calls f values)
      (invoke settings execute' calls f values) := by
  have hact : f.action.Spares t := hf
  unfold invoke
  split
  · exact (aside_print settings values).beside
  · exact beside_pure _
  · exact (aside_makeList values).beside
  · rename_i parameters body haction
    rw [haction] at hact
    split
    · exact beside_fail _
    · refine RunsBeside.inScope ?_
      exact (beside_bindParameters hact.1 values).bind fun _ =>
        (beside_executeAll (hexec _) hact.2).bind fun _ => beside_pure _

theorem beside_evaluateCall {execute execute' : Nat → Node → Running Completion}
    (heval : EvaluatesBeside side t evaluate evaluate')
    (hexec : ∀ calls, ExecutesBeside side t (execute calls) (execute' calls)) (calls : Nat)
    (name : Name) {arguments : List Node} (h : Node.EveryOf (Node.Spares t) arguments) :
    RunsBeside side t layers (evaluateCall settings evaluate execute calls name arguments)
      (evaluateCall settings evaluate' execute' calls name arguments) :=
  (beside_evaluateAll heval h).bind fun values =>
    beside_lookupFunction fun _ hf =>
      (beside_note 1 _).bind fun _ => (beside_invoke hexec calls hf values).mapFailure rfl

theorem beside_meets (heval : EvaluatesBeside side t evaluate evaluate') (value : Value)
    {node : Node} (h : node.Every (Node.Spares t)) :
    RunsBeside side t layers (meets settings evaluate value node)
      (meets settings evaluate' value node) := by
  unfold meets
  split
  · exact beside_pure _
  · exact (heval h).bind fun v => (aside_equalHere settings value v).beside

theorem beside_select (heval : EvaluatesBeside side t evaluate evaluate')
    (hexec : ExecutesBeside side t execute execute') (value : Value) (position : Nat)
    {arms : List Node} (h : Node.EveryOf (Node.Spares t) arms) :
    RunsBeside side t (.shared extra extra' :: layers)
      (select settings evaluate execute value position arms)
      (select settings evaluate' execute' value position arms) := by
  induction arms generalizing position with
  | nil => exact beside_pure _
  | cons arm arms ih =>
      unfold select
      split
      · exact beside_fail _
      · exact beside_fail _
      · rename_i node hpart
        refine (beside_meets heval value (h.1.valuePart trivial hpart)).bind fun chosen => ?_
        split
        · exact (beside_note 3 _).bind fun _ => hexec h.1
        · exact ih (position + 1) h.2

end Parts

section Nodes

variable {side : Side} {t : Name} {layers : List Overlay} {extra extra' : List Variable}
  {settings : Settings} {evaluate evaluate' : Nat → Node → Running Value}
  {execute execute' : Nat → Node → Running Completion}

theorem beside_evaluateNode
    (heval : ∀ calls, EvaluatesBeside side t (evaluate calls) (evaluate' calls))
    (hexec : ∀ calls, ExecutesBeside side t (execute calls) (execute' calls)) (calls : Nat) :
    EvaluatesBeside side t (evaluateNode settings evaluate execute calls)
      (evaluateNode settings evaluate' execute' calls) := by
  intro layers node h
  cases node with
  | literal value => exact (aside_literalValue value).beside
  | group expression => exact heval calls h.2
  | binary operator left right =>
      exact beside_evaluateBinary (heval calls) operator.text h.2.1 h.2.2
  | access name offset => exact beside_evaluateAccess (heval calls) h.1 h.2
  | call name arguments => exact beside_evaluateCall (heval calls) hexec calls name h.2
  | list elements =>
      exact (beside_evaluateAll (heval calls) h.2).bind fun values =>
        (aside_makeList values).beside
  | _ => exact beside_fail _

theorem beside_declare (verb : String) {name : Name} (hname : name.same t = false)
    (isMutable : Bool) (value : Value) :
    RunsBeside side t (.shared extra extra' :: layers)
      (declare settings verb name isMutable value) (declare settings verb name isMutable value) :=
  (beside_bindSpared hname isMutable value).bind fun _ => beside_noted _ value

theorem beside_executeLoop
    (heval : ∀ calls, EvaluatesBeside side t (evaluate calls) (evaluate' calls))
    (hexec : ∀ calls, ExecutesBeside side t (execute calls) (execute' calls)) (calls : Nat)
    {condition : Node} {body : List Node}
    (h : (Node.loop condition body).Every (Node.Spares t)) :
    RunsBeside side t (.shared extra extra' :: layers)
      (executeLoop evaluate execute calls condition body)
      (executeLoop evaluate' execute' calls condition body) := by
  refine (heval calls h.2.1).bind fun value => ?_
  refine (aside_requireBoolean "WHILE" value).beside.bind fun goesOn => ?_
  split
  · refine (beside_body (hexec calls) h.2.2).bind fun ending => ?_
    cases ending with
    | finished => exact hexec calls h
    | returned value => exact beside_pure _
  · exact beside_pure _

theorem beside_executeConditional
    (heval : ∀ calls, EvaluatesBeside side t (evaluate calls) (evaluate' calls))
    (hexec : ∀ calls, ExecutesBeside side t (execute calls) (execute' calls)) (calls : Nat)
    {condition : Node} {thenBody elseBody : List Node}
    (h : (Node.conditional condition thenBody elseBody).Every (Node.Spares t)) :
    RunsBeside side t layers
      (executeConditional settings evaluate execute calls condition thenBody elseBody)
      (executeConditional settings evaluate' execute' calls condition thenBody elseBody) := by
  obtain ⟨_, hcondition, hthen, helse⟩ := h
  refine (heval calls hcondition).bind fun value => ?_
  refine (aside_requireBoolean "IF" value).beside.bind fun holds => ?_
  refine (beside_note 3 _).bind fun _ => ?_
  cases holds with
  | true => exact beside_body (hexec calls) hthen
  | false => exact beside_body (hexec calls) helse

/-- Both sides open the scope of a switch, so that its value may have the reserved name. -/
theorem beside_executeSwitch
    (heval : ∀ calls, EvaluatesBeside side t (evaluate calls) (evaluate' calls))
    (hexec : ∀ calls, ExecutesBeside side t (execute calls) (execute' calls)) (calls : Nat)
    {condition : Node} {arms : List Node}
    (h : (Node.switch condition arms).Every (Node.Spares t)) :
    RunsBeside side t layers
      (executeNode settings evaluate execute calls (.switch condition arms))
      (executeNode settings evaluate' execute' calls (.switch condition arms)) := by
  refine RunsBeside.inScope ?_
  refine (heval calls h.2.1).bind fun value => ?_
  refine (beside_bindVariable (fun _ => ⟨rfl, rfl⟩) true value).bind fun _ => ?_
  exact beside_select (heval calls) (hexec calls) value 0 h.2.2

theorem beside_executeNode
    (heval : ∀ calls, EvaluatesBeside side t (evaluate calls) (evaluate' calls))
    (hexec : ∀ calls, ExecutesBeside side t (execute calls) (execute' calls)) (calls : Nat) :
    ExecutesBeside side t (executeNode settings evaluate execute calls)
      (executeNode settings evaluate' execute' calls) := by
  intro extra extra' layers node h
  cases node with
  | «global» name typeName isMutable value =>
      exact (beside_evaluateOptional (heval calls) h.2).bind fun v =>
        beside_declare "global" h.1 isMutable v
  | function name parameters parameterTypes returnType body =>
      have hdeclared : (declaredFunction name parameters body).Spares t := h
      exact (beside_bindFunction hdeclared).bind fun _ =>
        (beside_note 2 _).bind fun _ => beside_pure _
  | evaluation expression => exact (heval calls h.2).bind fun _ => beside_pure _
  | declaration name typeName value =>
      exact (beside_evaluateOptional (heval calls) h.2).bind fun v =>
        beside_declare "declare" h.1 true v
  | assignment target value =>
      exact (heval calls h.2.2).bind fun v => beside_assign (heval calls) h.2.1 h.1 v
  | conditional condition thenBody elseBody => exact beside_executeConditional heval hexec calls h
  | loop condition body => exact beside_executeLoop heval hexec calls h
  | «switch» condition arms => exact beside_executeSwitch heval hexec calls h
  | arm value body => exact beside_body (hexec calls) h.2.2
  | returning value =>
      exact (beside_evaluateOptional (heval calls) h.2).bind fun _ => beside_pure _
  | _ => exact beside_fail _

end Nodes

/-- A side that has no steps takes more than it was given. -/
theorem beside_of_spent (settings : Settings) {side : Side} {t : Name} {steps steps' : Nat}
    (h : side.of steps steps' = 0) (calls : Nat) :
    EvaluatesBeside side t (evaluate settings steps calls) (evaluate settings steps' calls) ∧
      ExecutesBeside side t (execute settings steps calls) (execute settings steps' calls) := by
  cases side <;> cases h <;> exact ⟨fun _ _ _ _ _ _ => .inl rfl, fun _ _ _ _ _ _ _ _ => .inl rfl⟩

/-- On machines that differ in hidden variables, runs of a tree that spares them agree as seen
from a side that has no more steps than the other. -/
theorem beside_steps (settings : Settings) {side : Side} {t : Name} {steps steps' : Nat}
    (h : side.Within steps steps') (calls : Nat) :
    EvaluatesBeside side t (evaluate settings steps calls) (evaluate settings steps' calls) ∧
      ExecutesBeside side t (execute settings steps calls) (execute settings steps' calls) := by
  induction steps generalizing steps' calls with
  | zero =>
      refine beside_of_spent settings ?_ calls
      cases side with
      | first => rfl
      | second => exact Nat.le_zero.mp h
  | succ steps ih =>
      cases steps' with
      | zero =>
          refine beside_of_spent settings ?_ calls
          cases side with
          | first => cases (h : steps + 1 ≤ 0)
          | second => rfl
      | succ steps' =>
          have hwithin : side.Within steps steps' := by
            cases side <;> exact Nat.le_of_succ_le_succ h
          have heval := fun calls => (ih hwithin calls).1
          have hexec := fun calls => (ih hwithin calls).2
          exact ⟨beside_evaluateNode heval hexec calls, beside_executeNode heval hexec calls⟩

end Running
end BlockScript
