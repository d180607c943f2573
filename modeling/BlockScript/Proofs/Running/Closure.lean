import BlockScript.Proofs.Running.Rules

/-!
# Properties that runs inherit from their steps

Most steps of a run work aside from its scopes and its trace: they take values to values and
touch only the lists, the output and the loaded literals.  The few others look names up, bind
them, store into variables and note messages.  A property of computations that all of these have,
and that chains, blocks and calls inherit from their parts, is one that every evaluation and
every execution has (`Inherited.steps`).
-/

namespace BlockScript
namespace Running

open BlockScript.Computation

section Aside

variable {α : Type}

/-- A computation neither looks at the scopes and the trace nor changes them. -/
def Aside (c : Running α) : Prop := ∀ m scopes trace,
  c { m with scopes := scopes, trace := trace } =
    ((c m).1, { (c m).2 with scopes := scopes, trace := trace })

/-- The text of a value in the lists as they stand. -/
def textHere (settings : Settings) (value : Value) : Running String := do
  let m ← Computation.state
  Computation.lift (textOf settings m.heap value)

theorem aside_pure (a : α) : Aside (pure a) := fun _ _ _ => rfl

theorem aside_fail (e : RunFailure) : Aside (Computation.fail e : Running α) := fun _ _ _ => rfl

theorem Aside.scopes_eq {c : Running α} (h : Aside c) (m : Machine) :
    (c m).2.scopes = m.scopes :=
  congrArg (fun o : Except RunFailure α × Machine => o.2.scopes) (h m m.scopes m.trace)

theorem Aside.trace_eq {c : Running α} (h : Aside c) (m : Machine) :
    (c m).2.trace = m.trace :=
  congrArg (fun o : Except RunFailure α × Machine => o.2.trace) (h m m.scopes m.trace)

theorem Aside.bind {β : Type} {c : Running α} {next : α → Running β} (h : Aside c)
    (hnext : ∀ a, Aside (next a)) : Aside (c >>= next) := by
  intro m scopes trace
  rw [bind_apply, bind_apply, h m scopes trace]
  cases hc : c m with
  | mk r t =>
      cases r with
      | ok a => exact hnext a t scopes trace
      | error e => rfl

/-- What is computed from the lists alone. -/
theorem aside_ofHeap (f : Heap → Except RunFailure α) :
    Aside (Computation.state >>= fun m => Computation.lift (f m.heap)) := by
  intro m scopes trace
  simp only [bind_apply, state_apply]
  cases f m.heap <;> rfl

theorem aside_change {f : Machine → Machine}
    (hf : ∀ m scopes trace, f { m with scopes := scopes, trace := trace } =
      { f m with scopes := scopes, trace := trace }) : Aside (Computation.change f) := by
  intro m scopes trace
  rw [change_apply, hf]
  rfl

theorem aside_textHere (settings : Settings) (value : Value) : Aside (textHere settings value) :=
  aside_ofHeap fun heap => textOf settings heap value

theorem aside_makeList (items : List Value) : Aside (makeList items) := fun _ _ _ => rfl

theorem aside_itemAt (reference index : Nat) : Aside (itemAt reference index) := fun _ _ _ => rfl

theorem aside_storeItem (reference index : Nat) (value : Value) :
    Aside (storeItem reference index value) :=
  aside_change fun _ _ _ => rfl

theorem aside_literalValue (s : Scalar) : Aside (literalValue s) := by
  by_cases harray : ∃ items place, s = .foreign (.array items) place
  · obtain ⟨items, place, rfl⟩ := harray
    intro m scopes trace
    rw [literalValue_array_apply, literalValue_array_apply]
    dsimp only
    cases m.loaded.lookup place <;> rfl
  · rw [literalValue_eq_pure fun items place hs => harray ⟨items, place, hs⟩]
    exact aside_pure _

theorem aside_requireBoolean (what : String) (value : Value) :
    Aside (requireBoolean what value) := by
  unfold requireBoolean
  split
  · exact aside_pure _
  · exact aside_fail _

theorem aside_requireList (name : Name) (value : Value) : Aside (requireList name value) := by
  unfold requireList
  split
  · exact aside_pure _
  · exact aside_fail _

theorem aside_requireIndex (reference : Nat) (value : Value) :
    Aside (requireIndex reference value) := by
  unfold requireIndex
  split
  · rename_i n
    intro m scopes trace
    simp only [bind_apply, state_apply]
    split
    · rfl
    · cases Text.intText? n <;> rfl
  · exact aside_fail _

theorem aside_applyOperator (settings : Settings) (operator : String) (a b : Value) :
    Aside (applyOperator settings operator a b) :=
  aside_ofHeap fun heap => operate settings heap operator a b

theorem aside_equalHere (settings : Settings) (a b : Value) : Aside (equalHere settings a b) :=
  aside_ofHeap fun heap => valuesEqual settings heap a b

theorem aside_writeLine (settings : Settings) (text : String) :
    Aside (writeLine settings text) := by
  unfold writeLine
  split
  · exact aside_fail _
  · exact aside_change fun _ _ _ => rfl

theorem print_cons (settings : Settings) (value : Value) (values : List Value) :
    print settings (value :: values) =
      (textHere settings value >>= fun text => writeLine settings text >>= fun _ => pure .nil) := by
  funext m
  simp only [print, textHere, bind_apply, state_apply]

theorem aside_print (settings : Settings) (values : List Value) : Aside (print settings values) := by
  cases values with
  | nil => exact aside_fail _
  | cons value values =>
      rw [print_cons]
      exact (aside_textHere settings value).bind fun text =>
        (aside_writeLine settings text).bind fun _ => aside_pure _

end Aside

theorem noteValue_eq (settings : Settings) (level : Nat) (message : String) (value : Value) :
    noteValue settings level message value =
      if settings.reports then
        textHere settings value >>= fun text => note settings level (message ++ text)
      else pure () := by
  unfold noteValue
  split
  · funext m
    simp only [textHere, bind_apply, state_apply]
  · rfl

/-- A property of computations that the steps of a run have, and that chains, scopes of their
own and calls inherit from their parts. -/
structure Inherited (settings : Settings) (holds : ∀ {α : Type}, Running α → Prop) : Prop where
  aside : ∀ {α : Type} {c : Running α}, Aside c → holds c
  bind : ∀ {α β : Type} {c : Running α} {next : α → Running β},
    holds c → (∀ a, holds (next a)) → holds (c >>= next)
  inScope : ∀ {α : Type} {c : Running α}, holds c → holds (inScope c)
  mapFailure : ∀ {α : Type} {c : Running α} (f : RunFailure → RunFailure),
    holds c → holds (c.mapFailure f)
  note : ∀ level message, holds (note settings level message)
  lookupVariable : ∀ name, holds (lookupVariable name)
  lookupFunction : ∀ name arity, holds (lookupFunction name arity)
  bindVariable : ∀ name isMutable value, holds (bindVariable name isMutable value)
  bindFunction : ∀ f, holds (bindFunction f)
  setVariable : ∀ name value, holds (setVariable name value)

namespace Inherited

variable {settings : Settings} {holds : ∀ {α : Type}, Running α → Prop}

section Parts

variable {evaluate : Node → Running Value} {execute : Node → Running Completion}

theorem pure (h : Inherited settings @holds) {α : Type} (a : α) : holds (Pure.pure a) :=
  h.aside (aside_pure a)

theorem fail (h : Inherited settings @holds) {α : Type} (e : RunFailure) :
    holds (Computation.fail e : Running α) :=
  h.aside (aside_fail e)

theorem noteValue (h : Inherited settings @holds) (level : Nat) (message : String)
    (value : Value) : holds (noteValue settings level message value) := by
  rw [noteValue_eq]
  split
  · exact h.bind (h.aside (aside_textHere settings value)) fun text => h.note level _
  · exact h.pure ()

theorem bindParameters (h : Inherited settings @holds) (names : List Name)
    (values : List Value) : holds (bindParameters names values) := by
  induction names generalizing values with
  | nil => exact h.pure ()
  | cons name names ih =>
      cases values with
      | nil => exact h.pure ()
      | cons value values => exact h.bind (h.bindVariable name true value) fun _ => ih values

theorem evaluateAll (h : Inherited settings @holds) (heval : ∀ node, holds (evaluate node))
    (nodes : List Node) : holds (evaluateAll evaluate nodes) := by
  induction nodes with
  | nil => exact h.pure _
  | cons node nodes ih => exact h.bind (heval node) fun _ => h.bind ih fun _ => h.pure _

theorem evaluateOptional (h : Inherited settings @holds)
    (heval : ∀ node, holds (evaluate node)) (node : Node) :
    holds (evaluateOptional evaluate node) := by
  unfold Running.evaluateOptional
  split
  · exact h.pure _
  · exact heval node

theorem executeAll (h : Inherited settings @holds) (hexec : ∀ node, holds (execute node))
    (nodes : List Node) : holds (executeAll execute nodes) := by
  induction nodes with
  | nil => exact h.pure _
  | cons node nodes ih =>
      refine h.bind (hexec node) fun ending => ?_
      cases ending with
      | finished => exact ih
      | returned value => exact h.pure _

theorem secondTruth (h : Inherited settings @holds) (heval : ∀ node, holds (evaluate node))
    (operator : String) (right : Node) : holds (secondTruth evaluate operator right) :=
  h.bind (heval right) fun value =>
    h.bind (h.aside (aside_requireBoolean operator value)) fun _ => h.pure _

theorem evaluateBinary (h : Inherited settings @holds) (heval : ∀ node, holds (evaluate node))
    (operator : String) (left right : Node) :
    holds (evaluateBinary settings evaluate operator left right) := by
  refine h.bind (heval left) fun a => ?_
  split
  · refine h.bind (h.aside (aside_requireBoolean operator a)) fun truth => ?_
    split
    · exact h.secondTruth heval operator right
    · exact h.pure _
  split
  · refine h.bind (h.aside (aside_requireBoolean operator a)) fun truth => ?_
    split
    · exact h.pure _
    · exact h.secondTruth heval operator right
  · exact h.bind (heval right) fun b => h.aside (aside_applyOperator settings operator a b)

theorem locate (h : Inherited settings @holds) (heval : ∀ node, holds (evaluate node))
    (name : Name) (value : Value) (offset : Node) :
    holds (locate evaluate name value offset) :=
  h.bind (h.aside (aside_requireList name value)) fun reference =>
    h.bind (heval offset) fun index =>
      h.bind (h.aside (aside_requireIndex reference index)) fun _ => h.pure _

theorem evaluateAccess (h : Inherited settings @holds) (heval : ∀ node, holds (evaluate node))
    (name : Name) (offset : Node) : holds (evaluateAccess evaluate name offset) := by
  refine h.bind (h.lookupVariable name) fun v => ?_
  split
  · exact h.pure _
  · exact h.bind (h.locate heval name v.value offset) fun place => h.aside (aside_itemAt _ _)

theorem assign (h : Inherited settings @holds) (heval : ∀ node, holds (evaluate node))
    (target : Node) (value : Value) : holds (assign settings evaluate target value) := by
  have hnoted (message : String) :
      holds (do Running.noteValue settings 2 message value; return Completion.finished) :=
    h.bind (h.noteValue 2 message value) fun _ => h.pure _
  unfold Running.assign
  split
  · rename_i name offset
    refine h.bind (h.lookupVariable name) fun v => ?_
    split
    · split
      · exact h.bind (h.setVariable name value) fun _ => hnoted _
      · exact h.fail _
    · refine h.bind (h.locate heval name v.value offset) fun place => ?_
      exact h.bind (h.aside (aside_storeItem _ _ value)) fun _ => hnoted _
  · split
    · exact h.bind (h.lookupVariable _) fun _ => h.fail _
    · exact h.fail _

theorem invoke {execute : Nat → Node → Running Completion} (h : Inherited settings @holds)
    (hexec : ∀ calls node, holds (execute calls node)) (calls : Nat) (f : Function)
    (values : List Value) : holds (invoke settings execute calls f values) := by
  unfold Running.invoke
  split
  · exact h.aside (aside_print settings values)
  · exact h.pure _
  · exact h.aside (aside_makeList values)
  · split
    · exact h.fail _
    · refine h.inScope ?_
      exact h.bind (h.bindParameters _ values) fun _ =>
        h.bind (h.executeAll (hexec _) _) fun _ => h.pure _

theorem evaluateCall {execute : Nat → Node → Running Completion} (h : Inherited settings @holds)
    (heval : ∀ node, holds (evaluate node)) (hexec : ∀ calls node, holds (execute calls node))
    (calls : Nat) (name : Name) (arguments : List Node) :
    holds (evaluateCall settings evaluate execute calls name arguments) :=
  h.bind (h.evaluateAll heval arguments) fun values =>
    h.bind (h.lookupFunction name values.length) fun f =>
      h.bind (h.note 1 _) fun _ => h.mapFailure _ (h.invoke hexec calls f values)

theorem meets (h : Inherited settings @holds) (heval : ∀ node, holds (evaluate node))
    (value : Value) (node : Node) : holds (meets settings evaluate value node) := by
  unfold Running.meets
  split
  · exact h.pure _
  · exact h.bind (heval node) fun v => h.aside (aside_equalHere settings value v)

theorem select (h : Inherited settings @holds) (heval : ∀ node, holds (evaluate node))
    (hexec : ∀ node, holds (execute node)) (value : Value) (position : Nat)
    (arms : List Node) : holds (select settings evaluate execute value position arms) := by
  induction arms generalizing position with
  | nil => exact h.pure _
  | cons arm arms ih =>
      unfold Running.select
      split
      · exact h.fail _
      · exact h.fail _
      · refine h.bind (h.meets heval value _) fun chosen => ?_
        split
        · exact h.bind (h.note 3 _) fun _ => hexec arm
        · exact ih (position + 1)

end Parts

section Nodes

variable {evaluate : Nat → Node → Running Value} {execute : Nat → Node → Running Completion}

theorem evaluateNode (h : Inherited settings @holds)
    (heval : ∀ calls node, holds (evaluate calls node))
    (hexec : ∀ calls node, holds (execute calls node)) (calls : Nat) (node : Node) :
    holds (evaluateNode settings evaluate execute calls node) := by
  cases node with
  | literal value => exact h.aside (aside_literalValue value)
  | group expression => exact heval calls expression
  | binary operator left right => exact h.evaluateBinary (heval calls) operator.text left right
  | access name offset => exact h.evaluateAccess (heval calls) name offset
  | call name arguments => exact h.evaluateCall (heval calls) hexec calls name arguments
  | list elements =>
      exact h.bind (h.evaluateAll (heval calls) elements) fun values =>
        h.aside (aside_makeList values)
  | _ => exact h.fail _

theorem declare (h : Inherited settings @holds) (verb : String) (name : Name)
    (isMutable : Bool) (value : Value) : holds (declare settings verb name isMutable value) :=
  h.bind (h.bindVariable name isMutable value) fun _ =>
    h.bind (h.noteValue 2 _ value) fun _ => h.pure _

theorem body (h : Inherited settings @holds) {execute : Node → Running Completion}
    (hexec : ∀ node, holds (execute node)) (nodes : List Node) :
    holds (Running.inScope (Running.executeAll execute nodes)) :=
  h.inScope (h.executeAll hexec nodes)

theorem executeNode (h : Inherited settings @holds)
    (heval : ∀ calls node, holds (evaluate calls node))
    (hexec : ∀ calls node, holds (execute calls node)) (calls : Nat) (node : Node) :
    holds (executeNode settings evaluate execute calls node) := by
  cases node with
  | «global» name typeName isMutable value =>
      exact h.bind (h.evaluateOptional (heval calls) value) fun v =>
        h.declare "global" name isMutable v
  | function name parameters parameterTypes returnType body =>
      exact h.bind (h.bindFunction _) fun _ => h.bind (h.note 2 _) fun _ => h.pure _
  | evaluation expression => exact h.bind (heval calls expression) fun _ => h.pure _
  | declaration name typeName value =>
      exact h.bind (h.evaluateOptional (heval calls) value) fun v =>
        h.declare "declare" name true v
  | assignment target value =>
      exact h.bind (heval calls value) fun v => h.assign (heval calls) target v
  | conditional condition thenBody elseBody =>
      exact h.bind (heval calls condition) fun value =>
        h.bind (h.aside (aside_requireBoolean "IF" value)) fun chosen =>
          h.bind (h.note 3 _) fun _ => h.body (hexec calls) _
  | loop condition body =>
      refine h.bind (heval calls condition) fun value => ?_
      refine h.bind (h.aside (aside_requireBoolean "WHILE" value)) fun goesOn => ?_
      split
      · refine h.bind (h.body (hexec calls) body) fun ending => ?_
        cases ending with
        | finished => exact hexec calls (.loop condition body)
        | returned value => exact h.pure _
      · exact h.pure _
  | «switch» condition arms =>
      refine h.inScope ?_
      exact h.bind (heval calls condition) fun value =>
        h.bind (h.bindVariable switchName true value) fun _ =>
          h.select (heval calls) (hexec calls) value 0 arms
  | arm value body => exact h.body (hexec calls) body
  | returning value =>
      exact h.bind (h.evaluateOptional (heval calls) value) fun _ => h.pure _
  | _ => exact h.fail _

end Nodes

/-- Evaluating and executing inherit the property, however many steps they take. -/
theorem steps (h : Inherited settings @holds) (steps calls : Nat) (node : Node) :
    holds (evaluate settings steps calls node) ∧ holds (execute settings steps calls node) := by
  induction steps generalizing calls node with
  | zero => exact ⟨h.fail _, h.fail _⟩
  | succ steps ih =>
      have heval := fun calls node => (ih calls node).1
      have hexec := fun calls node => (ih calls node).2
      exact ⟨h.evaluateNode heval hexec calls node, h.executeNode heval hexec calls node⟩

end Inherited

end Running
end BlockScript
