import BlockScript.Proofs.Alongside
import BlockScript.Proofs.Running.Operations
import BlockScript.Proofs.Running.Rules
import BlockScript.Proofs.Scope.Contents
import BlockScript.Proofs.Text.Messages
import BlockScript.Proofs.Tree.Shape

/-!
# Runs of one program that differ in their traces

Two machines are twins when they are the same but for their traces, and these are related.
From twins, a tree is evaluated and executed with equal results or failures and leaves twins,
as long as the relation of the traces is kept when a message is added to both.

Along the way the machines hold only scalars with a given property, if the literals of the
tree have it and the operators of the language keep it.  With traces that are equal this is
an invariant of a single run.

The texts of messages are strings with the property too, if the names of the tree are.  So a run
breaks off at a message or a line that has no written form only if strings with the property need
not have one.
-/

namespace BlockScript

/-- A value is a list or a scalar with a property. -/
def Value.Only (P : Scalar → Prop) : Value → Prop
  | .scalar s => P s
  | .list _ => True

/-- The tree in the place of a value has only literals that its node has. -/
theorem Node.only_of_valuePart {P : Scalar → Prop} {node part : Node}
    (h : node.Every (Node.Only P)) (hpart : node.valuePart = .tree part) :
    part.Every (Node.Only P) :=
  h.valuePart ⟨nofun, nofun⟩ hpart

/-- What a function does brings in only scalars with a property. -/
def Action.Only (P : Scalar → Prop) : Action → Prop
  | .constant value => value.Only P
  | .declared _ body => Node.EveryOf (Node.Only P) body
  | .printer | .collector => True

/-- A function brings in only scalars with a property. -/
def Function.Only (P : Scalar → Prop) (f : Function) : Prop := f.action.Only P

/-- A machine holds only scalars with a property. -/
structure Machine.Only (P : Scalar → Prop) (m : Machine) : Prop where
  scopes : m.scopes.Every (Value.Only P) (Function.Only P)
  heap : m.heap.Every (Value.Only P)
  loaded : ∀ e ∈ m.loaded, e.2.Only P

/-- Two machines are the same but for their traces, and hold only scalars with a property. -/
inductive Machine.Twins (R : Trace → Trace → Prop) (P : Scalar → Prop) : Machine → Machine → Prop
  | intro {m : Machine} {t : Trace} : R m.trace t → m.Only P → Twins R P m { m with trace := t }

namespace Machine.Only

variable {P : Scalar → Prop} {m : Machine}

theorem start {surroundings : List Scope} {heap : Heap}
    (hscopes : ∀ s ∈ surroundings, s.Every (Value.Only P) (Function.Only P))
    (hheap : heap.Every (Value.Only P)) (trace : Trace) :
    (Machine.start surroundings heap trace).Only P :=
  ⟨.root trivial hscopes, hheap, nofun⟩

theorem enter (h : m.Only P) : m.enter.Only P := ⟨h.scopes.push, h.heap, h.loaded⟩

theorem leave (h : m.Only P) : m.leave.Only P := ⟨h.scopes.pop, h.heap, h.loaded⟩

end Machine.Only

namespace Running

open BlockScript.Computation

/-- A relation of traces that messages with a property keep, and that refused ones among these do
not tell apart. -/
structure Harmless (settings : Settings) (P : Scalar → Prop) (R : Trace → Trace → Prop) :
    Prop where
  note : ∀ t t' level message, P (.string message) → R t t' →
    R (t.note level message) (t'.note level message)
  refuses : ∀ t t' level message, P (.string message) → R t t' →
    refuses settings t level message = refuses settings t' level message

/-- A property of scalars that the language keeps.  An array in a literal brings along whatever
it holds. -/
structure Preserved (settings : Settings) (P : Scalar → Prop) : Prop where
  nil : P .nil
  boolean : ∀ b, P (.boolean b)
  tree : ∀ items place, P (.foreign (.array items) place) → ∀ value, P (.ofJson [] value)
  operate : ∀ heap operator a b v, heap.Every (Value.Only P) → Value.Only P a → Value.Only P b →
    operate settings heap operator a b = .ok v → v.Only P
  text : ∀ heap v text, heap.Every (Value.Only P) → Value.Only P v →
    textOf settings heap v = .ok text → P (.string text)
  composes : Text.Composes fun text => P (.string text)

/-- A failure is none of writing, unless there is a string with a property that cannot be
written. -/
def Befits (P : Scalar → Prop) (e : RunFailure) : Prop :=
  e = .unwritable → ∃ text, P (.string text) ∧ Text.isWritable text = false

theorem befits_of_ne {P : Scalar → Prop} {e : RunFailure} (h : e ≠ .unwritable) : Befits P e :=
  fun he => absurd he h

theorem harmless_eq (settings : Settings) (P : Scalar → Prop) : Harmless settings P Eq :=
  ⟨fun _ _ _ _ _ h => by rw [h], fun _ _ _ _ _ h => by rw [h]⟩

theorem boundUnder_ne_unwritable {α : Type} {name : Name} {binding : Except ScopeFault α} :
    boundUnder name binding ≠ .error .unwritable := by
  intro h
  rcases boundUnder_eq_error h with ⟨fault, -, he⟩ | he <;> cases he

namespace Preserved

variable {settings : Settings} {P : Scalar → Prop}

theorem fixed (hP : Preserved settings P) {text : String} (h : Text.IsAscii text) :
    P (.string text) := hP.composes.ascii h

/-- The message of a call or a definition. -/
theorem signature (hP : Preserved settings P) {verb name : String} (hverb : Text.IsAscii verb)
    (hname : P (.string name)) (arity : Nat) :
    P (.string (verb ++ ScopeFault.signature name arity)) :=
  hP.composes.append (hP.fixed hverb) (hP.composes.signature hname arity)

/-- The message of a declaration or an assignment, up to the value. -/
theorem target (hP : Preserved settings P) {verb name : String} (hverb : Text.IsAscii verb)
    (hname : P (.string name)) : P (.string (verb ++ name ++ " = ")) :=
  hP.composes.append (hP.composes.append (hP.fixed hverb) hname) (hP.fixed (by decide))

end Preserved

section Twins

variable {settings : Settings} {R : Trace → Trace → Prop} {P : Scalar → Prop} {α β : Type}

/-- From twins, a computation gives equal outcomes with a property and leaves twins. -/
abbrev RunsTwinned (R : Trace → Trace → Prop) (P : Scalar → Prop) (c : Running α)
    (gives : α → Prop) : Prop :=
  Alongside (Machine.Twins R P) (fun e e' => e = e' ∧ Befits P e) (fun a b => a = b ∧ gives a) c c

section Rules

variable {gives : α → Prop} {gives' : β → Prop} {c : Running α}

theorem twinned_pure {a : α} (h : gives a) : RunsTwinned R P (pure a) gives :=
  alongside_pure ⟨rfl, h⟩

theorem twinned_fail {e : RunFailure} (h : e ≠ .unwritable) : RunsTwinned R P (fail e) gives :=
  alongside_fail ⟨rfl, befits_of_ne h⟩

theorem RunsTwinned.bind {next : α → Running β} (h : RunsTwinned R P c gives)
    (hnext : ∀ a, gives a → RunsTwinned R P (next a) gives') :
    RunsTwinned R P (c >>= next) gives' := by
  refine Alongside.bind h ?_
  rintro a _ ⟨rfl, ha⟩
  exact hnext a ha

theorem twinned_lift {r : Except RunFailure α} (h : ∀ a, r = .ok a → gives a)
    (hfail : r ≠ .error .unwritable) : RunsTwinned R P (lift r) gives := by
  cases r with
  | ok a => exact twinned_pure (h a rfl)
  | error e => exact twinned_fail fun he => hfail (congrArg Except.error he)

/-- What does not depend on the trace is the same for twins. -/
theorem twinned_state {next : Machine → Running α}
    (hsame : ∀ m t, next { m with trace := t } = next m)
    (h : ∀ m, m.Only P → RunsTwinned R P (next m) gives) :
    RunsTwinned R P (state >>= next) gives := by
  refine alongside_state ?_
  intro m m' htwins
  cases htwins with
  | @intro t ht hm =>
      rw [hsame m t]
      exact h m hm

theorem twinned_change {f : Machine → Machine}
    (hsame : ∀ m t, f { m with trace := t } = { f m with trace := t })
    (htrace : ∀ m, (f m).trace = m.trace) (h : ∀ m, m.Only P → (f m).Only P) :
    RunsTwinned R P (change f) fun _ => True := by
  intro m m' htwins
  cases htwins with
  | @intro t ht hm =>
      refine ⟨.ok ⟨rfl, trivial⟩, ?_⟩
      rw [change_apply, change_apply, hsame m t]
      exact .intro ((htrace m).symm ▸ ht) (h m hm)

theorem RunsTwinned.mapFailure (h : RunsTwinned R P c gives) {f : RunFailure → RunFailure}
    (hf : ∀ e, f e = .unwritable → e = .unwritable) : RunsTwinned R P (c.mapFailure f) gives := by
  refine Alongside.mapFailure h ?_
  rintro e _ ⟨rfl, he⟩
  exact ⟨rfl, fun hfe => he (hf e hfe)⟩

end Rules

section Steps

variable {gives : α → Prop} {c : Running α}

theorem twinned_note (hR : Harmless settings P R) (level : Nat) {message : String}
    (hmessage : P (.string message)) :
    RunsTwinned R P (note settings level message) fun _ => True := by
  intro m m' htwins
  cases htwins with
  | @intro t ht hm =>
      rw [note_apply, note_apply]
      dsimp only
      rw [hR.refuses _ _ level message hmessage ht]
      split
      · exact ⟨.ok ⟨rfl, trivial⟩, .intro ht hm⟩
      split
      · rename_i hrefused
        obtain ⟨-, -, hunwritable⟩ := refuses_iff.mp hrefused
        exact ⟨.error ⟨rfl, fun _ => ⟨message, hmessage, hunwritable⟩⟩, .intro ht hm⟩
      · exact ⟨.ok ⟨rfl, trivial⟩,
          .intro (hR.note _ _ level message hmessage ht) ⟨hm.scopes, hm.heap, hm.loaded⟩⟩

/-- The text of a value is a string with the property. -/
theorem twinned_textOf (hP : Preserved settings P) {m : Machine} (hm : m.Only P) {value : Value}
    (hvalue : value.Only P) :
    RunsTwinned R P (lift (textOf settings m.heap value)) fun text => P (.string text) :=
  twinned_lift (fun text ht => hP.text m.heap value text hm.heap hvalue ht) textOf_ne_unwritable

theorem twinned_noteValue (hR : Harmless settings P R) (hP : Preserved settings P) (level : Nat)
    {message : String} (hmessage : P (.string message)) {value : Value} (hvalue : value.Only P) :
    RunsTwinned R P (noteValue settings level message value) fun _ => True := by
  unfold noteValue
  split
  · refine twinned_state (fun _ _ => rfl) ?_
    intro m hm
    refine (twinned_textOf hP hm hvalue).bind ?_
    intro text htext
    exact twinned_note hR level (hP.composes.append hmessage htext)
  · exact twinned_pure trivial

theorem twinned_inScope (h : RunsTwinned R P c gives) : RunsTwinned R P (inScope c) gives := by
  have henter : RunsTwinned R P (change Machine.enter) fun _ => True :=
    twinned_change (fun _ _ => rfl) (fun _ => rfl) fun _ hm => hm.enter
  refine henter.bind ?_
  intro _ _
  refine Alongside.afterwards h ?_
  rintro m _ ⟨ht, hm⟩
  exact .intro ht hm.leave

theorem twinned_boundUnder {name : Name} {binding : Except ScopeFault α}
    (h : ∀ a, binding = .ok a → gives a) :
    RunsTwinned R P (lift (boundUnder name binding)) gives :=
  twinned_lift (fun a ha => h a (boundUnder_eq_ok.mp ha).2) boundUnder_ne_unwritable

theorem twinned_lookupVariable (name : Name) :
    RunsTwinned R P (lookupVariable name) fun v => v.value.Only P :=
  twinned_state (fun _ _ => rfl) fun _ hm =>
    twinned_boundUnder fun _ hv => hm.scopes.lookupVariable hv

theorem twinned_lookupFunction (name : Name) (arity : Nat) :
    RunsTwinned R P (lookupFunction name arity) fun f => f.Only P :=
  twinned_state (fun _ _ => rfl) fun _ hm =>
    twinned_boundUnder fun _ hf => hm.scopes.lookupFunction hf

theorem twinned_mainFunction : RunsTwinned R P mainFunction fun f => f.Only P := by
  refine twinned_state (fun _ _ => rfl) ?_
  intro m hm
  split
  · rename_i f hf
    exact twinned_pure (hm.scopes.lookupFunction hf)
  · exact twinned_fail nofun

/-- Scopes take the place of others. -/
theorem twinned_withScopes {c : Chain} (hc : c.Every (Value.Only P) (Function.Only P)) :
    RunsTwinned R P (change fun m => { m with scopes := c }) fun _ => True :=
  twinned_change (fun _ _ => rfl) (fun _ => rfl) fun _ hm => ⟨hc, hm.heap, hm.loaded⟩

theorem twinned_bindVariable (name : Name) (isMutable : Bool) {value : Value}
    (hvalue : value.Only P) :
    RunsTwinned R P (bindVariable name isMutable value) fun _ => True := by
  refine twinned_state (fun _ _ => rfl) ?_
  intro m hm
  refine (twinned_boundUnder fun _ hc => hm.scopes.defineVariable hvalue hc).bind ?_
  intro c hc
  exact twinned_withScopes hc

theorem twinned_bindFunction {f : Function} (hf : f.Only P) :
    RunsTwinned R P (bindFunction f) fun _ => True := by
  refine twinned_state (fun _ _ => rfl) ?_
  intro m hm
  refine (twinned_boundUnder fun _ hc => hm.scopes.defineFunction hf hc).bind ?_
  intro c hc
  exact twinned_withScopes hc

theorem twinned_bindParameters (names : List Name) {values : List Value}
    (hvalues : ∀ v ∈ values, v.Only P) :
    RunsTwinned R P (bindParameters names values) fun _ => True := by
  induction names generalizing values with
  | nil => exact twinned_pure trivial
  | cons name names ih =>
      cases values with
      | nil => exact twinned_pure trivial
      | cons value values =>
          obtain ⟨hvalue, hvalues⟩ := List.forall_mem_cons.mp hvalues
          refine (twinned_bindVariable name true hvalue).bind ?_
          intro _ _
          exact ih hvalues

theorem twinned_setVariable (name : Name) {value : Value} (hvalue : value.Only P) :
    RunsTwinned R P (setVariable name value) fun _ => True :=
  twinned_change (fun _ _ => rfl) (fun _ => rfl) fun _ hm =>
    ⟨hm.scopes.setVariable name hvalue, hm.heap, hm.loaded⟩

theorem twinned_makeList {items : List Value} (hitems : ∀ v ∈ items, v.Only P) :
    RunsTwinned R P (makeList items) fun v => v.Only P := by
  rintro m _ ⟨ht, hm⟩
  exact ⟨.ok ⟨rfl, trivial⟩, .intro (m := { m with heap := (m.heap.allocate items).2 }) ht
    ⟨hm.scopes, hm.heap.allocate hitems, hm.loaded⟩⟩

theorem twinned_literalValue (hP : Preserved settings P) {s : Scalar} (hs : P s) :
    RunsTwinned R P (literalValue s) fun v => v.Only P := by
  by_cases harray : ∃ items place, s = .foreign (.array items) place
  · obtain ⟨items, place, rfl⟩ := harray
    intro m m' htwins
    cases htwins with
    | @intro t ht hm =>
        rw [literalValue_array_apply, literalValue_array_apply]
        dsimp only
        cases hloaded : m.loaded.lookup place with
        | some value =>
            obtain ⟨l₁, l₂, hsplit, _⟩ := List.lookup_eq_some_iff.mp hloaded
            have hvalue := hm.loaded (place, value) (by simp [hsplit])
            exact ⟨.ok ⟨rfl, hvalue⟩, .intro ht hm⟩
        | none =>
            obtain ⟨hvalue, hheap⟩ :=
              Heap.Every.load (fun _ => trivial) (hP.tree items place hs) hm.heap (.array items)
            have hloaded : ∀ e ∈ (place, (m.heap.load (.array items)).1) :: m.loaded,
                e.2.Only P :=
              List.forall_mem_cons.mpr ⟨hvalue, hm.loaded⟩
            exact ⟨.ok ⟨rfl, hvalue⟩, .intro (m := { m with
              heap := (m.heap.load (.array items)).2
              loaded := (place, (m.heap.load (.array items)).1) :: m.loaded }) ht
                ⟨hm.scopes, hheap, hloaded⟩⟩
  · rw [literalValue_eq_pure fun items place hs => harray ⟨items, place, hs⟩]
    exact twinned_pure hs

theorem twinned_itemAt (hP : Preserved settings P) (reference index : Nat) :
    RunsTwinned R P (itemAt reference index) fun v => v.Only P := by
  rintro m _ ⟨ht, hm⟩
  exact ⟨.ok ⟨rfl, hm.heap.getD hP.nil reference index⟩, .intro ht hm⟩

theorem twinned_storeItem (reference index : Nat) {value : Value} (hvalue : value.Only P) :
    RunsTwinned R P (storeItem reference index value) fun _ => True :=
  twinned_change (fun _ _ => rfl) (fun _ => rfl) fun _ hm =>
    ⟨hm.scopes, hm.heap.store reference index hvalue, hm.loaded⟩

theorem twinned_requireBoolean (what : String) (value : Value) :
    RunsTwinned R P (requireBoolean what value) fun _ => True := by
  unfold requireBoolean
  split
  · exact twinned_pure trivial
  · exact twinned_fail nofun

theorem twinned_requireList (name : Name) (value : Value) :
    RunsTwinned R P (requireList name value) fun _ => True := by
  unfold requireList
  split
  · exact twinned_pure trivial
  · exact twinned_fail nofun

theorem twinned_requireIndex (reference : Nat) (value : Value) :
    RunsTwinned R P (requireIndex reference value) fun _ => True := by
  unfold requireIndex
  split
  · refine twinned_state (fun _ _ => rfl) ?_
    intro m _
    split
    · exact twinned_pure trivial
    split
    · exact twinned_fail nofun
    · exact twinned_fail nofun
  · exact twinned_fail nofun

theorem twinned_applyOperator (hP : Preserved settings P) (operator : String) {a b : Value}
    (ha : a.Only P) (hb : b.Only P) :
    RunsTwinned R P (applyOperator settings operator a b) fun v => v.Only P :=
  twinned_state (fun _ _ => rfl) fun m hm =>
    twinned_lift (fun v hv => hP.operate m.heap operator a b v hm.heap ha hb hv)
      operate_ne_unwritable

theorem twinned_equalHere (a b : Value) :
    RunsTwinned R P (equalHere settings a b) fun _ => True :=
  twinned_state (fun _ _ => rfl) fun _ _ =>
    twinned_lift (fun _ _ => trivial) valuesEqual_ne_unwritable

theorem twinned_writeLine {text : String} (htext : P (.string text)) :
    RunsTwinned R P (writeLine settings text) fun _ => True := by
  unfold writeLine
  split
  · rename_i hrefused
    simp only [Bool.and_eq_true, Bool.not_eq_true'] at hrefused
    exact alongside_fail ⟨rfl, fun _ => ⟨text, htext, hrefused.2⟩⟩
  · exact twinned_change (fun _ _ => rfl) (fun _ => rfl) fun _ hm =>
      ⟨hm.scopes, hm.heap, hm.loaded⟩

theorem twinned_print (hP : Preserved settings P) {values : List Value}
    (hvalues : ∀ v ∈ values, v.Only P) :
    RunsTwinned R P (print settings values) fun v => v.Only P := by
  cases values with
  | nil => exact twinned_fail nofun
  | cons value values =>
      refine twinned_state (fun _ _ => rfl) ?_
      intro m hm
      refine (twinned_textOf hP hm (hvalues value List.mem_cons_self)).bind ?_
      intro text htext
      refine (twinned_writeLine htext).bind ?_
      intro _ _
      exact twinned_pure hP.nil

end Steps

section Parts

variable {evaluate : Node → Running Value} {execute : Node → Running Completion}

/-- Every expression whose literals have the property is evaluated equally from twins. -/
def EvaluatesTwinned (R : Trace → Trace → Prop) (P : Scalar → Prop)
    (evaluate : Node → Running Value) : Prop :=
  ∀ node, node.Every (Node.Only P) → RunsTwinned R P (evaluate node) fun v => v.Only P

/-- Every statement whose literals have the property is executed equally from twins. -/
def ExecutesTwinned (R : Trace → Trace → Prop) (P : Scalar → Prop)
    (execute : Node → Running Completion) : Prop :=
  ∀ node, node.Every (Node.Only P) →
    RunsTwinned R P (execute node) fun ending => ending.value.Only P

theorem twinned_evaluateAll (heval : EvaluatesTwinned R P evaluate) {nodes : List Node}
    (h : Node.EveryOf (Node.Only P) nodes) :
    RunsTwinned R P (evaluateAll evaluate nodes) fun values => ∀ v ∈ values, v.Only P := by
  induction nodes with
  | nil => exact twinned_pure nofun
  | cons node nodes ih =>
      refine (heval node h.1).bind ?_
      intro value hvalue
      refine (ih h.2).bind ?_
      intro values hvalues
      exact twinned_pure (List.forall_mem_cons.mpr ⟨hvalue, hvalues⟩)

theorem twinned_evaluateOptional (hP : Preserved settings P) (heval : EvaluatesTwinned R P evaluate)
    {node : Node} (h : node.Every (Node.Only P)) :
    RunsTwinned R P (evaluateOptional evaluate node) fun v => v.Only P := by
  unfold evaluateOptional
  split
  · exact twinned_pure hP.nil
  · exact heval node h

theorem twinned_executeAll (hP : Preserved settings P) (hexec : ExecutesTwinned R P execute)
    {nodes : List Node} (h : Node.EveryOf (Node.Only P) nodes) :
    RunsTwinned R P (executeAll execute nodes) fun ending => ending.value.Only P := by
  induction nodes with
  | nil => exact twinned_pure hP.nil
  | cons node nodes ih =>
      refine (hexec node h.1).bind ?_
      intro ending hending
      cases ending with
      | finished => exact ih h.2
      | returned value => exact twinned_pure hending

theorem twinned_body (hP : Preserved settings P) (hexec : ExecutesTwinned R P execute)
    {nodes : List Node} (h : Node.EveryOf (Node.Only P) nodes) :
    RunsTwinned R P (inScope (executeAll execute nodes)) fun ending => ending.value.Only P :=
  twinned_inScope (twinned_executeAll hP hexec h)

theorem twinned_secondTruth (hP : Preserved settings P) (heval : EvaluatesTwinned R P evaluate)
    (operator : String) {right : Node} (h : right.Every (Node.Only P)) :
    RunsTwinned R P (secondTruth evaluate operator right) fun v => v.Only P := by
  refine (heval right h).bind ?_
  intro value _
  refine (twinned_requireBoolean operator value).bind ?_
  intro truth _
  exact twinned_pure (hP.boolean truth)

theorem twinned_evaluateBinary (hP : Preserved settings P) (heval : EvaluatesTwinned R P evaluate)
    (operator : String) {left right : Node} (hleft : left.Every (Node.Only P))
    (hright : right.Every (Node.Only P)) :
    RunsTwinned R P (evaluateBinary settings evaluate operator left right) fun v => v.Only P := by
  refine (heval left hleft).bind ?_
  intro a ha
  split
  · refine (twinned_requireBoolean operator a).bind ?_
    intro truth _
    split
    · exact twinned_secondTruth hP heval operator hright
    · exact twinned_pure (hP.boolean false)
  split
  · refine (twinned_requireBoolean operator a).bind ?_
    intro truth _
    split
    · exact twinned_pure (hP.boolean true)
    · exact twinned_secondTruth hP heval operator hright
  · refine (heval right hright).bind ?_
    intro b hb
    exact twinned_applyOperator hP operator ha hb

theorem twinned_locate (heval : EvaluatesTwinned R P evaluate) (name : Name) (value : Value)
    {offset : Node} (h : offset.Every (Node.Only P)) :
    RunsTwinned R P (locate evaluate name value offset) fun _ => True := by
  refine (twinned_requireList name value).bind ?_
  intro reference _
  refine (heval offset h).bind ?_
  intro index _
  refine (twinned_requireIndex reference index).bind ?_
  intro i _
  exact twinned_pure trivial

theorem twinned_evaluateAccess (hP : Preserved settings P) (heval : EvaluatesTwinned R P evaluate)
    (name : Name) {offset : Node} (h : offset.Every (Node.Only P)) :
    RunsTwinned R P (evaluateAccess evaluate name offset) fun v => v.Only P := by
  refine (twinned_lookupVariable name).bind ?_
  intro v hv
  split
  · exact twinned_pure hv
  · refine (twinned_locate heval name v.value h).bind ?_
    rintro ⟨reference, i⟩ _
    exact twinned_itemAt hP reference i

/-- A message about a value, and the end of the statement. -/
theorem twinned_noted (hR : Harmless settings P R) (hP : Preserved settings P) {message : String}
    (hmessage : P (.string message)) {value : Value} (hvalue : value.Only P) :
    RunsTwinned R P (do noteValue settings 2 message value; return Completion.finished)
      fun ending => ending.value.Only P := by
  refine (twinned_noteValue hR hP 2 hmessage hvalue).bind ?_
  intro _ _
  exact twinned_pure hP.nil

theorem twinned_assign (hR : Harmless settings P R) (hP : Preserved settings P)
    (heval : EvaluatesTwinned R P evaluate) {target : Node} (h : target.Every (Node.Only P))
    {value : Value} (hvalue : value.Only P) :
    RunsTwinned R P (assign settings evaluate target value)
      fun ending => ending.value.Only P := by
  unfold assign
  split
  · rename_i name offset
    have hname : P (.string name.text) := h.1.name name rfl
    refine (twinned_lookupVariable name).bind ?_
    intro v hv
    split
    · split
      · refine (twinned_setVariable name hvalue).bind ?_
        intro _ _
        exact twinned_noted hR hP (hP.target (by decide) hname) hvalue
      · exact twinned_fail nofun
    · refine (twinned_locate heval name v.value h.2).bind ?_
      rintro ⟨reference, i⟩ _
      refine (twinned_storeItem reference i hvalue).bind ?_
      intro _ _
      have hindex : P (.string ("assign " ++ name.text ++ "[" ++ Text.natText i ++ "] = ")) := by
        have hbegin := hP.composes.append (hP.fixed (by decide : Text.IsAscii "assign ")) hname
        have hopen := hP.composes.append hbegin (hP.fixed (by decide : Text.IsAscii "["))
        exact hP.composes.append (hP.composes.append hopen (hP.fixed (Text.isAscii_natText i)))
          (hP.fixed (by decide))
      exact twinned_noted hR hP hindex hvalue
  · split
    · refine (twinned_lookupVariable _).bind ?_
      intro _ _
      exact twinned_fail nofun
    · exact twinned_fail nofun

theorem twinned_invoke {execute : Nat → Node → Running Completion} (hP : Preserved settings P)
    (hexec : ∀ calls, ExecutesTwinned R P (execute calls)) (calls : Nat) {f : Function}
    (hf : f.Only P) {values : List Value} (hvalues : ∀ v ∈ values, v.Only P) :
    RunsTwinned R P (invoke settings execute calls f values) fun v => v.Only P := by
  unfold invoke
  unfold Function.Only at hf
  generalize f.action = action at hf ⊢
  cases action with
  | printer => exact twinned_print hP hvalues
  | constant value => exact twinned_pure hf
  | collector => exact twinned_makeList hvalues
  | declared parameters body =>
      cases calls with
      | zero => exact twinned_fail nofun
      | succ calls =>
          refine twinned_inScope ?_
          refine (twinned_bindParameters parameters hvalues).bind ?_
          intro _ _
          refine (twinned_executeAll hP (hexec calls) hf).bind ?_
          intro ending hending
          exact twinned_pure hending

theorem twinned_evaluateCall {execute : Nat → Node → Running Completion}
    (hR : Harmless settings P R) (hP : Preserved settings P) (heval : EvaluatesTwinned R P evaluate)
    (hexec : ∀ calls, ExecutesTwinned R P (execute calls)) (calls : Nat) {name : Name}
    (hname : P (.string name.text)) {arguments : List Node}
    (h : Node.EveryOf (Node.Only P) arguments) :
    RunsTwinned R P (evaluateCall settings evaluate execute calls name arguments)
      fun v => v.Only P := by
  refine (twinned_evaluateAll heval h).bind ?_
  intro values hvalues
  refine (twinned_lookupFunction name values.length).bind ?_
  intro f hf
  refine (twinned_note hR 1 (hP.signature (by decide) hname values.length)).bind ?_
  intro _ _
  refine (twinned_invoke hP hexec calls hf hvalues).mapFailure ?_
  intro e he
  cases e <;> first | rfl | cases he

theorem twinned_meets (heval : EvaluatesTwinned R P evaluate) (value : Value) {node : Node}
    (h : node.Every (Node.Only P)) :
    RunsTwinned R P (meets settings evaluate value node) fun _ => True := by
  unfold meets
  split
  · exact twinned_pure trivial
  · refine (heval node h).bind ?_
    intro v _
    exact twinned_equalHere value v

theorem twinned_select (hR : Harmless settings P R) (hP : Preserved settings P)
    (heval : EvaluatesTwinned R P evaluate) (hexec : ExecutesTwinned R P execute)
    (value : Value) (position : Nat) {arms : List Node}
    (h : Node.EveryOf (Node.Only P) arms) :
    RunsTwinned R P (select settings evaluate execute value position arms)
      fun ending => ending.value.Only P := by
  induction arms generalizing position with
  | nil => exact twinned_pure hP.nil
  | cons arm arms ih =>
      unfold select
      split
      · exact twinned_fail nofun
      · exact twinned_fail nofun
      · rename_i node hpart
        have hnode : node.Every (Node.Only P) := Node.only_of_valuePart h.1 hpart
        refine (twinned_meets heval value hnode).bind ?_
        intro chosen _
        cases chosen with
        | true =>
            have hmessage : P (.string ("switch selected case " ++ Text.natText position)) :=
              hP.composes.append (hP.fixed (by decide)) (hP.fixed (Text.isAscii_natText position))
            refine (twinned_note hR 3 hmessage).bind ?_
            intro _ _
            exact hexec arm h.1
        | false => exact ih (position + 1) h.2

end Parts

section Nodes

variable {evaluate : Nat → Node → Running Value} {execute : Nat → Node → Running Completion}

theorem twinned_evaluateNode (hR : Harmless settings P R) (hP : Preserved settings P)
    (heval : ∀ calls, EvaluatesTwinned R P (evaluate calls))
    (hexec : ∀ calls, ExecutesTwinned R P (execute calls)) (calls : Nat) :
    EvaluatesTwinned R P (evaluateNode settings evaluate execute calls) := by
  intro node h
  cases node with
  | literal s => exact twinned_literalValue hP (Node.Only.literal h s rfl)
  | group expression => exact heval calls expression h.2
  | binary operator left right =>
      exact twinned_evaluateBinary hP (heval calls) operator.text h.2.1 h.2.2
  | access name offset => exact twinned_evaluateAccess hP (heval calls) name h.2
  | call name arguments =>
      exact twinned_evaluateCall hR hP (heval calls) hexec calls (h.1.name name rfl) h.2
  | list elements =>
      refine (twinned_evaluateAll (heval calls) h.2).bind ?_
      intro values hvalues
      exact twinned_makeList hvalues
  | _ => exact twinned_fail nofun

theorem twinned_declare (hR : Harmless settings P R) (hP : Preserved settings P) {verb : String}
    (hverb : Text.IsAscii (verb ++ " ")) {name : Name} (hname : P (.string name.text))
    (isMutable : Bool) {value : Value} (hvalue : value.Only P) :
    RunsTwinned R P (declare settings verb name isMutable value)
      fun ending => ending.value.Only P := by
  refine (twinned_bindVariable name isMutable hvalue).bind ?_
  intro _ _
  exact twinned_noted hR hP (hP.target hverb hname) hvalue

theorem twinned_executeNode (hR : Harmless settings P R) (hP : Preserved settings P)
    (heval : ∀ calls, EvaluatesTwinned R P (evaluate calls))
    (hexec : ∀ calls, ExecutesTwinned R P (execute calls)) (calls : Nat) :
    ExecutesTwinned R P (executeNode settings evaluate execute calls) := by
  intro node h
  cases node with
  | «global» name typeName isMutable value =>
      refine (twinned_evaluateOptional hP (heval calls) h.2).bind ?_
      intro v hv
      exact twinned_declare hR hP (by decide) (h.1.name name rfl) isMutable hv
  | function name parameters parameterTypes returnType body =>
      have hf : (declaredFunction name parameters body).Only P := h.2
      refine (twinned_bindFunction hf).bind ?_
      intro _ _
      have hname := h.1.name name rfl
      refine (twinned_note hR 2 (hP.signature (by decide) hname parameters.length)).bind ?_
      intro _ _
      exact twinned_pure hP.nil
  | evaluation expression =>
      refine (heval calls expression h.2).bind ?_
      intro _ _
      exact twinned_pure hP.nil
  | declaration name typeName value =>
      refine (twinned_evaluateOptional hP (heval calls) h.2).bind ?_
      intro v hv
      exact twinned_declare hR hP (by decide) (h.1.name name rfl) true hv
  | assignment target value =>
      refine (heval calls value h.2.2).bind ?_
      intro v hv
      exact twinned_assign hR hP (heval calls) h.2.1 hv
  | conditional condition thenBody elseBody =>
      obtain ⟨_, hcondition, hthen, helse⟩ := h
      refine (heval calls condition hcondition).bind ?_
      intro value _
      refine (twinned_requireBoolean "IF" value).bind ?_
      intro holds _
      have htruth : Text.IsAscii (truthText holds) := by cases holds <;> decide
      have hmessage : P (.string ("if condition -> " ++ truthText holds)) :=
        hP.composes.append (hP.fixed (by decide)) (hP.fixed htruth)
      refine (twinned_note hR 3 hmessage).bind ?_
      intro _ _
      cases holds with
      | true => exact twinned_body hP (hexec calls) hthen
      | false => exact twinned_body hP (hexec calls) helse
  | loop condition body =>
      refine (heval calls condition h.2.1).bind ?_
      intro value _
      refine (twinned_requireBoolean "WHILE" value).bind ?_
      intro holds _
      cases holds with
      | false => exact twinned_pure hP.nil
      | true =>
          refine (twinned_body hP (hexec calls) h.2.2).bind ?_
          intro ending hending
          cases ending with
          | finished => exact hexec calls (.loop condition body) h
          | returned value => exact twinned_pure hending
  | «switch» condition arms =>
      refine twinned_inScope ?_
      refine (heval calls condition h.2.1).bind ?_
      intro value hvalue
      refine (twinned_bindVariable switchName true hvalue).bind ?_
      intro _ _
      exact twinned_select hR hP (heval calls) (hexec calls) value 0 h.2.2
  | arm value body => exact twinned_body hP (hexec calls) h.2.2
  | returning value =>
      refine (twinned_evaluateOptional hP (heval calls) h.2).bind ?_
      intro v hv
      exact twinned_pure hv
  | _ => exact twinned_fail nofun

end Nodes

section Runs

theorem twinned_steps (hR : Harmless settings P R) (hP : Preserved settings P) (steps : Nat) :
    (∀ calls, EvaluatesTwinned R P (evaluate settings steps calls)) ∧
      ∀ calls, ExecutesTwinned R P (execute settings steps calls) := by
  induction steps with
  | zero => exact ⟨fun _ _ _ => twinned_fail nofun, fun _ _ _ => twinned_fail nofun⟩
  | succ steps ih =>
      obtain ⟨heval, hexec⟩ := ih
      exact ⟨twinned_evaluateNode hR hP heval hexec, twinned_executeNode hR hP heval hexec⟩

theorem twinned_executeEach (hR : Harmless settings P R) (hP : Preserved settings P) (steps : Nat)
    {nodes : List Node} (h : Node.EveryOf (Node.Only P) nodes) :
    RunsTwinned R P (executeEach settings steps nodes) fun _ => True := by
  induction nodes with
  | nil => exact twinned_pure trivial
  | cons node nodes ih =>
      refine ((twinned_steps hR hP steps).2 settings.calls node h.1).bind ?_
      intro _ _
      exact ih h.2

/-- A program runs equally from twins. -/
theorem twinned_runProgram (hR : Harmless settings P R) (hP : Preserved settings P) (steps : Nat)
    {program : Node} (h : program.Every (Node.Only P)) :
    RunsTwinned R P (runProgram settings steps program) fun v => v.Only P := by
  cases program with
  | source globals functions =>
      refine (twinned_executeEach hR hP steps h.2.1).bind ?_
      intro _ _
      refine (twinned_executeEach hR hP steps h.2.2).bind ?_
      intro _ _
      refine twinned_mainFunction.bind ?_
      intro f hf
      refine (twinned_note hR 1 (hP.fixed (by decide))).bind ?_
      intro _ _
      have hexec := (twinned_steps hR hP steps).2
      refine (twinned_invoke hP hexec settings.calls hf (List.forall_mem_nil _)).bind ?_
      intro value hvalue
      refine (twinned_noteValue hR hP 1 (hP.fixed (by decide)) hvalue).bind ?_
      intro _ _
      exact twinned_pure hvalue
  | _ => exact twinned_fail nofun

end Runs

end Twins

end Running
end BlockScript
