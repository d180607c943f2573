import BlockScript.Proofs.Running.Lists
import BlockScript.Proofs.Running.Rules

/-!
# Runs keep heaps acyclic

Every expression and every statement that does not fail leads from a sound machine to a
sound one.  The walk is along the functions that evaluate and execute, and the induction
on the number of steps.
-/

namespace BlockScript
namespace Running

open BlockScript.Computation Machine

/-- From a machine, a computation that does not fail leads to a sound machine that has the
lists of the first one, and its result refers to lists of that machine. -/
def Keeps {α : Type} (c : Running α) (m : Machine) (known : Heap → α → Prop) : Prop :=
  c.Ensures m (fun a m' => m.Follows m' ∧ known m'.heap a) fun _ => True

section Rules

variable {α β : Type} {m : Machine}

theorem Keeps.bind {c : Running α} {next : α → Running β} {known : Heap → α → Prop}
    {known' : Heap → β → Prop} (h : Keeps c m known)
    (hnext : ∀ a m', m.Follows m' → known m'.heap a → Keeps (next a) m' known') :
    Keeps (c >>= next) m known' := by
  refine Ensures.bind h ?_
  rintro a m' ⟨hfollows, ha⟩
  refine (hnext a m' hfollows ha).imp ?_
  rintro b m'' ⟨hfollows', hb⟩
  exact ⟨hfollows.trans hfollows', hb⟩

theorem keeps_pure {a : α} {known : Heap → α → Prop} (hm : m.Sound) (ha : known m.heap a) :
    Keeps (pure a) m known :=
  ensures_pure ⟨.refl hm, ha⟩

theorem keeps_fail {e : RunFailure} {known : Heap → α → Prop} :
    Keeps (Computation.fail e : Running α) m known :=
  ensures_fail trivial

theorem keeps_note (settings : Settings) (level : Nat) (message : String) (hm : m.Sound) :
    Keeps (note settings level message) m fun _ _ => True :=
  ensures_note (fun _ => ⟨⟨⟨hm.closed, hm.acyclic, hm.scopes, hm.loaded⟩, Nat.le_refl _⟩, trivial⟩)
    fun _ => trivial

theorem keeps_noteValue (settings : Settings) (level : Nat) (message : String) (value : Value)
    (hm : m.Sound) : Keeps (noteValue settings level message value) m fun _ _ => True :=
  ensures_noteValue
    (fun _ _ => ⟨⟨⟨hm.closed, hm.acyclic, hm.scopes, hm.loaded⟩, Nat.le_refl _⟩, trivial⟩)
    (fun _ _ => trivial) fun _ => trivial

theorem keeps_inScope {c : Running α} {known : Heap → α → Prop}
    (h : Keeps c m.enter known) : Keeps (inScope c) m known := by
  refine ensures_inScope (Ensures.imp h ?_)
  rintro a m' ⟨hfollows, ha⟩
  exact ⟨⟨hfollows.sound.leave, hfollows.size_le⟩, ha⟩

theorem keeps_lookupVariable (name : Name) (hm : m.Sound) :
    Keeps (lookupVariable name) m fun h v => h.Knows v.value :=
  ensures_lookupVariable
    (fun _ hv => ⟨.refl hm, Chain.within_of_lookupVariable hm.scopes hv⟩)
    (fun _ _ => trivial) trivial

theorem keeps_bindVariable (name : Name) (isMutable : Bool) {value : Value} (hm : m.Sound)
    (hvalue : m.heap.Knows value) :
    Keeps (bindVariable name isMutable value) m fun _ _ => True := by
  refine ensures_bindVariable ?_ (fun _ _ => trivial) trivial
  intro scopes hscopes
  have hwithin := Chain.within_defineVariable hm.scopes hvalue hscopes
  exact ⟨⟨⟨hm.closed, hm.acyclic, hwithin, hm.loaded⟩, Nat.le_refl _⟩, trivial⟩

theorem keeps_bindFunction {f : Function} (hm : m.Sound)
    (hf : ∀ v, f.action = .constant v → m.heap.Knows v) :
    Keeps (bindFunction f) m fun _ _ => True := by
  refine ensures_bindFunction ?_ (fun _ _ => trivial) trivial
  intro scopes hscopes
  have hwithin := Chain.within_defineFunction hm.scopes hf hscopes
  exact ⟨⟨⟨hm.closed, hm.acyclic, hwithin, hm.loaded⟩, Nat.le_refl _⟩, trivial⟩

theorem keeps_bindParameters (names : List Name) {values : List Value} (hm : m.Sound)
    (hvalues : ∀ v ∈ values, m.heap.Knows v) :
    Keeps (bindParameters names values) m fun _ _ => True := by
  induction names generalizing values m with
  | nil =>
      exact keeps_pure hm trivial
  | cons name names ih =>
      cases values with
      | nil =>
          exact keeps_pure hm trivial
      | cons value values =>
          refine (keeps_bindVariable name true hm (hvalues value (by simp))).bind ?_
          intro _ m' hfollows _
          exact ih hfollows.sound fun v hv => hfollows.knows (hvalues v (by simp [hv]))

theorem keeps_setVariable (name : Name) {value : Value} (hm : m.Sound)
    (hvalue : m.heap.Knows value) : Keeps (setVariable name value) m fun _ _ => True := by
  refine ensures_change ⟨⟨⟨hm.closed, hm.acyclic, ?_, hm.loaded⟩, Nat.le_refl _⟩, trivial⟩
  intro s hs
  rw [Chain.toList_setVariable] at hs
  exact Chain.within_setIn hm.scopes hvalue s hs

theorem keeps_makeList {items : List Value} (hm : m.Sound)
    (hitems : ∀ v ∈ items, m.heap.Knows v) :
    Keeps (makeList items) m fun h v => h.Knows v := by
  have hsize : m.heap.size ≤ (m.heap.allocate items).2.size := by simp
  exact ⟨⟨hm.withHeap hsize (Heap.closed_allocate hm.closed hitems)
    (Heap.acyclic_allocate hm.closed hm.acyclic hitems), hsize⟩, Heap.knows_allocate _ _⟩

theorem keeps_literalArray (items : List Json) (place : List Nat) (hm : m.Sound) :
    Keeps (literalValue (.foreign (.array items) place)) m fun h v => h.Knows v := by
  refine ensures_iff.mpr ⟨?_, fun _ _ _ => trivial⟩
  intro v m' h
  rw [literalValue_array_apply] at h
  cases hloaded : m.loaded.lookup place with
  | some value =>
      rw [hloaded] at h
      cases h
      obtain ⟨l₁, l₂, hsplit, _⟩ := List.lookup_eq_some_iff.mp hloaded
      exact ⟨.refl hm, hm.loaded (place, v) (by simp [hsplit])⟩
  | none =>
      rw [hloaded] at h
      cases h
      obtain ⟨hloads, hvalue⟩ := Heap.loads_load m.heap hm.closed hm.acyclic (.array items)
      have hsound := hm.withHeap hloads.size_le hloads.closed hloads.acyclic
      refine ⟨⟨⟨hsound.closed, hsound.acyclic, hsound.scopes, ?_⟩, hloads.size_le⟩, hvalue⟩
      intro entry hentry
      rcases List.mem_cons.mp hentry with rfl | hentry
      · exact hvalue
      · exact hsound.loaded entry hentry

theorem keeps_literalValue (s : Scalar) (hm : m.Sound) :
    Keeps (literalValue s) m fun h v => h.Knows v := by
  by_cases harray : ∃ items place, s = .foreign (.array items) place
  · obtain ⟨items, place, rfl⟩ := harray
    exact keeps_literalArray items place hm
  · rw [literalValue_eq_pure fun items place hs => harray ⟨items, place, hs⟩]
    exact keeps_pure hm (Heap.knows_scalar _ _)

theorem keeps_requireBoolean (what : String) (value : Value) (hm : m.Sound) :
    Keeps (requireBoolean what value) m fun _ _ => True :=
  ensures_requireBoolean (fun _ _ => ⟨.refl hm, trivial⟩) fun _ => trivial

theorem keeps_requireList (name : Name) (value : Value) (hm : m.Sound) :
    Keeps (requireList name value) m fun _ r => value = .list r :=
  ensures_requireList (fun _ hr => ⟨.refl hm, hr⟩) fun _ => trivial

theorem keeps_requireIndex (reference : Nat) (value : Value) (hm : m.Sound) :
    Keeps (requireIndex reference value) m fun _ _ => True :=
  ensures_requireIndex (fun _ _ => ⟨.refl hm, trivial⟩) (fun _ => trivial) trivial trivial

theorem keeps_itemAt (reference index : Nat) (hm : m.Sound) :
    Keeps (itemAt reference index) m fun h v => h.Knows v := by
  refine ⟨.refl hm, ?_⟩
  cases hitem : (m.heap.items reference)[index]? with
  | none =>
      rw [List.getD_eq_getElem?_getD, hitem]
      exact Heap.knows_scalar _ _
  | some v =>
      rw [List.getD_eq_getElem?_getD, hitem]
      exact hm.closed reference v (List.mem_of_getElem? hitem)

theorem exists_scalar_of_arithmetic {operator : String} {a b v : Value}
    (h : arithmetic operator a b = .ok v) : ∃ s, v = .scalar s := by
  unfold arithmetic at h
  split at h
  · unfold integerArithmetic raise at h
    repeat' split at h
    all_goals cases h
    all_goals exact ⟨_, rfl⟩
  · unfold decimalArithmetic raise decimalResult at h
    repeat' split at h
    all_goals cases h
    all_goals exact ⟨_, rfl⟩
  · cases h

theorem exists_scalar_of_sum {settings : Settings} {heap : Heap} {a b v : Value}
    (h : sum settings heap a b = .ok v) : ∃ s, v = .scalar s := by
  unfold sum at h
  split at h
  · cases hs : textOf settings heap a with
    | error e =>
        rw [hs] at h
        cases h
    | ok s =>
        cases ht : textOf settings heap b with
        | error e =>
            rw [hs, ht] at h
            cases h
        | ok t =>
            rw [hs, ht] at h
            cases h
            exact ⟨_, rfl⟩
  · exact exists_scalar_of_arithmetic h

theorem exists_scalar_of_ordered {operator : String} {wanted : Ordering} {a b v : Value}
    (h : ordered operator wanted a b = .ok v) : ∃ s, v = .scalar s := by
  unfold ordered raise at h
  repeat' split at h
  all_goals cases h
  all_goals exact ⟨_, rfl⟩

theorem exists_scalar_of_power {a b v : Value} (h : power a b = .ok v) :
    ∃ s, v = .scalar s := by
  unfold power raise at h
  repeat' split at h
  all_goals cases h
  all_goals exact ⟨_, rfl⟩

theorem exists_scalar_of_map {r : Except RunFailure Bool} {f : Bool → Bool} {v : Value}
    (h : r.map (fun b => Value.boolean (f b)) = .ok v) : ∃ s, v = .scalar s := by
  cases r with
  | error e => cases h
  | ok b =>
      cases h
      exact ⟨_, rfl⟩

/-- Operators give scalars. -/
theorem exists_scalar_of_operate {settings : Settings} {heap : Heap} {operator : String}
    {a b v : Value} (h : operate settings heap operator a b = .ok v) : ∃ s, v = .scalar s := by
  unfold operate at h
  split at h
  · exact exists_scalar_of_map (f := id) h
  split at h
  · exact exists_scalar_of_map h
  split at h
  · exact exists_scalar_of_sum h
  split at h
  · exact exists_scalar_of_arithmetic h
  split at h
  · exact exists_scalar_of_power h
  split at h
  · exact exists_scalar_of_ordered h
  split at h
  · exact exists_scalar_of_ordered h
  · cases h

theorem keeps_applyOperator (settings : Settings) (operator : String) (a b : Value)
    (hm : m.Sound) : Keeps (applyOperator settings operator a b) m fun h v => h.Knows v := by
  refine Ensures.ofState (ensures_lift ?_ fun _ _ => trivial)
  intro v hv
  obtain ⟨s, rfl⟩ := exists_scalar_of_operate hv
  exact ⟨.refl hm, Heap.knows_scalar _ _⟩

theorem keeps_equalHere (settings : Settings) (a b : Value) (hm : m.Sound) :
    Keeps (equalHere settings a b) m fun _ _ => True :=
  Ensures.ofState (ensures_lift (fun _ _ => ⟨.refl hm, trivial⟩) fun _ _ => trivial)

theorem keeps_print (settings : Settings) (values : List Value) (hm : m.Sound) :
    Keeps (print settings values) m fun h v => h.Knows v := by
  cases values with
  | nil => exact keeps_fail
  | cons value values =>
      refine Ensures.ofState ?_
      have htext : Keeps (Computation.lift (textOf settings m.heap value)) m fun _ _ => True :=
        ensures_lift (fun _ _ => ⟨.refl hm, trivial⟩) fun _ _ => trivial
      refine htext.bind ?_
      intro text m₁ hfollows _
      have hwrite : Keeps (writeLine settings text) m₁ fun _ _ => True := by
        unfold writeLine
        split
        · exact keeps_fail
        · have hm₁ := hfollows.sound
          exact ensures_change
            ⟨⟨⟨hm₁.closed, hm₁.acyclic, hm₁.scopes, hm₁.loaded⟩, Nat.le_refl _⟩, trivial⟩
      refine hwrite.bind ?_
      intro _ m₂ hfollows' _
      exact keeps_pure hfollows'.sound (Heap.knows_scalar _ _)

end Rules

section Parts

variable {m : Machine} {evaluate : Node → Running Value} {execute : Node → Running Completion}

/-- Every expression keeps heaps acyclic. -/
def EvaluationKeeps (evaluate : Node → Running Value) : Prop :=
  ∀ (node : Node) (m : Machine), m.Sound → Keeps (evaluate node) m fun h v => h.Knows v

/-- Every statement keeps heaps acyclic. -/
def ExecutionKeeps (execute : Node → Running Completion) : Prop :=
  ∀ (node : Node) (m : Machine), m.Sound →
    Keeps (execute node) m fun h ending => h.Knows ending.value

theorem keeps_evaluateAll (heval : EvaluationKeeps evaluate) (nodes : List Node)
    (hm : m.Sound) : Keeps (evaluateAll evaluate nodes) m fun h vs => ∀ v ∈ vs, h.Knows v := by
  induction nodes generalizing m with
  | nil =>
      exact keeps_pure hm (by simp)
  | cons node nodes ih =>
      refine (heval node m hm).bind ?_
      intro v m₁ hfollows hv
      refine (ih hfollows.sound).bind ?_
      intro vs m₂ hfollows' hvs
      refine keeps_pure hfollows'.sound ?_
      intro w hw
      rcases List.mem_cons.mp hw with rfl | hw
      · exact hfollows'.knows hv
      · exact hvs w hw

theorem keeps_evaluateOptional (heval : EvaluationKeeps evaluate) (node : Node)
    (hm : m.Sound) : Keeps (evaluateOptional evaluate node) m fun h v => h.Knows v := by
  unfold evaluateOptional
  split
  · exact keeps_pure hm (Heap.knows_scalar _ _)
  · exact heval node m hm

theorem keeps_executeAll (hexec : ExecutionKeeps execute) (nodes : List Node) (hm : m.Sound) :
    Keeps (executeAll execute nodes) m fun h ending => h.Knows ending.value := by
  induction nodes generalizing m with
  | nil =>
      exact keeps_pure hm (Heap.knows_scalar _ _)
  | cons node nodes ih =>
      refine (hexec node m hm).bind ?_
      intro ending m₁ hfollows hending
      cases ending with
      | finished => exact ih hfollows.sound
      | returned value => exact keeps_pure hfollows.sound hending

theorem keeps_body (hexec : ExecutionKeeps execute) (nodes : List Node) (hm : m.Sound) :
    Keeps (inScope (executeAll execute nodes)) m fun h ending => h.Knows ending.value :=
  keeps_inScope (keeps_executeAll hexec nodes hm.enter)

theorem keeps_secondTruth (heval : EvaluationKeeps evaluate) (operator : String) (right : Node)
    (hm : m.Sound) : Keeps (secondTruth evaluate operator right) m fun h v => h.Knows v := by
  refine (heval right m hm).bind ?_
  intro value m₁ hfollows _
  refine (keeps_requireBoolean operator value hfollows.sound).bind ?_
  intro truth m₂ hfollows' _
  exact keeps_pure hfollows'.sound (Heap.knows_scalar _ _)

theorem keeps_evaluateBinary (settings : Settings) (heval : EvaluationKeeps evaluate)
    (operator : String) (left right : Node) (hm : m.Sound) :
    Keeps (evaluateBinary settings evaluate operator left right) m fun h v => h.Knows v := by
  refine (heval left m hm).bind ?_
  intro a m₁ hfollows _
  have hm₁ := hfollows.sound
  split
  · refine (keeps_requireBoolean operator a hm₁).bind ?_
    intro truth m₂ hfollows' _
    split
    · exact keeps_secondTruth heval operator right hfollows'.sound
    · exact keeps_pure hfollows'.sound (Heap.knows_scalar _ _)
  split
  · refine (keeps_requireBoolean operator a hm₁).bind ?_
    intro truth m₂ hfollows' _
    split
    · exact keeps_pure hfollows'.sound (Heap.knows_scalar _ _)
    · exact keeps_secondTruth heval operator right hfollows'.sound
  · refine (heval right m₁ hm₁).bind ?_
    intro b m₂ hfollows' _
    exact keeps_applyOperator settings operator a b hfollows'.sound

theorem keeps_locate (heval : EvaluationKeeps evaluate) (name : Name) (value : Value)
    (offset : Node) (hm : m.Sound) :
    Keeps (locate evaluate name value offset) m fun _ place => value = .list place.1 := by
  refine (keeps_requireList name value hm).bind ?_
  intro reference m₁ hfollows hreference
  refine (heval offset m₁ hfollows.sound).bind ?_
  intro index m₂ hfollows' _
  refine (keeps_requireIndex reference index hfollows'.sound).bind ?_
  intro i m₃ hfollows'' _
  exact keeps_pure hfollows''.sound hreference

theorem keeps_evaluateAccess (heval : EvaluationKeeps evaluate) (name : Name) (offset : Node)
    (hm : m.Sound) : Keeps (evaluateAccess evaluate name offset) m fun h v => h.Knows v := by
  refine (keeps_lookupVariable name hm).bind ?_
  intro v m₁ hfollows hv
  split
  · exact keeps_pure hfollows.sound hv
  · refine (keeps_locate heval name v.value offset hfollows.sound).bind ?_
    rintro ⟨reference, i⟩ m₂ hfollows' _
    exact keeps_itemAt reference i hfollows'.sound

/-- Storing an item keeps the heap acyclic or leaves a value without a text, which the message
about it needs. -/
theorem keeps_storeItem {settings : Settings} (hreports : settings.reports = true)
    (reference index : Nat) (level : Nat) (message : String) {value : Value} (hm : m.Sound)
    (hvalue : m.heap.Knows value) :
    Keeps (do
      storeItem reference index value
      noteValue settings level message value
      return Completion.finished) m fun h ending => h.Knows ending.value := by
  have hsize : m.heap.size ≤ (m.heap.store reference index value).size := by simp
  have hnote : (noteValue settings level message value).Ensures
      { m with heap := m.heap.store reference index value } (fun _ m' => m.Follows m')
      fun _ => True := by
    refine ensures_noteValue ?_ (fun _ _ => trivial) fun _ => trivial
    intro trace htext
    obtain ⟨text, htext⟩ := htext hreports
    have hacyclic := Heap.acyclic_store hm.acyclic (Heap.grounded_of_text htext)
    have hsound := hm.withHeap hsize (Heap.closed_store hm.closed hvalue) hacyclic
    exact ⟨⟨hsound.closed, hsound.acyclic, hsound.scopes, hsound.loaded⟩, hsize⟩
  refine Ensures.ofChange (hnote.bind ?_)
  intro _ m' hfollows
  exact ensures_pure ⟨hfollows, Heap.knows_scalar _ _⟩

theorem keeps_assign {settings : Settings} (hreports : settings.reports = true)
    (heval : EvaluationKeeps evaluate) (target : Node) {value : Value} (hm : m.Sound)
    (hvalue : m.heap.Knows value) :
    Keeps (assign settings evaluate target value) m fun h ending => h.Knows ending.value := by
  unfold assign
  split
  · rename_i name offset
    refine (keeps_lookupVariable name hm).bind ?_
    intro v m₁ hfollows _
    split
    · split
      · refine (keeps_setVariable name hfollows.sound (hfollows.knows hvalue)).bind ?_
        intro _ m₂ hfollows' _
        refine (keeps_noteValue settings 2 _ value hfollows'.sound).bind ?_
        intro _ m₃ hfollows'' _
        exact keeps_pure hfollows''.sound (Heap.knows_scalar _ _)
      · exact keeps_fail
    · refine (keeps_locate heval name v.value offset hfollows.sound).bind ?_
      rintro ⟨reference, i⟩ m₂ hfollows' _
      exact keeps_storeItem hreports reference i 2 _ hfollows'.sound
        ((hfollows.trans hfollows').knows hvalue)
  · split
    · refine (keeps_lookupVariable _ hm).bind ?_
      intro _ _ _ _
      exact keeps_fail
    · exact keeps_fail

theorem keeps_meets (settings : Settings) (heval : EvaluationKeeps evaluate) (value : Value)
    (node : Node) (hm : m.Sound) :
    Keeps (meets settings evaluate value node) m fun _ _ => True := by
  unfold meets
  split
  · exact keeps_pure hm trivial
  · refine (heval node m hm).bind ?_
    intro v m₁ hfollows _
    exact keeps_equalHere settings value v hfollows.sound

theorem keeps_select (settings : Settings) (heval : EvaluationKeeps evaluate)
    (hexec : ExecutionKeeps execute) (value : Value) (position : Nat) (arms : List Node)
    (hm : m.Sound) :
    Keeps (select settings evaluate execute value position arms) m
      fun h ending => h.Knows ending.value := by
  induction arms generalizing m position with
  | nil =>
      exact keeps_pure hm (Heap.knows_scalar _ _)
  | cons arm arms ih =>
      unfold select
      split
      · exact keeps_fail
      · exact keeps_fail
      · rename_i node _
        refine (keeps_meets settings heval value node hm).bind ?_
        intro chosen m₁ hfollows _
        split
        · refine (keeps_note settings 3 _ hfollows.sound).bind ?_
          intro _ m₂ hfollows' _
          exact hexec arm m₂ hfollows'.sound
        · exact ih (position + 1) hfollows.sound

end Parts

section Calls

variable {m : Machine} {settings : Settings} {execute : Nat → Node → Running Completion}

theorem keeps_invoke (hexec : ∀ calls, ExecutionKeeps (execute calls)) (calls : Nat)
    (f : Function) {values : List Value} (hm : m.Sound)
    (hf : ∀ v, f.action = .constant v → m.heap.Knows v)
    (hvalues : ∀ v ∈ values, m.heap.Knows v) :
    Keeps (invoke settings execute calls f values) m fun h v => h.Knows v := by
  unfold invoke
  split
  · exact keeps_print settings values hm
  · rename_i value haction
    exact keeps_pure hm (hf value haction)
  · exact keeps_makeList hm hvalues
  · split
    · exact keeps_fail
    · rename_i calls
      refine keeps_inScope ?_
      refine (keeps_bindParameters _ hm.enter hvalues).bind ?_
      intro _ m₁ hfollows _
      refine (keeps_executeAll (hexec calls) _ hfollows.sound).bind ?_
      intro ending m₂ hfollows' hending
      exact keeps_pure hfollows'.sound hending

theorem keeps_evaluateCall {evaluate : Node → Running Value} (heval : EvaluationKeeps evaluate)
    (hexec : ∀ calls, ExecutionKeeps (execute calls)) (calls : Nat) (name : Name)
    (arguments : List Node) (hm : m.Sound) :
    Keeps (evaluateCall settings evaluate execute calls name arguments) m
      fun h v => h.Knows v := by
  refine (keeps_evaluateAll heval arguments hm).bind ?_
  intro values m₁ hfollows hvalues
  have hm₁ := hfollows.sound
  have hlookup : Keeps (lookupFunction name values.length) m₁
      fun h f => ∀ v, f.action = .constant v → h.Knows v :=
    ensures_lookupFunction
      (fun _ hf => ⟨.refl hm₁, Chain.within_of_lookupFunction hm₁.scopes hf⟩)
      (fun _ _ => trivial) trivial
  refine hlookup.bind ?_
  intro f m₂ hfollows₂ hf
  refine (keeps_note settings 1 _ hfollows₂.sound).bind ?_
  intro _ m₃ hfollows₃ _
  have hlater := hfollows₂.trans hfollows₃
  exact Ensures.mapFailure (keeps_invoke hexec calls f hfollows₃.sound
    (fun v hv => hfollows₃.knows (hf v hv)) fun v hv => hlater.knows (hvalues v hv))

end Calls

section Nodes

variable {m : Machine} {settings : Settings} {evaluate : Nat → Node → Running Value}
  {execute : Nat → Node → Running Completion}

theorem keeps_evaluateNode (heval : ∀ calls, EvaluationKeeps (evaluate calls))
    (hexec : ∀ calls, ExecutionKeeps (execute calls)) (calls : Nat) (node : Node)
    (hm : m.Sound) :
    Keeps (evaluateNode settings evaluate execute calls node) m fun h v => h.Knows v := by
  cases node with
  | literal value => exact keeps_literalValue value hm
  | group expression => exact heval calls expression m hm
  | binary operator left right =>
      exact keeps_evaluateBinary settings (heval calls) operator.text left right hm
  | access name offset => exact keeps_evaluateAccess (heval calls) name offset hm
  | call name arguments => exact keeps_evaluateCall (heval calls) hexec calls name arguments hm
  | list elements =>
      refine (keeps_evaluateAll (heval calls) elements hm).bind ?_
      intro values m₁ hfollows hvalues
      exact keeps_makeList hfollows.sound hvalues
  | _ => exact keeps_fail

theorem keeps_declare (settings : Settings) (verb : String) (name : Name) (isMutable : Bool)
    {value : Value} (hm : m.Sound) (hvalue : m.heap.Knows value) :
    Keeps (declare settings verb name isMutable value) m
      fun h ending => h.Knows ending.value := by
  refine (keeps_bindVariable name isMutable hm hvalue).bind ?_
  intro _ m₁ hfollows _
  refine (keeps_noteValue settings 2 _ value hfollows.sound).bind ?_
  intro _ m₂ hfollows' _
  exact keeps_pure hfollows'.sound (Heap.knows_scalar _ _)

theorem keeps_executeLoop (heval : ∀ calls, EvaluationKeeps (evaluate calls))
    (hexec : ∀ calls, ExecutionKeeps (execute calls)) (calls : Nat) (condition : Node)
    (body : List Node) (hm : m.Sound) :
    Keeps (executeLoop evaluate execute calls condition body) m
      fun h ending => h.Knows ending.value := by
  refine (heval calls condition m hm).bind ?_
  intro value m₁ hfollows _
  refine (keeps_requireBoolean "WHILE" value hfollows.sound).bind ?_
  intro holds m₂ hfollows₂ _
  split
  · refine (keeps_body (hexec calls) body hfollows₂.sound).bind ?_
    intro ending m₃ hfollows₃ hending
    cases ending with
    | finished => exact hexec calls (.loop condition body) m₃ hfollows₃.sound
    | returned value => exact keeps_pure hfollows₃.sound hending
  · exact keeps_pure hfollows₂.sound (Heap.knows_scalar _ _)

theorem keeps_executeNode (hreports : settings.reports = true)
    (heval : ∀ calls, EvaluationKeeps (evaluate calls))
    (hexec : ∀ calls, ExecutionKeeps (execute calls)) (calls : Nat) (node : Node)
    (hm : m.Sound) :
    Keeps (executeNode settings evaluate execute calls node) m
      fun h ending => h.Knows ending.value := by
  cases node with
  | «global» name typeName isMutable value =>
      refine (keeps_evaluateOptional (heval calls) value hm).bind ?_
      intro v m₁ hfollows hv
      exact keeps_declare settings "global" name isMutable hfollows.sound hv
  | function name parameters parameterTypes returnType body =>
      refine (keeps_bindFunction hm fun v hv => by cases hv).bind ?_
      intro _ m₁ hfollows _
      refine (keeps_note settings 2 _ hfollows.sound).bind ?_
      intro _ m₂ hfollows' _
      exact keeps_pure hfollows'.sound (Heap.knows_scalar _ _)
  | evaluation expression =>
      refine (heval calls expression m hm).bind ?_
      intro _ m₁ hfollows _
      exact keeps_pure hfollows.sound (Heap.knows_scalar _ _)
  | declaration name typeName value =>
      refine (keeps_evaluateOptional (heval calls) value hm).bind ?_
      intro v m₁ hfollows hv
      exact keeps_declare settings "declare" name true hfollows.sound hv
  | assignment target value =>
      refine (heval calls value m hm).bind ?_
      intro v m₁ hfollows hv
      exact keeps_assign hreports (heval calls) target hfollows.sound hv
  | conditional condition thenBody elseBody =>
      refine (heval calls condition m hm).bind ?_
      intro value m₁ hfollows _
      refine (keeps_requireBoolean "IF" value hfollows.sound).bind ?_
      intro holds m₂ hfollows₂ _
      refine (keeps_note settings 3 _ hfollows₂.sound).bind ?_
      intro _ m₃ hfollows₃ _
      exact keeps_body (hexec calls) _ hfollows₃.sound
  | loop condition body => exact keeps_executeLoop heval hexec calls condition body hm
  | «switch» condition arms =>
      refine keeps_inScope ?_
      refine (heval calls condition m.enter hm.enter).bind ?_
      intro value m₁ hfollows hvalue
      refine (keeps_bindVariable switchName true hfollows.sound hvalue).bind ?_
      intro _ m₂ hfollows₂ _
      exact keeps_select settings (heval calls) (hexec calls) value 0 arms hfollows₂.sound
  | arm value body => exact keeps_body (hexec calls) body hm
  | returning value =>
      refine (keeps_evaluateOptional (heval calls) value hm).bind ?_
      intro v m₁ hfollows hv
      exact keeps_pure hfollows.sound hv
  | _ => exact keeps_fail

end Nodes

section Runs

variable {m : Machine} {settings : Settings}

theorem keeps_steps (hreports : settings.reports = true) (steps : Nat) :
    (∀ calls, EvaluationKeeps (evaluate settings steps calls)) ∧
      ∀ calls, ExecutionKeeps (execute settings steps calls) := by
  induction steps with
  | zero =>
      exact ⟨fun _ _ _ _ => keeps_fail, fun _ _ _ _ => keeps_fail⟩
  | succ steps ih =>
      obtain ⟨heval, hexec⟩ := ih
      exact ⟨fun calls node _ hm => keeps_evaluateNode heval hexec calls node hm,
        fun calls node _ hm => keeps_executeNode hreports heval hexec calls node hm⟩

theorem keeps_executeEach (hreports : settings.reports = true) (steps : Nat)
    (nodes : List Node) (hm : m.Sound) :
    Keeps (executeEach settings steps nodes) m fun _ _ => True := by
  induction nodes generalizing m with
  | nil =>
      exact keeps_pure hm trivial
  | cons node nodes ih =>
      refine ((keeps_steps hreports steps).2 settings.calls node m hm).bind ?_
      intro _ m₁ hfollows _
      exact ih hfollows.sound

theorem keeps_mainFunction (hm : m.Sound) :
    Keeps mainFunction m fun h f => ∀ v, f.action = .constant v → h.Knows v :=
  ensures_mainFunction (fun _ hf => ⟨.refl hm, Chain.within_of_lookupFunction hm.scopes hf⟩)
    fun _ _ => trivial

theorem keeps_runProgram (hreports : settings.reports = true) (steps : Nat) (program : Node)
    (hm : m.Sound) : Keeps (runProgram settings steps program) m fun h v => h.Knows v := by
  unfold runProgram
  split
  · rename_i globals functions
    refine (keeps_executeEach hreports steps globals hm).bind ?_
    intro _ m₁ hfollows₁ _
    refine (keeps_executeEach hreports steps functions hfollows₁.sound).bind ?_
    intro _ m₂ hfollows₂ _
    refine (keeps_mainFunction hfollows₂.sound).bind ?_
    intro f m₃ hfollows₃ hf
    refine (keeps_note settings 1 _ hfollows₃.sound).bind ?_
    intro _ m₄ hfollows₄ _
    refine (keeps_invoke (keeps_steps hreports steps).2 settings.calls f hfollows₄.sound
      (fun v hv => hfollows₄.knows (hf v hv)) (by simp)).bind ?_
    intro value m₅ hfollows₅ hvalue
    refine (keeps_noteValue settings 1 _ value hfollows₅.sound).bind ?_
    intro _ m₆ hfollows₆ _
    exact keeps_pure hfollows₆.sound (hfollows₆.knows hvalue)
  · exact keeps_fail

end Runs

end Running
end BlockScript
