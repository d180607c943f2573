import BlockScript.Proofs.Effect
import BlockScript.Proofs.Running.Closure
import BlockScript.Proofs.Running.Propagation

/-!
# Runs without messages

A message about a value has the text of the value in it, and the text is made before the level of
the trace is looked at.  So a run whose trace has level zero does the same without its messages as
long as each value that it announces has a text (`silent_runProgram`), and where one has none it
fails there (`Announced.fails`).

The values that a run announces are those of its globals, declarations and assignments, at the
machine behind the binding or the store, and the value of `main`.
-/

namespace BlockScript

/-- The settings of a run without messages. -/
def Settings.silent (settings : Settings) : Settings := { settings with reports := false }

namespace Running

open BlockScript.Computation

section Announcements

variable {δ : Type} (settings : Settings)

/-- A point is a statement that announces a value, with the machine at which it does. -/
inductive Point.Announces : Point δ → Value → Machine → Prop
  | initial {steps calls : Nat} {name typeName : Name} {isMutable : Bool} {e : Node}
      {value : Value} {m m₁ m₂ : Machine} {d : δ} :
      evaluateOptional (evaluate settings steps calls) e m = (.ok value, m₁) →
      bindVariable name isMutable value m₁ = (.ok (), m₂) →
      Announces ⟨.statement, steps + 1, calls, .global name typeName isMutable e, m, d⟩ value m₂
  | declared {steps calls : Nat} {name typeName : Name} {e : Node} {value : Value}
      {m m₁ m₂ : Machine} {d : δ} :
      evaluateOptional (evaluate settings steps calls) e m = (.ok value, m₁) →
      bindVariable name true value m₁ = (.ok (), m₂) →
      Announces ⟨.statement, steps + 1, calls, .declaration name typeName e, m, d⟩ value m₂
  | assigned {steps calls : Nat} {name : Name} {offset e : Node} {value : Value} {v : Variable}
      {m m₁ m₂ : Machine} {d : δ} :
      evaluate settings steps calls e m = (.ok value, m₁) →
      lookupVariable name m₁ = (.ok v, m₁) → offset.isAbsent = true → v.isMutable = true →
      setVariable name value m₁ = (.ok (), m₂) →
      Announces ⟨.statement, steps + 1, calls, .assignment (.access name offset) e, m, d⟩ value m₂
  | stored {steps calls : Nat} {name : Name} {offset e : Node} {value : Value} {v : Variable}
      {r i : Nat} {m m₁ m₂ m₃ : Machine} {d : δ} :
      evaluate settings steps calls e m = (.ok value, m₁) →
      lookupVariable name m₁ = (.ok v, m₁) → offset.isAbsent = false →
      locate (evaluate settings steps calls) name v.value offset m₁ = (.ok (r, i), m₂) →
      storeItem r i value m₂ = (.ok (), m₃) →
      Announces ⟨.statement, steps + 1, calls, .assignment (.access name offset) e, m, d⟩ value m₃

/-- The run of a program announces a value: one of its statements does, or it is that of `main`. -/
inductive Announced (steps : Nat) (program : Node) (m : Machine) : Value → Machine → Prop
  | statement {p : Point Unit} {value : Value} {m' : Machine} :
      Reached settings .trivial steps program m () p → p.Announces settings value m' →
      Announced steps program m value m'
  | result {globals functions : List Node} {f : Function} {value : Value}
      {m₁ m₂ m₃ m₄ : Machine} :
      program = .source globals functions →
      executeEach settings steps globals m = (.ok (), m₁) →
      executeEach settings steps functions m₁ = (.ok (), m₂) →
      mainFunction m₂ = (.ok f, m₂) → note settings 1 "run: main" m₂ = (.ok (), m₃) →
      invoke settings (execute settings steps) settings.calls f [] m₃ = (.ok value, m₄) →
      Announced steps program m value m₄

end Announcements

section Failures

variable {settings : Settings} {value : Value} {m m' : Machine} {e : RunFailure}

/-- A message cannot be made about a value without a text. -/
theorem noteValue_error (hreports : settings.reports = true) (level : Nat) (message : String)
    (h : textOf settings m.heap value = .error e) :
    noteValue settings level message value m = (.error e, m) := by
  rw [noteValue_eq, if_pos hreports]
  refine bind_eq_error.mpr (.inl ?_)
  simp only [textHere, bind_apply, state_apply, h]
  rfl

theorem declare_error (hreports : settings.reports = true) (verb : String) {name : Name}
    {isMutable : Bool} (hbind : bindVariable name isMutable value m = (.ok (), m'))
    (h : textOf settings m'.heap value = .error e) :
    declare settings verb name isMutable value m = (.error e, m') :=
  bind_eq_error.mpr (.inr ⟨(), m', hbind,
    bind_eq_error.mpr (.inl (noteValue_error hreports 2 _ h))⟩)

/-- A statement that announces a value without a text fails. -/
theorem Point.Announces.fails {δ : Type} {p : Point δ} (hreports : settings.reports = true)
    (hp : p.Announces settings value m) (h : textOf settings m.heap value = .error e) :
    p.Fails settings e := by
  cases hp with
  | initial hvalue hbind | declared hvalue hbind =>
      exact .statement (bind_eq_error.mpr (.inr ⟨value, _, hvalue,
        declare_error hreports _ hbind h⟩))
  | @assigned steps calls name offset node _ v m₀ m₁ _ _ hvalue hv habsent hmutable hset =>
      have hassign : assign settings (evaluate settings steps calls) (.access name offset) value
          m₁ = (.error e, m) := by
        refine bind_eq_error.mpr (.inr ⟨v, m₁, hv, ?_⟩)
        rw [if_pos habsent, if_pos hmutable]
        refine bind_eq_error.mpr (.inr ⟨(), m, hset, ?_⟩)
        exact bind_eq_error.mpr (.inl (noteValue_error hreports 2 _ h))
      exact .statement (bind_eq_error.mpr (.inr ⟨value, m₁, hvalue, hassign⟩))
  | @stored steps calls name offset node _ v r i m₀ m₁ m₂ _ _ hvalue hv habsent hlocate hstore =>
      have hassign : assign settings (evaluate settings steps calls) (.access name offset) value
          m₁ = (.error e, m) := by
        refine bind_eq_error.mpr (.inr ⟨v, m₁, hv, ?_⟩)
        rw [if_neg (by simp [habsent])]
        refine bind_eq_error.mpr (.inr ⟨(r, i), m₂, hlocate, ?_⟩)
        refine bind_eq_error.mpr (.inr ⟨(), m, hstore, ?_⟩)
        exact bind_eq_error.mpr (.inl (noteValue_error hreports 2 _ h))
      exact .statement (bind_eq_error.mpr (.inr ⟨value, m₁, hvalue, hassign⟩))

/-- A run that announces a value without a text fails, with the failure of the text or with the
overflow of a call. -/
theorem Announced.fails {steps : Nat} {program : Node} {start : Machine}
    (hreports : settings.reports = true) (hv : Announced settings steps program start value m)
    (h : textOf settings m.heap value = .error e) :
    ∃ e' m', e.SeenAs e' ∧ runProgram settings steps program start = (.error e', m') := by
  cases hv with
  | statement hp hannounces => exact hp.shows (hannounces.fails hreports h)
  | result hprogram hglobals hfunctions hmain hnote hinvoke =>
      subst hprogram
      refine ⟨e, m, .rfl, ?_⟩
      refine bind_eq_error.mpr (.inr ⟨(), _, hglobals, ?_⟩)
      refine bind_eq_error.mpr (.inr ⟨(), _, hfunctions, ?_⟩)
      refine bind_eq_error.mpr (.inr ⟨_, _, hmain, ?_⟩)
      refine bind_eq_error.mpr (.inr ⟨(), _, hnote, ?_⟩)
      refine bind_eq_error.mpr (.inr ⟨value, m, hinvoke, ?_⟩)
      exact bind_eq_error.mpr (.inl (noteValue_error hreports 1 _ h))

end Failures

section Sameness

variable {α β : Type} {c c' : Running α} {m : Machine}

/-- From a machine, two computations do the same and leave the trace as it is. -/
def SameAt (c c' : Running α) (m : Machine) : Prop := c m = c' m ∧ (c m).2.trace = m.trace

/-- The trace is left as it is. -/
def KeepsTrace (m m' : Machine) : Prop := m'.trace = m.trace

instance : IsPreorder Machine KeepsTrace where
  refl _ := rfl
  trans _ _ _ h h' := h'.trans h

theorem sameAt_of_obeys (h : c.Obeys KeepsTrace) : SameAt c c m := ⟨rfl, h m⟩

theorem sameAt_pure (a : α) : SameAt (pure a) (pure a) m := ⟨rfl, rfl⟩

theorem sameAt_fail (e : RunFailure) :
    SameAt (Computation.fail e : Running α) (Computation.fail e) m := ⟨rfl, rfl⟩

theorem Aside.sameAt (h : Aside c) : SameAt c c m :=
  ⟨rfl, h.trace_eq m⟩

theorem SameAt.bind {next next' : α → Running β} (h : SameAt c c' m)
    (hnext : ∀ a m₁, c m = (.ok a, m₁) → m₁.trace = m.trace → SameAt (next a) (next' a) m₁) :
    SameAt (c >>= next) (c' >>= next') m := by
  obtain ⟨heq, htrace⟩ := h
  unfold SameAt
  rw [bind_apply, bind_apply, ← heq]
  cases hc : c m with
  | mk r m₁ =>
      rw [hc] at htrace
      cases r with
      | error e => exact ⟨rfl, htrace⟩
      | ok a =>
          obtain ⟨heq', htrace'⟩ := hnext a m₁ hc htrace
          exact ⟨heq', htrace'.trans htrace⟩

theorem SameAt.inScope (h : SameAt c c' m.enter) : SameAt (inScope c) (inScope c') m := by
  obtain ⟨heq, htrace⟩ := h
  refine ⟨?_, htrace⟩
  simp only [Running.inScope, bind_apply, change_apply, afterwards_apply, heq]

theorem SameAt.mapFailure (f : RunFailure → RunFailure) (h : SameAt c c' m) :
    SameAt (c.mapFailure f) (c'.mapFailure f) m := by
  obtain ⟨heq, htrace⟩ := h
  unfold SameAt Computation.mapFailure
  rw [← heq]
  cases hc : c m with
  | mk r m₁ =>
      rw [hc] at htrace
      cases r <;> exact ⟨rfl, htrace⟩

end Sameness

section Steps

variable {settings : Settings} {m : Machine}

theorem keepsTrace_lookupVariable (name : Name) : (lookupVariable name).Obeys KeepsTrace :=
  obeys_state.bind fun _ => obeys_lift _

theorem keepsTrace_lookupFunction (name : Name) (arity : Nat) :
    (lookupFunction name arity).Obeys KeepsTrace :=
  obeys_state.bind fun _ => obeys_lift _

theorem keepsTrace_bindVariable (name : Name) (isMutable : Bool) (value : Value) :
    (bindVariable name isMutable value).Obeys KeepsTrace :=
  obeys_state.bind fun _ => (obeys_lift _).bind fun _ _ => rfl

theorem keepsTrace_bindFunction (f : Function) : (bindFunction f).Obeys KeepsTrace :=
  obeys_state.bind fun _ => (obeys_lift _).bind fun _ _ => rfl

theorem keepsTrace_bindParameters (names : List Name) (values : List Value) :
    (bindParameters names values).Obeys KeepsTrace := by
  induction names generalizing values with
  | nil => exact obeys_pure ()
  | cons name names ih =>
      cases values with
      | nil => exact obeys_pure ()
      | cons value values => exact (keepsTrace_bindVariable name true value).bind fun _ => ih values

theorem keepsTrace_setVariable (name : Name) (value : Value) :
    (setVariable name value).Obeys KeepsTrace :=
  fun _ => rfl

theorem keepsTrace_mainFunction : mainFunction.Obeys KeepsTrace := by
  refine obeys_state.bind fun m => ?_
  split
  · exact obeys_pure _
  · exact obeys_fail _

theorem lookupVariable_snd (name : Name) (m : Machine) : (lookupVariable name m).2 = m :=
  lift_snd _ m

theorem lookupFunction_snd (name : Name) (arity : Nat) (m : Machine) :
    (lookupFunction name arity m).2 = m :=
  lift_snd _ m

theorem mainFunction_snd (m : Machine) : (mainFunction m).2 = m := by
  unfold mainFunction
  simp only [bind_apply, state_apply]
  cases m.scopes.lookupFunction "main" 0 <;> rfl

theorem requireBoolean_eq_ok {what : String} {value : Value} {b : Bool} {m' : Machine}
    (h : requireBoolean what value m = (.ok b, m')) : value = .boolean b ∧ m' = m := by
  unfold requireBoolean at h
  split at h
  · cases h
    exact ⟨rfl, rfl⟩
  · cases h

theorem requireList_eq_ok {name : Name} {value : Value} {r : Nat} {m' : Machine}
    (h : requireList name value m = (.ok r, m')) : value = .list r ∧ m' = m := by
  unfold requireList at h
  split at h
  · cases h
    exact ⟨rfl, rfl⟩
  · cases h

/-- A trace of level zero keeps no message. -/
theorem note_of_level_zero (hm : m.trace.level = 0) (level : Nat) (message : String) :
    note settings (level + 1) message m = (.ok (), m) := by
  have hnote : m.trace.note (level + 1) message = m.trace := by
    unfold Trace.note
    rw [if_neg (by omega)]
  have hrefuses : refuses settings m.trace (level + 1) message = false := by
    simp [refuses, hm]
  rw [note_apply, hrefuses, hnote]
  split <;> rfl

theorem sameAt_note (hm : m.trace.level = 0) (level : Nat) (message : String) :
    SameAt (note settings (level + 1) message) (note settings.silent (level + 1) message) m := by
  unfold SameAt
  rw [note_of_level_zero hm, note_of_level_zero hm]
  exact ⟨rfl, rfl⟩

/-- A message about a value that has a text is nothing at level zero. -/
theorem sameAt_noteValue (hm : m.trace.level = 0) (level : Nat) (message : String)
    {value : Value} (h : ∃ text, textOf settings m.heap value = .ok text) :
    SameAt (noteValue settings (level + 1) message value)
      (noteValue settings.silent (level + 1) message value) m := by
  obtain ⟨text, htext⟩ := h
  have hsilent : noteValue settings.silent (level + 1) message value m = (.ok (), m) := rfl
  unfold SameAt
  rw [hsilent, noteValue_eq]
  split
  · rw [bind_apply]
    simp only [textHere, bind_apply, state_apply, htext, lift_ok_apply]
    rw [note_of_level_zero hm]
    exact ⟨rfl, rfl⟩
  · exact ⟨rfl, rfl⟩

end Steps

section Rows

variable {m : Machine}

/-- A row of expressions does the same if each of them does behind those in front of it. -/
theorem sameAt_evaluateAll {evaluate evaluate' : Node → Running Value} {nodes : List Node}
    (h : ∀ before e behind values m₁, nodes = before ++ e :: behind →
      evaluateAll evaluate before m = (.ok values, m₁) → m₁.trace = m.trace →
      SameAt (evaluate e) (evaluate' e) m₁) :
    SameAt (evaluateAll evaluate nodes) (evaluateAll evaluate' nodes) m := by
  induction nodes generalizing m with
  | nil => exact sameAt_pure _
  | cons node nodes ih =>
      refine (h [] node nodes [] m rfl rfl rfl).bind fun value m₁ hvalue htrace => ?_
      refine (ih fun before e behind values m₂ hnodes hbefore htrace₂ => ?_).bind
        fun _ _ _ _ => sameAt_pure _
      refine h (node :: before) e behind (value :: values) m₂ (by rw [hnodes]; rfl) ?_
        (htrace₂.trans htrace)
      exact bind_eq_ok.mpr ⟨value, m₁, hvalue, bind_eq_ok.mpr ⟨values, m₂, hbefore, rfl⟩⟩

/-- A row of statements does the same if each of them does behind those in front of it. -/
theorem sameAt_executeAll {execute execute' : Node → Running Completion} {nodes : List Node}
    (h : ∀ before s behind m₁, nodes = before ++ s :: behind →
      executeAll execute before m = (.ok .finished, m₁) → m₁.trace = m.trace →
      SameAt (execute s) (execute' s) m₁) :
    SameAt (executeAll execute nodes) (executeAll execute' nodes) m := by
  induction nodes generalizing m with
  | nil => exact sameAt_pure _
  | cons node nodes ih =>
      refine (h [] node nodes m rfl rfl rfl).bind fun ending m₁ hending htrace => ?_
      cases ending with
      | returned value => exact sameAt_pure _
      | finished =>
          refine ih fun before s behind m₂ hnodes hbefore htrace₂ => ?_
          refine h (node :: before) s behind m₂ (by rw [hnodes]; rfl) ?_ (htrace₂.trans htrace)
          exact bind_eq_ok.mpr ⟨.finished, m₁, hending, hbefore⟩

theorem sameAt_executeEach {settings settings' : Settings} {steps : Nat} {nodes : List Node}
    (h : ∀ before s behind m₁, nodes = before ++ s :: behind →
      executeEach settings steps before m = (.ok (), m₁) → m₁.trace = m.trace →
      SameAt (execute settings steps settings.calls s)
        (execute settings' steps settings'.calls s) m₁) :
    SameAt (executeEach settings steps nodes) (executeEach settings' steps nodes) m := by
  induction nodes generalizing m with
  | nil => exact sameAt_pure _
  | cons node nodes ih =>
      refine (h [] node nodes m rfl rfl rfl).bind fun ending m₁ hending htrace => ?_
      refine ih fun before s behind m₂ hnodes hbefore htrace₂ => ?_
      refine h (node :: before) s behind m₂ (by rw [hnodes]; rfl) ?_ (htrace₂.trans htrace)
      exact bind_eq_ok.mpr ⟨ending, m₁, hending, hbefore⟩

end Rows

section Points

variable {settings : Settings} {steps calls : Nat} {m : Machine}

/-- Every value that is announced on the way of a point has a text. -/
def Point.Speaks (settings : Settings) (p : Point Unit) : Prop :=
  ∀ q, Relation.ReflTransGen (Part settings .trivial) p q → ∀ value m,
    q.Announces settings value m → ∃ text, textOf settings m.heap value = .ok text

theorem Point.Speaks.part {p q : Point Unit} (h : p.Speaks settings)
    (hpart : Part settings .trivial p q) : q.Speaks settings :=
  fun q' hpath => h q' (.head hpart hpath)

theorem Point.Speaks.text {p : Point Unit} {value : Value} (h : p.Speaks settings)
    (hannounces : p.Announces settings value m) :
    ∃ text, textOf settings m.heap value = .ok text :=
  h p .refl value m hannounces

/-- From every point at level zero whose values have texts, a run does the same in a number of
steps without its messages. -/
structure SilentWithin (settings : Settings) (steps : Nat) : Prop where
  evaluate : ∀ {calls : Nat} {node : Node} {m : Machine}, m.trace.level = 0 →
    Point.Speaks settings ⟨.expression, steps, calls, node, m, ()⟩ →
    SameAt (evaluate settings steps calls node) (evaluate settings.silent steps calls node) m
  execute : ∀ {calls : Nat} {node : Node} {m : Machine}, m.trace.level = 0 →
    Point.Speaks settings ⟨.statement, steps, calls, node, m, ()⟩ →
    SameAt (execute settings steps calls node) (execute settings.silent steps calls node) m

section Expressions

variable (ih : SilentWithin settings steps) (hm : m.trace.level = 0)
include ih hm

/-- The second operand of `&&` and `||` is evaluated where the first one leaves it open. -/
theorem silent_secondTruth {operator : String} {r : Node}
    (h : Point.Speaks settings ⟨.expression, steps, calls, r, m, ()⟩) :
    SameAt (secondTruth (evaluate settings steps calls) operator r)
      (secondTruth (evaluate settings.silent steps calls) operator r) m :=
  (ih.evaluate hm h).bind fun value _ _ _ =>
    (aside_requireBoolean operator value).sameAt.bind fun _ _ _ _ => sameAt_pure _

theorem silent_evaluateBinary {operator : Name} {l r : Node}
    (h : Point.Speaks settings ⟨.expression, steps + 1, calls, .binary operator l r, m, ()⟩) :
    SameAt (evaluateBinary settings (evaluate settings steps calls) operator.text l r)
      (evaluateBinary settings.silent (evaluate settings.silent steps calls) operator.text l r)
      m := by
  refine (ih.evaluate hm (h.part .left)).bind fun a m₁ hleft htrace => ?_
  have hm₁ : m₁.trace.level = 0 := htrace ▸ hm
  by_cases hand : operator.text = "&&"
  · rw [if_pos hand, if_pos hand]
    refine (aside_requireBoolean operator.text a).sameAt.bind fun truth m₂ htruth _ => ?_
    obtain ⟨rfl, rfl⟩ := requireBoolean_eq_ok htruth
    cases truth with
    | false => exact sameAt_pure _
    | true =>
        exact silent_secondTruth ih hm₁ (h.part (.right hleft (fun _ => rfl) fun hor =>
          absurd (hand.symm.trans hor) (by decide)))
  rw [if_neg hand, if_neg hand]
  by_cases hor : operator.text = "||"
  · rw [if_pos hor, if_pos hor]
    refine (aside_requireBoolean operator.text a).sameAt.bind fun truth m₂ htruth _ => ?_
    obtain ⟨rfl, rfl⟩ := requireBoolean_eq_ok htruth
    cases truth with
    | true => exact sameAt_pure _
    | false =>
        exact silent_secondTruth ih hm₁ (h.part (.right hleft (fun h => absurd h hand)
          fun _ => rfl))
  · rw [if_neg hor, if_neg hor]
    have hright := h.part (.right hleft (fun h => absurd h hand) fun h => absurd h hor)
    refine (ih.evaluate hm₁ hright).bind fun b m₂ _ _ => ?_
    exact (aside_applyOperator settings operator.text a b).sameAt

theorem silent_locate {name : Name} {value : Value} {offset : Node}
    (h : ∀ r, value = .list r →
      Point.Speaks settings ⟨.expression, steps, calls, offset, m, ()⟩) :
    SameAt (locate (evaluate settings steps calls) name value offset)
      (locate (evaluate settings.silent steps calls) name value offset) m := by
  refine (aside_requireList name value).sameAt.bind fun r m₁ hr _ => ?_
  obtain ⟨hvalue, rfl⟩ := requireList_eq_ok hr
  refine (ih.evaluate hm (h r hvalue)).bind fun index m₂ _ _ => ?_
  exact (aside_requireIndex r index).sameAt.bind fun _ _ _ _ => sameAt_pure _

theorem silent_evaluateAccess {name : Name} {offset : Node}
    (h : Point.Speaks settings ⟨.expression, steps + 1, calls, .access name offset, m, ()⟩) :
    SameAt (evaluateAccess (evaluate settings steps calls) name offset)
      (evaluateAccess (evaluate settings.silent steps calls) name offset) m := by
  refine (sameAt_of_obeys (keepsTrace_lookupVariable name)).bind fun v m₁ hv _ => ?_
  obtain rfl : m₁ = m := by rw [← lookupVariable_snd name m, hv]
  cases habsent : offset.isAbsent with
  | true => exact sameAt_pure _
  | false =>
      refine (silent_locate ih hm fun r hr => h.part (.offset habsent hv hr)).bind
        fun place m₂ _ _ => ?_
      exact (aside_itemAt place.1 place.2).sameAt

theorem silent_invoke {f : Function} {values : List Value}
    (h : ∀ calls' parameters before s behind m₁ m₂, calls = calls' + 1 →
      f.action = .declared parameters (before ++ s :: behind) →
      bindParameters parameters values m.enter = (.ok (), m₁) →
      executeAll (execute settings steps calls') before m₁ = (.ok .finished, m₂) →
      Point.Speaks settings ⟨.statement, steps, calls', s, m₂, ()⟩) :
    SameAt (invoke settings (execute settings steps) calls f values)
      (invoke settings.silent (execute settings.silent steps) calls f values) m := by
  unfold invoke
  split
  · exact (aside_print settings values).sameAt
  · exact sameAt_pure _
  · exact (aside_makeList values).sameAt
  · rename_i parameters body haction
    cases calls with
    | zero => exact sameAt_fail _
    | succ calls =>
        refine SameAt.inScope ?_
        refine (sameAt_of_obeys (keepsTrace_bindParameters parameters values)).bind
          fun _ m₁ hbind htrace => ?_
        refine SameAt.bind (sameAt_executeAll fun before s behind m₂ hbody hbefore htrace₂ => ?_)
          fun _ _ _ _ => sameAt_pure _
        have hlevel : m₂.trace.level = 0 := by
          rw [htrace₂, htrace]
          exact hm
        exact ih.execute hlevel (h calls parameters before s behind m₁ m₂ rfl
          (hbody ▸ haction) hbind hbefore)

theorem silent_evaluateCall {name : Name} {arguments : List Node}
    (h : Point.Speaks settings ⟨.expression, steps + 1, calls, .call name arguments, m, ()⟩) :
    SameAt (evaluateCall settings (evaluate settings steps calls) (execute settings steps) calls
        name arguments)
      (evaluateCall settings.silent (evaluate settings.silent steps calls)
        (execute settings.silent steps) calls name arguments) m := by
  have harguments : SameAt (evaluateAll (evaluate settings steps calls) arguments)
      (evaluateAll (evaluate settings.silent steps calls) arguments) m := by
    refine sameAt_evaluateAll fun before e behind values m₁ hnodes hbefore htrace => ?_
    subst hnodes
    exact ih.evaluate (htrace ▸ hm) (h.part (.argument hbefore))
  refine harguments.bind fun values m₁ hvalues htrace => ?_
  refine (sameAt_of_obeys (keepsTrace_lookupFunction name values.length)).bind
    fun f m₂ hf _ => ?_
  obtain rfl : m₂ = m₁ := by rw [← lookupFunction_snd name values.length m₁, hf]
  have hm₁ : m₂.trace.level = 0 := htrace ▸ hm
  refine (sameAt_note hm₁ 0 _).bind fun _ m₃ hnote htrace₃ => SameAt.mapFailure _ ?_
  refine silent_invoke ih (htrace₃ ▸ hm₁) fun calls' parameters before s behind m₄ m₅ hcalls
    haction hbind hbefore => ?_
  subst hcalls
  have hpart : Part settings .trivial
      ⟨.expression, steps + 1, calls' + 1, .call name arguments, m, ()⟩
      ⟨.statement, steps, calls', s, m₅, Companion.trivial.afterAll before ()⟩ :=
    .body hvalues hf haction hnote hbind hbefore trivial
  exact h.part hpart

theorem silent_evaluateNode {node : Node}
    (h : Point.Speaks settings ⟨.expression, steps + 1, calls, node, m, ()⟩) :
    SameAt (evaluate settings (steps + 1) calls node)
      (evaluate settings.silent (steps + 1) calls node) m := by
  cases node with
  | literal value => exact (aside_literalValue value).sameAt
  | group expression => exact ih.evaluate hm (h.part .group)
  | binary operator left right => exact silent_evaluateBinary ih hm h
  | access name offset => exact silent_evaluateAccess ih hm h
  | call name arguments => exact silent_evaluateCall ih hm h
  | list elements =>
      refine SameAt.bind (sameAt_evaluateAll
        fun before e behind values m₁ hnodes hbefore htrace => ?_) fun values _ _ _ =>
          (aside_makeList values).sameAt
      subst hnodes
      exact ih.evaluate (htrace ▸ hm) (h.part (.element hbefore))
  | _ => exact sameAt_fail _

end Expressions

section Statements

variable (ih : SilentWithin settings steps) (hm : m.trace.level = 0)
include ih hm

theorem silent_evaluateOptional {node : Node}
    (h : node.isAbsent = false → Point.Speaks settings ⟨.expression, steps, calls, node, m, ()⟩) :
    SameAt (evaluateOptional (evaluate settings steps calls) node)
      (evaluateOptional (evaluate settings.silent steps calls) node) m := by
  unfold evaluateOptional
  cases habsent : node.isAbsent with
  | true => exact sameAt_pure _
  | false => exact ih.evaluate hm (h habsent)

omit ih in
theorem silent_declare {verb : String} {name : Name} {isMutable : Bool} {value : Value}
    (h : ∀ m', bindVariable name isMutable value m = (.ok (), m') →
      ∃ text, textOf settings m'.heap value = .ok text) :
    SameAt (declare settings verb name isMutable value)
      (declare settings.silent verb name isMutable value) m := by
  refine (sameAt_of_obeys (keepsTrace_bindVariable name isMutable value)).bind
    fun _ m₁ hbind htrace => ?_
  exact (sameAt_noteValue (htrace ▸ hm) 1 _ (h m₁ hbind)).bind fun _ _ _ _ => sameAt_pure _

theorem silent_assignment {target node : Node}
    (h : Point.Speaks settings ⟨.statement, steps + 1, calls, .assignment target node, m, ()⟩) :
    SameAt (execute settings (steps + 1) calls (.assignment target node))
      (execute settings.silent (steps + 1) calls (.assignment target node)) m := by
  refine (ih.evaluate hm (h.part .assigned)).bind fun value m₁ hvalue htrace => ?_
  have hm₁ : m₁.trace.level = 0 := htrace ▸ hm
  cases target with
  | access name offset =>
      refine (sameAt_of_obeys (keepsTrace_lookupVariable name)).bind fun v m₂ hv _ => ?_
      obtain rfl : m₂ = m₁ := by rw [← lookupVariable_snd name m₁, hv]
      cases habsent : offset.isAbsent with
      | true =>
          cases hmutable : v.isMutable with
          | false => exact sameAt_fail _
          | true =>
              refine (sameAt_of_obeys (keepsTrace_setVariable name value)).bind
                fun _ m₃ hset htrace₃ => ?_
              have htext := h.text (.assigned hvalue hv habsent hmutable hset)
              exact (sameAt_noteValue (htrace₃ ▸ hm₁) 1 _ htext).bind
                fun _ _ _ _ => sameAt_pure _
      | false =>
          refine (silent_locate ih hm₁ fun r hr =>
            h.part (.targetOffset hvalue habsent hv hr)).bind fun place m₃ hplace htrace₃ => ?_
          refine (aside_storeItem place.1 place.2 value).sameAt.bind
            fun _ m₄ hstore htrace₄ => ?_
          have htext := h.text (.stored hvalue hv habsent hplace hstore)
          have hm₄ : m₄.trace.level = 0 := by
            rw [htrace₄, htrace₃]
            exact hm₁
          exact (sameAt_noteValue hm₄ 1 _ htext).bind fun _ _ _ _ => sameAt_pure _
  | _ => first
      | exact (sameAt_of_obeys (keepsTrace_lookupVariable _)).bind fun _ _ _ _ => sameAt_fail _
      | exact sameAt_fail _

theorem silent_executeConditional {c : Node} {thenBody elseBody : List Node}
    (h : Point.Speaks settings
      ⟨.statement, steps + 1, calls, .conditional c thenBody elseBody, m, ()⟩) :
    SameAt (execute settings (steps + 1) calls (.conditional c thenBody elseBody))
      (execute settings.silent (steps + 1) calls (.conditional c thenBody elseBody)) m := by
  refine (ih.evaluate hm (h.part .condition)).bind fun value m₁ hc htrace => ?_
  refine (aside_requireBoolean "IF" value).sameAt.bind fun b m₂ hb _ => ?_
  obtain ⟨rfl, rfl⟩ := requireBoolean_eq_ok hb
  have hm₁ : m₂.trace.level = 0 := htrace ▸ hm
  refine (sameAt_note hm₁ 2 _).bind fun _ m₃ hnote htrace₃ => SameAt.inScope ?_
  refine sameAt_executeAll fun before s behind m₄ hbody hbefore htrace₄ => ?_
  have hm₄ : m₄.trace.level = 0 := by
    rw [htrace₄]
    exact htrace₃ ▸ hm₁
  exact ih.execute hm₄ (h.part (.branch hc hnote hbody hbefore))

theorem silent_executeLoop {c : Node} {body : List Node}
    (h : Point.Speaks settings ⟨.statement, steps + 1, calls, .loop c body, m, ()⟩) :
    SameAt (execute settings (steps + 1) calls (.loop c body))
      (execute settings.silent (steps + 1) calls (.loop c body)) m := by
  refine (ih.evaluate hm (h.part .repeated)).bind fun value m₁ hc htrace => ?_
  refine (aside_requireBoolean "WHILE" value).sameAt.bind fun b m₂ hb _ => ?_
  obtain ⟨rfl, rfl⟩ := requireBoolean_eq_ok hb
  have hm₁ : m₂.trace.level = 0 := htrace ▸ hm
  cases b with
  | false => exact sameAt_pure _
  | true =>
      have hbody : SameAt (inScope (executeAll (execute settings steps calls) body))
          (inScope (executeAll (execute settings.silent steps calls) body)) m₂ := by
        refine SameAt.inScope ?_
        refine sameAt_executeAll fun before s behind m₃ hnodes hbefore htrace₃ => ?_
        subst hnodes
        have hm₃ : m₃.trace.level = 0 := by
          rw [htrace₃]
          exact hm₁
        exact ih.execute hm₃ (h.part (.iteration hc hbefore))
      refine hbody.bind fun ending m₃ hending htrace₃ => ?_
      cases ending with
      | returned value => exact sameAt_pure _
      | finished => exact ih.execute (htrace₃ ▸ hm₁) (h.part (.again hc hending))

omit ih hm in
theorem Passed.concat {evaluate : Node → Running Value} {value : Value} {arms : List Node}
    {arm node : Node} {m₁ m₂ m₃ : Machine} (h : Passed settings evaluate value arms m₁ m₂)
    (harm : arm.valuePart = .tree node)
    (hmeets : meets settings evaluate value node m₂ = (.ok false, m₃)) :
    Passed settings evaluate value (arms ++ [arm]) m₁ m₃ := by
  induction h with
  | nil => exact .cons harm hmeets .nil
  | cons harm' hmeets' _ ih => exact .cons harm' hmeets' (ih hmeets)

/-- The cases behind those that were not chosen do the same. -/
theorem silent_select {c : Node} {before arms : List Node} {value : Value} {m₀ m₁ m₂ : Machine}
    (h : Point.Speaks settings ⟨.statement, steps + 1, calls, .switch c (before ++ arms), m₀, ()⟩)
    (hc : evaluate settings steps calls c m₀.enter = (.ok value, m₁))
    (hbind : bindVariable switchName true value m₁ = (.ok (), m₂))
    (hbefore : Passed settings (evaluate settings steps calls) value before m₂ m) :
    SameAt
      (select settings (evaluate settings steps calls) (execute settings steps calls) value
        before.length arms)
      (select settings.silent (evaluate settings.silent steps calls)
        (execute settings.silent steps calls) value before.length arms) m := by
  induction arms generalizing before m with
  | nil => exact sameAt_pure _
  | cons arm arms harms =>
      unfold select
      cases harm : arm.valuePart with
      | missing => exact sameAt_fail _
      | scalar s => exact sameAt_fail _
      | tree node =>
          have hmeets : SameAt (meets settings (evaluate settings steps calls) value node)
              (meets settings.silent (evaluate settings.silent steps calls) value node) m := by
            unfold meets
            cases habsent : node.isAbsent with
            | true => exact sameAt_pure _
            | false =>
                refine (ih.evaluate hm (h.part (.compared hc hbind hbefore harm habsent))).bind
                  fun v _ _ _ => ?_
                exact (aside_equalHere settings value v).sameAt
          refine hmeets.bind fun b m₃ hb htrace => ?_
          have hm₃ : m₃.trace.level = 0 := htrace ▸ hm
          cases b with
          | true =>
              refine (sameAt_note hm₃ 2 _).bind fun _ m₄ hnote htrace₄ => ?_
              exact ih.execute (htrace₄ ▸ hm₃)
                (h.part (.chosen hc hbind hbefore harm hb rfl hnote))
          | false =>
              have hswitch : Point.Speaks settings
                  ⟨.statement, steps + 1, calls, .switch c ((before ++ [arm]) ++ arms), m₀, ()⟩ :=
                by rwa [List.append_assoc]
              have hrest := harms hm₃ hswitch (hbefore.concat harm hb)
              rwa [List.length_append] at hrest

theorem silent_executeSwitch {c : Node} {arms : List Node}
    (h : Point.Speaks settings ⟨.statement, steps + 1, calls, .switch c arms, m, ()⟩) :
    SameAt (execute settings (steps + 1) calls (.switch c arms))
      (execute settings.silent (steps + 1) calls (.switch c arms)) m := by
  have hsubject : Point.Speaks settings ⟨.expression, steps, calls, c, m.enter, ()⟩ :=
    h.part .subject
  have henter : m.enter.trace.level = 0 := hm
  refine SameAt.inScope ((ih.evaluate henter hsubject).bind fun value m₁ hc htrace => ?_)
  refine (sameAt_of_obeys (keepsTrace_bindVariable switchName true value)).bind
    fun _ m₂ hbind htrace₂ => ?_
  have hm₂ : m₂.trace.level = 0 := by
    rw [htrace₂, htrace]
    exact henter
  have hnone : Point.Speaks settings
      ⟨.statement, steps + 1, calls, .switch c ([] ++ arms), m, ()⟩ := h
  exact silent_select ih hm₂ hnone hc hbind .nil

theorem silent_executeNode {node : Node}
    (h : Point.Speaks settings ⟨.statement, steps + 1, calls, node, m, ()⟩) :
    SameAt (execute settings (steps + 1) calls node)
      (execute settings.silent (steps + 1) calls node) m := by
  cases node with
  | «global» name typeName isMutable value =>
      refine (silent_evaluateOptional ih hm fun habsent => h.part (.initial habsent)).bind
        fun v m₁ hvalue htrace => ?_
      exact silent_declare (htrace ▸ hm) fun m' hbind => h.text (.initial hvalue hbind)
  | declaration name typeName value =>
      refine (silent_evaluateOptional ih hm fun habsent => h.part (.declared habsent)).bind
        fun v m₁ hvalue htrace => ?_
      exact silent_declare (htrace ▸ hm) fun m' hbind => h.text (.declared hvalue hbind)
  | function name parameters parameterTypes returnType body =>
      refine (sameAt_of_obeys (keepsTrace_bindFunction _)).bind fun _ m₁ _ htrace => ?_
      exact (sameAt_note (htrace ▸ hm) 1 _).bind fun _ _ _ _ => sameAt_pure _
  | evaluation expression =>
      exact (ih.evaluate hm (h.part .evaluated)).bind fun _ _ _ _ => sameAt_pure _
  | assignment target value => exact silent_assignment ih hm h
  | conditional condition thenBody elseBody => exact silent_executeConditional ih hm h
  | loop condition body => exact silent_executeLoop ih hm h
  | switch condition arms => exact silent_executeSwitch ih hm h
  | arm value body =>
      refine SameAt.inScope (sameAt_executeAll fun before s behind m₁ hnodes hbefore htrace => ?_)
      subst hnodes
      have hm₁ : m₁.trace.level = 0 := by
        rw [htrace]
        exact hm
      exact ih.execute hm₁ (h.part (.armBody hbefore))
  | returning value =>
      exact (silent_evaluateOptional ih hm fun habsent => h.part (.returned habsent)).bind
        fun _ _ _ _ => sameAt_pure _
  | _ => exact sameAt_fail _

end Statements

theorem silentWithin (settings : Settings) (steps : Nat) : SilentWithin settings steps := by
  induction steps with
  | zero => exact ⟨fun _ _ => sameAt_fail _, fun _ _ => sameAt_fail _⟩
  | succ steps ih =>
      exact ⟨fun hm h => silent_evaluateNode ih hm h, fun hm h => silent_executeNode ih hm h⟩

end Points

section Programs

variable {settings : Settings} {steps : Nat} {m : Machine}

/-- Every value that the run of a program announces has a text. -/
def Speaks (settings : Settings) (steps : Nat) (program : Node) (m : Machine) : Prop :=
  ∀ value m', Announced settings steps program m value m' →
    ∃ text, textOf settings m'.heap value = .ok text

theorem Speaks.starts {program : Node} {p : Point Unit} (h : Speaks settings steps program m)
    (hp : Starts settings .trivial steps program m () p) : p.Speaks settings :=
  fun _ hpath value m' hannounces => h value m' (.statement ⟨p, hp, hpath⟩ hannounces)

/-- A run at level zero does the same without its messages if each value that it announces has
a text. -/
theorem silent_runProgram {program : Node} (hm : m.trace.level = 0)
    (h : Speaks settings steps program m) :
    SameAt (runProgram settings steps program) (runProgram settings.silent steps program) m := by
  cases program with
  | source globals functions =>
      have hglobals : SameAt (executeEach settings steps globals)
          (executeEach settings.silent steps globals) m := by
        refine sameAt_executeEach fun before s behind m₁ hnodes hbefore htrace => ?_
        subst hnodes
        exact (silentWithin settings steps).execute (htrace ▸ hm) (h.starts (.global rfl hbefore))
      refine hglobals.bind fun _ m₁ hglobals htrace => ?_
      have hm₁ : m₁.trace.level = 0 := htrace ▸ hm
      have hfunctions : SameAt (executeEach settings steps functions)
          (executeEach settings.silent steps functions) m₁ := by
        refine sameAt_executeEach fun before s behind m₂ hnodes hbefore htrace => ?_
        subst hnodes
        exact (silentWithin settings steps).execute (htrace ▸ hm₁)
          (h.starts (.function rfl hglobals hbefore))
      refine hfunctions.bind fun _ m₂ hfunctions htrace₂ => ?_
      have hm₂ : m₂.trace.level = 0 := htrace₂ ▸ hm₁
      refine (sameAt_of_obeys keepsTrace_mainFunction).bind fun f m₃ hf _ => ?_
      obtain rfl : m₃ = m₂ := by rw [← mainFunction_snd m₂, hf]
      refine (sameAt_note hm₂ 0 _).bind fun _ m₄ hnote htrace₄ => ?_
      have hm₄ : m₄.trace.level = 0 := htrace₄ ▸ hm₂
      have hinvoke : SameAt (invoke settings (execute settings steps) settings.calls f [])
          (invoke settings.silent (execute settings.silent steps) settings.calls f []) m₄ := by
        refine silent_invoke (silentWithin settings steps) hm₄
          fun calls' parameters before s behind m₅ m₆ hcalls haction hbind hbefore => ?_
        have hstarts : Starts settings .trivial steps (.source globals functions) m ()
            ⟨.statement, steps, calls', s, m₆, Companion.trivial.afterAll before ()⟩ :=
          .main rfl hglobals hfunctions hf haction hnote hcalls hbind hbefore trivial
        exact h.starts hstarts
      refine hinvoke.bind fun value m₅ hvalue htrace₅ => ?_
      have htext := h value m₅ (.result rfl hglobals hfunctions hf hnote hvalue)
      exact (sameAt_noteValue (htrace₅ ▸ hm₄) 0 _ htext).bind fun _ _ _ _ => sameAt_pure _
  | _ => exact sameAt_fail _

end Programs

end Running
end BlockScript
