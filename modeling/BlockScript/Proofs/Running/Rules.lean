import BlockScript.Proofs.Outcome
import BlockScript.Proofs.Running.Operations
import BlockScript.Running.Program

/-!
# What the steps of the machine ensure

One rule for each step: what has to hold before it, so that a condition holds behind it.
-/

namespace BlockScript
namespace Running

open BlockScript.Computation

variable {m : Machine} {accepted : RunFailure → Prop}

section Notes

theorem refuses_iff {settings : Settings} {trace : Trace} {level : Nat} {message : String} :
    refuses settings trace level message = true ↔
      settings.strict = true ∧ level ≤ trace.level ∧ Text.isWritable message = false := by
  simp [refuses, and_assoc]

/-- A message that can be written, where it has to be, is never refused. -/
theorem refuses_eq_false {settings : Settings} {message : String}
    (h : settings.strict = true → Text.isWritable message = true) (trace : Trace) (level : Nat) :
    refuses settings trace level message = false := by
  rw [← Bool.not_eq_true, refuses_iff]
  rintro ⟨hstrict, -, hmessage⟩
  exact Bool.false_ne_true (hmessage.symm.trans (h hstrict))

theorem note_apply (settings : Settings) (level : Nat) (message : String) (m : Machine) :
    note settings level message m =
      if settings.reports = false then (.ok (), m)
      else if refuses settings m.trace level message = true then (.error .unwritable, m)
      else (.ok (), { m with trace := m.trace.note level message }) := by
  unfold note
  cases settings.reports <;> rfl

theorem ensures_note {settings : Settings} {level : Nat} {message : String}
    {post : Unit → Machine → Prop} (hpost : ∀ trace, post () { m with trace := trace })
    (hfail : settings.strict = true → accepted .unwritable) :
    (note settings level message).Ensures m post accepted := by
  refine ensures_iff.mpr ⟨?_, ?_⟩
  · intro u m' h
    rw [note_apply] at h
    split at h
    · cases h
      exact hpost m.trace
    · split at h
      · cases h
      · cases h
        exact hpost _
  · intro e m' h
    rw [note_apply] at h
    split at h
    · cases h
    · split at h
      · rename_i hrefuses
        cases h
        exact hfail (refuses_iff.mp hrefuses).1
      · cases h

theorem ensures_noteValue {settings : Settings} {level : Nat} {message : String} {value : Value}
    {post : Unit → Machine → Prop}
    (hpost : ∀ trace,
      (settings.reports = true → ∃ text, m.heap.text settings.nesting value = .ok text) →
        post () { m with trace := trace })
    (htext : ∀ e, textOf settings m.heap value = .error e → accepted e)
    (hfail : settings.strict = true → accepted .unwritable) :
    (noteValue settings level message value).Ensures m post accepted := by
  unfold noteValue
  by_cases hreports : settings.reports = true
  · rw [if_pos hreports]
    refine Ensures.ofState ?_
    have hmid : (lift (textOf settings m.heap value) : Running String).Ensures m
        (fun _ m' => m' = m ∧ ∃ text, m.heap.text settings.nesting value = .ok text) accepted := by
      refine ensures_lift ?_ htext
      intro text hok
      exact ⟨rfl, text, textOf_eq_ok.mp hok⟩
    refine hmid.bind ?_
    rintro text m' ⟨hm', hwritten⟩
    subst hm'
    exact ensures_note (fun trace => hpost trace fun _ => hwritten) hfail
  · rw [if_neg hreports]
    exact ensures_pure (hpost m.trace fun h => absurd h hreports)

end Notes

section Scopes

theorem ensures_inScope {α : Type} {c : Running α} {post : α → Machine → Prop}
    (h : c.Ensures m.enter (fun a m' => post a m'.leave) accepted) :
    (inScope c).Ensures m post accepted := by
  unfold inScope
  exact h.afterwards

/-- Something is found or bound where there is a binding, and a name that can have one. -/
theorem boundUnder_eq_ok {α : Type} {name : Name} {binding : Except ScopeFault α} {a : α} :
    boundUnder name binding = .ok a ↔ name.isBindable = true ∧ binding = .ok a := by
  unfold boundUnder
  cases binding <;> split <;> simp_all [bound, raise]

theorem boundUnder_eq_error {α : Type} {name : Name} {binding : Except ScopeFault α}
    {e : RunFailure} (h : boundUnder name binding = .error e) :
    (∃ fault, binding = .error fault ∧ e = .raised (.scope fault)) ∨ e = .wrongShape := by
  unfold boundUnder at h
  split at h
  · cases binding with
    | ok a => cases h
    | error fault =>
        cases h
        exact .inl ⟨fault, rfl, rfl⟩
  · cases h
    exact .inr rfl

theorem lookupVariable_of_chain {name : Name} {v : Variable} (hname : name.isBindable = true)
    (h : m.scopes.lookupVariable name = .ok v) : lookupVariable name m = (.ok v, m) := by
  refine bind_eq_ok.mpr ⟨m, m, rfl, ?_⟩
  rw [boundUnder_eq_ok.mpr ⟨hname, h⟩]
  rfl

theorem lookupFunction_of_chain {name : Name} {arity : Nat} {f : Function}
    (hname : name.isBindable = true) (h : m.scopes.lookupFunction name arity = .ok f) :
    lookupFunction name arity m = (.ok f, m) := by
  refine bind_eq_ok.mpr ⟨m, m, rfl, ?_⟩
  rw [boundUnder_eq_ok.mpr ⟨hname, h⟩]
  rfl

theorem ensures_boundUnder {α : Type} {name : Name} {binding : Except ScopeFault α}
    {post : α → Machine → Prop} (hok : ∀ a, binding = .ok a → post a m)
    (hfault : ∀ fault, binding = .error fault → accepted (.raised (.scope fault)))
    (hshape : accepted .wrongShape) :
    (lift (boundUnder name binding) : Running α).Ensures m post accepted := by
  refine ensures_lift (fun a ha => hok a (boundUnder_eq_ok.mp ha).2) fun e he => ?_
  rcases boundUnder_eq_error he with ⟨fault, hbinding, rfl⟩ | rfl
  · exact hfault fault hbinding
  · exact hshape

theorem ensures_lookupVariable {name : Name} {post : Variable → Machine → Prop}
    (hok : ∀ v, m.scopes.lookupVariable name = .ok v → post v m)
    (hfault : ∀ fault, m.scopes.lookupVariable name = .error fault →
      accepted (.raised (.scope fault)))
    (hshape : accepted .wrongShape) :
    (lookupVariable name).Ensures m post accepted := by
  unfold lookupVariable
  refine Ensures.ofState ?_
  exact ensures_boundUnder hok hfault hshape

theorem ensures_lookupFunction {name : Name} {arity : Nat} {post : Function → Machine → Prop}
    (hok : ∀ f, m.scopes.lookupFunction name arity = .ok f → post f m)
    (hfault : ∀ fault, m.scopes.lookupFunction name arity = .error fault →
      accepted (.raised (.scope fault)))
    (hshape : accepted .wrongShape) :
    (lookupFunction name arity).Ensures m post accepted := by
  unfold lookupFunction
  refine Ensures.ofState ?_
  exact ensures_boundUnder hok hfault hshape

/-- The variable that a program binds. -/
def boundVariable (name : Name) (isMutable : Bool) (value : Value) : Variable :=
  ⟨name, name, some .any, isMutable, value⟩

theorem ensures_bindVariable {name : Name} {isMutable : Bool} {value : Value}
    {post : Unit → Machine → Prop}
    (hok : ∀ scopes, m.scopes.defineVariable (boundVariable name isMutable value) = .ok scopes →
      post () { m with scopes := scopes })
    (hfault : ∀ fault,
      m.scopes.defineVariable (boundVariable name isMutable value) = .error fault →
        accepted (.raised (.scope fault)))
    (hshape : accepted .wrongShape) :
    (bindVariable name isMutable value).Ensures m post accepted := by
  unfold bindVariable
  refine Ensures.ofState ?_
  have hdefine : (lift (boundUnder name
      (m.scopes.defineVariable (boundVariable name isMutable value))) : Running Chain).Ensures m
      (fun scopes m' => m' = m ∧
        m.scopes.defineVariable (boundVariable name isMutable value) = .ok scopes) accepted :=
    ensures_boundUnder (fun scopes h => ⟨rfl, h⟩) hfault hshape
  refine hdefine.bind ?_
  rintro scopes m' ⟨hm', h⟩
  subst hm'
  exact ensures_change (hok scopes h)

theorem ensures_bindFunction {f : Function} {post : Unit → Machine → Prop}
    (hok : ∀ scopes, m.scopes.defineFunction f = .ok scopes →
      post () { m with scopes := scopes })
    (hfault : ∀ fault, m.scopes.defineFunction f = .error fault →
      accepted (.raised (.scope fault)))
    (hshape : accepted .wrongShape) :
    (bindFunction f).Ensures m post accepted := by
  unfold bindFunction
  refine Ensures.ofState ?_
  have hdefine : (lift (boundUnder f.name (m.scopes.defineFunction f)) : Running Chain).Ensures m
      (fun scopes m' => m' = m ∧ m.scopes.defineFunction f = .ok scopes) accepted :=
    ensures_boundUnder (fun scopes h => ⟨rfl, h⟩) hfault hshape
  refine hdefine.bind ?_
  rintro scopes m' ⟨hm', h⟩
  subst hm'
  exact ensures_change (hok scopes h)

theorem ensures_mainFunction {post : Function → Machine → Prop}
    (hok : ∀ f, m.scopes.lookupFunction "main" 0 = .ok f → post f m)
    (hmissing : ∀ fault, m.scopes.lookupFunction "main" 0 = .error fault →
      accepted (.raised .missingMain)) :
    mainFunction.Ensures m post accepted := by
  unfold mainFunction
  refine Ensures.ofState ?_
  cases hmain : m.scopes.lookupFunction "main" 0 with
  | ok f => exact ensures_pure (hok f hmain)
  | error fault => exact ensures_fail (hmissing fault hmain)

end Scopes

section Demands

theorem ensures_requireBoolean {what : String} {value : Value} {post : Bool → Machine → Prop}
    (hok : ∀ b, value = .boolean b → post b m)
    (hfault : (∀ b, value ≠ .boolean b) → accepted (.raised (.notBoolean what value.type))) :
    (requireBoolean what value).Ensures m post accepted := by
  unfold requireBoolean
  split
  · rename_i b
    exact ensures_pure (hok b rfl)
  · rename_i hnot
    exact ensures_fail (hfault fun b hb => hnot b hb)

theorem ensures_requireList {name : Name} {value : Value} {post : Nat → Machine → Prop}
    (hok : ∀ r, value = .list r → post r m)
    (hfault : (∀ r, value ≠ .list r) → accepted (.raised (.notIndexable name.text value.type))) :
    (requireList name value).Ensures m post accepted := by
  unfold requireList
  split
  · rename_i r
    exact ensures_pure (hok r rfl)
  · rename_i hnot
    exact ensures_fail (hfault fun r hr => hnot r hr)

theorem ensures_requireIndex {reference : Nat} {value : Value} {post : Nat → Machine → Prop}
    (hok : ∀ i, i < (m.heap.items reference).length → post i m)
    (hrange : ∀ numeral, accepted (.raised (.indexOutOfRange numeral)))
    (hnumeral : accepted .numeral) (hinteger : accepted (.raised .indexNotInteger)) :
    (requireIndex reference value).Ensures m post accepted := by
  unfold requireIndex
  split
  · rename_i n
    refine Ensures.ofState ?_
    by_cases hn : 0 ≤ n ∧ n < (m.heap.items reference).length
    · rw [if_pos hn]
      exact ensures_pure (hok n.toNat (by omega))
    · rw [if_neg hn]
      split
      · exact ensures_fail (hrange _)
      · exact ensures_fail hnumeral
  · exact ensures_fail hinteger

end Demands

section Literals

theorem literalValue_eq_pure {s : Scalar} (hs : ∀ items place, s ≠ .foreign (.array items) place) :
    literalValue s = pure (.scalar s) := by
  cases s with
  | foreign value place =>
      cases value with
      | array items => exact absurd rfl (hs items place)
      | _ => rfl
  | _ => rfl

theorem literalValue_array_apply (items : List Json) (place : List Nat) (m : Machine) :
    literalValue (.foreign (.array items) place) m =
      match m.loaded.lookup place with
      | some value => (.ok value, m)
      | none => (.ok (m.heap.load (.array items)).1,
          { m with
            heap := (m.heap.load (.array items)).2
            loaded := (place, (m.heap.load (.array items)).1) :: m.loaded }) := by
  rfl

end Literals

end Running
end BlockScript
