import BlockScript.Proofs.Agreement.Expressions
import BlockScript.Proofs.Typing.Declarations

/-!
# Bodies and calls agree with their check

The body of a function was checked below the root, with its parameters in a scope of their
own.  A call opens this scope around which the scopes of the caller stand; they are layers
again when the call ends.
-/

namespace BlockScript

/-- A function of the root whose body was checked, with its parameters bound, from the state
`entry`. -/
structure Function.Checked (d : Discipline) (root : Scope) (f : Function)
    (parameters : List Name) (body : List Node) (entry : CheckState) : Prop where
  action : f.action = .declared parameters body
  arity : parameters.length = f.parameterTypes.length
  start : ∃ known c, known.Below root ∧ c.scopes = ⟨.empty, [known]⟩ ∧
    Typing.bindParameters parameters f.parameterTypes c = (.ok (), entry)
  enclosing : entry.enclosing = some f
  checked : ∃ annotations c', Typing.checkAll body entry = (.ok annotations, c')
  admits : Node.EveryOf (d.Admits root) body
  precise : d = .types → ∀ type ∈ f.parameterTypes, type ≠ .any ∧ type ≠ .comparable
  free : d = .types → ∀ p ∈ parameters, Discipline.Free root p
  returns : d = .types → f.returnType = .nil ∨ Node.anyReturns body = true

/-- All functions of the root are the one that prints or were checked. -/
def Scope.Grounded (d : Discipline) (root : Scope) : Prop :=
  ∀ f ∈ root.functions, f = .print ∨ ∃ parameters body entry, f.Checked d root parameters body entry

namespace Running

open BlockScript.Computation Typing CheckState

variable {d : Discipline} {settings : Settings} {root : Scope}

/-- What holds where a statement has ended in a function: the layers, the type of a value
that is returned, and that the statement has returned if it does so always. -/
structure Behind (d : Discipline) (root : Scope) (layers : List Layer) (f : Function)
    (returns : Bool) (ending : Completion) (m : Machine) : Prop where
  stacked : Stacked d root layers m.scopes.toList
  fits : ∀ v, ending = .returned v → d.Fits (some f.returnType) v
  returns : returns = true → ending ≠ .finished

/-- Checked statements run in agreement with their check. -/
def ExecutionAgrees (d : Discipline) (settings : Settings) (root : Scope)
    (execute : Node → Running Completion) : Prop :=
  ∀ ⦃node c c' a f own callers m⦄, check node c = (.ok a, c') → node.Every (d.Admits root) →
    c.enclosing = some f → Sees root c.scopes (.scope c.scopes.current :: own) →
    Stacked d root (.scope c.scopes.current :: own ++ callers) m.scopes.toList →
    (execute node).Ensures m
      (fun ending m' => Behind d root (.scope c'.scopes.current :: own ++ callers) f node.returns
        ending m') (d.Accepts settings)

/-- The bodies of checked cases run in agreement with their check. -/
def ArmsAgree (d : Discipline) (settings : Settings) (root : Scope)
    (execute : Node → Running Completion) : Prop :=
  ∀ ⦃value body c c' a f own callers m⦄, Typing.inScope (checkAll body) c = (.ok a, c') →
    Node.EveryOf (d.Admits root) body → c.enclosing = some f → Sees root c.scopes own →
    Stacked d root (own ++ callers) m.scopes.toList →
    (execute (.arm value body)).Ensures m
      (fun ending m' => Behind d root (own ++ callers) f (Node.anyReturns body) ending m')
      (d.Accepts settings)

section Bodies

variable {execute : Node → Running Completion} {own callers : List Layer} {f : Function}

theorem sees_continues {c c' : CheckState} (h : Continues c c')
    (hsees : Sees root c.scopes (.scope c.scopes.current :: own)) :
    Sees root c'.scopes (.scope c'.scopes.current :: own) := by
  obtain ⟨known, hbelow, hlist⟩ := hsees
  refine ⟨known, hbelow, ?_⟩
  unfold Chain.toList at hlist ⊢
  rw [h.outer]
  rw [Layer.view_scope, List.cons_append, List.cons.injEq] at hlist ⊢
  exact ⟨rfl, hlist.2⟩

theorem sees_enter {c : CheckState} (hsees : Sees root c.scopes own) :
    Sees root c.enter.scopes (.scope c.enter.scopes.current :: own) := by
  obtain ⟨known, hbelow, hlist⟩ := hsees
  refine ⟨known, hbelow, ?_⟩
  change Scope.empty :: c.scopes.toList = _
  rw [hlist]
  rfl

/-- Behind a row of statements the current scope is the one of the check if all of them have
finished. -/
theorem ensures_executeAll_agrees (hexec : ExecutionAgrees d settings root execute)
    {nodes : List Node} {c c' : CheckState} {a : List Annotation} {m : Machine}
    (hcheck : checkAll nodes c = (.ok a, c')) (hnodes : Node.EveryOf (d.Admits root) nodes)
    (hf : c.enclosing = some f) (hsees : Sees root c.scopes (.scope c.scopes.current :: own))
    (h : Stacked d root (.scope c.scopes.current :: own ++ callers) m.scopes.toList) :
    (executeAll execute nodes).Ensures m
      (fun ending m' => ∃ s, Behind d root (.scope s :: own ++ callers) f
        (Node.anyReturns nodes) ending m' ∧ (ending = .finished → s = c'.scopes.current))
      (d.Accepts settings) := by
  induction nodes generalizing c a m with
  | nil =>
      cases hcheck
      exact ensures_pure ⟨_, ⟨h, nofun, nofun⟩, fun _ => rfl⟩
  | cons node nodes ih =>
      obtain ⟨found, others, c₁, hnode, hothers, _⟩ := checkAll_cons hcheck
      have hcontinues := check_continues (Discipline.inner_of_admits hnodes.1) hnode
      refine (hexec hnode hnodes.1 hf hsees h).bind ?_
      intro ending m₁ hbehind
      cases ending with
      | finished =>
          refine (ih hothers hnodes.2 (hcontinues.enclosing.trans hf)
            (sees_continues hcontinues hsees) hbehind.stacked).imp ?_
          rintro ending m₂ ⟨s, hbehind', hs⟩
          refine ⟨s, ⟨hbehind'.stacked, hbehind'.fits, ?_⟩, hs⟩
          intro hreturns
          simp only [Node.anyReturns, Bool.or_eq_true] at hreturns
          rcases hreturns with hnode | hnodes
          · exact absurd rfl (hbehind.returns hnode)
          · exact hbehind'.returns hnodes
      | returned v =>
          exact ensures_pure ⟨_, ⟨hbehind.stacked, hbehind.fits, fun _ => nofun⟩, nofun⟩

/-- A body in a scope of its own leaves the layers as they are. -/
theorem ensures_body_agrees (hexec : ExecutionAgrees d settings root execute)
    {body : List Node} {c c' : CheckState} {a : List Annotation} {m : Machine}
    (hcheck : Typing.inScope (checkAll body) c = (.ok a, c'))
    (hbody : Node.EveryOf (d.Admits root) body) (hf : c.enclosing = some f)
    (hsees : Sees root c.scopes own) (h : Stacked d root (own ++ callers) m.scopes.toList) :
    (inScope (executeAll execute body)).Ensures m
      (fun ending m' => Behind d root (own ++ callers) f (Node.anyReturns body) ending m')
      (d.Accepts settings) := by
  obtain ⟨c₁, hinner, rfl⟩ := inScope_eq_ok hcheck
  refine ensures_inScope ?_
  refine (ensures_executeAll_agrees hexec hinner hbody hf (sees_enter hsees) h.enter).imp ?_
  rintro ending m' ⟨s, hbehind, _⟩
  exact ⟨hbehind.stacked.leave, hbehind.fits, hbehind.returns⟩

end Bodies

section Parameters

variable {layers : List Layer}

/-- A declared variable is bound in the machine as it is in the text. -/
theorem ensures_bindVariable_agrees {c c' : CheckState} {declared : Variable} {value : Value}
    {m : Machine} (hadds : Adds declared c c') (hname : declared.name.isBindable = true)
    (hmutable : declared.isMutable = true) (hvalue : d.Fits declared.type value)
    (hfree : d = .types → Discipline.Free root declared.name)
    (h : Stacked d root (.scope c.scopes.current :: layers) m.scopes.toList) :
    (bindVariable declared.name true value).Ensures m
      (fun _ m' => Stacked d root (.scope c'.scopes.current :: layers) m'.scopes.toList)
      (d.Accepts settings) := by
  obtain ⟨scopes, hscopes, hstacked⟩ := h.define hadds.isNew hmutable hvalue hfree
  rw [hadds.scopes]
  refine Ensures.ofState ?_
  have hbound : Computation.Ensures _ m (fun s m' => s = scopes ∧ m' = m) (d.Accepts settings) :=
    ensures_bound hname hscopes ⟨rfl, rfl⟩
  refine hbound.bind ?_
  rintro _ _ ⟨rfl, rfl⟩
  exact ensures_change hstacked

theorem ensures_bindParameters_agrees {names : List Name} {types : List StaticType}
    {values : List Value} {c c' : CheckState} {m : Machine}
    (hcheck : Typing.bindParameters names types c = (.ok (), c'))
    (hlength : names.length = types.length)
    (hvalues : List.Forall₂ (fun (type : StaticType) v => d.Fits (some type) v) types values)
    (hfree : d = .types → ∀ p ∈ names, Discipline.Free root p)
    (h : Stacked d root (.scope c.scopes.current :: layers) m.scopes.toList) :
    (bindParameters names values).Ensures m
      (fun _ m' => Stacked d root (.scope c'.scopes.current :: layers) m'.scopes.toList)
      (d.Accepts settings) := by
  induction names generalizing types values c m with
  | nil =>
      cases hcheck
      exact ensures_pure h
  | cons name names ih =>
      cases hvalues with
      | nil => cases hlength
      | @cons type value types values hvalue hvalues =>
          obtain ⟨c₁, hname, hadds, hrest⟩ := bindParameters_cons hcheck
          refine (ensures_bindVariable_agrees hadds hname rfl hvalue
            (fun htypes => hfree htypes name List.mem_cons_self) h).bind ?_
          intro _ m₁ h₁
          exact ih hrest (Nat.succ.inj hlength) hvalues
            (fun htypes p hp => hfree htypes p (List.mem_cons_of_mem _ hp)) h₁

end Parameters

section Calls

variable {layers : List Layer} {f g : Function} {parameters : List Name} {body : List Node}
  {entry : CheckState} {values : List Value} {m : Machine}

theorem sees_entry (hf : f.Checked d root parameters body entry) :
    Sees root entry.scopes [.scope entry.scopes.current] := by
  obtain ⟨known, c, hbelow, hscopes, hbind⟩ := hf.start
  refine ⟨known, hbelow, ?_⟩
  unfold Chain.toList
  rw [(bindParameters_continues hbind).outer, hscopes]
  rfl

/-- Arguments that the parameters accept fit them. -/
theorem fits_arguments (hf : f.Checked d root parameters body entry)
    (hvalues : List.Forall₂ (fun (type : StaticType) value => ∃ source,
      StaticType.accepts (some type) source = true ∧ d.Fits source value) f.parameterTypes
      values) :
    List.Forall₂ (fun (type : StaticType) v => d.Fits (some type) v) f.parameterTypes values := by
  have hprecise := hf.precise
  generalize f.parameterTypes = types at hvalues hprecise
  induction hvalues with
  | nil => exact .nil
  | @cons type value types values hvalue _ ih =>
      obtain ⟨source, haccepts, hfits⟩ := hvalue
      refine .cons (Discipline.fits_precise (fun htypes =>
        hprecise htypes type List.mem_cons_self) haccepts hfits) ?_
      exact ih fun htypes t ht => hprecise htypes t (List.mem_cons_of_mem _ ht)

/-- At the first statement of a call the parameters are bound. -/
theorem ensures_entry (hf : f.Checked d root parameters body entry)
    (hvalues : List.Forall₂ (fun (type : StaticType) v => d.Fits (some type) v)
      f.parameterTypes values) (h : Stacked d root layers m.scopes.toList) :
    (bindParameters parameters values).Ensures m.enter
      (fun _ m' => Stacked d root (.scope entry.scopes.current :: layers) m'.scopes.toList)
      (d.Accepts settings) := by
  obtain ⟨known, c, _, hscopes, hbind⟩ := hf.start
  refine ensures_bindParameters_agrees hbind hf.arity hvalues hf.free ?_
  rw [hscopes]
  exact h.enter

theorem fits_ending {ending : Completion} (hf : f.Checked d root parameters body entry)
    (hbehind : Behind d root layers f (Node.anyReturns body) ending m) :
    d.Fits (some f.returnType) ending.value := by
  cases ending with
  | returned v => exact hbehind.fits v rfl
  | finished =>
      cases d with
      | names => trivial
      | types =>
          rcases hf.returns rfl with hnil | hreturns
          · rw [hnil]
            exact Discipline.fits_nil
          · exact absurd rfl (hbehind.returns hreturns)

/-- A call of a checked function yields a value of its return type, or goes too deep. -/
theorem ensures_invoke_agrees {execute : Nat → Node → Running Completion}
    (hexec : ∀ calls, ExecutionAgrees d settings root (execute calls)) (calls : Nat)
    (hf : f.Checked d root parameters body entry) (hg : f.Agrees g)
    (hvalues : List.Forall₂ (fun (type : StaticType) v => d.Fits (some type) v)
      f.parameterTypes values) (h : Stacked d root layers m.scopes.toList) :
    (invoke settings execute calls g values).Ensures m
      (fun v m' => Stacked d root layers m'.scopes.toList ∧ d.Fits (some f.returnType) v)
      fun e => d.Accepts settings e ∨ e = .endless ∧ calls = 0 := by
  unfold invoke
  rw [hg.action, hf.action]
  cases calls with
  | zero => exact ensures_fail (Or.inr ⟨rfl, rfl⟩)
  | succ calls =>
      refine Ensures.mono ?_ (fun _ _ h => h) fun _ he => Or.inl he
      refine ensures_inScope ?_
      refine (ensures_entry hf hvalues h).bind ?_
      intro _ m₁ h₁
      obtain ⟨annotations, c', hcheck⟩ := hf.checked
      refine (ensures_executeAll_agrees (hexec calls) hcheck hf.admits hf.enclosing
        (sees_entry hf) h₁).bind ?_
      rintro ending m₂ ⟨s, hbehind, _⟩
      exact ensures_pure ⟨hbehind.stacked.leave, fits_ending hf hbehind⟩

theorem yields_evaluateCall {evaluate : Node → Running Value}
    {execute : Nat → Node → Running Completion} (hroot : root.Grounded d)
    (heval : EvaluationAgrees d settings root evaluate)
    (hexec : ∀ calls, ExecutionAgrees d settings root (execute calls)) (calls : Nat)
    {scopes : Chain} {own callers : List Layer} {name : Name} {arguments : List Node}
    {found : Typed} {expected : Option StaticType}
    (hfound : typeOf scopes expected (.call name arguments) = .ok found)
    (hnode : (Node.call name arguments).Every (d.Admits root)) (hsees : Sees root scopes own)
    (h : Stacked d root (own ++ callers) m.scopes.toList) :
    Yields d settings root (own ++ callers) found.type
      (evaluateCall settings evaluate execute calls name arguments) m := by
  obtain ⟨f, others, hname, hf, hothers, rfl⟩ := typeOf_call hfound
  obtain ⟨hmem, _, hlength⟩ := of_findFunction? (hsees.findFunction h hf)
  refine (ensures_arguments_agrees heval hothers hlength.symm hnode.2 hsees h).bind ?_
  rintro values m₁ ⟨h₁, hvalues⟩
  rw [← hlength, Function.arity, hvalues.length_eq] at hf
  refine (ensures_lookupFunction_agrees hsees h₁ hname hf).bind ?_
  rintro g m₂ ⟨rfl, hg⟩
  refine (ensures_note_agrees h₁).bind ?_
  intro _ m₃ h₃
  refine Ensures.mapFailure ?_
  rcases hroot f hmem with rfl | ⟨parameters, body, entry, hchecked⟩
  · cases hvalues with
    | cons hvalue hnone =>
        cases hnone
        obtain ⟨source, _, hfits⟩ := hvalue
        unfold invoke
        rw [hg.action]
        refine (ensures_print_agrees hfits h₃).mono (fun _ _ h => h) fun _ he => ?_
        exact Discipline.accepts_overflowIn (Or.inl he)
  · refine (ensures_invoke_agrees hexec calls hchecked hg (fits_arguments hchecked hvalues)
      h₃).mono (fun _ _ h => h) fun _ he => ?_
    exact Discipline.accepts_overflowIn (he.imp id And.left)

end Calls

end Running
end BlockScript
