import BlockScript.Proofs.Agreement.Calls

/-!
# Statements agree with their check

Every step of a run keeps the layers of the machine in agreement with the scopes of the
text, and so does a run of any length: a checked expression yields a value that fits its
type, and a checked statement leaves behind what its check leaves behind.
-/

namespace BlockScript
namespace Running

open BlockScript.Computation Typing CheckState

variable {d : Discipline} {settings : Settings} {root : Scope} {own callers : List Layer}
  {m : Machine}

theorem Behind.of_returns {layers : List Layer} {f : Function} {r r' : Bool}
    {ending : Completion} (h : Behind d root layers f r ending m)
    (hreturns : r' = true → r = true) : Behind d root layers f r' ending m :=
  ⟨h.stacked, h.fits, fun hr => h.returns (hreturns hr)⟩

theorem behind_finished {layers : List Layer} {f : Function}
    (h : Stacked d root layers m.scopes.toList) :
    Behind d root layers f false .finished m :=
  ⟨h, nofun, nofun⟩

theorem precise_of_typeNamed {typeName : Name} {type : StaticType}
    (h : typeNamed typeName = .ok type) (hprecise : Node.IsPrecise typeName) :
    type ≠ .any ∧ type ≠ .comparable := by
  have htext := text_of_typeNamed h
  refine ⟨?_, ?_⟩
  · rintro rfl
    exact hprecise.1 htext
  · rintro rfl
    exact hprecise.2 htext

section Expressions

variable {evaluate : Nat → Node → Running Value} {execute : Nat → Node → Running Completion}

theorem evaluationAgrees_node (hroot : root.Grounded d)
    (heval : ∀ calls, EvaluationAgrees d settings root (evaluate calls))
    (hexec : ∀ calls, ExecutionAgrees d settings root (execute calls)) (calls : Nat) :
    EvaluationAgrees d settings root (evaluateNode settings evaluate execute calls) := by
  intro node scopes expected found own callers m hfound hnode hsees h
  cases node with
  | literal value =>
      obtain ⟨type, htype, rfl⟩ := typeOf_literal hfound
      have hplain : value.IsPlain := hnode.self.inner
      exact yields_literalValue hplain htype h
  | group inner =>
      obtain ⟨part, hpart, rfl⟩ := typeOf_group hfound
      have hinner := heval calls hpart hnode.2 hsees h
      exact hinner
  | binary operator left right =>
      obtain ⟨l, r, type, hl, hr, htype, rfl⟩ := typeOf_binary hfound
      exact yields_evaluateBinary (heval calls) hl hr htype hnode.2.1 hnode.2.2 hsees h
  | access name offset => exact yields_evaluateAccess (heval calls) hfound hnode hsees h
  | call name arguments =>
      exact yields_evaluateCall hroot (heval calls) hexec calls hfound hnode hsees h
  | list elements =>
      obtain ⟨part, hpart, rfl⟩ := typeOf_list hfound
      cases d with
      | types => exact hnode.1.precise.elim
      | names =>
          refine (ensures_elements_agrees (heval calls) hpart hnode.2 hsees h).bind ?_
          intro values m₁ h₁
          exact ⟨h₁, trivial⟩
  | _ =>
      unfold typeOf at hfound
      cases hfound

end Expressions

section Statements

variable {evaluate : Node → Running Value} {execute : Node → Running Completion}
  {c c' : CheckState} {a : List Annotation} {f : Function}

/-- The first value of a variable fits the type that it is declared with. -/
theorem yields_initial (heval : EvaluationAgrees d settings root evaluate) {scopes : Chain}
    {typeName : Name} {value : Node} {found : Typed}
    (hdeclared : DeclaredAs scopes typeName value found) (hvalue : value.Every (d.Admits root))
    (hprecise : d = .types → value.isAbsent = false ∧ Node.IsPrecise typeName)
    (hsees : Sees root scopes own) (h : Stacked d root (own ++ callers) m.scopes.toList) :
    Yields d settings root (own ++ callers) found.type (evaluateOptional evaluate value) m := by
  unfold evaluateOptional
  cases hdeclared with
  | inferred habsent hfound =>
      rw [if_neg (by simp [habsent])]
      exact heval hfound hvalue hsees h
  | bare _ habsent =>
      rw [if_pos habsent]
      cases d with
      | names => exact yields_pure h trivial
      | types =>
          rw [(hprecise rfl).1] at habsent
          cases habsent
  | given htype habsent hfound haccepts =>
      rw [if_neg (by simp [habsent])]
      refine (heval hfound hvalue hsees h).imp ?_
      rintro v m₁ ⟨h₁, hv⟩
      exact ⟨h₁, Discipline.fits_precise
        (fun htypes => precise_of_typeNamed htype (hprecise htypes).2) haccepts hv⟩

theorem ensures_declare_agrees {verb : String} {name : Name} {isMutable : Bool} {value : Value}
    {type : Option StaticType} (hvalue : d.Fits type value)
    {root' : Scope} {layers : List Layer}
    (hbind : (bindVariable name isMutable value).Ensures m
      (fun _ m' => Stacked d root' layers m'.scopes.toList) (d.Accepts settings)) :
    (declare settings verb name isMutable value).Ensures m
      (fun ending m' => ending = .finished ∧ Stacked d root' layers m'.scopes.toList)
      (d.Accepts settings) := by
  refine hbind.bind ?_
  intro _ m₁ h₁
  refine (ensures_noteValue_agrees h₁ hvalue).bind ?_
  intro _ m₂ h₂
  exact ensures_pure ⟨rfl, h₂⟩

theorem ensures_declaration_agrees (heval : EvaluationAgrees d settings root evaluate)
    {name typeName : Name} {value : Node}
    (hcheck : check (.declaration name typeName value) c = (.ok a, c'))
    (hnode : (Node.declaration name typeName value).Every (d.Admits root))
    (hsees : Sees root c.scopes (.scope c.scopes.current :: own))
    (h : Stacked d root (.scope c.scopes.current :: own ++ callers) m.scopes.toList) :
    (evaluateOptional evaluate value >>= declare settings "declare" name true).Ensures m
      (fun ending m' => Behind d root (.scope c'.scopes.current :: own ++ callers) f false
        ending m') (d.Accepts settings) := by
  obtain ⟨found, hdeclared, hname, hadds, _⟩ := declare_eq_ok hcheck
  have hprecise : d = .types → value.isAbsent = false ∧ Node.IsPrecise typeName := by
    rintro rfl
    exact hnode.1.precise
  refine (yields_initial heval hdeclared hnode.2 hprecise hsees h).bind ?_
  rintro v m₁ ⟨h₁, hv⟩
  have hfree : d = .types → Discipline.Free root name := by
    rintro rfl
    exact hnode.1.2.2 name typeName value rfl
  refine (ensures_declare_agrees hv
    (ensures_bindVariable_agrees hadds hname rfl hv hfree h₁)).imp ?_
  rintro ending m₂ ⟨rfl, h₂⟩
  exact behind_finished h₂

/-- An assignment keeps the value of its variable fitting, and demands nothing of an item. -/
theorem ensures_assignment_agrees (heval : EvaluationAgrees d settings root evaluate)
    {target value : Node} (hcheck : assignment target value c = (.ok a, c'))
    (htarget : target.Every (d.Admits root)) (hvalue : value.Every (d.Admits root))
    (hsees : Sees root c.scopes own) (h : Stacked d root (own ++ callers) m.scopes.toList) :
    (evaluate value >>= assign settings evaluate target).Ensures m
      (fun ending m' => ending = .finished ∧ Stacked d root (own ++ callers) m'.scopes.toList)
      (d.Accepts settings) := by
  obtain ⟨_, name, offset, v, place, found, rfl, hplace, hv, hmutable, hfound, haccepts, _⟩ :=
    assignment_eq_ok hcheck
  have hname : Node.IsSpelled name := htarget.1.inner
  refine (heval hfound hvalue hsees h).bind ?_
  rintro new m₁ ⟨h₁, hnew⟩
  refine (ensures_lookupVariable_agrees hsees h₁ hname hv).bind ?_
  rintro w m₂ ⟨rfl, hw, hold⟩
  split
  · rw [if_pos (hw hmutable)]
    have hfits : d.Fits v.type new := Discipline.fits_of_accepts hold haccepts hnew
    have hset := hsees.setVariable h₁ (switchName_of_spelled hname) hv hfits
    refine Ensures.ofChange ?_
    refine (ensures_noteValue_agrees hset hfits).bind ?_
    intro _ m₃ h₃
    exact ensures_pure ⟨rfl, h₃⟩
  · rename_i habsent
    cases d with
    | types => exact absurd htarget.1.precise habsent
    | names =>
        obtain ⟨others, _, hothers, _, _, _⟩ := typeOf_access hplace
        rcases typeOf_offset hothers with ⟨hoffset, _⟩ | ⟨part, hpart, _⟩
        · exact absurd hoffset habsent
        · refine (ensures_locate_agrees heval name w.value hpart htarget.2 hsees h₁).bind ?_
          rintro ⟨reference, i⟩ m₃ h₃
          refine Ensures.ofChange ?_
          have hnote : (noteValue settings 2
              ("assign " ++ name.text ++ "[" ++ Text.natText i ++ "] = ") new).Ensures
              { m₃ with heap := m₃.heap.store reference i new }
              (fun _ m' => Stacked .names root (own ++ callers) m'.scopes.toList)
              (Discipline.names.Accepts settings) := ensures_noteValue_agrees h₃ hnew
          refine hnote.bind ?_
          intro _ m₄ h₄
          exact ensures_pure ⟨rfl, h₄⟩

/-- What a function returns fits its type. -/
theorem ensures_returning_agrees (heval : EvaluationAgrees d settings root evaluate)
    {value : Node} (hcheck : returning value c = (.ok a, c'))
    (hvalue : value.Every (d.Admits root)) (hf : c.enclosing = some f)
    (hsees : Sees root c.scopes own) (h : Stacked d root (own ++ callers) m.scopes.toList) :
    (evaluateOptional evaluate value).Ensures m
      (fun v m' => Stacked d root (own ++ callers) m'.scopes.toList ∧
        d.Fits (some f.returnType) v) (d.Accepts settings) := by
  obtain ⟨_, f', hf', hreturn⟩ := returning_eq_ok hcheck
  rw [hf] at hf'
  cases hf'
  unfold evaluateOptional
  rcases hreturn with ⟨habsent, htype, _⟩ | ⟨habsent, found, hfound, htype, _⟩
  · rw [if_pos habsent, htype]
    exact ensures_pure ⟨h, Discipline.fits_nil⟩
  · rw [if_neg (by simp [habsent]), ← htype]
    exact heval hfound hvalue hsees h

end Statements

section Choices

variable {c c' : CheckState} {a : List Annotation} {f : Function}

theorem sees_switch (isBound : Bool) {scopes : Chain} (h : Sees root scopes own) :
    Sees root scopes (.switch isBound :: own) := h

theorem ensures_bindSwitch_agrees {layers : List Layer} (value : Value)
    (h : Stacked d root (.switch false :: layers) m.scopes.toList) :
    (bindVariable switchName true value).Ensures m
      (fun _ m' => Stacked d root (.switch true :: layers) m'.scopes.toList)
      (d.Accepts settings) := by
  obtain ⟨scopes, hscopes, hstacked⟩ := h.defineSwitch value
  refine Ensures.ofState ?_
  have hbound : Computation.Ensures _ m (fun s m' => s = scopes ∧ m' = m) (d.Accepts settings) :=
    ensures_bound (Name.isBindable_ofText switchName) hscopes ⟨rfl, rfl⟩
  refine hbound.bind ?_
  rintro _ _ ⟨rfl, rfl⟩
  exact ensures_change hstacked

/-- A value is compared with that of a case; the last case is always chosen. -/
theorem ensures_meets_agrees {evaluate : Node → Running Value}
    (heval : EvaluationAgrees d settings root evaluate) {scopes : Chain}
    {type : Option StaticType} {isLast : Bool} {node : Node} {value : Value}
    (harm : ArmValue scopes type isLast node a) (hvalue : d.Fits type value)
    (hnode : node.Every (d.Admits root)) (hsees : Sees root scopes own)
    (h : Stacked d root (own ++ callers) m.scopes.toList) :
    (meets settings evaluate value node).Ensures m
      (fun chosen m' => Stacked d root (own ++ callers) m'.scopes.toList ∧
        (isLast = true → chosen = true)) (d.Accepts settings) := by
  cases harm with
  | last => exact ensures_pure ⟨h, fun _ => rfl⟩
  | literal hlast hfound htype =>
      refine (heval hfound hnode hsees h).bind ?_
      rintro other m₁ ⟨h₁, hother⟩
      refine (ensures_equalHere_agrees hvalue hother h₁).imp ?_
      intro chosen m₂ h₂
      rw [hlast]
      exact ⟨h₂, nofun⟩

/-- One of the cases is run, unless there is none. -/
theorem ensures_select_agrees {evaluate : Node → Running Value}
    {execute : Node → Running Completion} (heval : EvaluationAgrees d settings root evaluate)
    (hexec : ArmsAgree d settings root execute) {type : Option StaticType} {value : Value}
    (hvalue : d.Fits type value) {arms : List Node} {place position : Nat}
    (hcheck : checkArms type place arms c = (.ok a, c'))
    (harms : Node.EveryOf (d.Admits root) arms) (hf : c.enclosing = some f)
    (hsees : Sees root c.scopes own) (h : Stacked d root (own ++ callers) m.scopes.toList) :
    (select settings evaluate execute value position arms).Ensures m
      (fun ending m' => Behind d root (own ++ callers) f
        (!arms.isEmpty && Node.allReturn arms) ending m') (d.Accepts settings) := by
  induction arms generalizing place position c a m with
  | nil => exact ensures_pure (behind_finished h)
  | cons arm arms ih =>
      obtain ⟨node, body, found, inBody, others, c₁, rfl, harm, hbody, hothers, _⟩ :=
        checkArms_cons hcheck
      have hsame := inScope_same (Discipline.innerOf_of_admits harms.1.2.2) hbody
      refine (ensures_meets_agrees heval harm hvalue harms.1.2.1 hsees h).bind ?_
      rintro chosen m₁ ⟨h₁, hlast⟩
      cases chosen with
      | true =>
          rw [if_pos rfl]
          refine (ensures_note_agrees h₁).bind ?_
          intro _ m₂ h₂
          refine (hexec hbody harms.1.2.2 hf hsees h₂).imp ?_
          intro ending m₃ hbehind
          refine hbehind.of_returns fun hreturns => ?_
          simp only [Node.allReturn, Bool.and_eq_true] at hreturns
          exact hreturns.2.1
      | false =>
          rw [if_neg (by simp)]
          rw [← hsame.scopes] at hsees
          refine (ih hothers harms.2 (hsame.enclosing.trans hf) hsees h₁).imp ?_
          intro ending m₂ hbehind
          refine hbehind.of_returns fun hreturns => ?_
          have hmore : arms.isEmpty = false := by
            cases hempty : arms.isEmpty with
            | false => rfl
            | true => cases hlast hempty
          simp only [Node.allReturn, Bool.and_eq_true] at hreturns
          rw [hmore, hreturns.2.2]
          rfl

end Choices

section Blocks

variable {evaluate : Nat → Node → Running Value} {execute : Nat → Node → Running Completion}
  {calls : Nat} {c c' : CheckState} {a : List Annotation} {f : Function}

theorem ensures_conditional_agrees
    (heval : EvaluationAgrees d settings root (evaluate calls))
    (hexec : ExecutionAgrees d settings root (execute calls)) {test : Node}
    {thenBody elseBody : List Node}
    (hcheck : check (.conditional test thenBody elseBody) c = (.ok a, c'))
    (hnode : (Node.conditional test thenBody elseBody).Every (d.Admits root))
    (hf : c.enclosing = some f) (hsees : Sees root c.scopes own)
    (h : Stacked d root (own ++ callers) m.scopes.toList) :
    (executeConditional settings evaluate execute calls test thenBody elseBody).Ensures m
      (fun ending m' => Behind d root (own ++ callers) f
        (Node.anyReturns thenBody && Node.anyReturns elseBody) ending m')
      (d.Accepts settings) := by
  obtain ⟨_, htest, hthenNodes, helseNodes⟩ := hnode
  obtain ⟨found, c₁, inThen, inElse, hfound, htype, hthen, helse, _⟩ := conditional_eq_ok hcheck
  refine (heval hfound htest hsees h).bind ?_
  rintro value m₁ ⟨h₁, hvalue⟩
  rw [htype] at hvalue
  refine (ensures_requireBoolean_agrees h₁ hvalue).bind ?_
  intro holds m₂ h₂
  refine (ensures_note_agrees h₂).bind ?_
  intro _ m₃ h₃
  cases holds with
  | true =>
      refine (ensures_body_agrees hexec hthen hthenNodes hf hsees h₃).imp ?_
      intro ending m₄ hbehind
      exact hbehind.of_returns fun hreturns => (Bool.and_eq_true_iff.mp hreturns).1
  | false =>
      have hsame := inScope_same (Discipline.innerOf_of_admits hthenNodes) hthen
      rw [← hsame.scopes] at hsees
      refine (ensures_body_agrees hexec helse helseNodes (hsame.enclosing.trans hf) hsees h₃).imp ?_
      intro ending m₄ hbehind
      exact hbehind.of_returns fun hreturns => (Bool.and_eq_true_iff.mp hreturns).2

theorem ensures_loop_agrees (heval : EvaluationAgrees d settings root (evaluate calls))
    (hexec : ExecutionAgrees d settings root (execute calls)) {test : Node} {body : List Node}
    (hcheck : check (.loop test body) c = (.ok a, c'))
    (hnode : (Node.loop test body).Every (d.Admits root)) (hf : c.enclosing = some f)
    (hsees : Sees root c.scopes (.scope c.scopes.current :: own))
    (h : Stacked d root (.scope c.scopes.current :: own ++ callers) m.scopes.toList) :
    (executeLoop evaluate execute calls test body).Ensures m
      (fun ending m' => Behind d root (.scope c'.scopes.current :: own ++ callers) f false
        ending m') (d.Accepts settings) := by
  obtain ⟨found, inBody, hfound, htype, hbody, _⟩ := loop_eq_ok hcheck
  have hsame := inScope_same (Discipline.innerOf_of_admits hnode.2.2) hbody
  refine (heval hfound hnode.2.1 hsees h).bind ?_
  rintro value m₁ ⟨h₁, hvalue⟩
  rw [htype] at hvalue
  refine (ensures_requireBoolean_agrees h₁ hvalue).bind ?_
  intro holds m₂ h₂
  cases holds with
  | false =>
      rw [hsame.scopes]
      exact ensures_pure (behind_finished h₂)
  | true =>
      refine (ensures_body_agrees hexec hbody hnode.2.2 hf hsees h₂).bind ?_
      intro ending m₃ hbehind
      cases ending with
      | finished => exact hexec hcheck hnode hf hsees hbehind.stacked
      | returned v =>
          rw [hsame.scopes]
          exact ensures_pure (hbehind.of_returns nofun)

theorem ensures_switch_agrees (heval : EvaluationAgrees d settings root (evaluate calls))
    (hexec : ArmsAgree d settings root (execute calls)) {test : Node} {arms : List Node}
    (hcheck : check (.switch test arms) c = (.ok a, c'))
    (hnode : (Node.switch test arms).Every (d.Admits root)) (hf : c.enclosing = some f)
    (hsees : Sees root c.scopes own) (h : Stacked d root (own ++ callers) m.scopes.toList) :
    (executeNode settings evaluate execute calls (.switch test arms)).Ensures m
      (fun ending m' => Behind d root (own ++ callers) f
        (!arms.isEmpty && Node.allReturn arms) ending m') (d.Accepts settings) := by
  obtain ⟨found, inArms, hfound, harms, _⟩ := switch_eq_ok hcheck
  refine ensures_inScope ?_
  refine (heval hfound hnode.2.1 (sees_switch false hsees) h.enterSwitch).bind ?_
  rintro value m₁ ⟨h₁, hvalue⟩
  refine (ensures_bindSwitch_agrees value h₁).bind ?_
  intro _ m₂ h₂
  refine (ensures_select_agrees heval hexec hvalue harms hnode.2.2 hf (sees_switch true hsees)
    h₂).imp ?_
  intro ending m₃ hbehind
  exact ⟨hbehind.stacked.leave, hbehind.fits, hbehind.returns⟩

/-- A step of the run of a statement agrees with its check if the steps behind it do. -/
theorem executionAgrees_node
    (heval : ∀ calls, EvaluationAgrees d settings root (evaluate calls))
    (hexec : ∀ calls, ExecutionAgrees d settings root (execute calls))
    (harms : ∀ calls, ArmsAgree d settings root (execute calls)) (calls : Nat) :
    ExecutionAgrees d settings root (executeNode settings evaluate execute calls) := by
  intro node c c' a f own callers m hcheck hnode hf hsees h
  have hinner := Discipline.inner_of_admits hnode
  cases node with
  | evaluation expression =>
      obtain ⟨rfl, found, hfound, _⟩ := evaluation_eq_ok hcheck
      refine (heval calls hfound hnode.2 hsees h).bind ?_
      rintro v m₁ ⟨h₁, _⟩
      exact ensures_pure (behind_finished h₁)
  | declaration name typeName value =>
      exact ensures_declaration_agrees (heval calls) hcheck hnode hsees h
  | assignment target value =>
      have hsame : c' = c := (assignment_eq_ok hcheck).1
      subst hsame
      refine (ensures_assignment_agrees (heval calls) hcheck hnode.2.1 hnode.2.2 hsees h).imp ?_
      rintro ending m₁ ⟨rfl, h₁⟩
      exact behind_finished h₁
  | conditional test thenBody elseBody =>
      obtain ⟨_, _, _, _, _, _, hthen, helse, _⟩ := conditional_eq_ok hcheck
      have hsame := (inScope_same hinner.2.2.1 hthen).trans (inScope_same hinner.2.2.2 helse)
      rw [hsame.scopes]
      exact ensures_conditional_agrees (heval calls) (hexec calls) hcheck hnode hf hsees h
  | loop test body => exact ensures_loop_agrees (heval calls) (hexec calls) hcheck hnode hf hsees h
  | switch test arms =>
      obtain ⟨_, _, _, hcheckArms, _⟩ := switch_eq_ok hcheck
      rw [(checkArms_same hinner.2.2 hcheckArms).scopes]
      exact ensures_switch_agrees (heval calls) (harms calls) hcheck hnode hf hsees h
  | arm value body =>
      obtain ⟨_, _, hbody, _⟩ := arm_eq_ok hcheck
      rw [(inScope_same hinner.2.2 hbody).scopes]
      refine (ensures_body_agrees (hexec calls) hbody hnode.2.2 hf hsees h).imp ?_
      intro ending m₁ hbehind
      exact hbehind.of_returns nofun
  | returning value =>
      have hsame : c' = c := (returning_eq_ok hcheck).1
      subst hsame
      refine (ensures_returning_agrees (heval calls) hcheck hnode.2 hf hsees h).bind ?_
      rintro v m₁ ⟨h₁, hv⟩
      refine ensures_pure ⟨h₁, ?_, fun _ => nofun⟩
      rintro _ ⟨⟩
      exact hv
  | source | global | function => exact hinner.1.elim
  | _ =>
      cases hcheck

theorem armsAgree_node (hexec : ∀ calls, ExecutionAgrees d settings root (execute calls))
    (calls : Nat) : ArmsAgree d settings root (executeNode settings evaluate execute calls) := by
  intro value body c c' a f own callers m hcheck hbody hf hsees h
  exact ensures_body_agrees (hexec calls) hcheck hbody hf hsees h

end Blocks

section Runs

/-- Runs of any number of steps agree with the check. -/
structure StepsAgree (d : Discipline) (settings : Settings) (root : Scope) (steps : Nat) :
    Prop where
  evaluation : ∀ calls, EvaluationAgrees d settings root (evaluate settings steps calls)
  execution : ∀ calls, ExecutionAgrees d settings root (execute settings steps calls)
  arms : ∀ calls, ArmsAgree d settings root (execute settings steps calls)

theorem stepsAgree (settings : Settings) (hroot : root.Grounded d) (steps : Nat) :
    StepsAgree d settings root steps := by
  induction steps with
  | zero =>
      refine ⟨fun calls => ?_, fun calls => ?_, fun calls => ?_⟩
      · intro node scopes expected found own callers m _ _ _ _
        exact ensures_fail Discipline.accepts_exhausted
      · intro node c c' a f own callers m _ _ _ _ _
        exact ensures_fail Discipline.accepts_exhausted
      · intro value body c c' a f own callers m _ _ _ _ _
        exact ensures_fail Discipline.accepts_exhausted
  | succ steps ih =>
      exact ⟨evaluationAgrees_node hroot ih.evaluation ih.execution,
        executionAgrees_node ih.evaluation ih.execution ih.arms, armsAgree_node ih.execution⟩

end Runs

end Running
end BlockScript
