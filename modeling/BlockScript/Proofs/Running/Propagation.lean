import BlockScript.Proofs.Running.Points
import BlockScript.Proofs.Running.Rules

/-!
# Failures end a run

The points that a run reaches lie on its way: where the run of one of them fails, so does
that of each point that it is a part of, and in the end the run of the program.  The failure
stays what it is, but for a walk without end, which is an overflow of the calls around it.
-/

namespace BlockScript

/-- A failure is seen as itself, or as the overflow of a call in which it happened. -/
def RunFailure.SeenAs (e e' : RunFailure) : Prop :=
  e' = e ∨ e = .endless ∧ ∃ name arity, e' = .raised (.stackOverflow name arity)

namespace RunFailure.SeenAs

variable {e e' e'' : RunFailure}

protected theorem rfl : e.SeenAs e := .inl rfl

theorem trans (h : e.SeenAs e') (h' : e'.SeenAs e'') : e.SeenAs e'' := by
  rcases h with rfl | ⟨rfl, name, arity, rfl⟩
  · exact h'
  · rcases h' with rfl | ⟨hendless, -⟩
    · exact .inr ⟨rfl, name, arity, rfl⟩
    · cases hendless

theorem eq_of_ne (h : e.SeenAs e') (he : e ≠ .endless) : e' = e := by
  rcases h with heq | ⟨hendless, -⟩
  · exact heq
  · exact absurd hendless he

theorem ne_exhausted (h : e.SeenAs e') (he : e ≠ .exhausted) : e' ≠ .exhausted := by
  rcases h with rfl | ⟨-, name, arity, rfl⟩
  · exact he
  · exact nofun

theorem overflowIn (e : RunFailure) (name : String) (arity : Nat) :
    e.SeenAs (Running.overflowIn name arity e) := by
  cases e with
  | endless => exact .inr ⟨rfl, name, arity, rfl⟩
  | _ => exact .inl rfl

end RunFailure.SeenAs

namespace Running

open BlockScript.Computation

section Rows

variable {m m₁ m₂ : Machine} {e : RunFailure}

theorem evaluateAll_error {evaluate : Node → Running Value} {before behind : List Node}
    {node : Node} {values : List Value} (hbefore : evaluateAll evaluate before m = (.ok values, m₁))
    (hnode : evaluate node m₁ = (.error e, m₂)) :
    evaluateAll evaluate (before ++ node :: behind) m = (.error e, m₂) := by
  induction before generalizing m values with
  | nil =>
      cases hbefore
      exact bind_eq_error.mpr (Or.inl hnode)
  | cons first before ih =>
      obtain ⟨v, m', hv, hrest⟩ := bind_eq_ok.mp hbefore
      obtain ⟨vs, m'', hvs, hpure⟩ := bind_eq_ok.mp hrest
      cases hpure
      have hfail := ih hvs
      exact bind_eq_error.mpr (Or.inr ⟨v, m', hv, bind_eq_error.mpr (Or.inl hfail)⟩)

theorem executeAll_error {execute : Node → Running Completion} {before behind : List Node}
    {node : Node} (hbefore : executeAll execute before m = (.ok .finished, m₁))
    (hnode : execute node m₁ = (.error e, m₂)) :
    executeAll execute (before ++ node :: behind) m = (.error e, m₂) := by
  induction before generalizing m with
  | nil =>
      cases hbefore
      exact bind_eq_error.mpr (Or.inl hnode)
  | cons first before ih =>
      obtain ⟨ending, m', hfirst, hrest⟩ := bind_eq_ok.mp hbefore
      cases ending with
      | finished => exact bind_eq_error.mpr (Or.inr ⟨_, m', hfirst, ih hrest⟩)
      | returned value => cases hrest

theorem executeEach_error {settings : Settings} {steps : Nat} {before behind : List Node}
    {node : Node} (hbefore : executeEach settings steps before m = (.ok (), m₁))
    (hnode : execute settings steps settings.calls node m₁ = (.error e, m₂)) :
    executeEach settings steps (before ++ node :: behind) m = (.error e, m₂) := by
  induction before generalizing m with
  | nil =>
      cases hbefore
      exact bind_eq_error.mpr (Or.inl hnode)
  | cons first before ih =>
      obtain ⟨ending, m', hfirst, hrest⟩ := bind_eq_ok.mp hbefore
      exact bind_eq_error.mpr (Or.inr ⟨ending, m', hfirst, ih hrest⟩)

theorem inScope_error {α : Type} {c : Running α} (h : c m.enter = (.error e, m₁)) :
    inScope c m = (.error e, m₁.leave) := by
  have hafter : (c.afterwards Machine.leave) m.enter = (.error e, m₁.leave) := by
    rw [afterwards_apply, h]
  exact hafter

theorem select_error {settings : Settings} {evaluate : Node → Running Value}
    {execute : Node → Running Completion} {value : Value} {before arms : List Node}
    (position : Nat) (hbefore : Passed settings evaluate value before m m₁)
    (harms : select settings evaluate execute value (position + before.length) arms m₁ =
      (.error e, m₂)) :
    select settings evaluate execute value position (before ++ arms) m = (.error e, m₂) := by
  induction hbefore generalizing position with
  | nil =>
      exact harms
  | @cons arm node before m m' m'' hvalue hmeets _ ih =>
      have hrest := ih (position + 1) (by
        rw [List.length_cons] at harms
        rwa [Nat.add_assoc, Nat.add_comm 1])
      rw [List.cons_append]
      unfold select
      rw [hvalue]
      exact bind_eq_error.mpr (Or.inr ⟨false, m', hmeets, hrest⟩)

end Rows

section Expressions

variable {settings : Settings} {steps calls : Nat} {m m₁ m₂ : Machine} {e : RunFailure}

theorem evaluate_binary_error {operator : Name} {l r : Node} {a : Value}
    (hleft : evaluate settings steps calls l m = (.ok a, m₁))
    (hand : operator.text = "&&" → a = .boolean true)
    (hor : operator.text = "||" → a = .boolean false)
    (hright : evaluate settings steps calls r m₁ = (.error e, m₂)) :
    evaluate settings (steps + 1) calls (.binary operator l r) m = (.error e, m₂) := by
  refine bind_eq_error.mpr (Or.inr ⟨a, m₁, hleft, ?_⟩)
  by_cases hconjunction : operator.text = "&&"
  · rw [if_pos hconjunction, hand hconjunction]
    exact bind_eq_error.mpr (Or.inr ⟨true, m₁, rfl, bind_eq_error.mpr (Or.inl hright)⟩)
  rw [if_neg hconjunction]
  by_cases hdisjunction : operator.text = "||"
  · rw [if_pos hdisjunction, hor hdisjunction]
    exact bind_eq_error.mpr (Or.inr ⟨false, m₁, rfl, bind_eq_error.mpr (Or.inl hright)⟩)
  · rw [if_neg hdisjunction]
    exact bind_eq_error.mpr (Or.inl hright)

theorem locate_error {name : Name} {offset : Node} {value : Value} {r : Nat}
    (hlist : value = .list r) (hoffset : evaluate settings steps calls offset m = (.error e, m₁)) :
    locate (evaluate settings steps calls) name value offset m = (.error e, m₁) := by
  subst hlist
  exact bind_eq_error.mpr (Or.inr ⟨r, m, rfl, bind_eq_error.mpr (Or.inl hoffset)⟩)

theorem evaluate_access_error {name : Name} {offset : Node} {v : Variable} {r : Nat}
    (habsent : offset.isAbsent = false) (hv : lookupVariable name m = (.ok v, m))
    (hlist : v.value = .list r)
    (hoffset : evaluate settings steps calls offset m = (.error e, m₁)) :
    evaluate settings (steps + 1) calls (.access name offset) m = (.error e, m₁) := by
  refine bind_eq_error.mpr (Or.inr ⟨v, m, hv, ?_⟩)
  rw [if_neg (by simp [habsent])]
  exact bind_eq_error.mpr (Or.inl (locate_error hlist hoffset))

theorem invoke_error {before behind : List Node} {s : Node} {values : List Value}
    {f : Function} {parameters : List Name} {m₃ : Machine}
    (haction : f.action = .declared parameters (before ++ s :: behind))
    (hbind : bindParameters parameters values m.enter = (.ok (), m₁))
    (hbefore : executeAll (execute settings steps calls) before m₁ = (.ok .finished, m₂))
    (hs : execute settings steps calls s m₂ = (.error e, m₃)) :
    invoke settings (execute settings steps) (calls + 1) f values m = (.error e, m₃.leave) := by
  have hbody : executeAll (execute settings steps calls) (before ++ s :: behind) m₁ =
      (.error e, m₃) := executeAll_error hbefore hs
  unfold invoke
  rw [haction]
  exact inScope_error (bind_eq_error.mpr (Or.inr ⟨(), m₁, hbind, bind_eq_error.mpr (Or.inl hbody)⟩))

theorem evaluate_call_error {name : Name} {arguments : List Node} {values : List Value}
    {f : Function} {m₃ : Machine}
    (hvalues : evaluateAll (evaluate settings steps calls) arguments m = (.ok values, m₁))
    (hf : lookupFunction name values.length m₁ = (.ok f, m₁))
    (hnote : note settings 1 ("call " ++ ScopeFault.signature name.text values.length) m₁ =
      (.ok (), m₂))
    (hinvoke : invoke settings (execute settings steps) calls f values m₂ = (.error e, m₃)) :
    evaluate settings (steps + 1) calls (.call name arguments) m =
      (.error (overflowIn name.text values.length e), m₃) := by
  have hfailure : (invoke settings (execute settings steps) calls f values).mapFailure
      (overflowIn name.text values.length) m₂ =
      (.error (overflowIn name.text values.length e), m₃) := by
    unfold Computation.mapFailure
    rw [hinvoke]
  exact bind_eq_error.mpr (Or.inr ⟨values, m₁, hvalues, bind_eq_error.mpr (Or.inr ⟨f, m₁, hf,
    bind_eq_error.mpr (Or.inr ⟨(), m₂, hnote, hfailure⟩)⟩)⟩)

end Expressions

section Statements

variable {settings : Settings} {steps calls : Nat} {m m₁ m₂ m₃ : Machine} {e : RunFailure}

theorem evaluateOptional_error {node : Node} (habsent : node.isAbsent = false)
    (hnode : evaluate settings steps calls node m = (.error e, m₁)) :
    evaluateOptional (evaluate settings steps calls) node m = (.error e, m₁) := by
  unfold evaluateOptional
  rw [if_neg (by simp [habsent])]
  exact hnode

theorem execute_assignment_error {name : Name} {offset node : Node} {value : Value}
    {v : Variable} {r : Nat} (hvalue : evaluate settings steps calls node m = (.ok value, m₁))
    (habsent : offset.isAbsent = false) (hv : lookupVariable name m₁ = (.ok v, m₁))
    (hlist : v.value = .list r)
    (hoffset : evaluate settings steps calls offset m₁ = (.error e, m₂)) :
    execute settings (steps + 1) calls (.assignment (.access name offset) node) m =
      (.error e, m₂) := by
  refine bind_eq_error.mpr (Or.inr ⟨value, m₁, hvalue, ?_⟩)
  refine bind_eq_error.mpr (Or.inr ⟨v, m₁, hv, ?_⟩)
  rw [if_neg (by simp [habsent])]
  exact bind_eq_error.mpr (Or.inl (locate_error hlist hoffset))

theorem execute_conditional_error {c s : Node} {thenBody elseBody before behind : List Node}
    {b : Bool} {m₄ : Machine}
    (hc : evaluate settings steps calls c m = (.ok (.boolean b), m₁))
    (hnote : note settings 3 ("if condition -> " ++ truthText b) m₁ = (.ok (), m₂))
    (hbody : (if b then thenBody else elseBody) = before ++ s :: behind)
    (hbefore : executeAll (execute settings steps calls) before m₂.enter = (.ok .finished, m₃))
    (hs : execute settings steps calls s m₃ = (.error e, m₄)) :
    execute settings (steps + 1) calls (.conditional c thenBody elseBody) m =
      (.error e, m₄.leave) := by
  refine bind_eq_error.mpr (Or.inr ⟨.boolean b, m₁, hc, ?_⟩)
  refine bind_eq_error.mpr (Or.inr ⟨b, m₁, rfl, ?_⟩)
  refine bind_eq_error.mpr (Or.inr ⟨(), m₂, hnote, ?_⟩)
  rw [hbody]
  exact inScope_error (executeAll_error hbefore hs)

theorem execute_iteration_error {c s : Node} {before behind : List Node}
    (hc : evaluate settings steps calls c m = (.ok (.boolean true), m₁))
    (hbefore : executeAll (execute settings steps calls) before m₁.enter = (.ok .finished, m₂))
    (hs : execute settings steps calls s m₂ = (.error e, m₃)) :
    execute settings (steps + 1) calls (.loop c (before ++ s :: behind)) m =
      (.error e, m₃.leave) := by
  refine bind_eq_error.mpr (Or.inr ⟨.boolean true, m₁, hc, ?_⟩)
  refine bind_eq_error.mpr (Or.inr ⟨true, m₁, rfl, ?_⟩)
  exact bind_eq_error.mpr (Or.inl (inScope_error (executeAll_error hbefore hs)))

theorem execute_again_error {c : Node} {body : List Node}
    (hc : evaluate settings steps calls c m = (.ok (.boolean true), m₁))
    (hbody : inScope (executeAll (execute settings steps calls) body) m₁ = (.ok .finished, m₂))
    (hs : execute settings steps calls (.loop c body) m₂ = (.error e, m₃)) :
    execute settings (steps + 1) calls (.loop c body) m = (.error e, m₃) := by
  refine bind_eq_error.mpr (Or.inr ⟨.boolean true, m₁, hc, ?_⟩)
  refine bind_eq_error.mpr (Or.inr ⟨true, m₁, rfl, ?_⟩)
  exact bind_eq_error.mpr (Or.inr ⟨.finished, m₂, hbody, hs⟩)

/-- A failure in the cases of a switch is one of the switch. -/
theorem execute_switch_error {c : Node} {before arms : List Node} {value : Value}
    {m₄ : Machine} (hc : evaluate settings steps calls c m.enter = (.ok value, m₁))
    (hbind : bindVariable switchName true value m₁ = (.ok (), m₂))
    (hbefore : Passed settings (evaluate settings steps calls) value before m₂ m₃)
    (harms : select settings (evaluate settings steps calls) (execute settings steps calls) value
      before.length arms m₃ = (.error e, m₄)) :
    execute settings (steps + 1) calls (.switch c (before ++ arms)) m = (.error e, m₄.leave) := by
  refine inScope_error (bind_eq_error.mpr (Or.inr ⟨value, m₁, hc, ?_⟩))
  refine bind_eq_error.mpr (Or.inr ⟨(), m₂, hbind, ?_⟩)
  exact select_error 0 hbefore (by rwa [Nat.zero_add])

theorem select_compared_error {node arm : Node} {arms : List Node} {value : Value}
    {position : Nat} (harm : arm.valuePart = .tree node) (habsent : node.isAbsent = false)
    (hnode : evaluate settings steps calls node m = (.error e, m₁)) :
    select settings (evaluate settings steps calls) (execute settings steps calls) value
      position (arm :: arms) m = (.error e, m₁) := by
  unfold select
  rw [harm]
  refine bind_eq_error.mpr (Or.inl ?_)
  unfold meets
  rw [if_neg (by simp [habsent])]
  exact bind_eq_error.mpr (Or.inl hnode)

theorem select_chosen_error {node arm : Node} {arms : List Node} {value : Value}
    {position : Nat} (harm : arm.valuePart = .tree node)
    (hmeets : meets settings (evaluate settings steps calls) value node m = (.ok true, m₁))
    (hnote : note settings 3 ("switch selected case " ++ Text.natText position) m₁ =
      (.ok (), m₂))
    (hexecute : execute settings steps calls arm m₂ = (.error e, m₃)) :
    select settings (evaluate settings steps calls) (execute settings steps calls) value
      position (arm :: arms) m = (.error e, m₃) := by
  unfold select
  rw [harm]
  refine bind_eq_error.mpr (Or.inr ⟨true, m₁, hmeets, ?_⟩)
  exact bind_eq_error.mpr (Or.inr ⟨(), m₂, hnote, hexecute⟩)

end Statements

section Points

variable {δ : Type} {settings : Settings} {k : Companion δ}

/-- A point fails where one of its parts does. -/
theorem Part.fails {p q : Point δ} (h : Part settings k p q) {e : RunFailure}
    (hq : q.Fails settings e) : ∃ e', e.SeenAs e' ∧ p.Fails settings e' := by
  cases h with
  | group =>
      cases hq with
      | expression hq => exact ⟨e, .rfl, .expression hq⟩
  | left =>
      cases hq with
      | expression hq => exact ⟨e, .rfl, .expression (bind_eq_error.mpr (Or.inl hq))⟩
  | right hleft hand hor =>
      cases hq with
      | expression hq => exact ⟨e, .rfl, .expression (evaluate_binary_error hleft hand hor hq)⟩
  | offset habsent hv hlist =>
      cases hq with
      | expression hq => exact ⟨e, .rfl, .expression (evaluate_access_error habsent hv hlist hq)⟩
  | argument hbefore =>
      cases hq with
      | expression hq =>
          exact ⟨e, .rfl, .expression (bind_eq_error.mpr (Or.inl (evaluateAll_error hbefore hq)))⟩
  | element hbefore =>
      cases hq with
      | expression hq =>
          exact ⟨e, .rfl, .expression (bind_eq_error.mpr (Or.inl (evaluateAll_error hbefore hq)))⟩
  | body hvalues hf haction hnote hbind hbefore _ =>
      cases hq with
      | statement hq =>
          exact ⟨_, .overflowIn e _ _, .expression (evaluate_call_error hvalues hf hnote
            (invoke_error haction hbind hbefore hq))⟩
  | initial habsent | declared habsent | returned habsent =>
      cases hq with
      | expression hq =>
          exact ⟨e, .rfl, .statement (bind_eq_error.mpr (Or.inl (evaluateOptional_error habsent hq)))⟩
  | evaluated | assigned | condition | repeated =>
      cases hq with
      | expression hq => exact ⟨e, .rfl, .statement (bind_eq_error.mpr (Or.inl hq))⟩
  | targetOffset hvalue habsent hv hlist =>
      cases hq with
      | expression hq =>
          exact ⟨e, .rfl, .statement (execute_assignment_error hvalue habsent hv hlist hq)⟩
  | branch hc hnote hbody hbefore =>
      cases hq with
      | statement hq =>
          exact ⟨e, .rfl, .statement (execute_conditional_error hc hnote hbody hbefore hq)⟩
  | iteration hc hbefore =>
      cases hq with
      | statement hq => exact ⟨e, .rfl, .statement (execute_iteration_error hc hbefore hq)⟩
  | again hc hbody =>
      cases hq with
      | statement hq => exact ⟨e, .rfl, .statement (execute_again_error hc hbody hq)⟩
  | subject =>
      cases hq with
      | expression hq =>
          exact ⟨e, .rfl, .statement (inScope_error (bind_eq_error.mpr (Or.inl hq)))⟩
  | compared hc hbind hbefore harm habsent =>
      cases hq with
      | expression hq =>
          exact ⟨e, .rfl, .statement (execute_switch_error hc hbind hbefore
            (select_compared_error harm habsent hq))⟩
  | chosen hc hbind hbefore harm hmeets hposition hnote =>
      subst hposition
      cases hq with
      | statement hq =>
          exact ⟨e, .rfl, .statement (execute_switch_error hc hbind hbefore
            (select_chosen_error harm hmeets hnote hq))⟩
  | armBody hbefore =>
      cases hq with
      | statement hq => exact ⟨e, .rfl, .statement (inScope_error (executeAll_error hbefore hq))⟩

theorem Starts.fails {steps : Nat} {program : Node} {m : Machine} {d : δ} {p : Point δ}
    (h : Starts settings k steps program m d p) {e : RunFailure} (hp : p.Fails settings e) :
    ∃ m', runProgram settings steps program m = (.error e, m') := by
  cases h with
  | «global» hprogram hbefore =>
      cases hp with
      | statement hp =>
          subst hprogram
          exact ⟨_, bind_eq_error.mpr (Or.inl (executeEach_error hbefore hp))⟩
  | function hprogram hglobals hbefore =>
      cases hp with
      | statement hp =>
          subst hprogram
          exact ⟨_, bind_eq_error.mpr (Or.inr ⟨(), _, hglobals,
            bind_eq_error.mpr (Or.inl (executeEach_error hbefore hp))⟩)⟩
  | main hprogram hglobals hfunctions hmain haction hnote hcalls hbind hbefore _ =>
      cases hp with
      | statement hp =>
          subst hprogram
          have hinvoke := invoke_error haction hbind hbefore hp
          rw [← hcalls] at hinvoke
          exact ⟨_, bind_eq_error.mpr (Or.inr ⟨(), _, hglobals,
            bind_eq_error.mpr (Or.inr ⟨(), _, hfunctions,
              bind_eq_error.mpr (Or.inr ⟨_, _, hmain,
                bind_eq_error.mpr (Or.inr ⟨(), _, hnote,
                  bind_eq_error.mpr (Or.inl hinvoke)⟩)⟩)⟩)⟩)⟩

/-- A run fails where one of the points that it reaches does, and with the same failure or with
the overflow of a call. -/
theorem Reached.shows {steps : Nat} {program : Node} {m : Machine} {d : δ} {p : Point δ}
    (h : Reached settings k steps program m d p) {e : RunFailure} (hp : p.Fails settings e) :
    ∃ e' m', e.SeenAs e' ∧ runProgram settings steps program m = (.error e', m') := by
  obtain ⟨p₀, hp₀, hpath⟩ := h
  induction hpath generalizing e with
  | refl =>
      obtain ⟨m', hrun⟩ := hp₀.fails hp
      exact ⟨e, m', .rfl, hrun⟩
  | tail _ hq ih =>
      obtain ⟨e', hseen, hfails⟩ := hq.fails hp
      obtain ⟨e'', m', hseen', hrun⟩ := ih hfails
      exact ⟨e'', m', hseen.trans hseen', hrun⟩

end Points

end Running
end BlockScript
