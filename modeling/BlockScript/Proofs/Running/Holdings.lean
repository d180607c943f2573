import BlockScript.Proofs.Running.Points
import BlockScript.Proofs.Running.Twins

/-!
# What the points of a run hold

A property of scalars that the operators of the language keep is an invariant of runs.  If the
literals of a program have it and nothing without it is around when the run starts, then at
every point that the run reaches all variables, lists and functions hold only scalars with the
property, and so do the results of the points and the machine that the run leaves.

A run is its own twin, so that each step is a lemma about twins already.
-/

namespace BlockScript
namespace Running

open BlockScript.Computation

variable {settings : Settings} {P : Scalar → Prop}

section Single

variable {α : Type} {c : Running α} {post : α → Prop} {m m' : Machine}

theorem only_of_twins {R : Trace → Trace → Prop} (h : m.Twins R P m') : m.Only P := by
  cases h with
  | intro _ hm => exact hm

/-- A computation that is its own twin leaves a machine with the property, however it ends, and
what it gives is as stated. -/
theorem RunsTwinned.single (h : RunsTwinned Eq P c post) (hm : m.Only P) :
    (c m).2.Only P ∧ ∀ a, (c m).1 = .ok a → post a := by
  obtain ⟨hresult, htwins⟩ := h (Machine.Twins.intro (t := m.trace) rfl hm)
  refine ⟨only_of_twins htwins, ?_⟩
  intro a ha
  rw [ha] at hresult
  cases hresult with
  | ok hpost => exact hpost.2

theorem RunsTwinned.only (h : RunsTwinned Eq P c post) (hm : m.Only P)
    {r : Except RunFailure α} (hc : c m = (r, m')) : m'.Only P := by
  have hleft := (h.single hm).1
  rwa [hc] at hleft

/-- Where strings with the property can be written, a failure is none of writing. -/
theorem RunsTwinned.ne_unwritable (h : RunsTwinned Eq P c post) (hm : m.Only P)
    (hP : ∀ text, P (.string text) → Text.isWritable text = true) {e : RunFailure}
    (hc : c m = (.error e, m')) : e ≠ .unwritable := by
  obtain ⟨hresult, -⟩ := h (Machine.Twins.intro (t := m.trace) rfl hm)
  rw [congrArg Prod.fst hc] at hresult
  cases hresult with
  | error he =>
      intro hunwritable
      obtain ⟨text, htext, hnot⟩ := he.2 hunwritable
      rw [hP text htext] at hnot
      cases hnot

theorem RunsTwinned.gives (h : RunsTwinned Eq P c post) (hm : m.Only P) {a : α}
    (hc : c m = (.ok a, m')) : post a :=
  (h.single hm).2 a (by rw [hc])

end Single

section Rows

variable {steps calls : Nat} {m m' : Machine}

theorem evaluates (hP : Preserved settings P) (steps calls : Nat) :
    EvaluatesTwinned Eq P (evaluate settings steps calls) :=
  (twinned_steps (harmless_eq settings P) hP steps).1 calls

theorem executes (hP : Preserved settings P) (steps calls : Nat) :
    ExecutesTwinned Eq P (execute settings steps calls) :=
  (twinned_steps (harmless_eq settings P) hP steps).2 calls

/-- Messages change the trace only. -/
theorem only_note {level : Nat} {message : String} {r : Except RunFailure Unit} (hm : m.Only P)
    (h : note settings level message m = (r, m')) : m'.Only P := by
  rw [note_apply] at h
  split at h
  · cases h
    exact hm
  split at h
  · cases h
    exact hm
  · cases h
    exact ⟨hm.scopes, hm.heap, hm.loaded⟩

theorem only_evaluate (hP : Preserved settings P) {node : Node} (hnode : node.Every (Node.Only P))
    (hm : m.Only P) {r : Except RunFailure Value}
    (h : evaluate settings steps calls node m = (r, m')) : m'.Only P :=
  (evaluates hP steps calls node hnode).only hm h

theorem only_evaluateAll (hP : Preserved settings P) {nodes : List Node}
    (hnodes : Node.EveryOf (Node.Only P) nodes) (hm : m.Only P) {values : List Value}
    (h : evaluateAll (evaluate settings steps calls) nodes m = (.ok values, m')) :
    m'.Only P ∧ ∀ v ∈ values, v.Only P := by
  have hruns := twinned_evaluateAll (evaluates hP steps calls) hnodes
  exact ⟨hruns.only hm h, hruns.gives hm h⟩

theorem only_bindParameters {names : List Name} {values : List Value}
    (hvalues : ∀ v ∈ values, v.Only P) (hm : m.Only P) {r : Except RunFailure Unit}
    (h : bindParameters names values m = (r, m')) : m'.Only P :=
  (twinned_bindParameters names hvalues).only hm h

/-- What stands in front of a statement leaves a machine with the property, and the statement
has only literals with it. -/
theorem only_before (hP : Preserved settings P) {before behind : List Node} {s : Node}
    (hnodes : Node.EveryOf (Node.Only P) (before ++ s :: behind)) (hm : m.Only P)
    {r : Except RunFailure Completion}
    (h : executeAll (execute settings steps calls) before m = (r, m')) :
    m'.Only P ∧ s.Every (Node.Only P) := by
  obtain ⟨hbefore, hs, -⟩ := Node.everyOf_append.mp hnodes
  exact ⟨(twinned_executeAll hP (executes hP steps calls) hbefore).only hm h, hs⟩

/-- The same of the expressions in front of another one. -/
theorem only_evaluateAll_before (hP : Preserved settings P) {before behind : List Node} {e : Node}
    (hnodes : Node.EveryOf (Node.Only P) (before ++ e :: behind)) (hm : m.Only P)
    {r : Except RunFailure (List Value)}
    (h : evaluateAll (evaluate settings steps calls) before m = (r, m')) :
    m'.Only P ∧ e.Every (Node.Only P) := by
  obtain ⟨hbefore, he, -⟩ := Node.everyOf_append.mp hnodes
  exact ⟨(twinned_evaluateAll (evaluates hP steps calls) hbefore).only hm h, he⟩

theorem only_executeEach (hP : Preserved settings P) {nodes : List Node}
    (hnodes : Node.EveryOf (Node.Only P) nodes) (hm : m.Only P) {r : Except RunFailure Unit}
    (h : executeEach settings steps nodes m = (r, m')) : m'.Only P :=
  (twinned_executeEach (harmless_eq settings P) hP steps hnodes).only hm h

theorem Passed.only (hP : Preserved settings P) {value : Value} {arms : List Node}
    (h : Passed settings (evaluate settings steps calls) value arms m m')
    (harms : Node.EveryOf (Node.Only P) arms) (hm : m.Only P) : m'.Only P := by
  induction h with
  | nil => exact hm
  | cons hpart hmeets _ ih =>
      have hnode := Node.only_of_valuePart harms.1 hpart
      exact ih harms.2 ((twinned_meets (evaluates hP steps calls) value hnode).only hm hmeets)

/-- The cases of a switch start with its value bound. -/
theorem only_subject (hP : Preserved settings P) {c : Node} (hc : c.Every (Node.Only P))
    {value : Value} {m₁ m₂ : Machine} (hm : m.Only P)
    (hvalue : evaluate settings steps calls c m.enter = (.ok value, m₁))
    (hbind : bindVariable switchName true value m₁ = (.ok (), m₂)) : m₂.Only P := by
  have hgives := (evaluates hP steps calls c hc).gives hm.enter hvalue
  have hleft := only_evaluate hP hc hm.enter hvalue
  have hbinds : RunsTwinned Eq P (bindVariable switchName true value) fun _ => True :=
    twinned_bindVariable switchName true hgives
  exact hbinds.only hleft hbind

end Rows

section Points

variable {δ : Type} {k : Companion δ}

/-- A point whose machine and literals have only scalars with a property. -/
structure Point.Only (P : Scalar → Prop) (p : Point δ) : Prop where
  machine : p.machine.Only P
  node : p.node.Every (Node.Only P)

/-- Every part of a point has only scalars with the property if the point has. -/
theorem Part.only (hP : Preserved settings P) {p q : Point δ} (h : Part settings k p q)
    (hp : p.Only P) : q.Only P := by
  obtain ⟨hm, hnode⟩ := hp
  cases h with
  | group | initial | declared | evaluated | returned => exact ⟨hm, hnode.2⟩
  | left | condition | repeated => exact ⟨hm, hnode.2.1⟩
  | assigned => exact ⟨hm, hnode.2.2⟩
  | offset => exact ⟨hm, hnode.2⟩
  | right hleft => exact ⟨only_evaluate hP hnode.2.1 hm hleft, hnode.2.2⟩
  | argument hbefore | element hbefore =>
      obtain ⟨hm₁, he⟩ := only_evaluateAll_before hP hnode.2 hm hbefore
      exact ⟨hm₁, he⟩
  | body hvalues hf haction hnote hbind hbefore =>
      obtain ⟨hm₁, hgiven⟩ := only_evaluateAll hP hnode.2 hm hvalues
      have hf' : Action.Only P _ := (twinned_lookupFunction _ _).gives hm₁ hf
      rw [haction] at hf'
      have hm₃ := only_bindParameters hgiven (only_note hm₁ hnote).enter hbind
      obtain ⟨hm₄, hs⟩ := only_before hP hf' hm₃ hbefore
      exact ⟨hm₄, hs⟩
  | targetOffset hvalue => exact ⟨only_evaluate hP hnode.2.2 hm hvalue, hnode.2.1.2⟩
  | @branch _ _ _ s _ _ before behind b _ _ _ _ _ hc hnote hbranch hbefore =>
      obtain ⟨_, hcondition, hthen, helse⟩ := hnode
      have hm₂ := only_note (only_evaluate hP hcondition hm hc) hnote
      have hbody : Node.EveryOf (Node.Only P) (before ++ s :: behind) := by
        rw [← hbranch]
        cases b with
        | true => exact hthen
        | false => exact helse
      obtain ⟨hm₃, hs⟩ := only_before hP hbody hm₂.enter hbefore
      exact ⟨hm₃, hs⟩
  | iteration hc hbefore =>
      have hm₁ := only_evaluate hP hnode.2.1 hm hc
      obtain ⟨hm₂, hs⟩ := only_before hP hnode.2.2 hm₁.enter hbefore
      exact ⟨hm₂, hs⟩
  | again hc hbody =>
      have hm₁ := only_evaluate hP hnode.2.1 hm hc
      exact ⟨(twinned_body hP (executes hP _ _) hnode.2.2).only hm₁ hbody, hnode⟩
  | subject => exact ⟨hm.enter, hnode.2.1⟩
  | compared hc hbind hbefore harm =>
      obtain ⟨hpassed, harm', -⟩ := Node.everyOf_append.mp hnode.2.2
      have hm₂ := only_subject hP hnode.2.1 hm hc hbind
      exact ⟨hbefore.only hP hpassed hm₂, Node.only_of_valuePart harm' harm⟩
  | chosen hc hbind hbefore harm hmeets _ hnote =>
      obtain ⟨hpassed, harm', -⟩ := Node.everyOf_append.mp hnode.2.2
      have hm₂ := only_subject hP hnode.2.1 hm hc hbind
      have hm₃ := hbefore.only hP hpassed hm₂
      have hnode' := Node.only_of_valuePart harm' harm
      have hm₄ := (twinned_meets (evaluates hP _ _) _ hnode').only hm₃ hmeets
      exact ⟨only_note hm₄ hnote, harm'⟩
  | armBody hbefore =>
      obtain ⟨hm₁, hs⟩ := only_before hP hnode.2.2 hm.enter hbefore
      exact ⟨hm₁, hs⟩

variable {steps : Nat} {program : Node} {m : Machine} {d : δ} {p : Point δ}

/-- A run starts with points that have only scalars with the property. -/
theorem Starts.only (hP : Preserved settings P) (hprogram : program.Every (Node.Only P))
    (hm : m.Only P) (h : Starts settings k steps program m d p) : p.Only P := by
  cases h with
  | «global» heq hbefore =>
      subst heq
      obtain ⟨hbefore', hnode, -⟩ := Node.everyOf_append.mp hprogram.2.1
      exact ⟨only_executeEach hP hbefore' hm hbefore, hnode⟩
  | function heq hglobals hbefore =>
      subst heq
      obtain ⟨hbefore', hnode, -⟩ := Node.everyOf_append.mp hprogram.2.2
      have hm₁ := only_executeEach hP hprogram.2.1 hm hglobals
      exact ⟨only_executeEach hP hbefore' hm₁ hbefore, hnode⟩
  | main heq hglobals hfunctions hmain haction hnote _ hbind hbefore =>
      subst heq
      have hm₁ := only_executeEach hP hprogram.2.1 hm hglobals
      have hm₂ := only_executeEach hP hprogram.2.2 hm₁ hfunctions
      have hf : Action.Only P _ := twinned_mainFunction.gives hm₂ hmain
      rw [haction] at hf
      have hm₄ := only_bindParameters (List.forall_mem_nil _) (only_note hm₂ hnote).enter hbind
      obtain ⟨hm₅, hs⟩ := only_before hP hf hm₄ hbefore
      exact ⟨hm₅, hs⟩

/-- Every point that a run reaches has only scalars with the property. -/
theorem Reached.only (hP : Preserved settings P) (hprogram : program.Every (Node.Only P))
    (hm : m.Only P) (h : Reached settings k steps program m d p) : p.Only P :=
  h.induction (fun _ hstart => hstart.only hP hprogram hm) fun _ _ hpart hp => hpart.only hP hp

/-- A point that has only scalars with the property ends with one and leaves a machine with
only such. -/
theorem Point.Ends.only (hP : Preserved settings P) {v : Value} {m' : Machine}
    (h : p.Ends settings v m') (hp : p.Only P) : m'.Only P ∧ v.Only P := by
  obtain ⟨hm, hnode⟩ := hp
  cases h with
  | @expression steps calls node _ _ _ _ h =>
      have hruns := evaluates hP steps calls node hnode
      exact ⟨hruns.only hm h, hruns.gives hm h⟩
  | @statement steps calls node _ _ _ _ h =>
      have hruns := executes hP steps calls node hnode
      exact ⟨hruns.only hm h, hruns.gives hm h⟩

end Points

end Running
end BlockScript
