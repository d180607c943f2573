import BlockScript.Proofs.Scope.Persistence
import BlockScript.Proofs.Typing.Declarations
import BlockScript.Proofs.Typing.Steps

/-!
# What a check leaves of its context

The context of a statement is the scope it stands in and the function that encloses it.  Bodies,
cases and functions have scopes of their own, which are left however the check of them ends, so
that behind a statement the current scope is the one in front of it.  It may have got the names
that the statement declares.

The enclosing function is only forgotten, never restored: behind a function that is declared in
the body of another one, no function encloses what follows in that body.  A check forgets it only
if it declares a function (`keeps_check`), and always if it ends well (`enclosing_of_check`).
-/

namespace BlockScript

namespace Node

mutual

/-- Whether a statement declares a function, by itself or in a body. -/
def declaresFunction : Node → Bool
  | .function _ _ _ _ _ => true
  | .conditional _ thenBody elseBody => anyDeclares thenBody || anyDeclares elseBody
  | .loop _ body => anyDeclares body
  | .switch _ arms => anyDeclares arms
  | .arm _ body => anyDeclares body
  | _ => false

/-- Whether one of some statements declares a function. -/
def anyDeclares : List Node → Bool
  | [] => false
  | node :: nodes => node.declaresFunction || anyDeclares nodes

end

end Node

/-- A chain with the same scopes, the current one of which may have further names. -/
structure Chain.Extends (c d : Chain) : Prop where
  outer : d.outer = c.outer
  vars : c.current.vars <:+ d.current.vars
  functions : c.current.functions <:+ d.current.functions

namespace Chain

variable {c d : Chain}

instance : IsPreorder Chain Extends where
  refl _ := ⟨rfl, List.suffix_refl _, List.suffix_refl _⟩
  trans _ _ _ h h' :=
    ⟨h'.outer.trans h.outer, h.vars.trans h'.vars, h.functions.trans h'.functions⟩

/-- Behind a scope of its own a chain is back at the scopes that it had. -/
theorem Extends.pop (h : c.push.Extends d) : d.pop = c := by
  have houter : d.outer = c.current :: c.outer := h.outer
  unfold Chain.pop
  rw [houter]

theorem extends_of_defineVariable {v : Variable} (h : c.defineVariable v = .ok d) :
    c.Extends d := by
  obtain ⟨-, rfl⟩ := defineVariable_eq_ok_iff.mp h
  exact ⟨rfl, List.suffix_cons _ _, List.suffix_refl _⟩

theorem extends_of_defineFunction {f : Function} (h : c.defineFunction f = .ok d) :
    c.Extends d := by
  obtain ⟨-, rfl⟩ := defineFunction_eq_ok_iff.mp h
  exact ⟨rfl, List.suffix_refl _, List.suffix_cons _ _⟩

end Chain

namespace CheckState

/-- A state that stands in the same scopes as another one and in the same function, which may be
forgotten if functions have been declared in between. -/
structure Keeps (declares : Bool) (s t : CheckState) : Prop where
  scopes : s.scopes.Extends t.scopes
  enclosing : t.enclosing = s.enclosing ∨ declares = true ∧ t.enclosing = none

variable {declares : Bool} {s t : CheckState}

instance : IsPreorder CheckState (Keeps declares) where
  refl s := ⟨refl s.scopes, .inl rfl⟩
  trans _ _ _ h h' := by
    refine ⟨IsTrans.trans _ _ _ h.scopes h'.scopes, ?_⟩
    rcases h'.enclosing with heq | hforgotten
    · rw [heq]
      exact h.enclosing
    · exact .inr hforgotten

theorem Keeps.imp {declares' : Bool} (h : s.Keeps declares t)
    (himp : declares = true → declares' = true) : s.Keeps declares' t :=
  ⟨h.scopes, h.enclosing.imp_right fun hforgotten => ⟨himp hforgotten.1, hforgotten.2⟩⟩

end CheckState

namespace Typing

open BlockScript.Computation CheckState
open Node (declaresFunction anyDeclares)

section Steps

variable {α : Type} {declares : Bool} {m : Checking α}

theorem keeps_note (level : Nat) (message : String) : (note level message).Obeys (Keeps declares) :=
  fun s => ⟨refl s.scopes, .inl rfl⟩

theorem keeps_bindVariable (v : Variable) : (bindVariable v).Obeys (Keeps declares) := by
  intro s
  unfold bindVariable boundUnder
  rw [bind_apply, state_apply]
  dsimp only
  split
  · cases h : s.scopes.defineVariable v with
    | ok scopes => exact ⟨Chain.extends_of_defineVariable h, .inl rfl⟩
    | error fault => exact refl s
  · exact refl s

theorem keeps_bindFunction (f : Function) : (bindFunction f).Obeys (Keeps declares) := by
  intro s
  unfold bindFunction boundUnder
  rw [bind_apply, state_apply]
  dsimp only
  split
  · cases h : s.scopes.defineFunction f with
    | ok scopes => exact ⟨Chain.extends_of_defineFunction h, .inl rfl⟩
    | error fault => exact refl s
  · exact refl s

/-- A scope of its own is left however the check in it ends. -/
theorem keeps_inScope (h : m.Obeys (Keeps declares)) : (inScope m).Obeys (Keeps declares) := by
  intro s
  have hinside := h s.enter
  have hscopes : ((inScope m) s).2.scopes = s.scopes := hinside.scopes.pop
  refine ⟨?_, hinside.enclosing⟩
  rw [hscopes]
  exact refl s.scopes

/-- So is the scope of a function, and then there is no enclosing function. -/
theorem keeps_inFunction (f : Function) (h : m.Obeys (Keeps declares)) :
    (inFunction f m).Obeys (Keeps true) := by
  intro s
  have hscopes : ((inFunction f m) s).2.scopes = s.scopes := (h (s.enterFunction f)).scopes.pop
  refine ⟨?_, .inr ⟨rfl, rfl⟩⟩
  rw [hscopes]
  exact refl s.scopes

theorem keeps_declare (node : Node) (verb : String) (name typeName : Name) (isMutable : Bool)
    (value : Node) : (declare node verb name typeName isMutable value).Obeys (Keeps declares) := by
  refine (inert_declaredType name typeName value).obeys.bind fun found => ?_
  refine (keeps_bindVariable _).bind fun _ => ?_
  exact (obeys_lift _).bind fun _ => (keeps_note _ _).bind fun _ => obeys_pure _

end Steps

section Contexts

section Parts

variable {α : Type} {m : Checking α} {first second : Bool}

theorem keeps_left (h : m.Obeys (Keeps first)) : m.Obeys (Keeps (first || second)) :=
  h.imp fun _ _ hkeeps => hkeeps.imp fun hfirst => by rw [hfirst, Bool.true_or]

theorem keeps_right (h : m.Obeys (Keeps second)) : m.Obeys (Keeps (first || second)) :=
  h.imp fun _ _ hkeeps => hkeeps.imp fun hsecond => by rw [hsecond, Bool.or_true]

end Parts

mutual

/-- A check keeps the scopes, and forgets the enclosing function only if it declares one. -/
theorem keeps_check : ∀ node : Node, (check node).Obeys (Keeps node.declaresFunction)
  | .global _ _ _ _ | .declaration _ _ _ => by
      unfold check
      exact keeps_declare _ _ _ _ _ _
  | .function _ parameters _ _ body => by
      unfold check declaresFunction
      refine (obeys_lift _).bind fun f => ?_
      refine (keeps_bindFunction f).bind fun _ => (keeps_note _ _).bind fun _ => ?_
      have hbody := (obeys_bindParameters keeps_bindVariable parameters f.parameterTypes).bind
        fun _ => keeps_checkAll body
      exact (keeps_inFunction f hbody).bind fun _ => obeys_pure _
  | .evaluation _ => by
      unfold check
      exact (inert_typeHere _ _).obeys.bind fun _ => obeys_pure _
  | .assignment target value => by
      unfold check
      exact (inert_assignment target value).obeys
  | .conditional test thenBody elseBody => by
      unfold check declaresFunction
      refine (inert_condition "IF" test).obeys.bind fun _ => ?_
      split
      · exact obeys_lift _
      · refine (keeps_left (keeps_inScope (keeps_checkAll thenBody))).bind fun _ => ?_
        refine (keeps_right (keeps_inScope (keeps_checkAll elseBody))).bind fun _ => ?_
        exact obeys_pure _
  | .loop test body => by
      unfold check declaresFunction
      refine (inert_condition "WHILE" test).obeys.bind fun _ => ?_
      exact (keeps_inScope (keeps_checkAll body)).bind fun _ => obeys_pure _
  | .switch _ arms => by
      unfold check declaresFunction
      refine (inert_typeHere _ _).obeys.bind fun found => ?_
      exact (keeps_checkArms found.type 0 arms).bind fun _ => obeys_pure _
  | .arm value body => by
      unfold check declaresFunction
      refine (inert_optionalExpression value).obeys.bind fun _ => ?_
      exact (keeps_inScope (keeps_checkAll body)).bind fun _ => obeys_pure _
  | .returning value => by
      unfold check
      exact (steady_returning value).of_steady
  | .absent | .source _ _ | .literal _ | .group _ | .binary _ _ _ | .access _ _ | .call _ _
  | .list _ => by
      unfold check
      exact obeys_fail _

theorem keeps_checkAll : ∀ nodes : List Node, (checkAll nodes).Obeys (Keeps (anyDeclares nodes))
  | [] => by
      unfold checkAll
      exact obeys_pure _
  | node :: nodes => by
      unfold checkAll anyDeclares
      refine (keeps_left (keeps_check node)).bind fun _ => ?_
      exact (keeps_right (keeps_checkAll nodes)).bind fun _ => obeys_pure _

theorem keeps_checkArms : ∀ (type : Option StaticType) (position : Nat) (arms : List Node),
    (checkArms type position arms).Obeys (Keeps (anyDeclares arms))
  | _, _, [] => by
      unfold checkArms
      exact obeys_pure _
  | type, position, arm :: arms => by
      rw [checkArms_cons_eq, anyDeclares]
      refine (inert_valueOfArm _ _ _ _).obeys.bind fun _ => ?_
      refine (keeps_left (keeps_checkArmBody arm)).bind fun _ => ?_
      exact (keeps_right (keeps_checkArms type (position + 1) arms)).bind fun _ => obeys_pure _

theorem keeps_checkArmBody : ∀ arm : Node, (checkArmBody arm).Obeys (Keeps arm.declaresFunction)
  | .arm _ body => by
      unfold checkArmBody declaresFunction
      exact keeps_inScope (keeps_checkAll body)
  | .absent | .source _ _ | .global _ _ _ _ | .function _ _ _ _ _ | .evaluation _
  | .declaration _ _ _ | .assignment _ _ | .conditional _ _ _ | .switch _ _ | .loop _ _
  | .returning _ | .literal _ | .group _ | .binary _ _ _ | .access _ _ | .call _ _
  | .list _ => by
      unfold checkArmBody
      exact obeys_fail _

end

end Contexts

section Enclosing

/-- What encloses the statements behind some others: the function that enclosed those, or none
if a function was declared in them. -/
def enclosingBehind (declared : Bool) (f : Option Function) : Option Function :=
  if declared then none else f

theorem enclosingBehind_enclosingBehind (declared declared' : Bool) (f : Option Function) :
    enclosingBehind declared' (enclosingBehind declared f) =
      enclosingBehind (declared || declared') f := by
  cases declared <;> cases declared' <;> rfl

variable {s t : CheckState} {a : List Annotation}

theorem enclosing_of_inScope {body : List Node} {declared : Bool}
    (hbody : ∀ t, checkAll body s.enter = (.ok a, t) →
      t.enclosing = enclosingBehind declared s.enter.enclosing)
    (h : inScope (checkAll body) s = (.ok a, t)) :
    t.enclosing = enclosingBehind declared s.enclosing := by
  obtain ⟨t, hcheck, rfl⟩ := inScope_eq_ok h
  exact hbody t hcheck

mutual

/-- Behind a statement that is checked, the enclosing function is forgotten exactly if the
statement declares a function. -/
theorem enclosing_of_check : ∀ {node : Node} {s t : CheckState} {a : List Annotation},
    check node s = (.ok a, t) → t.enclosing = enclosingBehind node.declaresFunction s.enclosing
  | .global _ _ _ _, _, _, _, h | .declaration _ _ _, _, _, _, h => by
      unfold check at h
      obtain ⟨_, _, _, hadds, _⟩ := declare_eq_ok h
      exact hadds.enclosing
  | .function _ _ _ _ _, _, _, _, h => by
      obtain ⟨_, _, _, _, _, _, rfl, _⟩ := function_eq_ok h
      rfl
  | .evaluation _, _, _, _, h => by
      obtain ⟨rfl, _⟩ := evaluation_eq_ok h
      rfl
  | .assignment _ _, _, _, _, h => by
      unfold check at h
      obtain ⟨rfl, _⟩ := assignment_eq_ok h
      rfl
  | .conditional _ _ _, _, _, _, h => by
      obtain ⟨_, _, _, _, _, _, hthen, helse, _⟩ := conditional_eq_ok h
      rw [enclosing_of_inScope (fun _ => enclosing_of_checkAll) helse,
        enclosing_of_inScope (fun _ => enclosing_of_checkAll) hthen,
        enclosingBehind_enclosingBehind]
      rfl
  | .loop _ _, _, _, _, h => by
      obtain ⟨_, _, _, _, hbody, _⟩ := loop_eq_ok h
      exact enclosing_of_inScope (fun _ => enclosing_of_checkAll) hbody
  | .switch _ _, _, _, _, h => by
      obtain ⟨_, _, _, harms, _⟩ := switch_eq_ok h
      exact enclosing_of_checkArms harms
  | .arm _ _, _, _, _, h => by
      obtain ⟨_, _, hbody, _⟩ := arm_eq_ok h
      exact enclosing_of_inScope (fun _ => enclosing_of_checkAll) hbody
  | .returning _, _, _, _, h => by
      unfold check at h
      obtain ⟨rfl, _⟩ := returning_eq_ok h
      rfl
  | .absent, _, _, _, h | .source _ _, _, _, _, h | .literal _, _, _, _, h
  | .group _, _, _, _, h | .binary _ _ _, _, _, _, h | .access _ _, _, _, _, h
  | .call _ _, _, _, _, h | .list _, _, _, _, h => by
      unfold check at h
      cases h

theorem enclosing_of_checkAll : ∀ {nodes : List Node} {s t : CheckState} {a : List Annotation},
    checkAll nodes s = (.ok a, t) → t.enclosing = enclosingBehind (anyDeclares nodes) s.enclosing
  | [], _, _, _, h => by
      cases h
      rfl
  | _ :: _, _, _, _, h => by
      obtain ⟨_, _, _, hnode, hnodes, _⟩ := checkAll_cons h
      rw [enclosing_of_checkAll hnodes, enclosing_of_check hnode, enclosingBehind_enclosingBehind]
      rfl

theorem enclosing_of_checkArms : ∀ {arms : List Node} {type : Option StaticType}
    {position : Nat} {s t : CheckState} {a : List Annotation},
    checkArms type position arms s = (.ok a, t) →
      t.enclosing = enclosingBehind (anyDeclares arms) s.enclosing
  | [], _, _, _, _, _, h => by
      cases h
      rfl
  | _ :: _, _, _, _, _, _, h => by
      obtain ⟨_, _, _, _, _, _, rfl, _, hbody, hothers, _⟩ := checkArms_cons h
      rw [enclosing_of_checkArms hothers,
        enclosing_of_inScope (fun _ => enclosing_of_checkAll) hbody,
        enclosingBehind_enclosingBehind]
      rfl

end

end Enclosing

end Typing
end BlockScript
