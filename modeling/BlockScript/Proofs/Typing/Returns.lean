import BlockScript.Proofs.Typing.Context
import Mathlib.Logic.Relation

/-!
# Where a return may stand

A check goes over the bodies of a tree from left to right, and comes to each part of a statement
in a state of its own (`Visit.Part`).  A visit says which function is the innermost one around it,
and whether another function was declared in front of it in the body of that one.  The state of
the check knows the innermost function, unless one was declared in front (`Visit.IsFaithful`).

So a return is checked against the innermost function around it.  It is refused as outside of a
function where there is none, but also behind a nested function.
-/

namespace BlockScript
namespace Typing

open BlockScript.Computation CheckState
open Node (declaresFunction anyDeclares)

/-- What is checked: a statement, some statements one after the other, or the cases of a switch
from a position on. -/
inductive Subject
  | statement (node : Node)
  | row (nodes : List Node)
  | arms (type : Option StaticType) (position : Nat) (nodes : List Node)

/-- The check of a subject. -/
def Subject.check : Subject → Checking (List Annotation)
  | statement node => Typing.check node
  | row nodes => checkAll nodes
  | arms type position nodes => checkArms type position nodes

/-- What a check comes to, and in which state; the innermost function around it, and whether another
function was declared in front of it in the body of that one. -/
structure Visit where
  subject : Subject
  state : CheckState
  innermost : Option Function
  declared : Bool

namespace Visit

/-- How a check comes to a part of what is checked. -/
inductive Part : Visit → Visit → Prop
  | function {name returnType : Name} {parameters parameterTypes : List Name} {body : List Node}
      {s entry : CheckState} {i : Option Function} {d : Bool} {f : Function} :
      enterBody name parameters parameterTypes returnType body s = (.ok f, entry) →
      Part ⟨.statement (.function name parameters parameterTypes returnType body), s, i, d⟩
        ⟨.row body, entry, some f, false⟩
  | thenBody {test : Node} {thenBody elseBody : List Node} {s : CheckState}
      {i : Option Function} {d : Bool} {found : List Annotation} :
      condition "IF" test s = (.ok found, s) →
      Part ⟨.statement (.conditional test thenBody elseBody), s, i, d⟩
        ⟨.row thenBody, s.enter, i, d⟩
  | elseBody {test : Node} {thenBody elseBody : List Node} {s t : CheckState}
      {i : Option Function} {d : Bool} {found inThen : List Annotation} :
      condition "IF" test s = (.ok found, s) →
      inScope (checkAll thenBody) s = (.ok inThen, t) →
      Part ⟨.statement (.conditional test thenBody elseBody), s, i, d⟩
        ⟨.row elseBody, t.enter, i, d || anyDeclares thenBody⟩
  | loop {test : Node} {body : List Node} {s : CheckState} {i : Option Function} {d : Bool}
      {found : List Annotation} : condition "WHILE" test s = (.ok found, s) →
      Part ⟨.statement (.loop test body), s, i, d⟩ ⟨.row body, s.enter, i, d⟩
  | switch {test : Node} {arms : List Node} {s : CheckState} {i : Option Function} {d : Bool}
      {found : Typed} : typeHere none test s = (.ok found, s) →
      Part ⟨.statement (.switch test arms), s, i, d⟩ ⟨.arms found.type 0 arms, s, i, d⟩
  | arm {value : Node} {body : List Node} {s : CheckState} {i : Option Function} {d : Bool}
      {found : List Annotation} : optionalExpression value s = (.ok found, s) →
      Part ⟨.statement (.arm value body), s, i, d⟩ ⟨.row body, s.enter, i, d⟩
  | first {node : Node} {nodes : List Node} {s : CheckState} {i : Option Function} {d : Bool} :
      Part ⟨.row (node :: nodes), s, i, d⟩ ⟨.statement node, s, i, d⟩
  | later {node : Node} {nodes : List Node} {s t : CheckState} {i : Option Function} {d : Bool}
      {found : List Annotation} : check node s = (.ok found, t) →
      Part ⟨.row (node :: nodes), s, i, d⟩ ⟨.row nodes, t, i, d || node.declaresFunction⟩
  | firstArm {type : Option StaticType} {position : Nat} {value : Node} {body arms : List Node}
      {s : CheckState} {i : Option Function} {d : Bool} {found : List Annotation} :
      valueOfArm type position (.arm value body) arms s = (.ok found, s) →
      Part ⟨.arms type position (.arm value body :: arms), s, i, d⟩ ⟨.row body, s.enter, i, d⟩
  | laterArms {type : Option StaticType} {position : Nat} {value : Node} {body arms : List Node}
      {s t : CheckState} {i : Option Function} {d : Bool} {found inBody : List Annotation} :
      valueOfArm type position (.arm value body) arms s = (.ok found, s) →
      inScope (checkAll body) s = (.ok inBody, t) →
      Part ⟨.arms type position (.arm value body :: arms), s, i, d⟩
        ⟨.arms type (position + 1) arms, t, i, d || anyDeclares body⟩

/-- What a check comes to in its course. -/
def Reaches : Visit → Visit → Prop := Relation.ReflTransGen Part

/-- The state knows the innermost function, unless another one was declared in front. -/
def IsFaithful (v : Visit) : Prop := v.state.enclosing = enclosingBehind v.declared v.innermost

variable {v w : Visit}

/-- The parts of what is checked know the innermost function if the whole does. -/
theorem Part.isFaithful (h : Part v w) (hv : v.IsFaithful) : w.IsFaithful := by
  unfold IsFaithful at hv ⊢
  cases h with
  | function henter =>
      obtain ⟨_, _, _, _, _, henclosing, hparameters⟩ := enterBody_eq_ok henter
      exact (bindParameters_continues hparameters).enclosing.trans henclosing
  | thenBody | loop | switch | arm | first | firstArm => exact hv
  | elseBody _ hthen =>
      change _ = _ at hv
      have ht := enclosing_of_inScope (fun _ => enclosing_of_checkAll) hthen
      exact ht.trans (by rw [hv, enclosingBehind_enclosingBehind])
  | later hnode =>
      exact (enclosing_of_check hnode).trans (by rw [hv, enclosingBehind_enclosingBehind])
  | laterArms _ hbody =>
      have ht := enclosing_of_inScope (fun _ => enclosing_of_checkAll) hbody
      exact ht.trans (by rw [hv, enclosingBehind_enclosingBehind])

/-- In the course of a check the innermost function is known. -/
theorem Reaches.isFaithful (h : v.Reaches w) (hv : v.IsFaithful) : w.IsFaithful := by
  induction h with
  | refl => exact hv
  | tail _ hpart ih => exact hpart.isFaithful ih

end Visit

section Chains

variable {α β : Type} {m : Checking α} {next : α → Checking β} {s : CheckState}

/-- A chain fails as a return outside of a function in its first part or behind it. -/
theorem outside_bind (h : ((m >>= next) s).1 = .error outside) :
    (m s).1 = .error outside ∨ ∃ a t, m s = (.ok a, t) ∧ (next a t).1 = .error outside := by
  rw [bind_apply] at h
  cases hm : m s with
  | mk r t =>
      rw [hm] at h
      cases r with
      | ok a => exact .inr ⟨a, t, rfl, h⟩
      | error e => exact .inl (congrArg Except.error (Except.error.inj h))

/-- A chain that only makes up a result behind its first part fails in that part. -/
theorem outside_of_pure {g : α → β} (h : ((m >>= fun a => pure (g a)) s).1 = .error outside) :
    (m s).1 = .error outside :=
  (outside_bind h).resolve_right fun ⟨_, _, _, hpure⟩ => nomatch hpure

theorem Refrains.outside_bind (hm : Refrains m) (h : ((m >>= next) s).1 = .error outside) :
    ∃ a t, m s = (.ok a, t) ∧ (next a t).1 = .error outside :=
  (Typing.outside_bind h).resolve_left (hm s)

theorem Inert.outside_bind (hm : Inert m) (h : ((m >>= next) s).1 = .error outside) :
    ∃ a, m s = (.ok a, s) ∧ (next a s).1 = .error outside := by
  obtain ⟨a, t, hstep, hnext⟩ := hm.refrains.outside_bind h
  obtain rfl : s = t := hm.steady.of_eq hstep
  exact ⟨a, hstep, hnext⟩

end Chains

section Origins

variable {s : CheckState} {i : Option Function} {d : Bool}

/-- In the course of a check a return is refused as outside of a function. -/
def Visit.Refuses (v : Visit) : Prop := ∃ w value, v.Reaches w ∧
  w.subject = .statement (.returning value) ∧ (w.subject.check w.state).1 = .error outside

theorem Visit.Part.refuses {v w : Visit} (h : v.Part w) (hw : w.Refuses) : v.Refuses := by
  obtain ⟨u, value, hreaches, hu⟩ := hw
  exact ⟨u, value, .head h hreaches, hu⟩

/-- A function is refused where its body is. -/
theorem function_outside {name returnType : Name} {parameters parameterTypes : List Name}
    {body : List Node}
    (h : (check (.function name parameters parameterTypes returnType body) s).1 = .error outside) :
    ∃ f entry, enterBody name parameters parameterTypes returnType body s = (.ok f, entry) ∧
      (checkAll body entry).1 = .error outside := by
  unfold check at h
  obtain ⟨f, hf, h⟩ := (inert_lift (avoids_signature _ _ _ _ _)).outside_bind h
  obtain ⟨_, s₁, hbind, h⟩ := (refrains_bindFunction f).outside_bind h
  obtain ⟨_, s₂, hnote, h⟩ := Refrains.outside_bind (fun _ => avoids_ok ()) h
  have hinside := outside_of_pure h
  have hbody : ((bindParameters parameters f.parameterTypes >>= fun _ => checkAll body)
      (s₂.enterFunction f)).1 = .error outside := hinside
  obtain ⟨_, entry, hparameters, hbody⟩ := (refrains_bindParameters _ _).outside_bind hbody
  refine ⟨f, entry, ?_, hbody⟩
  unfold enterBody
  refine bind_eq_ok.mpr ⟨f, s, hf, bind_eq_ok.mpr ⟨_, s₁, hbind, bind_eq_ok.mpr ⟨_, s₂, hnote, ?_⟩⟩⟩
  exact bind_eq_ok.mpr ⟨_, _, rfl, bind_eq_ok.mpr ⟨_, entry, hparameters, rfl⟩⟩

mutual

/-- A statement is refused as a return outside of a function only where such a return is. -/
theorem refuses_of_check : ∀ {node : Node} {s : CheckState} {i : Option Function} {d : Bool},
    (check node s).1 = .error outside → (Visit.mk (.statement node) s i d).Refuses
  | .global _ _ _ _, _, _, _, h | .declaration _ _ _, _, _, _, h => by
      unfold check at h
      exact absurd h (refrains_declare _ _ _ _ _ _ _)
  | .function _ _ _ _ _, _, _, _, h => by
      obtain ⟨f, entry, henter, hbody⟩ := function_outside h
      exact (Visit.Part.function henter).refuses (refuses_of_checkAll hbody)
  | .evaluation _, _, _, _, h => by
      unfold check at h
      exact absurd h (((inert_typeHere _ _).bind fun _ => inert_pure _).refrains _)
  | .assignment _ _, _, _, _, h => by
      unfold check at h
      exact absurd h ((inert_assignment _ _).refrains _)
  | .conditional _ _ _, _, _, _, h => by
      unfold check at h
      obtain ⟨found, htest, h⟩ := (inert_condition _ _).outside_bind h
      split at h
      · cases h
      rcases outside_bind h with hthen | ⟨_, t, hthen, h⟩
      · exact (Visit.Part.thenBody htest).refuses (refuses_of_checkAll hthen)
      · have helse := outside_of_pure h
        exact (Visit.Part.elseBody htest hthen).refuses (refuses_of_checkAll helse)
  | .loop _ _, _, _, _, h => by
      unfold check at h
      obtain ⟨found, htest, h⟩ := (inert_condition _ _).outside_bind h
      have hbody := outside_of_pure h
      exact (Visit.Part.loop htest).refuses (refuses_of_checkAll hbody)
  | .switch _ _, _, _, _, h => by
      unfold check at h
      obtain ⟨found, htest, h⟩ := (inert_typeHere _ _).outside_bind h
      have harms := outside_of_pure h
      exact (Visit.Part.switch htest).refuses (refuses_of_checkArms harms)
  | .arm _ _, _, _, _, h => by
      unfold check at h
      obtain ⟨found, hvalue, h⟩ := (inert_optionalExpression _).outside_bind h
      have hbody := outside_of_pure h
      exact (Visit.Part.arm hvalue).refuses (refuses_of_checkAll hbody)
  | .returning value, _, _, _, h => ⟨_, value, .refl, rfl, h⟩
  | .absent, _, _, _, h | .source _ _, _, _, _, h | .literal _, _, _, _, h
  | .group _, _, _, _, h | .binary _ _ _, _, _, _, h | .access _ _, _, _, _, h
  | .call _ _, _, _, _, h | .list _, _, _, _, h => by
      unfold check at h
      cases h

theorem refuses_of_checkAll : ∀ {nodes : List Node} {s : CheckState} {i : Option Function}
    {d : Bool}, (checkAll nodes s).1 = .error outside → (Visit.mk (.row nodes) s i d).Refuses
  | [], _, _, _, h => by
      unfold checkAll at h
      cases h
  | _ :: _, _, _, _, h => by
      unfold checkAll at h
      rcases outside_bind h with hnode | ⟨_, t, hnode, h⟩
      · exact Visit.Part.first.refuses (refuses_of_check hnode)
      · have hnodes := outside_of_pure h
        exact (Visit.Part.later hnode).refuses (refuses_of_checkAll hnodes)

theorem refuses_of_checkArms : ∀ {arms : List Node} {type : Option StaticType} {position : Nat}
    {s : CheckState} {i : Option Function} {d : Bool},
    (checkArms type position arms s).1 = .error outside →
      (Visit.mk (.arms type position arms) s i d).Refuses
  | [], _, _, _, _, _, h => by
      unfold checkArms at h
      cases h
  | arm :: _, _, _, _, _, _, h => by
      rw [checkArms_cons_eq] at h
      obtain ⟨found, hvalue, h⟩ := (inert_valueOfArm _ _ _ _).outside_bind h
      cases arm with
      | arm value body =>
          unfold checkArmBody at h
          rcases outside_bind h with hbody | ⟨_, t, hbody, h⟩
          · exact (Visit.Part.firstArm hvalue).refuses (refuses_of_checkAll hbody)
          · have harms := outside_of_pure h
            exact (Visit.Part.laterArms hvalue hbody).refuses (refuses_of_checkArms harms)
      | _ =>
          unfold checkArmBody at h
          cases h

end

end Origins

/-- A return is refused as outside of a function exactly where the innermost one is not known. -/
theorem Visit.IsFaithful.returning_outside {v : Visit} (hv : v.IsFaithful) {value : Node}
    (hsubject : v.subject = .statement (.returning value)) :
    (v.subject.check v.state).1 = .error outside ↔ v.innermost = none ∨ v.declared = true := by
  have hcheck : v.subject.check v.state = returning value v.state := by
    rw [hsubject, Subject.check, check]
  unfold IsFaithful enclosingBehind at hv
  rw [hcheck, returning_eq, hv]
  cases v.declared with
  | true => exact iff_of_true rfl (.inr rfl)
  | false =>
      cases v.innermost with
      | none => exact iff_of_true rfl (.inl rfl)
      | some f => exact iff_of_false ((inert_returningFrom f value).refrains _) (by simp)

/-- Where the innermost function is known, a return is checked against its type. -/
theorem Visit.IsFaithful.returning_inside {v : Visit} (hv : v.IsFaithful) {value : Node}
    {f : Function} (hsubject : v.subject = .statement (.returning value))
    (hf : v.innermost = some f) (hdeclared : v.declared = false) :
    v.subject.check v.state = returningFrom f value v.state := by
  unfold IsFaithful enclosingBehind at hv
  rw [hdeclared, hf] at hv
  rw [hsubject, Subject.check, check, returning_eq, hv]
  rfl

/-- **A check keeps its context, but for the function in front of a nested one.** Behind the check
of a statement, however it ends, the current scope is the one in front of it, and so is the
enclosing function, unless the statement declares a function: then there is none, if it ends well.

So in the course of a check each return is checked against the type of the innermost function
around it, as long as no other function was declared in front of it in that one's body.  It is
refused as outside of a function exactly where there is no function around it or another one was
declared in front, and a statement is refused for that reason only with such a return. -/
theorem context_is_kept_up_to_nested_functions (node : Node) (s : CheckState) :
    s.Keeps node.declaresFunction (check node s).2 ∧
    (∀ a t, check node s = (.ok a, t) →
      t.enclosing = enclosingBehind node.declaresFunction s.enclosing) ∧
    (∀ v value, (Visit.mk (.statement node) s s.enclosing false).Reaches v →
      v.subject = .statement (.returning value) →
        (∀ f, v.innermost = some f → v.declared = false →
          v.subject.check v.state = returningFrom f value v.state) ∧
        ((v.subject.check v.state).1 = .error outside ↔ v.innermost = none ∨ v.declared = true)) ∧
    ((check node s).1 = .error outside →
      ∃ v value, (Visit.mk (.statement node) s s.enclosing false).Reaches v ∧
        v.subject = .statement (.returning value) ∧ (v.innermost = none ∨ v.declared = true)) := by
  have hfaithful : ∀ v, (Visit.mk (.statement node) s s.enclosing false).Reaches v →
      v.IsFaithful := fun v hreaches => hreaches.isFaithful rfl
  refine ⟨keeps_check node s, fun a t => enclosing_of_check, fun v value hreaches hsubject => ?_,
    fun h => ?_⟩
  · have hv := hfaithful v hreaches
    exact ⟨fun f hf hdeclared => hv.returning_inside hsubject hf hdeclared,
      hv.returning_outside hsubject⟩
  · obtain ⟨v, value, hreaches, hsubject, hv⟩ := refuses_of_check h
    exact ⟨v, value, hreaches, hsubject,
      ((hfaithful v hreaches).returning_outside hsubject).mp hv⟩

/-- A function in whose body another one is declared in front of a return. -/
def nestingFunction : Node :=
  .function "main" [] [] "Integer"
    [.function "inner" [] [] .missing [], .returning (.literal (.integer 0))]

/-- The return is refused, although a function encloses it: behind the nested function the check
has forgotten that one. -/
theorem context_is_lost_in_nestingFunction :
    (check nestingFunction (.start [] (.start 0))).1 = .error outside ∧
    ∃ (v : Visit) (value : Node),
      (Visit.mk (.statement nestingFunction) (.start [] (.start 0)) none false).Reaches v ∧
      v.subject = .statement (.returning value) ∧ v.innermost.map (·.name) = some "main" ∧
      v.state.enclosing = none ∧ (v.subject.check v.state).1 = .error outside := by
  have hcheck : (check nestingFunction (.start [] (.start 0))).1 = .error outside := rfl
  have hreturn : ∃ (v : Visit) (value : Node),
      (Visit.mk (.statement nestingFunction) (.start [] (.start 0)) none false).Reaches v ∧
      v.subject = .statement (.returning value) ∧ v.innermost.map (·.name) = some "main" ∧
      v.declared = true :=
    ⟨_, _, .head (.function rfl) (.head (.later rfl) (.single .first)), rfl, rfl, rfl⟩
  obtain ⟨v, value, hreaches, hsubject, hname, hdeclared⟩ := hreturn
  obtain ⟨-, -, hreturns, -⟩ :=
    context_is_kept_up_to_nested_functions nestingFunction (.start [] (.start 0))
  have hfaithful : v.IsFaithful := hreaches.isFaithful rfl
  unfold Visit.IsFaithful at hfaithful
  refine ⟨hcheck, v, value, hreaches, hsubject, hname, ?_, ?_⟩
  · rw [hfaithful, hdeclared]
    rfl
  · exact (hreturns v value hreaches hsubject).2.mpr (.inr hdeclared)

end Typing
end BlockScript
