import BlockScript.Proofs.Typing.Steps
import BlockScript.Typing.Program

/-!
# Checking without messages

The check of a program without its messages is a check of its own (`checkProgramSilently`): no
message is made, and no name of a type for one.  Where the trace has level zero, the check does the
same with its messages as without them, and leaves the trace as it is.  The one exception is a
declaration whose type has no name: its message cannot be made, and the check breaks off there
(`hushed_checkProgram`).
-/

namespace BlockScript
namespace Typing

open BlockScript.Computation

section Silent

/-- Checks the declaration of a variable, without a message. -/
def declareSilently (node : Node) (name typeName : Name) (isMutable : Bool) (value : Node) :
    Checking (List Annotation) := do
  let found ← declaredType name typeName value
  let declared : Variable := ⟨name, name, found.type, isMutable, .nil⟩
  bindVariable declared
  return ⟨node, .declaration declared⟩ :: found.annotations

mutual

/-- Checks a statement or a declaration, without messages. -/
def checkSilently : Node → Checking (List Annotation)
  | .global name typeName isMutable value =>
      declareSilently (.global name typeName isMutable value) name typeName isMutable value
  | .function name parameters parameterTypes returnType body => do
      let f ← Computation.lift (signature name parameters parameterTypes returnType body)
      bindFunction f
      let found ← inFunction f do
        bindParameters parameters f.parameterTypes
        checkAllSilently body
      return ⟨.function name parameters parameterTypes returnType body, .function f⟩ :: found
  | .evaluation expression => do
      let found ← typeHere none expression
      return found.annotations
  | .declaration name typeName value =>
      declareSilently (.declaration name typeName value) name typeName true value
  | .assignment target value => assignment target value
  | .conditional test thenBody elseBody => do
      let found ← condition "IF" test
      if thenBody.isEmpty then Computation.lift (reject .emptyThenBranch)
      else
        let inThen ← inScope (checkAllSilently thenBody)
        let inElse ← inScope (checkAllSilently elseBody)
        return found ++ inThen ++ inElse
  | .loop test body => do
      let found ← condition "WHILE" test
      let inBody ← inScope (checkAllSilently body)
      return found ++ inBody
  | .switch test arms => do
      let found ← typeHere none test
      let inArms ← checkArmsSilently found.type 0 arms
      return found.annotations ++ inArms
  | .arm value body => do
      let found ← optionalExpression value
      let inBody ← inScope (checkAllSilently body)
      return found ++ inBody
  | .returning value => returning value
  | node => Computation.fail (.misplacedStatement node)

/-- Checks statements one after the other, without messages. -/
def checkAllSilently : List Node → Checking (List Annotation)
  | [] => return []
  | node :: nodes => do
      let found ← checkSilently node
      let others ← checkAllSilently nodes
      return found ++ others

/-- Checks the cases of a switch from a position on, without messages. -/
def checkArmsSilently (conditionType : Option StaticType) (position : Nat) :
    List Node → Checking (List Annotation)
  | [] => return []
  | arm :: arms => do
      let found ← if arms.isEmpty then lastCaseValue arm
        else caseValue conditionType position arm
      let inBody ← checkArmBodySilently arm
      let others ← checkArmsSilently conditionType (position + 1) arms
      return found ++ inBody ++ others

/-- Checks the body of a case, without messages. -/
def checkArmBodySilently : Node → Checking (List Annotation)
  | .arm _ body => inScope (checkAllSilently body)
  | _ => Computation.fail .missingPart

end

/-- Checks the functions of a program, without messages. -/
def checkFunctionsSilently : List Node → Checking (Bool × List Annotation)
  | [] => return (false, [])
  | node :: nodes => do
      let isMain ← Computation.lift (declaresMain node)
      let found ← checkSilently node
      let (hasMain, others) ← checkFunctionsSilently nodes
      return (isMain || hasMain, found ++ others)

/-- Checks a program, without messages. -/
def checkProgramSilently (program : Node) : Checking (List Annotation) :=
  match program with
  | .source globals functions => do
      let found ← checkAllSilently globals
      let (hasMain, others) ← checkFunctionsSilently functions
      if hasMain then return found ++ others
      else Computation.lift (reject .missingMain)
  | _ => Computation.fail .missingPart

end Silent

/-- At level zero, a step does the same as another one that leaves the trace alone, unless it
breaks off at a type without a name. -/
def Hushed {α : Type} (c c' : Checking α) : Prop := ∀ s : CheckState, s.trace.level = 0 →
  (c s).1 = .error .untyped ∨ c s = c' s ∧ (c s).2.trace = s.trace

/-- The trace is left alone. -/
def KeepsTrace (s t : CheckState) : Prop := t.trace = s.trace

instance : IsPreorder CheckState KeepsTrace where
  refl _ := rfl
  trans _ _ _ h h' := h'.trans h

section Rules

variable {α β : Type} {c c' : Checking α}

theorem hushed_of_obeys (h : c.Obeys KeepsTrace) : Hushed c c := fun s _ => .inr ⟨rfl, h s⟩

theorem Hushed.bind {next next' : α → Checking β} (h : Hushed c c')
    (hnext : ∀ a, Hushed (next a) (next' a)) : Hushed (c >>= next) (c' >>= next') := by
  intro s hs
  rw [bind_apply, bind_apply]
  rcases h s hs with hfails | ⟨heq, htrace⟩
  · refine .inl ?_
    cases hc : c s with
    | mk r t =>
        rw [hc] at hfails
        dsimp only at hfails ⊢
        rw [hfails]
  · rw [← heq]
    cases hc : c s with
    | mk r t =>
        rw [hc] at htrace
        cases r with
        | error e => exact .inr ⟨rfl, htrace⟩
        | ok a =>
            rcases hnext a t (htrace ▸ hs) with hfails | ⟨heq', htrace'⟩
            · exact .inl hfails
            · exact .inr ⟨heq', htrace'.trans htrace⟩

/-- A step between two changes that leave the trace alone. -/
theorem Hushed.between {f g : CheckState → CheckState} (h : Hushed c c')
    (hf : ∀ s, (f s).trace = s.trace) (hg : ∀ s, (g s).trace = s.trace) :
    Hushed (change f >>= fun _ => c.afterwards g) (change f >>= fun _ => c'.afterwards g) := by
  intro s hs
  have hc := h (f s) ((hf s).symm ▸ hs)
  simp only [bind_apply, change_apply, afterwards_apply]
  rcases hc with hfails | ⟨heq, htrace⟩
  · exact .inl hfails
  · exact .inr ⟨by rw [heq], (hg _).trans (htrace.trans (hf s))⟩

theorem Hushed.inScope (h : Hushed c c') : Hushed (inScope c) (inScope c') :=
  h.between (fun _ => rfl) fun _ => rfl

theorem Hushed.inFunction (f : Function) (h : Hushed c c') :
    Hushed (inFunction f c) (inFunction f c') :=
  h.between (fun _ => rfl) fun _ => rfl

/-- A trace of level zero keeps no message, so that a message in front of a step is nothing. -/
theorem Hushed.note (level : Nat) (message : String) {next : Unit → Checking α}
    (h : Hushed (next ()) c') : Hushed (note (level + 1) message >>= next) c' := by
  intro s hs
  have hnote : s.trace.note (level + 1) message = s.trace := by
    unfold Trace.note
    rw [if_neg (by omega)]
  simp only [Typing.note, bind_apply, change_apply, hnote]
  exact h s hs

/-- The name of a type is made for a message only. -/
theorem Hushed.named (type : Option StaticType) {next : StaticType → Checking α}
    (h : ∀ t, Hushed (next t) c') : Hushed (lift (named type) >>= next) c' := by
  cases type with
  | none => exact fun _ _ => .inl rfl
  | some t => exact h t

end Rules

section Steps

variable {α : Type}

theorem keepsTrace_bindVariable (v : Variable) : (bindVariable v).Obeys KeepsTrace :=
  obeys_state.bind fun _ => (obeys_lift _).bind fun _ _ => rfl

theorem keepsTrace_bindFunction (f : Function) : (bindFunction f).Obeys KeepsTrace :=
  obeys_state.bind fun _ => (obeys_lift _).bind fun _ _ => rfl

theorem hushed_pure (a : α) : Hushed (pure a) (pure a) := hushed_of_obeys (obeys_pure a)

theorem hushed_declare (node : Node) (verb : String) (name typeName : Name) (isMutable : Bool)
    (value : Node) : Hushed (declare node verb name typeName isMutable value)
      (declareSilently node name typeName isMutable value) := by
  refine (hushed_of_obeys (inert_declaredType name typeName value).obeys).bind fun found => ?_
  refine (hushed_of_obeys (keepsTrace_bindVariable _)).bind fun _ => ?_
  exact .named found.type fun _ => .note 1 _ (hushed_pure _)

end Steps

mutual

/-- The check of a statement or a declaration needs no messages. -/
theorem hushed_check : ∀ node : Node, Hushed (check node) (checkSilently node)
  | .global _ _ _ _ | .declaration _ _ _ => by
      unfold check checkSilently
      exact hushed_declare _ _ _ _ _ _
  | .function _ parameters _ _ body => by
      unfold check checkSilently
      refine (hushed_of_obeys (obeys_lift _)).bind fun f => ?_
      refine (hushed_of_obeys (keepsTrace_bindFunction f)).bind fun _ => .note 0 _ ?_
      have hparameters := obeys_bindParameters keepsTrace_bindVariable parameters f.parameterTypes
      refine Hushed.bind ?_ fun _ => hushed_pure _
      exact ((hushed_of_obeys hparameters).bind fun _ => hushed_checkAll body).inFunction f
  | .evaluation _ => by
      unfold check checkSilently
      exact hushed_of_obeys ((inert_typeHere _ _).obeys.bind fun _ => obeys_pure _)
  | .assignment target value => by
      unfold check checkSilently
      exact hushed_of_obeys (inert_assignment target value).obeys
  | .conditional test thenBody elseBody => by
      unfold check checkSilently
      refine (hushed_of_obeys (inert_condition "IF" test).obeys).bind fun _ => ?_
      split
      · exact hushed_of_obeys (obeys_lift _)
      · refine (hushed_checkAll thenBody).inScope.bind fun _ => ?_
        exact (hushed_checkAll elseBody).inScope.bind fun _ => hushed_pure _
  | .loop test body => by
      unfold check checkSilently
      refine (hushed_of_obeys (inert_condition "WHILE" test).obeys).bind fun _ => ?_
      exact (hushed_checkAll body).inScope.bind fun _ => hushed_pure _
  | .switch _ arms => by
      unfold check checkSilently
      refine (hushed_of_obeys (inert_typeHere _ _).obeys).bind fun found => ?_
      exact (hushed_checkArms found.type 0 arms).bind fun _ => hushed_pure _
  | .arm value body => by
      unfold check checkSilently
      refine (hushed_of_obeys (inert_optionalExpression value).obeys).bind fun _ => ?_
      exact (hushed_checkAll body).inScope.bind fun _ => hushed_pure _
  | .returning value => by
      unfold check checkSilently
      exact hushed_of_obeys (steady_returning value).of_steady
  | .absent | .source _ _ | .literal _ | .group _ | .binary _ _ _ | .access _ _ | .call _ _
  | .list _ => by
      unfold check checkSilently
      exact hushed_of_obeys (obeys_fail _)

theorem hushed_checkAll : ∀ nodes : List Node, Hushed (checkAll nodes) (checkAllSilently nodes)
  | [] => by
      unfold checkAll checkAllSilently
      exact hushed_pure []
  | node :: nodes => by
      unfold checkAll checkAllSilently
      refine (hushed_check node).bind fun _ => ?_
      exact (hushed_checkAll nodes).bind fun _ => hushed_pure _

theorem hushed_checkArms : ∀ (type : Option StaticType) (position : Nat) (arms : List Node),
    Hushed (checkArms type position arms) (checkArmsSilently type position arms)
  | _, _, [] => by
      unfold checkArms checkArmsSilently
      exact hushed_pure []
  | type, position, arm :: arms => by
      have hrest : ∀ found, Hushed
          (checkArmBody arm >>= fun inBody => checkArms type (position + 1) arms >>= fun others =>
            pure (found ++ inBody ++ others))
          (checkArmBodySilently arm >>= fun inBody =>
            checkArmsSilently type (position + 1) arms >>= fun others =>
              pure (found ++ inBody ++ others)) := by
        intro found
        refine (hushed_checkArmBody arm).bind fun _ => ?_
        exact (hushed_checkArms type (position + 1) arms).bind fun _ => hushed_pure _
      unfold checkArms checkArmsSilently
      dsimp only
      split
      · exact (hushed_of_obeys (inert_lastCaseValue arm).obeys).bind hrest
      · exact (hushed_of_obeys (inert_caseValue type position arm).obeys).bind hrest

theorem hushed_checkArmBody : ∀ arm : Node,
    Hushed (checkArmBody arm) (checkArmBodySilently arm)
  | .arm _ body => by
      unfold checkArmBody checkArmBodySilently
      exact (hushed_checkAll body).inScope
  | .absent | .source _ _ | .global _ _ _ _ | .function _ _ _ _ _ | .evaluation _
  | .declaration _ _ _ | .assignment _ _ | .conditional _ _ _ | .switch _ _ | .loop _ _
  | .returning _ | .literal _ | .group _ | .binary _ _ _ | .access _ _ | .call _ _
  | .list _ => by
      unfold checkArmBody checkArmBodySilently
      exact hushed_of_obeys (obeys_fail _)

end

theorem hushed_checkFunctions (nodes : List Node) :
    Hushed (checkFunctions nodes) (checkFunctionsSilently nodes) := by
  induction nodes with
  | nil => exact hushed_pure _
  | cons node nodes ih =>
      refine (hushed_of_obeys (obeys_lift _)).bind fun _ => (hushed_check node).bind fun _ => ?_
      exact ih.bind fun _ => hushed_pure _

/-- The check of a program needs no messages. -/
theorem hushed_checkProgram (program : Node) :
    Hushed (checkProgram program) (checkProgramSilently program) := by
  refine .note 0 _ ?_
  cases program with
  | source globals functions =>
      refine (hushed_checkAll globals).bind fun _ => ?_
      refine (hushed_checkFunctions functions).bind ?_
      rintro ⟨hasMain, others⟩
      dsimp only
      split
      · exact .note 0 _ (hushed_pure _)
      · exact hushed_of_obeys (obeys_lift _)
  | _ => exact hushed_of_obeys (obeys_fail _)

end Typing
end BlockScript
