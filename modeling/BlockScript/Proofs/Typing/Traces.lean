import BlockScript.Proofs.Text.Messages
import BlockScript.Proofs.Tree.Shape
import BlockScript.Proofs.Typing.Statements
import BlockScript.Typing.Program

/-!
# Checking does not depend on the trace

What is checked in the same scopes and in the same function has the same result and leads
to the same scopes, whatever the trace has recorded before.  A relation of two traces that
messages keep holds behind the checks if it held before them.

The messages of a check are put together from fixed words and the names of the tree.
-/

namespace BlockScript
namespace Typing

open BlockScript.Computation CheckState

/-- A step of a check that does not look at the trace. -/
def Blind {α : Type} (m : Checking α) : Prop :=
  ∀ ⦃c c' : CheckState⦄, Same c c' → (m c).1 = (m c').1 ∧ Same (m c).2 (m c').2

/-- A relation of traces that messages with a property keep.  Names and fixed words make messages
that have the property. -/
structure KeptByNotes (M : String → Prop) (R : Trace → Trace → Prop) : Prop where
  composes : Text.Composes M
  note : ∀ t t' level message, M message → R t t' →
    R (t.note level message) (t'.note level message)

/-- The scopes and the function are the same, and the traces are related. -/
structure SameBut (R : Trace → Trace → Prop) (c c' : CheckState) : Prop extends Same c c' where
  trace : R c.trace c'.trace

/-- A step of a check that does not look at the trace and keeps a relation of traces. -/
def BlindTo {α : Type} (R : Trace → Trace → Prop) (m : Checking α) : Prop :=
  ∀ ⦃c c' : CheckState⦄, SameBut R c c' → (m c).1 = (m c').1 ∧ SameBut R (m c).2 (m c').2

variable {α β : Type} {M : String → Prop} {R : Trace → Trace → Prop}

/-- A step that keeps even the relation of all traces does not look at the trace. -/
theorem BlindTo.blind {m : Checking α} (h : BlindTo (fun _ _ => True) m) : Blind m := by
  intro c c' hsame
  obtain ⟨hresult, hstate⟩ := h ⟨hsame, trivial⟩
  exact ⟨hresult, hstate.toSame⟩

theorem Blind.of_ok {m : Checking α} (h : Blind m) {c c' c₁ : CheckState} (hsame : Same c c')
    {a : α} (hm : m c' = (.ok a, c₁)) : ∃ c₂, m c = (.ok a, c₂) ∧ Same c₂ c₁ := by
  obtain ⟨hresult, hstate⟩ := h hsame
  rw [hm] at hresult hstate
  exact ⟨(m c).2, Prod.ext hresult rfl, hstate⟩

section Laws

theorem blind_pure (a : α) : BlindTo R (pure a) := fun _ _ h => ⟨rfl, h⟩

theorem blind_fail (e : CheckFailure) : BlindTo R (fail e : Checking α) := fun _ _ h => ⟨rfl, h⟩

theorem blind_lift (r : Except CheckFailure α) : BlindTo R (lift r : Checking α) := by
  cases r with
  | ok a => exact blind_pure a
  | error e => exact blind_fail e

theorem blind_change {f : CheckState → CheckState}
    (h : ∀ ⦃c c'⦄, SameBut R c c' → SameBut R (f c) (f c')) : BlindTo R (change f) :=
  fun _ _ hsame => ⟨rfl, h hsame⟩

theorem BlindTo.bind {m : Checking α} {next : α → Checking β} (hm : BlindTo R m)
    (hnext : ∀ a, BlindTo R (next a)) : BlindTo R (m >>= next) := by
  intro c c' hsame
  obtain ⟨hresult, hstate⟩ := hm hsame
  rw [bind_apply, bind_apply]
  cases hc : m c with
  | mk r c₁ =>
      cases hc' : m c' with
      | mk r' c₁' =>
          rw [hc, hc'] at hresult hstate
          dsimp only at hresult
          subst hresult
          cases r with
          | ok a => exact hnext a hstate
          | error e => exact ⟨rfl, hstate⟩

/-- A step that looks at the scopes and at the function only does not look at the trace. -/
theorem blind_state {next : CheckState → Checking α}
    (hsame : ∀ ⦃c c'⦄, SameBut R c c' → next c = next c') (hnext : ∀ c, BlindTo R (next c)) :
    BlindTo R (state >>= next) := by
  intro c c' h
  have hblind := hnext c' h
  rw [← hsame h] at hblind
  change (next c c).1 = (next c' c').1 ∧ SameBut R (next c c).2 (next c' c').2
  rw [← hsame h]
  exact hblind

theorem BlindTo.afterwards {m : Checking α} {f : CheckState → CheckState} (hm : BlindTo R m)
    (h : ∀ ⦃c c'⦄, SameBut R c c' → SameBut R (f c) (f c')) : BlindTo R (m.afterwards f) := by
  intro c c' hsame
  obtain ⟨hresult, hstate⟩ := hm hsame
  exact ⟨hresult, h hstate⟩

end Laws

section Steps

theorem blind_note (hR : KeptByNotes M R) (level : Nat) {message : String} (h : M message) :
    BlindTo R (note level message) :=
  blind_change fun _ _ hc => ⟨⟨hc.scopes, hc.enclosing⟩, hR.note _ _ _ _ h hc.trace⟩

theorem blind_typeHere (expected : Option StaticType) (node : Node) :
    BlindTo R (typeHere expected node) := by
  refine blind_state ?_ fun c => blind_lift _
  intro c c' h
  rw [h.scopes]

theorem blind_bindVariable (v : Variable) : BlindTo R (bindVariable v) := by
  refine blind_state ?_ fun c => (blind_lift _).bind fun scopes => blind_change ?_
  · intro c c' h
    rw [h.scopes]
  · exact fun _ _ h => ⟨⟨rfl, h.enclosing⟩, h.trace⟩

theorem blind_bindFunction (f : Function) : BlindTo R (bindFunction f) := by
  refine blind_state ?_ fun c => (blind_lift _).bind fun scopes => blind_change ?_
  · intro c c' h
    rw [h.scopes]
  · exact fun _ _ h => ⟨⟨rfl, h.enclosing⟩, h.trace⟩

theorem same_pop {c c' : CheckState} (h : Same c c') : c'.scopes.pop = c.scopes.pop := by
  rw [h.scopes]

theorem same_push {c c' : CheckState} (h : Same c c') : c'.scopes.push = c.scopes.push := by
  rw [h.scopes]

theorem blind_inScope {m : Checking α} (hm : BlindTo R m) : BlindTo R (inScope m) := by
  refine (blind_change ?_).bind fun _ => hm.afterwards ?_
  · exact fun _ _ h => ⟨⟨same_push h.toSame, h.enclosing⟩, h.trace⟩
  · exact fun _ _ h => ⟨⟨same_pop h.toSame, h.enclosing⟩, h.trace⟩

theorem blind_inFunction (f : Function) {m : Checking α} (hm : BlindTo R m) :
    BlindTo R (inFunction f m) := by
  refine (blind_change ?_).bind fun _ => hm.afterwards ?_
  · exact fun _ _ h => ⟨⟨same_push h.toSame, rfl⟩, h.trace⟩
  · exact fun _ _ h => ⟨⟨same_pop h.toSame, rfl⟩, h.trace⟩

theorem blind_bindParameters (names : List Name) (types : List StaticType) :
    BlindTo R (bindParameters names types) := by
  induction names generalizing types with
  | nil => exact blind_pure ()
  | cons name names ih =>
      cases types with
      | nil => exact blind_pure ()
      | cons type types => exact (blind_bindVariable _).bind fun _ => ih types

theorem blind_declare (hR : KeptByNotes M R) (node : Node) {verb : String}
    (hverb : Text.IsAscii (verb ++ " ")) {name : Name} (hname : M name.text) (typeName : Name)
    (isMutable : Bool) (value : Node) :
    BlindTo R (declare node verb name typeName isMutable value) := by
  have hmessage : ∀ type : StaticType, M (verb ++ " " ++ name.text ++ ": " ++ type.name) := by
    intro type
    have hbegin : M (verb ++ " " ++ name.text) := hR.composes.append (hR.composes.ascii hverb) hname
    have hcolon : M (verb ++ " " ++ name.text ++ ": ") :=
      hR.composes.append hbegin (hR.composes.ascii (by decide))
    exact hR.composes.append hcolon (hR.composes.ascii type.isAscii_name)
  have htype : BlindTo R (declaredType name typeName value) := by
    unfold declaredType
    split
    · split
      · exact blind_lift _
      · exact blind_typeHere _ _
    · refine (blind_lift _).bind fun declared => ?_
      split
      · exact blind_pure _
      · exact (blind_typeHere _ _).bind fun _ => (blind_lift _).bind fun _ => blind_pure _
  refine htype.bind fun found => (blind_bindVariable _).bind fun _ => ?_
  refine (blind_lift _).bind fun type => ?_
  exact (blind_note hR 2 (hmessage type)).bind fun _ => blind_pure _

theorem blind_condition (statement : String) (node : Node) :
    BlindTo R (condition statement node) := by
  refine (blind_typeHere _ _).bind fun found => ?_
  split
  · exact blind_pure _
  · exact blind_lift _

theorem blind_assignment (target value : Node) : BlindTo R (assignment target value) := by
  refine (blind_typeHere _ _).bind fun place => ?_
  split
  · exact blind_fail _
  · split
    · exact (blind_typeHere _ _).bind fun _ => (blind_lift _).bind fun _ => blind_pure _
    · exact blind_lift _

theorem blind_returning (value : Node) : BlindTo R (returning value) := by
  refine blind_state ?_ fun c => ?_
  · intro c c' h
    rw [h.enclosing]
  · split
    · exact blind_lift _
    · split
      · exact (blind_lift _).bind fun _ => blind_pure _
      · exact (blind_typeHere _ _).bind fun _ => (blind_lift _).bind fun _ => blind_pure _

theorem blind_caseValue (type : Option StaticType) (position : Nat) (arm : Node) :
    BlindTo R (caseValue type position arm) := by
  unfold caseValue
  split
  · exact blind_fail _
  · refine (blind_typeHere _ _).bind fun found => ?_
    split
    · exact blind_pure _
    · exact blind_lift _
  · exact blind_lift _

theorem blind_lastCaseValue (arm : Node) : BlindTo R (lastCaseValue arm) := by
  unfold lastCaseValue
  split
  · exact blind_fail _
  · exact blind_pure _
  · exact blind_lift _

theorem blind_optionalExpression (value : Node) : BlindTo R (optionalExpression value) := by
  unfold optionalExpression
  split
  · exact blind_pure _
  · exact (blind_typeHere _ _).bind fun _ => blind_pure _

end Steps

mutual

/-- The check of a statement or a declaration does not look at the trace. -/
theorem blind_check (hR : KeptByNotes M R) :
    ∀ {node : Node}, node.Every (Node.Named M) → BlindTo R (check node)
  | .global _ _ _ _, h => by
      unfold check
      exact blind_declare hR _ (by decide) (h.1 _ rfl) _ _ _
  | .function _ parameters _ _ body, h => by
      unfold check
      refine (blind_lift _).bind fun f => (blind_bindFunction f).bind fun _ => ?_
      have hmessage := hR.composes.append (hR.composes.ascii (by decide : Text.IsAscii "function "))
        (hR.composes.signature (h.1 _ rfl) f.arity)
      refine (blind_note hR 1 hmessage).bind fun _ => BlindTo.bind ?_ fun _ => blind_pure _
      exact blind_inFunction f ((blind_bindParameters _ _).bind fun _ => blind_checkAll hR h.2)
  | .evaluation _, _ => by
      unfold check
      exact (blind_typeHere _ _).bind fun _ => blind_pure _
  | .declaration _ _ _, h => by
      unfold check
      exact blind_declare hR _ (by decide) (h.1 _ rfl) _ _ _
  | .assignment _ _, _ => by
      unfold check
      exact blind_assignment _ _
  | .conditional _ thenBody elseBody, h => by
      unfold check
      refine (blind_condition _ _).bind fun _ => ?_
      split
      · exact blind_lift _
      · refine (blind_inScope (blind_checkAll hR h.2.2.1)).bind fun _ => ?_
        exact (blind_inScope (blind_checkAll hR h.2.2.2)).bind fun _ => blind_pure _
  | .loop _ body, h => by
      unfold check
      refine (blind_condition _ _).bind fun _ => ?_
      exact (blind_inScope (blind_checkAll hR h.2.2)).bind fun _ => blind_pure _
  | .switch _ arms, h => by
      unfold check
      refine (blind_typeHere _ _).bind fun found => ?_
      exact (blind_checkArms hR found.type 0 h.2.2).bind fun _ => blind_pure _
  | .arm value body, h => by
      unfold check
      refine (blind_optionalExpression value).bind fun _ => ?_
      exact (blind_inScope (blind_checkAll hR h.2.2)).bind fun _ => blind_pure _
  | .returning _, _ => by
      unfold check
      exact blind_returning _
  | .absent, _ | .source _ _, _ | .literal _, _ | .group _, _ | .binary _ _ _, _ | .access _ _, _
  | .call _ _, _ | .list _, _ => by
      unfold check
      exact blind_fail _

theorem blind_checkAll (hR : KeptByNotes M R) :
    ∀ {nodes : List Node}, Node.EveryOf (Node.Named M) nodes → BlindTo R (checkAll nodes)
  | [], _ => blind_pure []
  | node :: nodes, h => by
      unfold checkAll
      refine (blind_check hR h.1).bind fun _ => ?_
      exact (blind_checkAll hR h.2).bind fun _ => blind_pure _

theorem blind_checkArms (hR : KeptByNotes M R) (type : Option StaticType) :
    ∀ (position : Nat) {arms : List Node}, Node.EveryOf (Node.Named M) arms →
      BlindTo R (checkArms type position arms)
  | _, [], _ => blind_pure []
  | position, arm :: arms, h => by
      have hrest : ∀ found, BlindTo R (checkArmBody arm >>= fun inBody =>
          checkArms type (position + 1) arms >>= fun others =>
            pure (found ++ inBody ++ others)) := by
        intro found
        refine (blind_checkArmBody hR h.1).bind fun _ => ?_
        exact (blind_checkArms hR type (position + 1) h.2).bind fun _ => blind_pure _
      unfold checkArms
      dsimp only
      split
      · exact (blind_lastCaseValue arm).bind hrest
      · exact (blind_caseValue type position arm).bind hrest

theorem blind_checkArmBody (hR : KeptByNotes M R) :
    ∀ {arm : Node}, arm.Every (Node.Named M) → BlindTo R (checkArmBody arm)
  | .arm _ body, h => by
      unfold checkArmBody
      exact blind_inScope (blind_checkAll hR h.2.2)
  | .absent, _ | .source _ _, _ | .global _ _ _ _, _ | .function _ _ _ _ _, _ | .evaluation _, _
  | .declaration _ _ _, _ | .assignment _ _, _ | .conditional _ _ _, _ | .switch _ _, _
  | .loop _ _, _ | .returning _, _ | .literal _, _ | .group _, _ | .binary _ _ _, _
  | .access _ _, _ | .call _ _, _ | .list _, _ => by
      unfold checkArmBody
      exact blind_fail _

end

/-- The check of a block does not look at the trace. -/
theorem blind_block (nodes : List Node) : Blind (inScope (checkAll nodes)) := by
  have hnotes : KeptByNotes (fun _ => True) fun _ _ => True :=
    ⟨Text.composes_true, fun _ _ _ _ _ _ => trivial⟩
  have hnamed := Node.everyOf_of_all (P := Node.Named fun _ => True) (fun _ _ _ => trivial) nodes
  exact (blind_inScope (blind_checkAll hnotes hnamed)).blind

section Programs

theorem blind_checkFunctions (hR : KeptByNotes M R) {nodes : List Node}
    (h : Node.EveryOf (Node.Named M) nodes) : BlindTo R (checkFunctions nodes) := by
  induction nodes with
  | nil => exact blind_pure _
  | cons node nodes ih =>
      refine (blind_lift _).bind fun _ => (blind_check hR h.1).bind fun _ => ?_
      exact (ih h.2).bind fun _ => blind_pure _

/-- The check of a program does not look at the trace. -/
theorem blind_checkProgram (hR : KeptByNotes M R) {program : Node}
    (h : program.Every (Node.Named M)) : BlindTo R (checkProgram program) := by
  refine (blind_note hR 1 (hR.composes.ascii (by decide))).bind fun _ => ?_
  cases program with
  | source globals functions =>
      refine (blind_checkAll hR h.2.1).bind fun _ => ?_
      refine (blind_checkFunctions hR h.2.2).bind ?_
      rintro ⟨hasMain, others⟩
      dsimp only
      split
      · exact (blind_note hR 1 (hR.composes.ascii (by decide))).bind fun _ => blind_pure _
      · exact blind_lift _
  | _ => exact blind_fail _

end Programs

end Typing
end BlockScript
