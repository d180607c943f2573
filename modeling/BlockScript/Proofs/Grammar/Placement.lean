import BlockScript.Proofs.Grammar.Forms
import BlockScript.Proofs.Grammar.Numerals
import BlockScript.Proofs.Grammar.Shape
import BlockScript.Proofs.Tree.Placement

/-!
# Trees of derivations have their nodes in their places

By induction over derivations, whatever names are allowed.
-/

namespace BlockScript
namespace Grammar
namespace Derivation

open Node

variable {allowed : String → Prop} {ts rest : List Token}

section Expressions

theorem LiteralToken.isWritten {s : Scalar} (h : LiteralToken ts s rest) : IsWritten s := by
  cases h with
  | integer _ hread =>
      rintro n hn
      cases hn
      exact Text.intText?_of_readLooseInt? hread
  | decimal | character | string => exact nofun

mutual

theorem Layered.isExpression {ls : List (List String)} {ts rest : List Token} {e : Node} :
    Layered allowed ls ts e rest → e.IsExpression
  | .operand h => h.isExpression
  | .layer h hops => hops.isExpression h.isExpression

theorem Operations.isExpression {operators : List String} {inner : List (List String)}
    {ts rest : List Token} {left e : Node} :
    Operations allowed operators inner left ts e rest → left.IsExpression → e.IsExpression
  | .done, hleft => hleft
  | .more _ _ _ hops, _ => hops.isExpression trivial

theorem Primary.isExpression {ts rest : List Token} {e : Node} :
    Primary allowed ts e rest → e.IsExpression
  | .nil _ | .true _ | .false _ | .literal _ | .variable _ | .item _ _ _ _ | .plainCall _ _ _
  | .call _ _ _ _ | .list _ _ _ | .group _ _ _ => trivial

end

theorem Expressions.areExpressions {ts rest : List Token} {es : List Node} :
    Expressions allowed ts es rest → ∀ e ∈ es, e.IsExpression
  | .last h, e, he => by
      rw [List.mem_singleton.mp he]
      exact h.isExpression
  | .cons h _ hs, e, he => by
      rcases List.mem_cons.mp he with rfl | he
      · exact h.isExpression
      · exact hs.areExpressions e he

theorem OptionalValue.isOptional {e : Node} (h : OptionalValue allowed ts e rest) :
    e.IsOptional := by
  cases h with
  | none => exact isOptional_absent
  | some _ h => exact h.isExpression.isOptional

mutual

theorem Layered.placed {ls : List (List String)} {ts rest : List Token} {e : Node}
    (hls : ∀ l ∈ ls, l ⊆ operators) : Layered allowed ls ts e rest → e.Every IsPlaced
  | .operand h => h.placed
  | .layer h hops =>
      hops.placed hls h.isExpression (h.placed fun l hl => hls l (List.mem_cons_of_mem _ hl))

theorem Operations.placed {ops : List String} {inner : List (List String)}
    {ts rest : List Token} {left e : Node} (hls : ∀ l ∈ ops :: inner, l ⊆ operators) :
    Operations allowed ops inner left ts e rest → left.IsExpression → left.Every IsPlaced →
      e.Every IsPlaced
  | .done, _, hleft => hleft
  | .more hmem _ h hops, hexpression, hleft =>
      have hright := h.placed fun l hl => hls l (List.mem_cons_of_mem _ hl)
      have hoperator := hls ops List.mem_cons_self hmem
      hops.placed hls trivial
        ⟨⟨⟨_, hoperator, rfl⟩, hexpression, h.isExpression⟩, hleft, hright⟩

theorem Primary.placed {ts rest : List Token} {e : Node} :
    Primary allowed ts e rest → e.Every IsPlaced
  | .nil _ => nofun
  | .true _ => nofun
  | .false _ => nofun
  | .literal h => h.isWritten
  | .variable _ => ⟨isOptional_absent, trivial⟩
  | .item _ _ h _ => ⟨h.isExpression.isOptional, h.placed (by decide)⟩
  | .plainCall _ _ _ => ⟨nofun, trivial⟩
  | .call _ _ h _ => ⟨h.areExpressions, h.placed⟩
  | .list _ h _ => ⟨⟨h.ne_nil, h.areExpressions⟩, h.placed⟩
  | .group _ h _ => ⟨h.isExpression, h.placed (by decide)⟩

theorem Expressions.placed {ts rest : List Token} {es : List Node} :
    Expressions allowed ts es rest → EveryOf IsPlaced es
  | .last h => ⟨h.placed (by decide), trivial⟩
  | .cons h _ hs => ⟨h.placed (by decide), hs.placed⟩

end

theorem Expression.placed {e : Node} (h : Expression allowed ts e rest) : e.Every IsPlaced :=
  Layered.placed (by decide) h

theorem OptionalValue.placed {e : Node} (h : OptionalValue allowed ts e rest) :
    e.Every IsPlaced := by
  cases h with
  | none => trivial
  | some _ h => exact Expression.placed h

end Expressions

section Statements

theorem Statement.isStatement {s : Node} (h : Statement allowed ts s rest) : s.IsStatement := by
  cases h <;> trivial

theorem DefaultArm.isDefault {arm : Node} (h : DefaultArm allowed ts arm rest) :
    arm.IsDefault := by
  cases h <;> rfl

mutual

/-- A block has statements, with their nodes in their places. -/
theorem Block.placed {ts rest : List Token} {ss : List Node} :
    Block allowed ts ss rest → IsBody ss ∧ EveryOf IsPlaced ss
  | .nil => ⟨List.forall_mem_nil _, trivial⟩
  | .cons h hs =>
      ⟨List.forall_mem_cons.mpr ⟨h.isStatement, hs.placed.1⟩, h.placed, hs.placed.2⟩

theorem Statement.placed {ts rest : List Token} {s : Node} :
    Statement allowed ts s rest → s.Every IsPlaced
  | .declaration _ _ _ hvalue _ => ⟨hvalue.isOptional, hvalue.placed⟩
  | .switch _ hc harms hlast _ =>
      ⟨⟨hc.isExpression, _, _, _, rfl, harms.placed.1, hlast.isDefault⟩, Expression.placed hc,
        everyOf_append.mpr ⟨harms.placed.2, hlast.placed, trivial⟩⟩
  | .conditional _ hc _ hbody _ =>
      ⟨⟨hc.isExpression, hbody.placed.1, nofun⟩, Expression.placed hc, hbody.placed.2, trivial⟩
  | .alternative _ hc _ hthen _ helse _ =>
      ⟨⟨hc.isExpression, hthen.placed.1, helse.placed.1⟩, Expression.placed hc, hthen.placed.2,
        helse.placed.2⟩
  | .loop _ hc _ hbody _ =>
      ⟨⟨hc.isExpression, hbody.placed.1⟩, Expression.placed hc, hbody.placed.2⟩
  | .plainReturn _ _ => ⟨isOptional_absent, trivial⟩
  | .returning _ h _ => ⟨h.isExpression.isOptional, Expression.placed h⟩
  | .evaluation h _ => ⟨h.isExpression, Expression.placed h⟩
  | .assignment htarget _ hvalue _ =>
      ⟨⟨⟨_, _, rfl⟩, hvalue.isExpression⟩, Expression.placed htarget, Expression.placed hvalue⟩

/-- The arms in front of the last one have values, with their nodes in their places. -/
theorem Arms.placed {ts rest : List Token} {arms : List Node} :
    Arms allowed ts arms rest → (∀ a ∈ arms, a.IsCase) ∧ EveryOf IsPlaced arms
  | .nil => ⟨List.forall_mem_nil _, trivial⟩
  | .cons _ hvalue _ hbody harms =>
      have hcase := ⟨⟨hvalue.isExpression.isOptional, hbody.placed.1⟩, Expression.placed hvalue,
        hbody.placed.2⟩
      ⟨List.forall_mem_cons.mpr ⟨hvalue.isExpression, harms.placed.1⟩, hcase, harms.placed.2⟩

theorem DefaultArm.placed {ts rest : List Token} {arm : Node} :
    DefaultArm allowed ts arm rest → arm.Every IsPlaced
  | .plain _ hbody => ⟨⟨isOptional_absent, hbody.placed.1⟩, trivial, hbody.placed.2⟩
  | .colon _ _ hbody => ⟨⟨isOptional_absent, hbody.placed.1⟩, trivial, hbody.placed.2⟩

end

end Statements

section Programs

theorem Global.placed {g : Node} (h : Global allowed ts g rest) : g.Every IsPlaced := by
  cases h with
  | list _ _ _ _ _ helements _ _ =>
      exact ⟨IsExpression.isOptional trivial, ⟨helements.ne_nil, helements.areExpressions⟩,
        helements.placed⟩
  | changeable _ _ _ _ hvalue _ => exact ⟨hvalue.isOptional, hvalue.placed⟩
  | fixed _ _ _ _ hvalue _ => exact ⟨hvalue.isExpression.isOptional, Expression.placed hvalue⟩

theorem Function.placed {f : Node} (h : Function allowed ts f rest) : f.Every IsPlaced := by
  cases h with
  | intro _ _ _ _ _ _ _ hbody _ => exact hbody.placed

theorem Row.forall_of {R : List Token → Node → List Token → Prop} {P : Node → Prop}
    {nodes : List Node} (h : Row R ts nodes rest)
    (hR : ∀ {ts node rest}, R ts node rest → P node) : ∀ node ∈ nodes, P node := by
  induction h with
  | nil => exact nofun
  | cons hnode _ ih =>
      intro n hn
      rcases List.mem_cons.mp hn with rfl | hn
      · exact hR hnode
      · exact ih n hn

theorem Source.placed {tree : Node} (h : Source allowed ts tree) : tree.Every IsPlaced := by
  cases h with
  | intro hglobals hfunctions =>
      refine ⟨⟨hglobals.forall_of ?_, hfunctions.forall_of ?_⟩,
        everyOf_of_forall (hglobals.forall_of Global.placed),
        everyOf_of_forall (hfunctions.forall_of Function.placed)⟩
      · intro ts g rest hg
        cases hg <;> exact ⟨_, _, _, _, rfl⟩
      · intro ts f rest hf
        cases hf
        exact ⟨_, _, _, _, _, rfl⟩

end Programs

end Derivation

/-- The nodes of a tree of a source text are in their places. -/
theorem every_isPlaced_of_parse {text : String} {tree : Node}
    (h : parseProgram text = .ok tree) : tree.Every Node.IsPlaced := by
  unfold parseProgram at h
  split at h
  · cases h
  · split at h
    · cases h
    · rename_i hparse
      cases h
      exact (derives_of_parse hparse fun _ _ => trivial).placed

/-- A tree of a source text is regular. -/
theorem every_isRegular_of_parse {text : String} {tree : Node} {has : Contents}
    (h : parseProgram text = .ok tree) (hwithin : tree.Every (Node.IsWithin has)) :
    tree.Every (Node.IsRegular has) := by
  have hparts := (every_isPlaced_of_parse h).map₂ (fun _ => And.intro) (every_isFormed_of_parse h)
  have hscalars := (isProgram_of_parse h).plain.map₂ (fun _ => And.intro) hwithin
  exact hparts.map₂ (fun _ hnode hscalar => ⟨hnode.1, hnode.2, hscalar.1, hscalar.2⟩) hscalars

end Grammar
end BlockScript
