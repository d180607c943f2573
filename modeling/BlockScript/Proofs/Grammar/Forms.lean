import BlockScript.Proofs.Grammar.Soundness
import BlockScript.Proofs.Tree.Shape

/-!
# Trees of derivations have the parts that the grammar gives them

By induction over derivations, whatever names are allowed.
-/

namespace BlockScript

namespace Grammar
namespace Derivation

open Node

variable {allowed : String → Prop} {ts rest : List Token}

section Expressions

theorem Expressions.ne_nil {es : List Node} (h : Expressions allowed ts es rest) : es ≠ [] := by
  cases h <;> simp

mutual

theorem Layered.formed {ls : List (List String)} {ts rest : List Token} {e : Node} :
    Layered allowed ls ts e rest → e.Every IsFormed
  | .operand h => h.formed
  | .layer h hops => hops.formed h.formed

theorem Operations.formed {operators : List String} {inner : List (List String)}
    {ts rest : List Token} {left e : Node} :
    Operations allowed operators inner left ts e rest → left.Every IsFormed → e.Every IsFormed
  | .done, hleft => hleft
  | .more _ _ h hops, hleft => hops.formed ⟨trivial, hleft, h.formed⟩

theorem Primary.formed {ts rest : List Token} {e : Node} :
    Primary allowed ts e rest → e.Every IsFormed
  | .nil _ => trivial
  | .true _ => trivial
  | .false _ => trivial
  | .literal _ => trivial
  | .variable _ => ⟨isText_ofText _, trivial⟩
  | .item _ _ h _ => ⟨isText_ofText _, h.formed⟩
  | .plainCall _ _ _ => ⟨isText_ofText _, trivial⟩
  | .call _ _ h _ => ⟨isText_ofText _, h.formed⟩
  | .list _ h _ => ⟨h.ne_nil, h.formed⟩
  | .group _ h _ => ⟨trivial, h.formed⟩

theorem Expressions.formed {ts rest : List Token} {es : List Node} :
    Expressions allowed ts es rest → EveryOf IsFormed es
  | .last h => ⟨h.formed, trivial⟩
  | .cons h _ hs => ⟨h.formed, hs.formed⟩

end

theorem OptionalValue.formed {e : Node} (h : OptionalValue allowed ts e rest) :
    e.Every IsFormed := by
  cases h with
  | none => trivial
  | some _ h => exact h.formed

end Expressions

section Statements

theorem Block.hasNoArm {ss : List Node} (h : Block allowed ts ss rest) : HasNoArm ss := by
  induction ss generalizing ts with
  | nil => simp [HasNoArm]
  | cons s ss ih =>
      cases h with
      | cons hfirst hothers =>
          intro value body hmem
          rcases List.mem_cons.mp hmem with rfl | hmem
          · cases hfirst
          · exact ih hothers value body hmem

mutual

theorem Block.formed {ts rest : List Token} {ss : List Node} :
    Block allowed ts ss rest → EveryOf IsFormed ss
  | .nil => trivial
  | .cons h hs => ⟨h.formed, hs.formed⟩

theorem Statement.formed {ts rest : List Token} {s : Node} :
    Statement allowed ts s rest → s.Every IsFormed
  | .declaration _ _ _ hvalue _ => ⟨⟨isText_ofText _, isTypeName_ofText? _⟩, hvalue.formed⟩
  | .switch _ hc harms hlast _ =>
      ⟨by simp [IsFormed], hc.formed, everyOf_append.mpr ⟨harms.formed, hlast.formed, trivial⟩⟩
  | .conditional _ hc _ hbody _ =>
      ⟨⟨hbody.hasNoArm, by simp [HasNoArm]⟩, hc.formed, hbody.formed, trivial⟩
  | .alternative _ hc _ hthen _ helse _ =>
      ⟨⟨hthen.hasNoArm, helse.hasNoArm⟩, hc.formed, hthen.formed, helse.formed⟩
  | .loop _ hc _ hbody _ => ⟨hbody.hasNoArm, hc.formed, hbody.formed⟩
  | .plainReturn _ _ => ⟨trivial, trivial⟩
  | .returning _ h _ => ⟨trivial, h.formed⟩
  | .evaluation h _ => ⟨trivial, h.formed⟩
  | .assignment htarget _ hvalue _ => ⟨trivial, htarget.formed, hvalue.formed⟩

theorem Arms.formed {ts rest : List Token} {arms : List Node} :
    Arms allowed ts arms rest → EveryOf IsFormed arms
  | .nil => trivial
  | .cons _ hvalue _ hbody harms =>
      ⟨⟨hbody.hasNoArm, hvalue.formed, hbody.formed⟩, harms.formed⟩

theorem DefaultArm.formed {ts rest : List Token} {arm : Node} :
    DefaultArm allowed ts arm rest → arm.Every IsFormed
  | .plain _ hbody => ⟨hbody.hasNoArm, trivial, hbody.formed⟩
  | .colon _ _ hbody => ⟨hbody.hasNoArm, trivial, hbody.formed⟩

end

end Statements

section Programs

theorem Global.formed {g : Node} (h : Global allowed ts g rest) : g.Every IsFormed := by
  cases h with
  | list _ _ _ _ _ helements _ _ =>
      exact ⟨⟨isText_ofText _, isTypeName_ofText? _⟩, helements.ne_nil, helements.formed⟩
  | changeable _ _ _ _ hvalue _ =>
      exact ⟨⟨isText_ofText _, isTypeName_ofText? _⟩, hvalue.formed⟩
  | fixed _ _ _ _ hvalue _ => exact ⟨⟨isText_ofText _, isTypeName_ofText? _⟩, hvalue.formed⟩

theorem Function.formed {f : Node} (h : Function allowed ts f rest) : f.Every IsFormed := by
  cases h with
  | intro _ _ _ _ _ _ _ hbody _ =>
      refine ⟨⟨isText_ofText _, ?_, ?_, isTypeName_ofText? _, hbody.hasNoArm⟩, hbody.formed⟩
      · intro name hname
        obtain ⟨p, _, rfl⟩ := List.mem_map.mp hname
        exact isText_ofText _
      · intro typeName htype
        obtain ⟨p, _, rfl⟩ := List.mem_map.mp htype
        exact isTypeName_ofText? _

theorem Row.formed {R : List Token → Node → List Token → Prop} {nodes : List Node}
    (h : Row R ts nodes rest) (hR : ∀ {ts node rest}, R ts node rest → node.Every IsFormed) :
    EveryOf IsFormed nodes := by
  induction h with
  | nil => trivial
  | cons hnode _ ih => exact ⟨hR hnode, ih⟩

theorem Source.formed {tree : Node} (h : Source allowed ts tree) : tree.Every IsFormed := by
  cases h with
  | intro hglobals hfunctions =>
      exact ⟨trivial, hglobals.formed Global.formed, hfunctions.formed Function.formed⟩

end Programs

end Derivation

/-- The parts of the tree of a source text are such as the grammar gives them. -/
theorem every_isFormed_of_parse {text : String} {tree : Node}
    (h : parseProgram text = .ok tree) : tree.Every Node.IsFormed := by
  unfold parseProgram at h
  split at h
  · cases h
  · split at h
    · cases h
    · rename_i hparse
      cases h
      exact (derives_of_parse hparse fun _ _ => trivial).formed

end Grammar
end BlockScript
