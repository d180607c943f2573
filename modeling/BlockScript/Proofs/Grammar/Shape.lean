import BlockScript.Proofs.Grammar.Extent
import BlockScript.Proofs.Grammar.Soundness
import BlockScript.Proofs.Tree.Shape

/-!
# Trees of derivations are well shaped

By induction over derivations, whatever names are allowed.
-/

namespace BlockScript
namespace Grammar
namespace Derivation

open Node

variable {allowed : String → Prop} {ts rest : List Token}

theorem LiteralToken.plain {s : Scalar} (h : LiteralToken ts s rest)
    (hts : ∀ t ∈ ts, t.IsConsistent) : s.IsPlain := by
  cases h with
  | integer => trivial
  | decimal hkind hd =>
      obtain ⟨d, rfl⟩ := (hts _ List.mem_cons_self).decimal hkind _ hd
      trivial
  | character => trivial
  | string => trivial

theorem Identifier.spelled {x : String} (h : Identifier allowed ts x rest)
    (hts : ∀ t ∈ ts, t.IsConsistent) : IsSpelled (.ofText x) := by
  cases h with
  | intro hkind _ => exact ⟨_, rfl, (hts _ List.mem_cons_self).identifier hkind⟩

section Expressions

mutual

theorem Layered.inner {ls : List (List String)} {ts rest : List Token} {e : Node} :
    Layered allowed ls ts e rest → (∀ t ∈ ts, t.IsConsistent) → e.Every IsInner
  | .operand h, hts => h.inner hts
  | .layer h hops, hts => hops.inner (h.inner hts) (h.consumes.forall_mem hts)

theorem Operations.inner {operators : List String} {inner : List (List String)}
    {ts rest : List Token} {left e : Node} :
    Operations allowed operators inner left ts e rest → left.Every IsInner →
    (∀ t ∈ ts, t.IsConsistent) → e.Every IsInner
  | .done, hleft, _ => hleft
  | .more _ hoperator h hops, hleft, hts =>
      have hts₁ := hoperator.consumes.forall_mem hts
      hops.inner ⟨trivial, hleft, h.inner hts₁⟩ (h.consumes.forall_mem hts₁)

theorem Primary.inner {ts rest : List Token} {e : Node} :
    Primary allowed ts e rest → (∀ t ∈ ts, t.IsConsistent) → e.Every IsInner
  | .nil _, _ => trivial
  | .true _, _ => trivial
  | .false _, _ => trivial
  | .literal h, hts => h.plain hts
  | .variable hx, hts => ⟨hx.spelled hts, trivial⟩
  | .item hx hopen h _, hts =>
      ⟨hx.spelled hts, h.inner ((hx.consumes.trans hopen.consumes).forall_mem hts)⟩
  | .plainCall _ _ _, _ => ⟨trivial, trivial⟩
  | .call hx hopen h _, hts =>
      ⟨trivial, h.inner ((hx.consumes.trans hopen.consumes).forall_mem hts)⟩
  | .list hopen h _, hts => ⟨trivial, h.inner (hopen.consumes.forall_mem hts)⟩
  | .group hopen h _, hts => ⟨trivial, h.inner (hopen.consumes.forall_mem hts)⟩

theorem Expressions.inner {ts rest : List Token} {es : List Node} :
    Expressions allowed ts es rest → (∀ t ∈ ts, t.IsConsistent) → EveryOf IsInner es
  | .last h, hts => ⟨h.inner hts, trivial⟩
  | .cons h hcomma hs, hts =>
      ⟨h.inner hts, hs.inner ((h.consumes.trans hcomma.consumes).forall_mem hts)⟩

end

theorem OptionalValue.inner {e : Node} (h : OptionalValue allowed ts e rest)
    (hts : ∀ t ∈ ts, t.IsConsistent) : e.Every IsInner := by
  cases h with
  | none => trivial
  | some hequals h => exact h.inner (hequals.consumes.forall_mem hts)

end Expressions

section Statements

mutual

theorem Block.inner {ts rest : List Token} {ss : List Node} :
    Block allowed ts ss rest → (∀ t ∈ ts, t.IsConsistent) → EveryOf IsInner ss
  | .nil, _ => trivial
  | .cons h hs, hts => ⟨h.inner hts, hs.inner (h.consumes.forall_mem hts)⟩

theorem Statement.inner {ts rest : List Token} {s : Node} :
    Statement allowed ts s rest → (∀ t ∈ ts, t.IsConsistent) → s.Every IsInner
  | .declaration hlet hx htype hvalue _, hts =>
      have hts₁ := hlet.consumes.forall_mem hts
      have hx' := (hlet.consumes.trans hx.consumes).before htype.suffix
      ⟨hx.spelled hts₁, hvalue.inner (hx'.forall_mem hts)⟩
  | .switch hswitch hc harms hlast _, hts => by
      have hc' := hswitch.consumes.trans hc.consumes
      obtain ⟨hfirst, hothers⟩ := harms.inner (hc'.forall_mem hts)
      have hlast' := hlast.inner ((hc'.before harms.suffix).forall_mem hts)
      exact ⟨trivial, hc.inner (hswitch.consumes.forall_mem hts), hfirst,
        everyOf_append.mpr ⟨hothers, hlast', trivial⟩⟩
  | .conditional hif hc hdo hbody _, hts =>
      have hdo' := (hif.consumes.trans hc.consumes).trans hdo.consumes
      ⟨trivial, hc.inner (hif.consumes.forall_mem hts), hbody.inner (hdo'.forall_mem hts),
        trivial⟩
  | .alternative hif hc hdo hthen helse hbody _, hts =>
      have hdo' := (hif.consumes.trans hc.consumes).trans hdo.consumes
      have helse' := (hdo'.before hthen.suffix).trans helse.consumes
      ⟨trivial, hc.inner (hif.consumes.forall_mem hts), hthen.inner (hdo'.forall_mem hts),
        hbody.inner (helse'.forall_mem hts)⟩
  | .loop hwhile hc hdo hbody _, hts =>
      have hdo' := (hwhile.consumes.trans hc.consumes).trans hdo.consumes
      ⟨trivial, hc.inner (hwhile.consumes.forall_mem hts), hbody.inner (hdo'.forall_mem hts)⟩
  | .plainReturn _ _, _ => ⟨trivial, trivial⟩
  | .returning hreturn h _, hts => ⟨trivial, h.inner (hreturn.consumes.forall_mem hts)⟩
  | .evaluation h _, hts => ⟨trivial, h.inner hts⟩
  | .assignment htarget hequals hvalue _, hts =>
      ⟨trivial, htarget.inner hts,
        hvalue.inner ((htarget.consumes.trans hequals.consumes).forall_mem hts)⟩

theorem Arms.inner {ts rest : List Token} {arms : List Node} :
    Arms allowed ts arms rest → (∀ t ∈ ts, t.IsConsistent) → EveryOf IsInner arms
  | .nil, _ => trivial
  | .cons hcase hvalue hcolon hbody harms, hts =>
      have hcolon' := (hcase.consumes.trans hvalue.consumes).trans hcolon.consumes
      ⟨⟨trivial, hvalue.inner (hcase.consumes.forall_mem hts),
        hbody.inner (hcolon'.forall_mem hts)⟩,
        harms.inner ((hcolon'.before hbody.suffix).forall_mem hts)⟩

theorem DefaultArm.inner {ts rest : List Token} {arm : Node} :
    DefaultArm allowed ts arm rest → (∀ t ∈ ts, t.IsConsistent) → arm.Every IsInner
  | .plain hdefault hbody, hts =>
      ⟨trivial, trivial, hbody.inner (hdefault.consumes.forall_mem hts)⟩
  | .colon hdefault hcolon hbody, hts =>
      ⟨trivial, trivial, hbody.inner ((hdefault.consumes.trans hcolon.consumes).forall_mem hts)⟩

end

end Statements

section Programs

theorem Global.isGlobal {g : Node} (h : Global allowed ts g rest)
    (hts : ∀ t ∈ ts, t.IsConsistent) : g.IsGlobal := by
  cases h with
  | list hkey hx htype hequals hopen helements _ _ =>
      have hx' := (hkey.consumes.trans hx.consumes).before htype.suffix
      have hopen' := (hx'.trans hequals.consumes).trans hopen.consumes
      exact ⟨hx.spelled (hkey.consumes.forall_mem hts), trivial,
        helements.inner (hopen'.forall_mem hts)⟩
  | changeable _ hkey hx htype hvalue _ =>
      have hx' := (hkey.consumes.trans hx.consumes).before htype.suffix
      exact ⟨hx.spelled (hkey.consumes.forall_mem hts), hvalue.inner (hx'.forall_mem hts)⟩
  | fixed hkey hx htype hequals hvalue _ =>
      have hx' := (hkey.consumes.trans hx.consumes).before htype.suffix
      exact ⟨hx.spelled (hkey.consumes.forall_mem hts),
        hvalue.inner ((hx'.trans hequals.consumes).forall_mem hts)⟩

theorem Parameter.spelled {p : String × Option String} (h : Parameter allowed ts p rest)
    (hts : ∀ t ∈ ts, t.IsConsistent) : IsSpelled (.ofText p.1) := by
  cases h with
  | intro hx _ => exact hx.spelled hts

theorem Separated.spelled {ps : List (String × Option String)}
    (h : Separated (Parameter allowed) ts ps rest) (hts : ∀ t ∈ ts, t.IsConsistent) :
    ∀ p ∈ ps, IsSpelled (.ofText p.1) := by
  induction h with
  | last hp =>
      intro p hmem
      rcases List.mem_singleton.mp hmem with rfl
      exact hp.spelled hts
  | cons hp hcomma _ ih =>
      intro p hmem
      rcases List.mem_cons.mp hmem with rfl | hmem
      · exact hp.spelled hts
      · exact ih ((hp.consumes.trans hcomma.consumes).forall_mem hts) p hmem

theorem OptionalParameters.spelled {ps : List (String × Option String)}
    (h : OptionalParameters allowed ts ps rest) (hts : ∀ t ∈ ts, t.IsConsistent) :
    ∀ p ∈ ps, IsSpelled (.ofText p.1) := by
  cases h with
  | none => simp
  | some hps => exact hps.spelled hts

theorem Function.isFunction {f : Node} (h : Function allowed ts f rest)
    (hts : ∀ t ∈ ts, t.IsConsistent) : f.IsFunction := by
  cases h with
  | intro hfun hx hopen hps hclose htype hdo hbody _ =>
      have hopen' := (hfun.consumes.trans hx.consumes).trans hopen.consumes
      have hclose' := (hopen'.before hps.suffix).trans hclose.consumes
      have hdo' := (hclose'.before htype.suffix).trans hdo.consumes
      refine ⟨by simp, ?_, hbody.inner (hdo'.forall_mem hts)⟩
      intro name hname
      obtain ⟨p, hp, rfl⟩ := List.mem_map.mp hname
      exact hps.spelled (hopen'.forall_mem hts) p hp

theorem Row.all {R : List Token → Node → List Token → Prop} {T : Token → Prop} {P : Node → Prop}
    {nodes : List Node} (h : Row R ts nodes rest) (hts : ∀ t ∈ ts, T t)
    (hR : ∀ {ts node rest}, R ts node rest → (∀ t ∈ ts, T t) → P node ∧ Consumes ts rest) :
    (∀ node ∈ nodes, P node) ∧ ∀ t ∈ rest, T t := by
  induction h with
  | nil => exact ⟨by simp, hts⟩
  | cons hnode _ ih =>
      obtain ⟨hfirst, hconsumes⟩ := hR hnode hts
      obtain ⟨hothers, hrest⟩ := ih (hconsumes.forall_mem hts)
      refine ⟨?_, hrest⟩
      intro node hmem
      rcases List.mem_cons.mp hmem with rfl | hmem
      · exact hfirst
      · exact hothers node hmem

theorem Source.isProgram {tree : Node} (h : Source allowed ts tree)
    (hts : ∀ t ∈ ts, t.IsConsistent) : tree.IsProgram := by
  cases h with
  | intro hglobals hfunctions =>
      obtain ⟨hgs, hmid⟩ := hglobals.all hts fun h hts => ⟨h.isGlobal hts, h.consumes⟩
      exact ⟨hgs, (hfunctions.all hmid fun h hts => ⟨h.isFunction hts, h.consumes⟩).1⟩

end Programs

end Derivation

/-- The tree of a source text is well shaped. -/
theorem isProgram_of_parse {text : String} {tree : Node} (h : parseProgram text = .ok tree) :
    tree.IsProgram := by
  unfold parseProgram at h
  split at h
  · cases h
  · rename_i tokens hscan
    split at h
    · cases h
    · rename_i tree' hparse
      cases h
      exact (derives_of_parse hparse fun _ _ => trivial).isProgram
        (Token.isConsistent_of_scan hscan)

end Grammar
end BlockScript
