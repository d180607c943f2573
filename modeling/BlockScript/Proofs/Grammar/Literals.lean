import BlockScript.Proofs.Decimal.Fractional
import BlockScript.Proofs.Grammar.Numerals
import BlockScript.Proofs.Grammar.Shape
import BlockScript.Proofs.Tree.Placement

/-!
# Literals and names of derived trees

Every literal of a derived tree is nil, a truth value or what one of the tokens denotes, and every
name is the text of a token.  So whatever holds of the first two, of what tokens of a kind denote
and of their texts holds of all literals and names of a tree that is derived from such tokens.

Decimals of source text have a digit behind their point, and hence a negative exponent.
-/

namespace BlockScript
namespace Grammar
namespace Derivation

open Node

/-- Words and tokens with a property denote only scalars with a property, and the texts of such
tokens are strings with it. -/
structure Denotes (T : Token → Prop) (P : Scalar → Prop) : Prop where
  nil : P .nil
  boolean : ∀ b, P (.boolean b)
  token : ∀ {ts rest s}, LiteralToken ts s rest → (∀ t ∈ ts, T t) → P s
  text : ∀ {t : Token}, T t → P (.string t.text)

variable {T : Token → Prop} {P : Scalar → Prop} {allowed : String → Prop}
  {ts rest : List Token}

theorem only_literal {s : Scalar} (h : P s) : (literal s).Every (Only P) := by
  refine ⟨?_, nofun⟩
  rintro s' ⟨rfl⟩
  exact h

theorem only_absent : absent.Every (Only P) := ⟨nofun, nofun⟩

theorem Identifier.only (hd : Denotes T P) {x : String} (h : Identifier allowed ts x rest)
    (hts : ∀ t ∈ ts, T t) : P (.string x) := by
  cases h with
  | intro _ _ => exact hd.text (hts _ List.mem_cons_self)

section Expressions

mutual

theorem Layered.only (hd : Denotes T P) {ls : List (List String)} {ts rest : List Token}
    {e : Node} : Layered allowed ls ts e rest → (∀ t ∈ ts, T t) → e.Every (Only P)
  | .operand h, hts => h.only hd hts
  | .layer h hops, hts => hops.only hd (h.only hd hts) (h.consumes.forall_mem hts)

theorem Operations.only (hd : Denotes T P) {operators : List String}
    {inner : List (List String)} {ts rest : List Token} {left e : Node} :
    Operations allowed operators inner left ts e rest → left.Every (Only P) →
    (∀ t ∈ ts, T t) → e.Every (Only P)
  | .done, hleft, _ => hleft
  | .more _ hoperator h hops, hleft, hts =>
      have hts₁ := hoperator.consumes.forall_mem hts
      hops.only hd ⟨.of_nameless nofun rfl, hleft, h.only hd hts₁⟩ (h.consumes.forall_mem hts₁)

theorem Primary.only (hd : Denotes T P) {ts rest : List Token} {e : Node} :
    Primary allowed ts e rest → (∀ t ∈ ts, T t) → e.Every (Only P)
  | .nil _, _ => only_literal hd.nil
  | .true _, _ => only_literal (hd.boolean true)
  | .false _, _ => only_literal (hd.boolean false)
  | .literal h, hts => only_literal (hd.token h hts)
  | .variable hx, hts => ⟨.of_name nofun rfl (hx.only hd hts), only_absent⟩
  | .item hx hopen h _, hts =>
      ⟨.of_name nofun rfl (hx.only hd hts),
        h.only hd ((hx.consumes.trans hopen.consumes).forall_mem hts)⟩
  | .plainCall hx _ _, hts => ⟨.of_name nofun rfl (hx.only hd hts), trivial⟩
  | .call hx hopen h _, hts =>
      ⟨.of_name nofun rfl (hx.only hd hts),
        h.only hd ((hx.consumes.trans hopen.consumes).forall_mem hts)⟩
  | .list hopen h _, hts =>
      ⟨.of_nameless nofun rfl, h.only hd (hopen.consumes.forall_mem hts)⟩
  | .group hopen h _, hts =>
      ⟨.of_nameless nofun rfl, h.only hd (hopen.consumes.forall_mem hts)⟩

theorem Expressions.only (hd : Denotes T P) {ts rest : List Token} {es : List Node} :
    Expressions allowed ts es rest → (∀ t ∈ ts, T t) → EveryOf (Only P) es
  | .last h, hts => ⟨h.only hd hts, trivial⟩
  | .cons h hcomma hs, hts =>
      ⟨h.only hd hts, hs.only hd ((h.consumes.trans hcomma.consumes).forall_mem hts)⟩

end

theorem OptionalValue.only (hd : Denotes T P) {e : Node} (h : OptionalValue allowed ts e rest)
    (hts : ∀ t ∈ ts, T t) : e.Every (Only P) := by
  cases h with
  | none => exact only_absent
  | some hequals h => exact h.only hd (hequals.consumes.forall_mem hts)

end Expressions

section Statements

mutual

theorem Block.only (hd : Denotes T P) {ts rest : List Token} {ss : List Node} :
    Block allowed ts ss rest → (∀ t ∈ ts, T t) → EveryOf (Only P) ss
  | .nil, _ => trivial
  | .cons h hs, hts => ⟨h.only hd hts, hs.only hd (h.consumes.forall_mem hts)⟩

theorem Statement.only (hd : Denotes T P) {ts rest : List Token} {s : Node} :
    Statement allowed ts s rest → (∀ t ∈ ts, T t) → s.Every (Only P)
  | .declaration hlet hx htype hvalue _, hts =>
      have hname := hx.only hd (hlet.consumes.forall_mem hts)
      have hx' := (hlet.consumes.trans hx.consumes).before htype.suffix
      ⟨.of_name nofun rfl hname, hvalue.only hd (hx'.forall_mem hts)⟩
  | .switch hswitch hc harms hlast _, hts => by
      have hc' := hswitch.consumes.trans hc.consumes
      obtain ⟨hfirst, hothers⟩ := harms.only hd (hc'.forall_mem hts)
      have hlast' := hlast.only hd ((hc'.before harms.suffix).forall_mem hts)
      exact ⟨.of_nameless nofun rfl, hc.only hd (hswitch.consumes.forall_mem hts), hfirst,
        everyOf_append.mpr ⟨hothers, hlast', trivial⟩⟩
  | .conditional hif hc hdo hbody _, hts =>
      have hdo' := (hif.consumes.trans hc.consumes).trans hdo.consumes
      ⟨.of_nameless nofun rfl, hc.only hd (hif.consumes.forall_mem hts),
        hbody.only hd (hdo'.forall_mem hts), trivial⟩
  | .alternative hif hc hdo hthen helse hbody _, hts =>
      have hdo' := (hif.consumes.trans hc.consumes).trans hdo.consumes
      have helse' := (hdo'.before hthen.suffix).trans helse.consumes
      ⟨.of_nameless nofun rfl, hc.only hd (hif.consumes.forall_mem hts),
        hthen.only hd (hdo'.forall_mem hts), hbody.only hd (helse'.forall_mem hts)⟩
  | .loop hwhile hc hdo hbody _, hts =>
      have hdo' := (hwhile.consumes.trans hc.consumes).trans hdo.consumes
      ⟨.of_nameless nofun rfl, hc.only hd (hwhile.consumes.forall_mem hts),
        hbody.only hd (hdo'.forall_mem hts)⟩
  | .plainReturn _ _, _ => ⟨.of_nameless nofun rfl, only_absent⟩
  | .returning hreturn h _, hts =>
      ⟨.of_nameless nofun rfl, h.only hd (hreturn.consumes.forall_mem hts)⟩
  | .evaluation h _, hts => ⟨.of_nameless nofun rfl, h.only hd hts⟩
  | .assignment htarget hequals hvalue _, hts =>
      ⟨.of_nameless nofun rfl, htarget.only hd hts,
        hvalue.only hd ((htarget.consumes.trans hequals.consumes).forall_mem hts)⟩

theorem Arms.only (hd : Denotes T P) {ts rest : List Token} {arms : List Node} :
    Arms allowed ts arms rest → (∀ t ∈ ts, T t) → EveryOf (Only P) arms
  | .nil, _ => trivial
  | .cons hcase hvalue hcolon hbody harms, hts =>
      have hcolon' := (hcase.consumes.trans hvalue.consumes).trans hcolon.consumes
      ⟨⟨.of_nameless nofun rfl, hvalue.only hd (hcase.consumes.forall_mem hts),
        hbody.only hd (hcolon'.forall_mem hts)⟩,
        harms.only hd ((hcolon'.before hbody.suffix).forall_mem hts)⟩

theorem DefaultArm.only (hd : Denotes T P) {ts rest : List Token} {arm : Node} :
    DefaultArm allowed ts arm rest → (∀ t ∈ ts, T t) → arm.Every (Only P)
  | .plain hdefault hbody, hts =>
      ⟨.of_nameless nofun rfl, only_absent, hbody.only hd (hdefault.consumes.forall_mem hts)⟩
  | .colon hdefault hcolon hbody, hts =>
      ⟨.of_nameless nofun rfl, only_absent,
        hbody.only hd ((hdefault.consumes.trans hcolon.consumes).forall_mem hts)⟩

end

end Statements

section Programs

theorem Global.only (hd : Denotes T P) {g : Node} (h : Global allowed ts g rest)
    (hts : ∀ t ∈ ts, T t) : g.Every (Only P) := by
  cases h with
  | list hkey hx htype hequals hopen helements _ _ =>
      have hname := hx.only hd (hkey.consumes.forall_mem hts)
      have hx' := (hkey.consumes.trans hx.consumes).before htype.suffix
      have hopen' := (hx'.trans hequals.consumes).trans hopen.consumes
      exact ⟨.of_name nofun rfl hname, .of_nameless nofun rfl,
        helements.only hd (hopen'.forall_mem hts)⟩
  | changeable _ hkey hx htype hvalue _ =>
      have hname := hx.only hd (hkey.consumes.forall_mem hts)
      have hx' := (hkey.consumes.trans hx.consumes).before htype.suffix
      exact ⟨.of_name nofun rfl hname, hvalue.only hd (hx'.forall_mem hts)⟩
  | fixed hkey hx htype hequals hvalue _ =>
      have hname := hx.only hd (hkey.consumes.forall_mem hts)
      have hx' := (hkey.consumes.trans hx.consumes).before htype.suffix
      exact ⟨.of_name nofun rfl hname,
        hvalue.only hd ((hx'.trans hequals.consumes).forall_mem hts)⟩

theorem Function.only (hd : Denotes T P) {f : Node} (h : Function allowed ts f rest)
    (hts : ∀ t ∈ ts, T t) : f.Every (Only P) := by
  cases h with
  | intro hfun hx hopen hps hclose htype hdo hbody _ =>
      have hname := hx.only hd (hfun.consumes.forall_mem hts)
      have hopen' := (hfun.consumes.trans hx.consumes).trans hopen.consumes
      have hclose' := (hopen'.before hps.suffix).trans hclose.consumes
      have hdo' := (hclose'.before htype.suffix).trans hdo.consumes
      exact ⟨.of_name nofun rfl hname, hbody.only hd (hdo'.forall_mem hts)⟩

/-- The literals of a derived tree are denoted by words and tokens, and its names are tokens. -/
theorem Source.only (hd : Denotes T P) {tree : Node} (h : Source allowed ts tree)
    (hts : ∀ t ∈ ts, T t) : tree.Every (Only P) := by
  cases h with
  | intro hglobals hfunctions =>
      obtain ⟨hgs, hmid⟩ := hglobals.all hts fun h hts => ⟨h.only hd hts, h.consumes⟩
      have hfs := (hfunctions.all hmid fun h hts => ⟨h.only hd hts, h.consumes⟩).1
      exact ⟨.of_nameless nofun rfl, everyOf_of_forall hgs, everyOf_of_forall hfs⟩

end Programs

end Derivation
end Grammar

namespace Token

/-- A decimal of source text has digits behind the point. -/
theorem isFractional_of_ofText? {text : String} {d : Decimal}
    (htext : IsNumeral .decimal text.toList) (h : Decimal.ofText? text = some d) :
    d.IsFractional := by
  rw [htext.ofText?] at h
  generalize text.toList = cs at htext h
  cases htext with
  | @decimal sign whole fraction hsign hwhole hfraction =>
      obtain ⟨negative, hread⟩ := ofChars?_pointed hsign hwhole hfraction
      have hlength : 0 < fraction.length := List.length_pos_iff.mpr hfraction.1
      rw [hread, Decimal.finiteInRange?] at h
      split at h
      · cases h
        change (0 : Int) - fraction.length ≤ -1
        omega
      · cases h

end Token

namespace Grammar

/-- A token of the kind of decimals is a numeral of that kind. -/
def SpellsDecimal (t : Token) : Prop := t.kind = .decimal → Token.IsNumeral .decimal t.text.toList

theorem denotes_isFractional : Derivation.Denotes SpellsDecimal Scalar.IsFractional where
  nil := trivial
  boolean _ := trivial
  token h hts := by
    cases h with
    | decimal hkind hd =>
        have hnumeral := hts _ List.mem_cons_self hkind
        exact Token.isFractional_of_ofText? hnumeral hd
    | integer | character | string => trivial
  text _ := trivial

/-- All decimals that a source text has as literals are fractional. -/
theorem literals_of_parse {text : String} {tree : Node} (h : parseProgram text = .ok tree) :
    tree.Every (Node.Only Scalar.IsFractional) := by
  unfold parseProgram at h
  split at h
  · cases h
  · rename_i tokens hscan
    split at h
    · cases h
    · rename_i hparse
      cases h
      have htokens : ∀ t ∈ tokens, SpellsDecimal t := fun t ht hkind =>
        hkind ▸ (Token.isNumeral_of_scan hscan t ht).2 (Or.inr hkind)
      exact (derives_of_parse hparse fun _ _ => trivial).only denotes_isFractional htokens

end Grammar
end BlockScript
