import BlockScript.Proofs.Grammar.Reading
import BlockScript.Proofs.Grammar.Spelling

/-!
# What derivations take from a row of tokens

What is left behind a derivation is an end of the row.  Expressions, statements and
declarations take at least one token, and the first one tells them from what may stand in
their place: no expression starts with a keyword of statements, and so a block ends only
where its terminator stands.
-/

namespace BlockScript
namespace Grammar

/-- A proper end of a row of tokens is left. -/
structure Consumes (ts rest : List Token) : Prop where
  suffix : rest <:+ ts
  length_lt : rest.length < ts.length

namespace Consumes

variable {ts mid rest : List Token}

theorem cons (t : Token) (ts : List Token) : Consumes (t :: ts) ts :=
  ⟨List.suffix_cons t ts, by simp⟩

theorem before (h : Consumes ts mid) (hrest : rest <:+ mid) : Consumes ts rest :=
  ⟨hrest.trans h.suffix, Nat.lt_of_le_of_lt hrest.length_le h.length_lt⟩

theorem trans (h : Consumes ts mid) (hrest : Consumes mid rest) : Consumes ts rest :=
  h.before hrest.suffix

theorem forall_mem {T : Token → Prop} (h : Consumes ts rest) (hts : ∀ t ∈ ts, T t) :
    ∀ t ∈ rest, T t :=
  fun t ht => hts t (h.suffix.subset ht)

end Consumes

namespace Derivation

variable {allowed : String → Prop}

theorem Terminal.consumes {s : String} {ts rest : List Token} :
    Terminal s ts rest → Consumes ts rest
  | .intro _ => .cons _ _

theorem LiteralToken.consumes {ts rest : List Token} {s : Scalar} :
    LiteralToken ts s rest → Consumes ts rest
  | .integer _ _ => .cons _ _
  | .decimal _ _ => .cons _ _
  | .character _ _ => .cons _ _
  | .string _ _ => .cons _ _

theorem Identifier.consumes {ts rest : List Token} {x : String} :
    Identifier allowed ts x rest → Consumes ts rest
  | .intro _ _ => .cons _ _

theorem OptionalType.suffix {ts rest : List Token} {type : Option String} :
    OptionalType allowed ts type rest → rest <:+ ts
  | .none => List.suffix_refl _
  | .some hcolon hx => (hcolon.consumes.trans hx.consumes).suffix

section Expressions

mutual

theorem Layered.consumes {ls : List (List String)} {ts rest : List Token} {e : Node} :
    Layered allowed ls ts e rest → Consumes ts rest
  | .operand h => h.consumes
  | .layer h hops => h.consumes.before hops.suffix

theorem Operations.suffix {operators : List String} {inner : List (List String)}
    {ts rest : List Token} {left e : Node} :
    Operations allowed operators inner left ts e rest → rest <:+ ts
  | .done => List.suffix_refl _
  | .more _ hoperator h hops =>
      ((hoperator.consumes.trans h.consumes).before hops.suffix).suffix

theorem Primary.consumes {ts rest : List Token} {e : Node} :
    Primary allowed ts e rest → Consumes ts rest
  | .nil h => h.consumes
  | .true h => h.consumes
  | .false h => h.consumes
  | .literal h => h.consumes
  | .variable h => h.consumes
  | .item hx hopen h hclose =>
      ((hx.consumes.trans hopen.consumes).trans h.consumes).trans hclose.consumes
  | .plainCall hx hopen hclose => (hx.consumes.trans hopen.consumes).trans hclose.consumes
  | .call hx hopen h hclose =>
      ((hx.consumes.trans hopen.consumes).trans h.consumes).trans hclose.consumes
  | .list hopen h hclose => (hopen.consumes.trans h.consumes).trans hclose.consumes
  | .group hopen h hclose => (hopen.consumes.trans h.consumes).trans hclose.consumes

theorem Expressions.consumes {ts rest : List Token} {es : List Node} :
    Expressions allowed ts es rest → Consumes ts rest
  | .last h => h.consumes
  | .cons h hcomma hs => (h.consumes.trans hcomma.consumes).trans hs.consumes

end

theorem OptionalValue.suffix {ts rest : List Token} {e : Node} :
    OptionalValue allowed ts e rest → rest <:+ ts
  | .none => List.suffix_refl _
  | .some hequals h => (hequals.consumes.trans h.consumes).suffix

/-- Whether an expression may start with a token. -/
inductive StartsExpression : Token → Prop
  | word {t : Token} : t.text ∈ ["NIL", "TRUE", "FALSE", "[", "("] → StartsExpression t
  | name {t : Token} : t.kind = .identifier → IsFree t.text → StartsExpression t
  | literal {t : Token} : t.kind ≠ .identifier → t.kind ≠ .operator → StartsExpression t

theorem Primary.starts {ts rest : List Token} {e : Node} (h : Primary IsFree ts e rest) :
    ∃ t ts', ts = t :: ts' ∧ StartsExpression t := by
  cases h with
  | nil h | true h | false h =>
      obtain ⟨ht⟩ := h
      exact ⟨_, _, rfl, .word (by simp [ht])⟩
  | literal h =>
      cases h with
      | integer hk _ | decimal hk _ | character hk _ | string hk _ =>
          exact ⟨_, _, rfl, .literal (by simp [hk]) (by simp [hk])⟩
  | «variable» hx | item hx _ _ _ | plainCall hx _ _ | call hx _ _ _ =>
      obtain ⟨hk, hfree⟩ := hx
      exact ⟨_, _, rfl, .name hk hfree⟩
  | list hopen _ _ | group hopen _ _ =>
      obtain ⟨ht⟩ := hopen
      exact ⟨_, _, rfl, .word (by simp [ht])⟩

theorem Layered.starts {ls : List (List String)} {ts rest : List Token} {e : Node} :
    Layered IsFree ls ts e rest → ∃ t ts', ts = t :: ts' ∧ StartsExpression t
  | .operand h => h.starts
  | .layer h _ => Layered.starts h

/-- The keywords and marks with which no expression starts. -/
def nonStarters : List String :=
  ["LIST", "VAR", "VAL", "LET", "FUN", "DO", "END", "ELSE", "CASE", "DEFAULT", "SWITCH", "IF",
    "WHILE", "RETURN", "=", ":", ";", ",", ")", "]"]

theorem StartsExpression.text_notMem {t : Token} (h : StartsExpression t)
    (ht : t.IsConsistent) : t.text ∉ nonStarters := by
  have hsplit : ∀ s ∈ nonStarters, (s ∈ keywords ∨ s ∈ marks) ∧
      s ∉ ["NIL", "TRUE", "FALSE", "[", "("] := by
    decide
  intro hmem
  obtain ⟨hkind, hword⟩ := hsplit _ hmem
  cases h with
  | word h =>
      exact hword h
  | name hk hfree =>
      rcases hkind with h | h
      · exact hfree h
      · rw [ht.mark h] at hk
        cases hk
  | literal hid hop =>
      rcases hkind with h | h
      · exact hid (ht.keyword h)
      · exact hop (ht.mark h)

theorem Layered.avoids {ls : List (List String)} {ts rest : List Token} {e : Node}
    (h : Layered IsFree ls ts e rest) (hts : ∀ t ∈ ts, t.IsConsistent) {texts : List String}
    (htexts : texts ⊆ nonStarters) : Avoids texts ts := by
  obtain ⟨t, ts', rfl, ht⟩ := h.starts
  intro t' ht'
  cases ht'
  exact fun hmem => ht.text_notMem (hts t (by simp)) (htexts hmem)

end Expressions

section Statements

mutual

theorem Block.suffix {ts rest : List Token} {ss : List Node} :
    Block allowed ts ss rest → rest <:+ ts
  | .nil => List.suffix_refl _
  | .cons h hs => (h.consumes.before hs.suffix).suffix

theorem Statement.consumes {ts rest : List Token} {s : Node} :
    Statement allowed ts s rest → Consumes ts rest
  | .declaration hlet hx htype hvalue hend =>
      (((hlet.consumes.trans hx.consumes).before htype.suffix).before hvalue.suffix).trans
        hend.consumes
  | .switch hswitch h harms hlast hend =>
      (((hswitch.consumes.trans h.consumes).before harms.suffix).trans hlast.consumes).trans
        hend.consumes
  | .conditional hif h hdo hthen hend =>
      (((hif.consumes.trans h.consumes).trans hdo.consumes).before hthen.suffix).trans
        hend.consumes
  | .alternative hif h hdo hthen helse hbody hend =>
      (((((hif.consumes.trans h.consumes).trans hdo.consumes).before hthen.suffix).trans
        helse.consumes).before hbody.suffix).trans hend.consumes
  | .loop hwhile h hdo hbody hend =>
      (((hwhile.consumes.trans h.consumes).trans hdo.consumes).before hbody.suffix).trans
        hend.consumes
  | .plainReturn hreturn hend => hreturn.consumes.trans hend.consumes
  | .returning hreturn h hend => (hreturn.consumes.trans h.consumes).trans hend.consumes
  | .evaluation h hend => h.consumes.trans hend.consumes
  | .assignment hleft hequals h hend =>
      ((hleft.consumes.trans hequals.consumes).trans h.consumes).trans hend.consumes

theorem Arms.suffix {ts rest : List Token} {arms : List Node} :
    Arms allowed ts arms rest → rest <:+ ts
  | .nil => List.suffix_refl _
  | .cons hcase h hcolon hbody harms =>
      ((((hcase.consumes.trans h.consumes).trans hcolon.consumes).before hbody.suffix).before
        harms.suffix).suffix

theorem DefaultArm.consumes {ts rest : List Token} {arm : Node} :
    DefaultArm allowed ts arm rest → Consumes ts rest
  | .plain hdefault hbody => hdefault.consumes.before hbody.suffix
  | .colon hdefault hcolon hbody =>
      (hdefault.consumes.trans hcolon.consumes).before hbody.suffix

end

/-- A statement starts with its keyword or with an expression. -/
theorem Statement.starts {ts rest : List Token} {s : Node} (h : Statement IsFree ts s rest) :
    (∃ k ∈ ["LET", "SWITCH", "IF", "WHILE", "RETURN"], ∃ ts', Terminal k ts ts') ∨
      ∃ e ts', Expression IsFree ts e ts' := by
  cases h with
  | declaration h _ _ _ _ | «switch» h _ _ _ _ | conditional h _ _ _ _
  | alternative h _ _ _ _ _ _ | loop h _ _ _ _ | plainReturn h _ | returning h _ _ =>
      exact Or.inl ⟨_, by decide, _, h⟩
  | evaluation h _ | assignment h _ _ _ =>
      exact Or.inr ⟨_, _, h⟩

/-- The keywords and marks with which no statement starts. -/
def nonStatementStarters : List String := ["END", "ELSE", "CASE", "DEFAULT", ":"]

theorem Statement.avoids {ts rest : List Token} {s : Node} (h : Statement IsFree ts s rest)
    (hts : ∀ t ∈ ts, t.IsConsistent) : Avoids nonStatementStarters ts := by
  rcases h.starts with ⟨k, hk, ts', hterminal⟩ | ⟨e, ts', he⟩
  · have hdisjoint : ∀ k ∈ ["LET", "SWITCH", "IF", "WHILE", "RETURN"],
        k ∉ nonStatementStarters := by
      decide
    exact hterminal.avoids (hdisjoint k hk)
  · exact he.avoids hts (by decide)

/-- A terminator of blocks stands at the front. -/
def EndsBlock (ts : List Token) : Prop := ∃ k ∈ blockTerminators, ∃ ts', Terminal k ts ts'

theorem Terminal.endsBlock {k : String} {ts rest : List Token} (h : Terminal k ts rest)
    (hk : k ∈ blockTerminators) : EndsBlock ts := ⟨k, hk, rest, h⟩

theorem EndsBlock.avoids {ts : List Token} (h : EndsBlock ts) : Avoids [":"] ts := by
  obtain ⟨k, hk, ts', hterminal⟩ := h
  have hdisjoint : ∀ k ∈ blockTerminators, k ∉ [":"] := by decide
  exact hterminal.avoids (hdisjoint k hk)

/-- A block does not start with a colon. -/
theorem Block.avoids {ts rest : List Token} {ss : List Node} (h : Block IsFree ts ss rest)
    (hts : ∀ t ∈ ts, t.IsConsistent) (hrest : EndsBlock rest) : Avoids [":"] ts := by
  cases h with
  | nil => exact hrest.avoids
  | cons h _ => exact (h.avoids hts).mono (by decide)

end Statements

section Declarations

theorem Global.consumes {ts rest : List Token} {g : Node}
    (h : Global allowed ts g rest) : Consumes ts rest := by
  cases h with
  | list hlist hx htype hequals hopen h hclose hend =>
      exact ((((((hlist.consumes.trans hx.consumes).before htype.suffix).trans
        hequals.consumes).trans hopen.consumes).trans h.consumes).trans hclose.consumes).trans
          hend.consumes
  | fixed hval hx htype hequals hvalue hend =>
      exact ((((hval.consumes.trans hx.consumes).before htype.suffix).trans
        hequals.consumes).trans hvalue.consumes).trans hend.consumes
  | changeable _ hvar hx htype hvalue hend =>
      exact (((hvar.consumes.trans hx.consumes).before htype.suffix).before
        hvalue.suffix).trans hend.consumes

theorem Parameter.consumes {ts rest : List Token} {p : String × Option String} :
    Parameter allowed ts p rest → Consumes ts rest
  | .intro hx htype => hx.consumes.before htype.suffix

theorem Separated.suffix {ts rest : List Token} {ps : List (String × Option String)}
    (h : Separated (Parameter allowed) ts ps rest) : rest <:+ ts := by
  induction h with
  | last h => exact h.consumes.suffix
  | cons h hcomma _ ih => exact ((h.consumes.trans hcomma.consumes).before ih).suffix

theorem OptionalParameters.suffix {ts rest : List Token}
    {ps : List (String × Option String)} :
    OptionalParameters allowed ts ps rest → rest <:+ ts
  | .none => List.suffix_refl _
  | .some h => h.suffix

theorem Function.consumes {ts rest : List Token} {f : Node} :
    Function allowed ts f rest → Consumes ts rest
  | .intro hfun hx hopen hps hclose htype hdo hbody hend =>
      (((((((hfun.consumes.trans hx.consumes).trans hopen.consumes).before hps.suffix).trans
        hclose.consumes).before htype.suffix).trans hdo.consumes).before hbody.suffix).trans
          hend.consumes

end Declarations

end Derivation
end Grammar
end BlockScript
