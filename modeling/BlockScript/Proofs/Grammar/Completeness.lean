import BlockScript.Proofs.Grammar.Extent

/-!
# What derives from the grammar is accepted

A rule reads every row of tokens that derives from its nonterminal, up to a rest that
could not belong to it.  The bound on nested rules counts down: each rule needs a bound
that grows with the number of tokens left, and a little more the further it stands from
the next token.
-/

namespace BlockScript
namespace Grammar

open BlockScript.Grammar.Derivation

section Expressions

theorem Derivation.LiteralToken.eq_cons {ts rest : List Token} {s : Scalar}
    (h : LiteralToken ts s rest) :
    ∃ t, ts = t :: rest ∧ t.kind ≠ .identifier ∧ t.kind ≠ .operator := by
  cases h with
  | integer hk _ | decimal hk _ | character hk _ | string hk _ =>
      exact ⟨_, rfl, by simp [hk], by simp [hk]⟩

theorem reads_literalNode {t : Token} {rest : List Token} {s : Scalar}
    (h : LiteralToken (t :: rest) s rest) : (literalNode t).Reads rest (.literal s) rest := by
  have hs : Literal.ofToken t = .ok s := by
    cases h with
    | integer hk hn => rw [Literal.ofToken, hk]; simp [hn]
    | decimal hk hd => rw [Literal.ofToken, hk]; simp [hd]
    | character hk hc => rw [Literal.ofToken, hk, ← Literal.unquoted_iff.mp hc]
    | string hk hc => rw [Literal.ofToken, hk, ← Literal.unquoted_iff.mp hc]
  rw [literalNode, hs]
  exact Rule.reads_pure _ _

/-- A literal is an operand, whatever follows it. -/
theorem reads_primary_literal {t : Token} {rest : List Token} {s : Scalar}
    (h : LiteralToken (t :: rest) s rest) (ht : t.IsConsistent) (bound : Nat) :
    (Grammar.primary (bound + 1)).Reads (t :: rest) (.literal s) rest := by
  obtain ⟨t', heq, hid, hop⟩ := h.eq_cons
  cases heq
  have hword : t.text ∉ keywords := fun hmem => hid (ht.keyword hmem)
  simp only [keywords, List.mem_cons, not_or] at hword
  refine Rule.reads_cursor fun p => ?_
  simp only [beq_iff_eq]
  rw [if_neg (by simp [hword]), if_neg (by simp [hword]), if_neg (by simp [hword])]
  cases hk : t.kind with
  | identifier => exact absurd hk hid
  | operator => exact absurd hk hop
  | integer | decimal | character | string =>
      exact (Rule.reads_skip t rest).bind (reads_literalNode h)

/-- Behind an operand of an inner layer stands an operator of the outer one or what follows
the whole. -/
theorem Derivation.Operations.avoids_inner {operators : List String}
    {inner : List (List String)} {left e : Node} {ts rest : List Token}
    (h : Operations IsFree operators inner left ts e rest)
    (hls : ((operators :: inner).flatten ++ ["(", "["]).Nodup)
    (hrest : Avoids ((operators :: inner).flatten ++ ["(", "["]) rest) :
    Avoids (inner.flatten ++ ["(", "["]) ts := by
  rw [List.flatten_cons, List.append_assoc] at hls hrest
  cases h with
  | done =>
      exact hrest.mono (List.subset_append_right _ _)
  | more hmem hoperator _ _ =>
      exact hoperator.avoids fun hmem' => (List.nodup_append.mp hls).2.2 _ hmem _ hmem' rfl

theorem nodup_inner {operators : List String} {inner : List (List String)}
    (hls : ((operators :: inner).flatten ++ ["(", "["]).Nodup) :
    (inner.flatten ++ ["(", "["]).Nodup := by
  rw [List.flatten_cons, List.append_assoc] at hls
  exact (List.nodup_append.mp hls).2.1

/-- What is claimed of each rule for expressions at one bound. -/
structure ExpressionsComplete (bound : Nat) : Prop where
  layers : ∀ {ls : List (List String)} {ts rest : List Token} {e : Node},
    Layered IsFree ls ts e rest → (∀ t ∈ ts, t.IsConsistent) →
      (ls.flatten ++ ["(", "["]).Nodup → ls.length ≤ 4 → Avoids (ls.flatten ++ ["(", "["]) rest →
      8 * ts.length + ls.length + 2 ≤ bound → (layers bound ls).Reads ts e rest
  operations : ∀ {operators : List String} {inner : List (List String)} {left : Node}
    {ts rest : List Token} {e : Node},
    Operations IsFree operators inner left ts e rest → (∀ t ∈ ts, t.IsConsistent) →
      ((operators :: inner).flatten ++ ["(", "["]).Nodup → inner.length ≤ 3 →
      Avoids ((operators :: inner).flatten ++ ["(", "["]) rest →
      8 * ts.length + 1 ≤ bound → (operations bound operators inner left).Reads ts e rest
  primary : ∀ {ts rest : List Token} {e : Node},
    Primary IsFree ts e rest → (∀ t ∈ ts, t.IsConsistent) → Avoids ["(", "["] rest →
      8 * ts.length + 1 ≤ bound → (primary bound).Reads ts e rest
  named : ∀ {t : Token} {ts rest : List Token} {e : Node},
    Primary IsFree (t :: ts) e rest → t.kind = .identifier → IsFree t.text →
      (∀ t' ∈ t :: ts, t'.IsConsistent) → Avoids ["(", "["] rest →
      8 * ts.length + 8 ≤ bound → (named bound t.text).Reads ts e rest
  expressions : ∀ {ts rest : List Token} {es : List Node},
    Expressions IsFree ts es rest → (∀ t ∈ ts, t.IsConsistent) →
      Avoids ("," :: precedence.flatten ++ ["(", "["]) rest →
      8 * ts.length + 7 ≤ bound → (expressions bound).Reads ts es rest

namespace ExpressionsComplete

theorem zero : ExpressionsComplete 0 where
  layers _ _ _ _ _ hbound := by omega
  operations _ _ _ _ _ hbound := by omega
  primary _ _ _ hbound := by omega
  named _ _ _ _ _ hbound := by omega
  expressions _ _ _ hbound := by omega

variable {bound : Nat} (ih : ExpressionsComplete bound)
include ih

theorem layers_succ {ls : List (List String)} {ts rest : List Token} {e : Node}
    (h : Layered IsFree ls ts e rest) (hts : ∀ t ∈ ts, t.IsConsistent)
    (hls : (ls.flatten ++ ["(", "["]).Nodup) (hlength : ls.length ≤ 4)
    (hrest : Avoids (ls.flatten ++ ["(", "["]) rest)
    (hbound : 8 * ts.length + ls.length + 2 ≤ bound + 1) :
    (Grammar.layers (bound + 1) ls).Reads ts e rest := by
  cases h with
  | operand h =>
      exact ih.primary h hts hrest (by simp at hbound; omega)
  | @layer operators inner _ mid _ left _ h hops =>
      rw [List.length_cons] at hlength hbound
      have hmid := h.consumes
      have hmidts : ∀ t ∈ mid, t.IsConsistent := fun t ht => hts t (hmid.suffix.subset ht)
      have hlt := hmid.length_lt
      refine (ih.layers h hts (nodup_inner hls) (by omega) (hops.avoids_inner hls hrest)
        (by omega)).bind ?_
      exact ih.operations hops hmidts hls (by omega) hrest (by omega)

theorem operations_succ {operators : List String} {inner : List (List String)} {left : Node}
    {ts rest : List Token} {e : Node}
    (h : Operations IsFree operators inner left ts e rest) (hts : ∀ t ∈ ts, t.IsConsistent)
    (hls : ((operators :: inner).flatten ++ ["(", "["]).Nodup) (hlength : inner.length ≤ 3)
    (hrest : Avoids ((operators :: inner).flatten ++ ["(", "["]) rest)
    (hbound : 8 * ts.length + 1 ≤ bound + 1) :
    (Grammar.operations (bound + 1) operators inner left).Reads ts e rest := by
  refine Rule.reads_cursor fun p => ?_
  cases h with
  | done =>
      cases ts with
      | nil =>
          exact Rule.reads_pure _ _
      | cons t ts =>
          have ht : ¬ operators.contains t.text = true := by
            intro hmem
            refine hrest t rfl ?_
            rw [List.flatten_cons]
            simp only [List.contains_iff_mem] at hmem
            simp [hmem]
          simp only [ht]
          exact Rule.reads_pure _ _
  | @more _ _ _ right _ operator _ ts₁ ts₂ _ hmem hoperator h hops =>
      obtain ⟨ht⟩ := hoperator
      rename_i t
      have hcontains : operators.contains t.text = true := by
        rw [List.contains_iff_mem, ht]
        exact hmem
      simp only [hcontains, if_true]
      have hmid := h.consumes
      have hlt := hmid.length_lt
      have hts₁ : ∀ t' ∈ ts₁, t'.IsConsistent := fun t' ht' =>
        hts t' (List.mem_cons_of_mem _ ht')
      rw [List.length_cons] at hbound
      refine (Rule.reads_skip t ts₁).bind ?_
      refine (ih.layers h hts₁ (nodup_inner hls) (by omega) (hops.avoids_inner hls hrest)
        (by omega)).bind ?_
      rw [ht]
      exact ih.operations hops (fun t' ht' => hts₁ t' (hmid.suffix.subset ht')) hls hlength hrest
        (by omega)

theorem named_succ {t : Token} {ts rest : List Token} {e : Node}
    (h : Primary IsFree (t :: ts) e rest) (hkind : t.kind = .identifier)
    (hfree : IsFree t.text) (hts : ∀ t' ∈ t :: ts, t'.IsConsistent)
    (hrest : Avoids ["(", "["] rest) (hbound : 8 * ts.length + 8 ≤ bound + 1) :
    (Grammar.named (bound + 1) t.text).Reads ts e rest := by
  have hsub : ∀ t' ∈ ts, t'.IsConsistent := fun t' ht' => hts t' (List.mem_cons_of_mem _ ht')
  cases h with
  | nil h | true h | false h =>
      obtain ⟨ht⟩ := h
      exact absurd hfree (by simp [IsFree, ht, keywords])
  | list hopen _ _ | group hopen _ _ =>
      obtain ⟨ht⟩ := hopen
      have hop := (hts t (by simp)).mark (by simp [ht, marks])
      rw [hkind] at hop
      cases hop
  | literal h =>
      cases h <;> simp_all
  | «variable» hx =>
      obtain ⟨_, _⟩ := hx
      refine (reads_acceptText_false (hrest.mono (by simp))).bind ?_
      exact (reads_acceptText_false (hrest.mono (by simp))).bind (Rule.reads_pure _ _)
  | item hx hopen h hclose =>
      obtain ⟨_, _⟩ := hx
      have hlt := hopen.consumes.length_lt
      refine (reads_acceptText_false (hopen.avoids (by simp))).bind ?_
      refine (reads_acceptText hopen).bind ?_
      refine Rule.Reads.bind (ih.layers h (fun t' ht' => hsub t' (hopen.consumes.suffix.subset ht'))
        (by decide) (by decide) (hclose.avoids (by decide)) ?_)
        ((reads_expectText hclose).bind (Rule.reads_pure _ _))
      have hfour : operatorLayers.length = 4 := rfl
      omega
  | plainCall hx hopen hclose =>
      obtain ⟨_, _⟩ := hx
      refine (reads_acceptText hopen).bind ?_
      refine (reads_sees hclose).bind ?_
      obtain ⟨ht⟩ := hclose
      exact (Rule.reads_skip _ _).bind (Rule.reads_pure _ _)
  | @call _ ts₁ ts₂ ts₃ _ x arguments hx hopen h hclose =>
      obtain ⟨_, _⟩ := hx
      have hlt := hopen.consumes.length_lt
      have hts₂ : ∀ t' ∈ ts₂, t'.IsConsistent := fun t' ht' =>
        hsub t' (hopen.consumes.suffix.subset ht')
      have hsees : Avoids [")"] ts₂ := by
        cases h with
        | last h => exact h.avoids hts₂ (by decide)
        | cons h _ _ => exact h.avoids hts₂ (by decide)
      refine (reads_acceptText hopen).bind ?_
      refine (reads_sees_false hsees).bind ?_
      exact (ih.expressions h hts₂ (hclose.avoids (by decide)) (by omega)).bind
        ((reads_expectText hclose).bind (Rule.reads_pure _ _))

theorem expressions_succ {ts rest : List Token} {es : List Node}
    (h : Expressions IsFree ts es rest) (hts : ∀ t ∈ ts, t.IsConsistent)
    (hrest : Avoids ("," :: precedence.flatten ++ ["(", "["]) rest)
    (hbound : 8 * ts.length + 7 ≤ bound + 1) :
    (Grammar.expressions (bound + 1)).Reads ts es rest := by
  have hfour : precedence.length = 4 := rfl
  cases h with
  | last h =>
      refine (ih.layers h hts (by decide) (by decide) (hrest.mono (by simp)) (by omega)).bind ?_
      exact (reads_acceptText_false (hrest.mono (by simp))).bind (Rule.reads_pure _ _)
  | cons h hcomma hs =>
      have hmid := h.consumes.trans hcomma.consumes
      have hlt := hmid.length_lt
      refine (ih.layers h hts (by decide) (by decide) (hcomma.avoids (by decide))
        (by omega)).bind ?_
      refine (reads_acceptText hcomma).bind ?_
      exact (ih.expressions hs (fun t ht => hts t (hmid.suffix.subset ht)) hrest
        (by omega)).bind (Rule.reads_pure _ _)

theorem primary_succ {ts rest : List Token} {e : Node} (h : Primary IsFree ts e rest)
    (hts : ∀ t ∈ ts, t.IsConsistent) (hrest : Avoids ["(", "["] rest)
    (hbound : 8 * ts.length + 1 ≤ bound + 1) :
    (Grammar.primary (bound + 1)).Reads ts e rest := by
  obtain ⟨t, ts', rfl, _⟩ := h.starts
  have ht := hts t (by simp)
  have hts' : ∀ t' ∈ ts', t'.IsConsistent := fun t' ht' => hts t' (List.mem_cons_of_mem _ ht')
  have hfour : precedence.length = 4 := rfl
  rw [List.length_cons] at hbound
  have hprimary := h
  by_cases hliteral : ∃ s, e = .literal s ∧ LiteralToken (t :: ts') s rest
  · obtain ⟨s, rfl, htoken⟩ := hliteral
    obtain ⟨t', heq, -⟩ := htoken.eq_cons
    cases heq
    exact reads_primary_literal htoken ht bound
  refine Rule.reads_cursor fun p => ?_
  simp only [beq_iff_eq]
  cases h with
  | nil h =>
      obtain ⟨htext⟩ := h
      rw [if_pos htext]
      exact (Rule.reads_skip t _).bind (Rule.reads_pure _ _)
  | true h =>
      obtain ⟨htext⟩ := h
      rw [if_neg (by simp [htext]), if_pos htext]
      exact (Rule.reads_skip t _).bind (Rule.reads_pure _ _)
  | false h =>
      obtain ⟨htext⟩ := h
      rw [if_neg (by simp [htext]), if_neg (by simp [htext]), if_pos htext]
      exact (Rule.reads_skip t _).bind (Rule.reads_pure _ _)
  | literal h => exact absurd ⟨_, rfl, h⟩ hliteral
  | list hopen h hclose =>
      obtain ⟨htext⟩ := hopen
      have hk := ht.mark (by simp [htext, marks])
      rw [if_neg (by simp [htext]), if_neg (by simp [htext]), if_neg (by simp [htext])]
      simp only [hk]
      rw [if_pos htext]
      refine (Rule.reads_skip t ts').bind ?_
      exact (ih.expressions h hts' (hclose.avoids (by decide)) (by omega)).bind
        ((reads_expectText hclose).bind (Rule.reads_pure _ _))
  | group hopen h hclose =>
      obtain ⟨htext⟩ := hopen
      have hk := ht.mark (by simp [htext, marks])
      rw [if_neg (by simp [htext]), if_neg (by simp [htext]), if_neg (by simp [htext])]
      simp only [hk]
      rw [if_neg (by simp [htext]), if_pos htext]
      refine (Rule.reads_skip t ts').bind ?_
      have hbound' : 8 * ts'.length + precedence.length + 2 ≤ bound := by omega
      exact (ih.layers h hts' (by decide) (by decide) (hclose.avoids (by decide))
        hbound').bind ((reads_expectText hclose).bind (Rule.reads_pure _ _))
  | «variable» hx | item hx _ _ _ | plainCall hx _ _ | call hx _ _ _ =>
      obtain ⟨hk, hfree⟩ := hx
      have hword := hfree
      simp only [IsFree, keywords, List.mem_cons, not_or] at hword
      rw [if_neg (by simp [hword]), if_neg (by simp [hword]), if_neg (by simp [hword])]
      simp only [hk]
      exact (Rule.reads_skip t _).bind (ih.named hprimary hk hfree hts hrest (by omega))

theorem succ : ExpressionsComplete (bound + 1) where
  layers := ih.layers_succ
  operations := ih.operations_succ
  primary := ih.primary_succ
  named := ih.named_succ
  expressions := ih.expressions_succ

end ExpressionsComplete

theorem expressionsComplete (bound : Nat) : ExpressionsComplete bound := by
  induction bound with
  | zero => exact .zero
  | succ bound ih => exact ih.succ

/-- The texts that would continue an expression. -/
def continuations : List String := precedence.flatten ++ ["(", "["]

theorem reads_expression {ts rest : List Token} {e : Node} (h : Expression IsFree ts e rest)
    (hts : ∀ t ∈ ts, t.IsConsistent) (hrest : Avoids continuations rest) :
    expression.Reads ts e rest := by
  intro p
  have hbound : 8 * ts.length + precedence.length + 2 ≤ nestingBound ts := by
    have hfour : precedence.length = 4 := rfl
    rw [nestingBound]
    omega
  exact (expressionsComplete _).layers h hts (by decide) (by decide) hrest hbound p

theorem reads_optionalValue {ts rest : List Token} {e : Node}
    (h : OptionalValue IsFree ts e rest) (hts : ∀ t ∈ ts, t.IsConsistent)
    (hrest : Avoids ("=" :: continuations) rest) : optionalValue.Reads ts e rest := by
  cases h with
  | none =>
      exact (reads_acceptText_false (hrest.mono (by simp))).bind (Rule.reads_pure _ _)
  | some hequals h =>
      have hsub := hequals.consumes.suffix.subset
      exact (reads_acceptText hequals).bind
        (reads_expression h (fun t ht => hts t (hsub ht)) (hrest.mono (by simp)))

end Expressions

section Statements

theorem reads_declaration {ts₀ ts₁ ts₂ ts₃ ts₄ rest : List Token} {x : String}
    {type : Option String} {value : Node} (hlet : Terminal "LET" ts₀ ts₁)
    (hx : Identifier IsFree ts₁ x ts₂) (htype : OptionalType IsFree ts₂ type ts₃)
    (hvalue : OptionalValue IsFree ts₃ value ts₄) (hend : Terminal ";" ts₄ rest)
    (hts : ∀ t ∈ ts₀, t.IsConsistent) :
    declaration.Reads ts₀ (.declaration x (.ofText? type) value) rest := by
  have hsub := ((hlet.consumes.trans hx.consumes).before htype.suffix).suffix.subset
  have hcolon : Avoids [":"] ts₃ := by
    cases hvalue with
    | none => exact hend.avoids (by decide)
    | some hequals _ => exact hequals.avoids (by decide)
  refine (reads_expectText hlet).bind ?_
  refine (reads_identifier hx).bind ?_
  refine (reads_optionalType htype hcolon).bind ?_
  refine (reads_optionalValue hvalue (fun t ht => hts t (hsub ht))
    (hend.avoids (by decide))).bind ?_
  exact (reads_expectText hend).bind (Rule.reads_pure _ _)

theorem reads_returning {ts₀ ts₁ ts₂ rest : List Token} {value : Node}
    (hreturn : Terminal "RETURN" ts₀ ts₁) (h : Expression IsFree ts₁ value ts₂)
    (hend : Terminal ";" ts₂ rest) (hts : ∀ t ∈ ts₀, t.IsConsistent) :
    returning.Reads ts₀ (.returning value) rest := by
  have hts₁ : ∀ t ∈ ts₁, t.IsConsistent := fun t ht =>
    hts t (hreturn.consumes.suffix.subset ht)
  refine (reads_expectText hreturn).bind ?_
  refine (reads_acceptText_false (h.avoids hts₁ (by decide))).bind ?_
  refine (reads_expression h hts₁ (hend.avoids (by decide))).bind ?_
  exact (reads_expectText hend).bind (Rule.reads_pure _ _)

theorem reads_plainReturn {ts₀ ts₁ rest : List Token} (hreturn : Terminal "RETURN" ts₀ ts₁)
    (hend : Terminal ";" ts₁ rest) : returning.Reads ts₀ (.returning .absent) rest := by
  refine (reads_expectText hreturn).bind ?_
  exact (reads_acceptText hend).bind (Rule.reads_pure _ _)

theorem reads_evaluation {ts mid rest : List Token} {e : Node}
    (h : Expression IsFree ts e mid) (hend : Terminal ";" mid rest)
    (hts : ∀ t ∈ ts, t.IsConsistent) :
    evaluationOrAssignment.Reads ts (.evaluation e) rest := by
  refine (reads_expression h hts (hend.avoids (by decide))).bind ?_
  refine Rule.reads_cursor fun p => ?_
  have hother : Avoids ["="] mid := hend.avoids (by decide)
  rw [if_neg (by simp [sees_text_eq_false hother])]
  exact (reads_expectText hend).bind (Rule.reads_pure _ _)

theorem reads_assignment {ts₀ ts₁ ts₂ ts₃ rest : List Token} {x : Name} {offset value : Node}
    (hleft : Expression IsFree ts₀ (.access x offset) ts₁) (hequals : Terminal "=" ts₁ ts₂)
    (h : Expression IsFree ts₂ value ts₃) (hend : Terminal ";" ts₃ rest)
    (hts : ∀ t ∈ ts₀, t.IsConsistent) :
    evaluationOrAssignment.Reads ts₀ (.assignment (.access x offset) value) rest := by
  have hsub := (hleft.consumes.trans hequals.consumes).suffix.subset
  refine (reads_expression hleft hts (hequals.avoids (by decide))).bind ?_
  refine Rule.reads_cursor fun p => ?_
  rw [if_pos (sees_text_iff.mpr ⟨ts₂, hequals⟩), if_pos (by rfl)]
  obtain ⟨_⟩ := hequals
  refine (Rule.reads_skip _ _).bind ?_
  refine (reads_expression h (fun t ht => hts t (hsub ht)) (hend.avoids (by decide))).bind ?_
  exact (reads_expectText hend).bind (Rule.reads_pure _ _)

/-- What is claimed of each rule for statements at one bound. -/
structure StatementsComplete (bound : Nat) : Prop where
  statements : ∀ {ts rest : List Token} {ss : List Node},
    Block IsFree ts ss rest → (∀ t ∈ ts, t.IsConsistent) → EndsBlock rest →
      8 * ts.length + 3 ≤ bound → (statements bound).Reads ts ss rest
  statement : ∀ {ts rest : List Token} {s : Node},
    Statement IsFree ts s rest → (∀ t ∈ ts, t.IsConsistent) →
      8 * ts.length + 2 ≤ bound → (statement bound).Reads ts s rest
  conditional : ∀ {ts₀ ts₁ ts₂ ts₃ ts₄ rest : List Token} {condition : Node}
    {thenBody : List Node}, Terminal "IF" ts₀ ts₁ → Expression IsFree ts₁ condition ts₂ →
      Terminal "DO" ts₂ ts₃ → Block IsFree ts₃ thenBody ts₄ → Terminal "END" ts₄ rest →
      (∀ t ∈ ts₀, t.IsConsistent) → 8 * ts₀.length + 1 ≤ bound →
      (Grammar.conditional bound).Reads ts₀ (.conditional condition thenBody []) rest
  alternative : ∀ {ts₀ ts₁ ts₂ ts₃ ts₄ ts₅ ts₆ rest : List Token} {condition : Node}
    {thenBody elseBody : List Node}, Terminal "IF" ts₀ ts₁ →
      Expression IsFree ts₁ condition ts₂ → Terminal "DO" ts₂ ts₃ →
      Block IsFree ts₃ thenBody ts₄ → Terminal "ELSE" ts₄ ts₅ →
      Block IsFree ts₅ elseBody ts₆ → Terminal "END" ts₆ rest →
      (∀ t ∈ ts₀, t.IsConsistent) → 8 * ts₀.length + 1 ≤ bound →
      (Grammar.conditional bound).Reads ts₀ (.conditional condition thenBody elseBody) rest
  loop : ∀ {ts₀ ts₁ ts₂ ts₃ ts₄ rest : List Token} {condition : Node} {body : List Node},
    Terminal "WHILE" ts₀ ts₁ → Expression IsFree ts₁ condition ts₂ → Terminal "DO" ts₂ ts₃ →
      Block IsFree ts₃ body ts₄ → Terminal "END" ts₄ rest → (∀ t ∈ ts₀, t.IsConsistent) →
      8 * ts₀.length + 1 ≤ bound → (loop bound).Reads ts₀ (.loop condition body) rest
  switch : ∀ {ts₀ ts₁ ts₂ ts₃ ts₄ rest : List Token} {condition first last : Node}
    {others : List Node}, Terminal "SWITCH" ts₀ ts₁ → Expression IsFree ts₁ condition ts₂ →
      Arms IsFree ts₂ (first :: others) ts₃ → DefaultArm IsFree ts₃ last ts₄ →
      Terminal "END" ts₄ rest → (∀ t ∈ ts₀, t.IsConsistent) → 8 * ts₀.length + 1 ≤ bound →
      (switch bound).Reads ts₀ (.switch condition (first :: others ++ [last])) rest
  valueArms : ∀ {ts rest rest' : List Token} {arms : List Node},
    Arms IsFree ts arms rest → Terminal "DEFAULT" rest rest' → (∀ t ∈ ts, t.IsConsistent) →
      8 * ts.length + 1 ≤ bound → (valueArms bound).Reads ts arms rest
  defaultArm : ∀ {ts rest : List Token} {arm : Node},
    DefaultArm IsFree ts arm rest → EndsBlock rest → (∀ t ∈ ts, t.IsConsistent) →
      8 * ts.length + 1 ≤ bound → (defaultArm bound).Reads ts arm rest

namespace StatementsComplete

theorem zero : StatementsComplete 0 where
  statements _ _ _ hbound := by omega
  statement _ _ hbound := by omega
  conditional _ _ _ _ _ _ hbound := by omega
  alternative _ _ _ _ _ _ _ _ hbound := by omega
  loop _ _ _ _ _ _ hbound := by omega
  switch _ _ _ _ _ _ hbound := by omega
  valueArms _ _ _ hbound := by omega
  defaultArm _ _ _ hbound := by omega

variable {bound : Nat} (ih : StatementsComplete bound)
include ih

theorem statements_succ {ts rest : List Token} {ss : List Node} (h : Block IsFree ts ss rest)
    (hts : ∀ t ∈ ts, t.IsConsistent) (hrest : EndsBlock rest)
    (hbound : 8 * ts.length + 3 ≤ bound + 1) :
    (Grammar.statements (bound + 1)).Reads ts ss rest := by
  refine Rule.reads_cursor fun p => ?_
  cases h with
  | nil =>
      obtain ⟨k, hk, ts', hterminal⟩ := hrest
      have hsees : (⟨p, ts⟩ : Cursor).seesText blockTerminators = true :=
        List.any_eq_true.mpr ⟨k, hk, sees_text_iff.mpr ⟨ts', hterminal⟩⟩
      rw [if_pos hsees]
      exact Rule.reads_pure _ _
  | @cons _ mid _ s ss h hs =>
      have hmid := h.consumes
      have hlt := hmid.length_lt
      have hsees : ¬ (⟨p, ts⟩ : Cursor).seesText blockTerminators = true := by
        rw [Cursor.seesText, List.any_eq_true]
        rintro ⟨k, hk, hsees⟩
        obtain ⟨ts', hterminal⟩ := sees_text_iff.mp hsees
        obtain ⟨ht⟩ := hterminal
        refine h.avoids hts _ rfl ?_
        rw [ht]
        exact (by decide : blockTerminators ⊆ nonStatementStarters) hk
      have hempty : ¬ ts.isEmpty = true := by
        rw [List.isEmpty_iff]
        rintro rfl
        simp at hlt
      rw [if_neg hsees, if_neg hempty]
      refine (ih.statement h hts (by omega)).bind ?_
      exact (ih.statements hs (fun t ht => hts t (hmid.suffix.subset ht)) hrest
        (by omega)).bind (Rule.reads_pure _ _)

theorem statement_succ {ts rest : List Token} {s : Node} (h : Statement IsFree ts s rest)
    (hts : ∀ t ∈ ts, t.IsConsistent) (hbound : 8 * ts.length + 2 ≤ bound + 1) :
    (Grammar.statement (bound + 1)).Reads ts s rest := by
  refine Rule.reads_cursor fun p => ?_
  have hneg : ∀ k, Avoids [k] ts → ¬ (⟨p, ts⟩ : Cursor).sees (.text k) = true := fun k hk => by
    simp [sees_text_eq_false hk]
  cases h with
  | declaration hlet hx htype hvalue hend =>
      rw [if_pos (sees_text_iff.mpr ⟨_, hlet⟩)]
      exact reads_declaration hlet hx htype hvalue hend hts
  | «switch» hswitch h harms hlast hend =>
      rw [if_neg (hneg _ (hswitch.avoids (by decide))),
        if_pos (sees_text_iff.mpr ⟨_, hswitch⟩)]
      exact ih.switch hswitch h harms hlast hend hts (by omega)
  | conditional hif h hdo hthen hend =>
      rw [if_neg (hneg _ (hif.avoids (by decide))), if_neg (hneg _ (hif.avoids (by decide))),
        if_pos (sees_text_iff.mpr ⟨_, hif⟩)]
      exact ih.conditional hif h hdo hthen hend hts (by omega)
  | alternative hif h hdo hthen helse hbody hend =>
      rw [if_neg (hneg _ (hif.avoids (by decide))), if_neg (hneg _ (hif.avoids (by decide))),
        if_pos (sees_text_iff.mpr ⟨_, hif⟩)]
      exact ih.alternative hif h hdo hthen helse hbody hend hts (by omega)
  | loop hwhile h hdo hbody hend =>
      rw [if_neg (hneg _ (hwhile.avoids (by decide))),
        if_neg (hneg _ (hwhile.avoids (by decide))),
        if_neg (hneg _ (hwhile.avoids (by decide))), if_pos (sees_text_iff.mpr ⟨_, hwhile⟩)]
      exact ih.loop hwhile h hdo hbody hend hts (by omega)
  | plainReturn hreturn hend =>
      rw [if_neg (hneg _ (hreturn.avoids (by decide))),
        if_neg (hneg _ (hreturn.avoids (by decide))),
        if_neg (hneg _ (hreturn.avoids (by decide))),
        if_neg (hneg _ (hreturn.avoids (by decide))), if_pos (sees_text_iff.mpr ⟨_, hreturn⟩)]
      exact reads_plainReturn hreturn hend
  | returning hreturn h hend =>
      rw [if_neg (hneg _ (hreturn.avoids (by decide))),
        if_neg (hneg _ (hreturn.avoids (by decide))),
        if_neg (hneg _ (hreturn.avoids (by decide))),
        if_neg (hneg _ (hreturn.avoids (by decide))), if_pos (sees_text_iff.mpr ⟨_, hreturn⟩)]
      exact reads_returning hreturn h hend hts
  | evaluation h hend =>
      rw [if_neg (hneg _ (h.avoids hts (by decide))), if_neg (hneg _ (h.avoids hts (by decide))),
        if_neg (hneg _ (h.avoids hts (by decide))), if_neg (hneg _ (h.avoids hts (by decide))),
        if_neg (hneg _ (h.avoids hts (by decide)))]
      exact reads_evaluation h hend hts
  | assignment hleft hequals h hend =>
      rw [if_neg (hneg _ (hleft.avoids hts (by decide))),
        if_neg (hneg _ (hleft.avoids hts (by decide))),
        if_neg (hneg _ (hleft.avoids hts (by decide))),
        if_neg (hneg _ (hleft.avoids hts (by decide))),
        if_neg (hneg _ (hleft.avoids hts (by decide)))]
      exact reads_assignment hleft hequals h hend hts

theorem conditional_succ {ts₀ ts₁ ts₂ ts₃ ts₄ rest : List Token} {condition : Node}
    {thenBody : List Node} (hif : Terminal "IF" ts₀ ts₁)
    (h : Expression IsFree ts₁ condition ts₂) (hdo : Terminal "DO" ts₂ ts₃)
    (hthen : Block IsFree ts₃ thenBody ts₄) (hend : Terminal "END" ts₄ rest)
    (hts : ∀ t ∈ ts₀, t.IsConsistent) (hbound : 8 * ts₀.length + 1 ≤ bound + 1) :
    (Grammar.conditional (bound + 1)).Reads ts₀ (.conditional condition thenBody []) rest := by
  have hts₁ := hif.consumes
  have hts₃ := (hts₁.trans h.consumes).trans hdo.consumes
  have hlt := hts₃.length_lt
  refine (reads_expectText hif).bind ?_
  refine (reads_expression h (fun t ht => hts t (hts₁.suffix.subset ht))
    (hdo.avoids (by decide))).bind ?_
  refine (reads_expectText hdo).bind ?_
  refine (ih.statements hthen (hts₃.forall_mem hts)
    (hend.endsBlock (by decide)) (by omega)).bind ?_
  refine (reads_acceptText_false (hend.avoids (by decide))).bind ?_
  exact (reads_expectText hend).bind (Rule.reads_pure _ _)

theorem alternative_succ {ts₀ ts₁ ts₂ ts₃ ts₄ ts₅ ts₆ rest : List Token} {condition : Node}
    {thenBody elseBody : List Node} (hif : Terminal "IF" ts₀ ts₁)
    (h : Expression IsFree ts₁ condition ts₂) (hdo : Terminal "DO" ts₂ ts₃)
    (hthen : Block IsFree ts₃ thenBody ts₄) (helse : Terminal "ELSE" ts₄ ts₅)
    (hbody : Block IsFree ts₅ elseBody ts₆) (hend : Terminal "END" ts₆ rest)
    (hts : ∀ t ∈ ts₀, t.IsConsistent) (hbound : 8 * ts₀.length + 1 ≤ bound + 1) :
    (Grammar.conditional (bound + 1)).Reads ts₀ (.conditional condition thenBody elseBody)
      rest := by
  have hts₁ := hif.consumes
  have hts₃ := (hts₁.trans h.consumes).trans hdo.consumes
  have hts₅ := (hts₃.before hthen.suffix).trans helse.consumes
  have hlt₃ := hts₃.length_lt
  have hlt₅ := hts₅.length_lt
  refine (reads_expectText hif).bind ?_
  refine (reads_expression h (fun t ht => hts t (hts₁.suffix.subset ht))
    (hdo.avoids (by decide))).bind ?_
  refine (reads_expectText hdo).bind ?_
  refine (ih.statements hthen (hts₃.forall_mem hts)
    (helse.endsBlock (by decide)) (by omega)).bind ?_
  refine (reads_acceptText helse).bind ?_
  refine (ih.statements hbody (fun t ht => hts t (hts₅.suffix.subset ht))
    (hend.endsBlock (by decide)) (by omega)).bind ?_
  exact (reads_expectText hend).bind (Rule.reads_pure _ _)

theorem loop_succ {ts₀ ts₁ ts₂ ts₃ ts₄ rest : List Token} {condition : Node}
    {body : List Node} (hwhile : Terminal "WHILE" ts₀ ts₁)
    (h : Expression IsFree ts₁ condition ts₂) (hdo : Terminal "DO" ts₂ ts₃)
    (hbody : Block IsFree ts₃ body ts₄) (hend : Terminal "END" ts₄ rest)
    (hts : ∀ t ∈ ts₀, t.IsConsistent) (hbound : 8 * ts₀.length + 1 ≤ bound + 1) :
    (Grammar.loop (bound + 1)).Reads ts₀ (.loop condition body) rest := by
  have hts₁ := hwhile.consumes
  have hts₃ := (hts₁.trans h.consumes).trans hdo.consumes
  have hlt := hts₃.length_lt
  refine (reads_expectText hwhile).bind ?_
  refine (reads_expression h (fun t ht => hts t (hts₁.suffix.subset ht))
    (hdo.avoids (by decide))).bind ?_
  refine (reads_expectText hdo).bind ?_
  refine (ih.statements hbody (hts₃.forall_mem hts)
    (hend.endsBlock (by decide)) (by omega)).bind ?_
  exact (reads_expectText hend).bind (Rule.reads_pure _ _)

theorem switch_succ {ts₀ ts₁ ts₂ ts₃ ts₄ rest : List Token} {condition first last : Node}
    {others : List Node} (hswitch : Terminal "SWITCH" ts₀ ts₁)
    (h : Expression IsFree ts₁ condition ts₂) (harms : Arms IsFree ts₂ (first :: others) ts₃)
    (hlast : DefaultArm IsFree ts₃ last ts₄) (hend : Terminal "END" ts₄ rest)
    (hts : ∀ t ∈ ts₀, t.IsConsistent) (hbound : 8 * ts₀.length + 1 ≤ bound + 1) :
    (Grammar.switch (bound + 1)).Reads ts₀ (.switch condition (first :: others ++ [last]))
      rest := by
  have hts₁ := hswitch.consumes
  have hts₂ := hts₁.trans h.consumes
  have hts₃ := hts₂.before harms.suffix
  have hlt₂ := hts₂.length_lt
  have hlt₃ := hts₃.length_lt
  have hcase : Avoids continuations ts₂ := by
    cases harms with
    | cons hcase _ _ _ _ => exact hcase.avoids (by decide)
  obtain ⟨ts', hdefault⟩ : ∃ ts', Terminal "DEFAULT" ts₃ ts' := by
    cases hlast with
    | plain hdefault _ | colon hdefault _ _ => exact ⟨_, hdefault⟩
  refine (reads_expectText hswitch).bind ?_
  refine (reads_expression h (fun t ht => hts t (hts₁.suffix.subset ht)) hcase).bind ?_
  refine (ih.valueArms harms hdefault (fun t ht => hts t (hts₂.suffix.subset ht))
    (by omega)).bind ?_
  refine (reads_sees hdefault).bind ?_
  refine (ih.defaultArm hlast (hend.endsBlock (by decide))
    (hts₃.forall_mem hts) (by omega)).bind ?_
  exact (reads_expectText hend).bind (Rule.reads_pure _ _)

theorem valueArms_succ {ts rest rest' : List Token} {arms : List Node}
    (h : Arms IsFree ts arms rest) (hrest : Terminal "DEFAULT" rest rest')
    (hts : ∀ t ∈ ts, t.IsConsistent) (hbound : 8 * ts.length + 1 ≤ bound + 1) :
    (Grammar.valueArms (bound + 1)).Reads ts arms rest := by
  cases h with
  | nil =>
      exact (reads_acceptText_false (hrest.avoids (by decide))).bind (Rule.reads_pure _ _)
  | @cons _ ts₁ ts₂ ts₃ ts₄ _ value body arms hcase h hcolon hbody harms =>
      have hts₁ := hcase.consumes
      have hts₃ := (hts₁.trans h.consumes).trans hcolon.consumes
      have hts₄ := hts₃.before hbody.suffix
      have hlt₃ := hts₃.length_lt
      have hlt₄ := hts₄.length_lt
      have hends : EndsBlock ts₄ := by
        cases harms with
        | nil => exact hrest.endsBlock (by decide)
        | cons hcase _ _ _ _ => exact hcase.endsBlock (by decide)
      refine (reads_acceptText hcase).bind ?_
      refine (reads_expression h (fun t ht => hts t (hts₁.suffix.subset ht))
        (hcolon.avoids (by decide))).bind ?_
      refine (reads_expectText hcolon).bind ?_
      refine (ih.statements hbody (hts₃.forall_mem hts) hends
        (by omega)).bind ?_
      exact (ih.valueArms harms hrest (fun t ht => hts t (hts₄.suffix.subset ht))
        (by omega)).bind (Rule.reads_pure _ _)

theorem defaultArm_succ {ts rest : List Token} {arm : Node} (h : DefaultArm IsFree ts arm rest)
    (hrest : EndsBlock rest) (hts : ∀ t ∈ ts, t.IsConsistent)
    (hbound : 8 * ts.length + 1 ≤ bound + 1) :
    (Grammar.defaultArm (bound + 1)).Reads ts arm rest := by
  cases h with
  | plain hdefault hbody =>
      have hlt := hdefault.consumes.length_lt
      have hsub := hdefault.consumes.suffix.subset
      refine (reads_expectText hdefault).bind ?_
      refine (reads_acceptText_false (hbody.avoids (fun t ht => hts t (hsub ht)) hrest)).bind ?_
      exact (ih.statements hbody (fun t ht => hts t (hsub ht)) hrest (by omega)).bind
        (Rule.reads_pure _ _)
  | colon hdefault hcolon hbody =>
      have hmid := hdefault.consumes.trans hcolon.consumes
      have hlt := hmid.length_lt
      refine (reads_expectText hdefault).bind ?_
      refine (reads_acceptText hcolon).bind ?_
      exact (ih.statements hbody (fun t ht => hts t (hmid.suffix.subset ht)) hrest
        (by omega)).bind (Rule.reads_pure _ _)

theorem succ : StatementsComplete (bound + 1) where
  statements := ih.statements_succ
  statement := ih.statement_succ
  conditional := ih.conditional_succ
  alternative := ih.alternative_succ
  loop := ih.loop_succ
  switch := ih.switch_succ
  valueArms := ih.valueArms_succ
  defaultArm := ih.defaultArm_succ

end StatementsComplete

theorem statementsComplete (bound : Nat) : StatementsComplete bound := by
  induction bound with
  | zero => exact .zero
  | succ bound ih => exact ih.succ

theorem reads_block {ts rest : List Token} {ss : List Node} (h : Block IsFree ts ss rest)
    (hts : ∀ t ∈ ts, t.IsConsistent) (hrest : EndsBlock rest) : block.Reads ts ss rest := by
  intro p
  have hbound : 8 * ts.length + 3 ≤ nestingBound ts := by
    rw [nestingBound]
    omega
  exact (statementsComplete _).statements h hts hrest hbound p

end Statements

section Globals

theorem reads_listGlobal {ts₁ ts₂ ts₃ ts₄ ts₅ ts₆ ts₇ : List Token} {x : String}
    {type : Option String} {elements : List Node} (hx : Identifier IsFree ts₁ x ts₂)
    (htype : OptionalType IsFree ts₂ type ts₃) (hequals : Terminal "=" ts₃ ts₄)
    (hopen : Terminal "[" ts₄ ts₅) (h : Expressions IsFree ts₅ elements ts₆)
    (hclose : Terminal "]" ts₆ ts₇) (hts : ∀ t ∈ ts₁, t.IsConsistent) :
    listGlobal.Reads ts₁ (.global x (.ofText? type) true (.list elements)) ts₇ := by
  have hts₅ := ((hx.consumes.before htype.suffix).trans hequals.consumes).trans hopen.consumes
  refine (reads_identifier hx).bind ?_
  refine (reads_optionalType htype (hequals.avoids (by decide))).bind ?_
  refine (reads_expectText hequals).bind ?_
  refine (reads_expectText hopen).bind ?_
  refine Rule.Reads.bind (a := Node.list elements) (fun p => ?_) (Rule.reads_pure _ _)
  have hbound : 8 * ts₅.length + 7 ≤ nestingBound ts₅ := by
    rw [nestingBound]
    omega
  have helements := (expressionsComplete _).expressions h
    (fun t ht => hts t (hts₅.suffix.subset ht)) (hclose.avoids (by decide)) hbound
  have hread : (do
      let es ← expressions (nestingBound ts₅)
      Rule.expectText "]"
      return Node.list es : Rule Node).Reads ts₅ (.list elements) ts₇ :=
    helements.bind ((reads_expectText hclose).bind (Rule.reads_pure _ _))
  exact hread p

theorem reads_mutableGlobal {ts₁ ts₂ ts₃ ts₄ rest : List Token} {x : String}
    {type : Option String} {value : Node} (hx : Identifier IsFree ts₁ x ts₂)
    (htype : OptionalType IsFree ts₂ type ts₃) (hvalue : OptionalValue IsFree ts₃ value ts₄)
    (hend : Terminal ";" ts₄ rest) (hts : ∀ t ∈ ts₁, t.IsConsistent) :
    mutableGlobal.Reads ts₁ (.global x (.ofText? type) true value) ts₄ := by
  have hsub := (hx.consumes.before htype.suffix).suffix.subset
  have hcolon : Avoids [":"] ts₃ := by
    cases hvalue with
    | none => exact hend.avoids (by decide)
    | some hequals _ => exact hequals.avoids (by decide)
  refine (reads_identifier hx).bind ?_
  refine (reads_optionalType htype hcolon).bind ?_
  exact (reads_optionalValue hvalue (fun t ht => hts t (hsub ht))
    (hend.avoids (by decide))).bind (Rule.reads_pure _ _)

theorem reads_immutableGlobal {ts₁ ts₂ ts₃ ts₄ ts₅ rest : List Token} {x : String}
    {type : Option String} {value : Node} (hx : Identifier IsFree ts₁ x ts₂)
    (htype : OptionalType IsFree ts₂ type ts₃) (hequals : Terminal "=" ts₃ ts₄)
    (hvalue : Expression IsFree ts₄ value ts₅) (hend : Terminal ";" ts₅ rest)
    (hts : ∀ t ∈ ts₁, t.IsConsistent) :
    immutableGlobal.Reads ts₁ (.global x (.ofText? type) false value) ts₅ := by
  have hsub := ((hx.consumes.before htype.suffix).trans hequals.consumes).suffix.subset
  refine (reads_identifier hx).bind ?_
  refine (reads_optionalType htype (hequals.avoids (by decide))).bind ?_
  obtain ⟨ht⟩ := hequals
  rename_i t
  have hexpect : (Rule.expectAs (.text "=")
      "'=' (immutable value must be initialized)").Reads (t :: ts₄) t ts₄ := fun p =>
    ⟨p + 1, expectAs_eq_ok.mpr ⟨rfl, rfl, by simp [TokenPattern.fits, ht]⟩⟩
  refine hexpect.bind ?_
  exact (reads_expression hvalue (fun t ht => hts t (hsub ht)) (hend.avoids (by decide))).bind
    (Rule.reads_pure _ _)

theorem reads_global {ts rest : List Token} {g : Node} (h : Global IsFree ts g rest)
    (hts : ∀ t ∈ ts, t.IsConsistent) : global.Reads ts g rest := by
  have hsub : ∀ {k : String} {ts' : List Token}, Terminal k ts ts' →
      ∀ t ∈ ts', t.IsConsistent := fun hk t ht => hts t (hk.consumes.suffix.subset ht)
  cases h with
  | list hlist hx htype hequals hopen h hclose hend =>
      refine (reads_acceptText hlist).bind ?_
      refine (reads_listGlobal hx htype hequals hopen h hclose (hsub hlist)).bind ?_
      exact (reads_expectText hend).bind (Rule.reads_pure _ _)
  | fixed hval hx htype hequals hvalue hend =>
      refine (reads_acceptText_false (hval.avoids (by decide))).bind ?_
      refine (reads_acceptText hval).bind ?_
      refine (reads_immutableGlobal hx htype hequals hvalue hend (hsub hval)).bind ?_
      exact (reads_expectText hend).bind (Rule.reads_pure _ _)
  | @changeable _ _ _ _ _ keyword _ _ _ hkeyword hvar hx htype hvalue hend =>
      have hother : keyword ∉ ["LIST"] ∧ keyword ∉ ["VAL"] := by
        rcases hkeyword with rfl | rfl
        · decide
        · decide
      refine (reads_acceptText_false (hvar.avoids hother.1)).bind ?_
      refine (reads_acceptText_false (hvar.avoids hother.2)).bind ?_
      have hread := reads_mutableGlobal hx htype hvalue hend (hsub hvar)
      obtain ⟨_⟩ := hvar
      refine (Rule.reads_skip _ _).bind ?_
      refine hread.bind ?_
      exact (reads_expectText hend).bind (Rule.reads_pure _ _)

/-- A global starts with one of its keywords. -/
theorem Derivation.Global.starts {ts rest : List Token} {g : Node}
    (h : Global IsFree ts g rest) : ∃ k ∈ globalKeywords, ∃ ts', Terminal k ts ts' := by
  cases h with
  | list h _ _ _ _ _ _ _ | fixed h _ _ _ _ _ =>
      exact ⟨_, by decide, _, h⟩
  | changeable hkeyword h _ _ _ _ =>
      rcases hkeyword with rfl | rfl
      · exact ⟨_, by decide, _, h⟩
      · exact ⟨_, by decide, _, h⟩

theorem reads_globals {bound : Nat} {ts rest : List Token} {gs : List Node}
    (h : Row (Global IsFree) ts gs rest) (hts : ∀ t ∈ ts, t.IsConsistent)
    (hrest : Avoids globalKeywords rest) (hbound : ts.length < bound) :
    (globals bound).Reads ts gs rest := by
  induction bound generalizing ts gs with
  | zero =>
      omega
  | succ bound ih =>
      refine Rule.reads_cursor fun p => ?_
      cases h with
      | nil =>
          have hsees : ¬ (⟨p, rest⟩ : Cursor).seesText globalKeywords = true := by
            rw [Cursor.seesText, List.any_eq_true]
            rintro ⟨k, hk, hsees⟩
            obtain ⟨ts', hterminal⟩ := sees_text_iff.mp hsees
            obtain ⟨ht⟩ := hterminal
            exact hrest _ rfl (ht ▸ hk)
          rw [if_neg hsees]
          exact Rule.reads_pure _ _
      | cons hg hgs =>
          have hmid := hg.consumes
          have hlt := hmid.length_lt
          obtain ⟨k, hk, ts', hterminal⟩ := hg.starts
          have hsees : (⟨p, ts⟩ : Cursor).seesText globalKeywords = true :=
            List.any_eq_true.mpr ⟨k, hk, sees_text_iff.mpr ⟨ts', hterminal⟩⟩
          rw [if_pos hsees]
          refine (reads_global hg hts).bind ?_
          exact (ih hgs (fun t ht => hts t (hmid.suffix.subset ht)) (by omega)).bind
            (Rule.reads_pure _ _)

end Globals

section Functions

theorem reads_parameter {ts rest : List Token} {p : String × Option String}
    (h : Parameter IsFree ts p rest) (hrest : Avoids [":"] rest) :
    parameter.Reads ts p rest := by
  obtain ⟨hx, htype⟩ := h
  exact (reads_identifier hx).bind ((reads_optionalType htype hrest).bind (Rule.reads_pure _ _))

theorem reads_parameters {bound : Nat} {ts rest : List Token}
    {ps : List (String × Option String)} (h : Separated (Parameter IsFree) ts ps rest)
    (hrest : Avoids [":", ","] rest) (hbound : ts.length < bound) :
    (parameters bound).Reads ts ps rest := by
  induction bound generalizing ts ps with
  | zero =>
      omega
  | succ bound ih =>
      cases h with
      | last h =>
          refine (reads_parameter h (hrest.mono (by decide))).bind ?_
          exact (reads_acceptText_false (hrest.mono (by decide))).bind (Rule.reads_pure _ _)
      | cons h hcomma hs =>
          have hlt := (h.consumes.trans hcomma.consumes).length_lt
          refine (reads_parameter h (hcomma.avoids (by decide))).bind ?_
          refine (reads_acceptText hcomma).bind ?_
          exact (ih hs (by omega)).bind (Rule.reads_pure _ _)

theorem reads_optionalParameters {ts rest rest' : List Token}
    {ps : List (String × Option String)} (h : OptionalParameters IsFree ts ps rest)
    (hclose : Terminal ")" rest rest') (hts : ∀ t ∈ ts, t.IsConsistent) :
    optionalParameters.Reads ts ps rest := by
  cases h with
  | none =>
      exact (reads_sees hclose).bind (Rule.reads_pure _ _)
  | some h =>
      have hother : Avoids [")"] ts := by
        cases h with
        | last h | cons h _ _ =>
            obtain ⟨hx, _⟩ := h
            obtain ⟨hk, _⟩ := hx
            intro t ht
            cases ht
            intro hmem
            rw [List.mem_singleton] at hmem
            have hop := (hts _ List.mem_cons_self).mark (by rw [hmem]; decide)
            rw [hk] at hop
            cases hop
      refine (reads_sees_false hother).bind fun p => ?_
      have hbound : ts.length < nestingBound ts := by
        rw [nestingBound]
        omega
      exact reads_parameters h (hclose.avoids (by decide)) hbound p

theorem reads_function {ts rest : List Token} {f : Node}
    (h : Derivation.Function IsFree ts f rest) (hts : ∀ t ∈ ts, t.IsConsistent) :
    function.Reads ts f rest := by
  obtain ⟨hfun, hx, hopen, hps, hclose, htype, hdo, hbody, hend⟩ := h
  have hts₃ := (hfun.consumes.trans hx.consumes).trans hopen.consumes
  have hts₇ := (((hts₃.before hps.suffix).trans hclose.consumes).before htype.suffix).trans
    hdo.consumes
  refine (reads_expectText hfun).bind ?_
  refine (reads_identifier hx).bind ?_
  refine (reads_expectText hopen).bind ?_
  refine (reads_optionalParameters hps hclose
    (hts₃.forall_mem hts)).bind ?_
  refine (reads_expectText hclose).bind ?_
  refine (reads_optionalType htype (hdo.avoids (by decide))).bind ?_
  refine (reads_expectText hdo).bind ?_
  refine (reads_block hbody (hts₇.forall_mem hts)
    (hend.endsBlock (by decide))).bind ?_
  exact (reads_expectText hend).bind (Rule.reads_pure _ _)

theorem reads_functions {bound : Nat} {ts : List Token} {fs : List Node}
    (h : Row (Derivation.Function IsFree) ts fs []) (hts : ∀ t ∈ ts, t.IsConsistent)
    (hbound : ts.length < bound) : (functions bound).Reads ts fs [] := by
  induction bound generalizing ts fs with
  | zero =>
      omega
  | succ bound ih =>
      cases h with
      | nil =>
          exact (reads_sees_false (by simp [Avoids])).bind (Rule.reads_pure _ _)
      | cons hf hfs =>
          have hmid := hf.consumes
          have hlt := hmid.length_lt
          obtain ⟨ts', hfun⟩ : ∃ ts', Terminal "FUN" ts ts' := by
            obtain ⟨hfun, _⟩ := hf
            exact ⟨_, hfun⟩
          refine (reads_sees hfun).bind ?_
          refine (reads_function hf hts).bind ?_
          exact (ih hfs (fun t ht => hts t (hmid.suffix.subset ht)) (by omega)).bind
            (Rule.reads_pure _ _)

end Functions

theorem reads_source {ts : List Token} {tree : Node} (h : Derives ts tree)
    (hts : ∀ t ∈ ts, t.IsConsistent) : source.Reads ts tree [] := by
  obtain ⟨hgs, hfs⟩ := h
  rename_i mid gs fs
  refine Rule.reads_cursor fun p => ?_
  have hsuffix : mid <:+ ts := by
    clear hfs
    induction hgs with
    | nil => exact List.suffix_refl _
    | cons hg _ ih =>
        exact (hg.consumes.before (ih fun t ht => hts t (hg.consumes.suffix.subset ht))).suffix
  have hfollow : Avoids globalKeywords mid := by
    cases hfs with
    | nil => simp [Avoids]
    | cons hf _ =>
        obtain ⟨hfun, _⟩ := hf
        exact hfun.avoids (by decide)
  have hlength := hsuffix.length_le
  have hbound : ts.length < nestingBound ts := by
    rw [nestingBound]
    omega
  refine (reads_globals hgs hts hfollow hbound).bind ?_
  refine (reads_functions hfs (fun t ht => hts t (hsuffix.subset ht))
    (Nat.lt_of_le_of_lt hlength hbound)).bind ?_
  exact Rule.reads_cursor fun q => Rule.reads_pure _ _

/-- The tree of a derivation is made from its tokens. -/
theorem parse_of_derives {tokens : List Token} {tree : Node} (h : Derives tokens tree)
    (hts : ∀ t ∈ tokens, t.IsConsistent) : parse tokens = .ok tree := by
  obtain ⟨q, hq⟩ := reads_source h hts 0
  rw [parse, Cursor.start, hq]
  rfl

end Grammar
end BlockScript
