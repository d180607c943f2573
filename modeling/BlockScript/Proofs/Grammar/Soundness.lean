import BlockScript.Proofs.Grammar.Reading
import BlockScript.Proofs.Grammar.Spelling
import BlockScript.Proofs.Tree.Identifiers

/-!
# What the rules accept derives from the grammar

Each rule that succeeds has read tokens that derive from its nonterminal, and its result
is the tree of the derivation.  The names of the tree decide which names the derivation
has to allow, so the same statements serve all trees and those without keywords.
-/

namespace BlockScript
namespace Grammar

open BlockScript.Grammar.Derivation

variable {allowed : String → Prop}

/-- The left operand of a row of operations is a part of the whole. -/
theorem Derivation.Operations.identifiers_subset {operators : List String}
    {inner : List (List String)} {ts rest : List Token} {e : Node} :
    ∀ {left : Node}, Operations allowed operators inner left ts e rest →
      ∀ x ∈ left.identifiers, x ∈ e.identifiers
  | _, .done, _, hx => hx
  | _, .more _ _ _ h, x, hx =>
      Operations.identifiers_subset h x (by simp [Node.identifiers, hx])

section Expressions

theorem literal_of_literalNode {t : Token} {c c' : Cursor} {e : Node}
    (hk : t.kind ≠ .identifier ∧ t.kind ≠ .operator)
    (h : literalNode t c = .ok (e, c')) : Primary allowed (t :: c.rest) e c'.rest := by
  unfold literalNode Literal.ofToken at h
  cases hkind : t.kind with
  | identifier => exact absurd hkind hk.1
  | operator => exact absurd hkind hk.2
  | integer =>
      cases hn : Text.readLooseInt? t.text.toList with
      | none => simp [hkind, hn, Rule.fail] at h
      | some n =>
          simp only [hkind, hn] at h
          cases h
          exact .literal (.integer hkind hn)
  | decimal =>
      cases hd : Decimal.ofText? t.text with
      | none => simp [hkind, hd, Rule.fail] at h
      | some d =>
          simp only [hkind, hd] at h
          cases h
          exact .literal (.decimal hkind hd)
  | character =>
      simp only [hkind] at h
      cases h
      exact .literal (.character hkind (Literal.unquoted_iff.mpr rfl))
  | string =>
      simp only [hkind] at h
      cases h
      exact .literal (.string hkind (Literal.unquoted_iff.mpr rfl))

/-- What is claimed of each rule for expressions at one bound. -/
structure ExpressionsSound (allowed : String → Prop) (bound : Nat) : Prop where
  layers : ∀ {ls : List (List String)} {c c' : Cursor} {e : Node},
    layers bound ls c = .ok (e, c') → e.NamesSatisfy allowed →
      Layered allowed ls c.rest e c'.rest
  operations : ∀ {operators : List String} {inner : List (List String)} {left : Node}
    {c c' : Cursor} {e : Node},
    operations bound operators inner left c = .ok (e, c') → e.NamesSatisfy allowed →
      Operations allowed operators inner left c.rest e c'.rest
  primary : ∀ {c c' : Cursor} {e : Node},
    primary bound c = .ok (e, c') → e.NamesSatisfy allowed →
      Primary allowed c.rest e c'.rest
  named : ∀ {t : Token} {c c' : Cursor} {e : Node}, t.kind = .identifier →
    named bound t.text c = .ok (e, c') → e.NamesSatisfy allowed →
      Primary allowed (t :: c.rest) e c'.rest
  expressions : ∀ {c c' : Cursor} {es : List Node},
    expressions bound c = .ok (es, c') → Node.AllNamesSatisfy allowed es →
      Expressions allowed c.rest es c'.rest

namespace ExpressionsSound

theorem zero : ExpressionsSound allowed 0 where
  layers h := by simp [Grammar.layers, Rule.fail] at h
  operations h := by simp [Grammar.operations, Rule.fail] at h
  primary h := by simp [Grammar.primary, Rule.fail] at h
  named _ h := by simp [Grammar.named, Rule.fail] at h
  expressions h := by simp [Grammar.expressions, Rule.fail] at h

variable {bound : Nat} (ih : ExpressionsSound allowed bound)
include ih

theorem layers_succ {ls : List (List String)} {c c' : Cursor} {e : Node}
    (h : Grammar.layers (bound + 1) ls c = .ok (e, c')) (he : e.NamesSatisfy allowed) :
    Layered allowed ls c.rest e c'.rest := by
  cases ls with
  | nil => exact .operand (ih.primary h he)
  | cons operators inner =>
      obtain ⟨left, c₁, h₁, h₂⟩ := Rule.bind_eq_ok.mp h
      have hops := ih.operations h₂ he
      have hleft : left.NamesSatisfy allowed := fun s hs =>
        he s (hops.identifiers_subset _ hs)
      exact .layer (ih.layers h₁ hleft) hops

theorem operations_succ {operators : List String} {inner : List (List String)} {left : Node}
    {c c' : Cursor} {e : Node}
    (h : Grammar.operations (bound + 1) operators inner left c = .ok (e, c'))
    (he : e.NamesSatisfy allowed) :
    Operations allowed operators inner left c.rest e c'.rest := by
  obtain ⟨c₀, c₁, h₁, h₂⟩ := Rule.bind_eq_ok.mp h
  cases h₁
  obtain ⟨p, ts⟩ := c
  cases ts with
  | nil =>
      cases h₂
      exact .done
  | cons t rest =>
      simp only at h₂
      by_cases ht : operators.contains t.text = true
      · rw [if_pos ht] at h₂
        obtain ⟨u, c₁, h₃, h₄⟩ := Rule.bind_eq_ok.mp h₂
        cases h₃
        obtain ⟨right, c₂, h₅, h₆⟩ := Rule.bind_eq_ok.mp h₄
        have hops := ih.operations h₆ he
        have hright : right.NamesSatisfy allowed := fun s hs =>
          he s (hops.identifiers_subset _ (by simp [Node.identifiers, hs]))
        exact .more (by simpa using ht) (.intro rfl) (ih.layers h₅ hright) hops
      · rw [if_neg ht] at h₂
        cases h₂
        exact .done

theorem named_succ {t : Token} {c c' : Cursor} {e : Node} (hk : t.kind = .identifier)
    (h : Grammar.named (bound + 1) t.text c = .ok (e, c')) (he : e.NamesSatisfy allowed) :
    Primary allowed (t :: c.rest) e c'.rest := by
  have hx : Name.ofText t.text ∈ e.identifiers →
      Identifier allowed (t :: c.rest) t.text c.rest := fun hm => .intro hk (he _ hm)
  obtain ⟨b, c₁, h₁, h₂⟩ := Rule.bind_eq_ok.mp h
  rcases acceptText_eq_ok h₁ with ⟨rfl, hopen⟩ | ⟨rfl, rfl, _⟩
  · obtain ⟨b, c₂, h₃, h₄⟩ := Rule.bind_eq_ok.mp h₂
    cases h₃
    by_cases hsees : c₁.sees (.text ")") = true
    · rw [if_pos hsees] at h₄
      obtain ⟨rest, hclose⟩ := sees_text_iff.mp hsees
      obtain ⟨u, c₃, h₅, h₆⟩ := Rule.bind_eq_ok.mp h₄
      cases h₅
      cases h₆
      obtain ⟨p₁, ts₁⟩ := c₁
      cases hclose with
      | intro ht =>
          exact .plainCall (hx (by simp [Node.identifiers])) hopen (.intro ht)
    · rw [if_neg hsees] at h₄
      obtain ⟨arguments, c₃, h₅, h₆⟩ := Rule.bind_eq_ok.mp h₄
      obtain ⟨u, c₄, h₇, h₈⟩ := Rule.bind_eq_ok.mp h₆
      cases h₈
      have hargs : Node.AllNamesSatisfy allowed arguments := fun s hs =>
        he s (by simp [Node.identifiers, hs])
      exact .call (hx (by simp [Node.identifiers])) hopen (ih.expressions h₅ hargs)
        (terminal_of_expectText h₇)
  · obtain ⟨b, c₂, h₃, h₄⟩ := Rule.bind_eq_ok.mp h₂
    rcases acceptText_eq_ok h₃ with ⟨rfl, hopen⟩ | ⟨rfl, rfl, _⟩
    · obtain ⟨offset, c₃, h₅, h₆⟩ := Rule.bind_eq_ok.mp h₄
      obtain ⟨u, c₄, h₇, h₈⟩ := Rule.bind_eq_ok.mp h₆
      cases h₈
      have hoffset : offset.NamesSatisfy allowed := fun s hs =>
        he s (by simp [Node.identifiers, hs])
      exact .item (hx (by simp [Node.identifiers])) hopen (ih.layers h₅ hoffset)
        (terminal_of_expectText h₇)
    · cases h₄
      exact .variable (hx (by simp [Node.identifiers]))

theorem expressions_succ {c c' : Cursor} {es : List Node}
    (h : Grammar.expressions (bound + 1) c = .ok (es, c'))
    (hes : Node.AllNamesSatisfy allowed es) : Expressions allowed c.rest es c'.rest := by
  obtain ⟨first, c₁, h₁, h₂⟩ := Rule.bind_eq_ok.mp h
  obtain ⟨b, c₂, h₃, h₄⟩ := Rule.bind_eq_ok.mp h₂
  rcases acceptText_eq_ok h₃ with ⟨rfl, hcomma⟩ | ⟨rfl, rfl, _⟩
  · obtain ⟨others, c₃, h₅, h₆⟩ := Rule.bind_eq_ok.mp h₄
    cases h₆
    have hfirst : first.NamesSatisfy allowed := fun s hs =>
      hes s (by simp [Node.identifiersAll, hs])
    have hothers : Node.AllNamesSatisfy allowed others := fun s hs =>
      hes s (by simp only [Node.identifiersAll, List.mem_append]; exact Or.inr hs)
    exact .cons (ih.layers h₁ hfirst) hcomma (ih.expressions h₅ hothers)
  · cases h₄
    have hfirst : first.NamesSatisfy allowed := fun s hs =>
      hes s (by simp [Node.identifiersAll, hs])
    exact .last (ih.layers h₁ hfirst)

theorem primary_succ {c c' : Cursor} {e : Node}
    (h : Grammar.primary (bound + 1) c = .ok (e, c')) (he : e.NamesSatisfy allowed) :
    Primary allowed c.rest e c'.rest := by
  obtain ⟨c₀, c₁, h₁, h₂⟩ := Rule.bind_eq_ok.mp h
  cases h₁
  obtain ⟨p, ts⟩ := c
  cases ts with
  | nil => simp [Rule.reject] at h₂
  | cons t rest =>
      simp only [beq_iff_eq] at h₂
      by_cases hnil : t.text = "NIL"
      · rw [if_pos hnil] at h₂
        cases h₂
        exact .nil (.intro hnil)
      rw [if_neg hnil] at h₂
      by_cases htrue : t.text = "TRUE"
      · rw [if_pos htrue] at h₂
        cases h₂
        exact .true (.intro htrue)
      rw [if_neg htrue] at h₂
      by_cases hfalse : t.text = "FALSE"
      · rw [if_pos hfalse] at h₂
        cases h₂
        exact .false (.intro hfalse)
      rw [if_neg hfalse] at h₂
      cases hkind : t.kind with
      | identifier =>
          simp only [hkind] at h₂
          obtain ⟨u, c₁, h₃, h₄⟩ := Rule.bind_eq_ok.mp h₂
          cases h₃
          exact ih.named hkind h₄ he
      | operator =>
          simp only [hkind] at h₂
          by_cases hopen : t.text = "["
          · rw [if_pos hopen] at h₂
            obtain ⟨u, c₁, h₃, h₄⟩ := Rule.bind_eq_ok.mp h₂
            cases h₃
            obtain ⟨elements, c₂, h₅, h₆⟩ := Rule.bind_eq_ok.mp h₄
            obtain ⟨u, c₃, h₇, h₈⟩ := Rule.bind_eq_ok.mp h₆
            cases h₈
            have hes : Node.AllNamesSatisfy allowed elements := fun s hs =>
              he s (by simpa [Node.identifiers] using hs)
            exact .list (.intro hopen) (ih.expressions h₅ hes) (terminal_of_expectText h₇)
          rw [if_neg hopen] at h₂
          by_cases hparen : t.text = "("
          · rw [if_pos hparen] at h₂
            obtain ⟨u, c₁, h₃, h₄⟩ := Rule.bind_eq_ok.mp h₂
            cases h₃
            obtain ⟨inner, c₂, h₅, h₆⟩ := Rule.bind_eq_ok.mp h₄
            obtain ⟨u, c₃, h₇, h₈⟩ := Rule.bind_eq_ok.mp h₆
            cases h₈
            have hinner : inner.NamesSatisfy allowed := fun s hs =>
              he s (by simpa [Node.identifiers] using hs)
            exact .group (.intro hparen) (ih.layers h₅ hinner) (terminal_of_expectText h₇)
          · rw [if_neg hparen] at h₂
            simp [Rule.reject] at h₂
      | integer | decimal | character | string =>
          simp only [hkind] at h₂
          obtain ⟨u, c₁, h₃, h₄⟩ := Rule.bind_eq_ok.mp h₂
          cases h₃
          exact literal_of_literalNode (by simp [hkind]) h₄

theorem succ : ExpressionsSound allowed (bound + 1) where
  layers := ih.layers_succ
  operations := ih.operations_succ
  primary := ih.primary_succ
  named := ih.named_succ
  expressions := ih.expressions_succ

end ExpressionsSound

theorem expressionsSound (bound : Nat) : ExpressionsSound allowed bound := by
  induction bound with
  | zero => exact .zero
  | succ bound ih => exact ih.succ

theorem derives_of_expression {c c' : Cursor} {e : Node} (h : expression c = .ok (e, c'))
    (he : e.NamesSatisfy allowed) : Expression allowed c.rest e c'.rest :=
  (expressionsSound _).layers h he

theorem derives_of_optionalValue {c c' : Cursor} {e : Node} (h : optionalValue c = .ok (e, c'))
    (he : e.NamesSatisfy allowed) : OptionalValue allowed c.rest e c'.rest := by
  obtain ⟨b, c₁, h₁, h₂⟩ := Rule.bind_eq_ok.mp h
  rcases acceptText_eq_ok h₁ with ⟨rfl, hequals⟩ | ⟨rfl, rfl, _⟩
  · exact .some hequals (derives_of_expression h₂ he)
  · cases h₂
    exact .none

end Expressions

section Statements

/-- An expression statement or an assignment. -/
theorem derives_of_evaluationOrAssignment {c c' : Cursor} {s : Node}
    (h : evaluationOrAssignment c = .ok (s, c')) (hs : s.NamesSatisfy allowed) :
    Statement allowed c.rest s c'.rest := by
  obtain ⟨left, c₁, h₁, h₂⟩ := Rule.bind_eq_ok.mp h
  obtain ⟨c₂, c₃, h₃, h₄⟩ := Rule.bind_eq_ok.mp h₂
  cases h₃
  by_cases hsees : c₁.sees (.text "=") = true
  · rw [if_pos hsees] at h₄
    obtain ⟨rest, hequals⟩ := sees_text_iff.mp hsees
    cases left with
    | access x offset =>
        simp only [isTarget] at h₄
        obtain ⟨u, c₄, h₅, h₆⟩ := Rule.bind_eq_ok.mp h₄
        cases h₅
        obtain ⟨value, c₅, h₇, h₈⟩ := Rule.bind_eq_ok.mp h₆
        obtain ⟨u, c₆, h₉, h₁₀⟩ := Rule.bind_eq_ok.mp h₈
        cases h₁₀
        have hleft : (Node.access x offset).NamesSatisfy allowed := fun y hy =>
          hs y (by rw [Node.identifiers]; exact List.mem_append_left _ hy)
        have hvalue : value.NamesSatisfy allowed := fun y hy =>
          hs y (by rw [Node.identifiers]; exact List.mem_append_right _ hy)
        obtain ⟨p₁, ts₁⟩ := c₁
        cases hequals with
        | intro ht =>
            exact .assignment (derives_of_expression h₁ hleft) (.intro ht)
              (derives_of_expression h₇ hvalue) (terminal_of_expectText h₉)
    | _ =>
        simp [isTarget, Rule.reject] at h₄
  · rw [if_neg hsees] at h₄
    obtain ⟨u, c₄, h₅, h₆⟩ := Rule.bind_eq_ok.mp h₄
    cases h₆
    exact .evaluation (derives_of_expression h₁ (by simpa [Node.NamesSatisfy, Node.identifiers]
      using hs)) (terminal_of_expectText h₅)

theorem derives_of_declaration {c c' : Cursor} {s : Node}
    (h : declaration c = .ok (s, c')) (hs : s.NamesSatisfy allowed) :
    Statement allowed c.rest s c'.rest := by
  obtain ⟨u, c₁, hlet, h⟩ := Rule.bind_eq_ok.mp h
  obtain ⟨x, c₂, hx, h⟩ := Rule.bind_eq_ok.mp h
  obtain ⟨type, c₃, htype, h⟩ := Rule.bind_eq_ok.mp h
  obtain ⟨value, c₄, hvalue, h⟩ := Rule.bind_eq_ok.mp h
  obtain ⟨u, c₅, hend, h⟩ := Rule.bind_eq_ok.mp h
  cases h
  exact .declaration (terminal_of_expectText hlet)
    (identifier_of_identifier hx (hs x (by simp [Node.identifiers])))
    (optionalType_of_optionalType htype fun y hy => hs y (by simp [Node.identifiers, hy]))
    (derives_of_optionalValue hvalue fun y hy => hs y (by simp [Node.identifiers, hy]))
    (terminal_of_expectText hend)

theorem derives_of_returning {c c' : Cursor} {s : Node}
    (h : returning c = .ok (s, c')) (hs : s.NamesSatisfy allowed) :
    Statement allowed c.rest s c'.rest := by
  obtain ⟨u, c₁, hreturn, h⟩ := Rule.bind_eq_ok.mp h
  obtain ⟨b, c₂, haccept, h⟩ := Rule.bind_eq_ok.mp h
  rcases acceptText_eq_ok haccept with ⟨rfl, hend⟩ | ⟨rfl, rfl, _⟩
  · cases h
    exact .plainReturn (terminal_of_expectText hreturn) hend
  · obtain ⟨value, c₃, hvalue, h⟩ := Rule.bind_eq_ok.mp h
    obtain ⟨u, c₄, hend, h⟩ := Rule.bind_eq_ok.mp h
    cases h
    exact .returning (terminal_of_expectText hreturn)
      (derives_of_expression hvalue (by simpa [Node.NamesSatisfy, Node.identifiers] using hs))
      (terminal_of_expectText hend)

/-- What is claimed of each rule for statements at one bound. -/
structure StatementsSound (allowed : String → Prop) (bound : Nat) : Prop where
  statements : ∀ {c c' : Cursor} {ss : List Node},
    statements bound c = .ok (ss, c') → Node.AllNamesSatisfy allowed ss →
      Block allowed c.rest ss c'.rest
  statement : ∀ {c c' : Cursor} {s : Node},
    statement bound c = .ok (s, c') → s.NamesSatisfy allowed →
      Statement allowed c.rest s c'.rest
  conditional : ∀ {c c' : Cursor} {s : Node},
    conditional bound c = .ok (s, c') → s.NamesSatisfy allowed →
      Statement allowed c.rest s c'.rest
  loop : ∀ {c c' : Cursor} {s : Node},
    loop bound c = .ok (s, c') → s.NamesSatisfy allowed →
      Statement allowed c.rest s c'.rest
  switch : ∀ {c c' : Cursor} {s : Node},
    switch bound c = .ok (s, c') → s.NamesSatisfy allowed →
      Statement allowed c.rest s c'.rest
  valueArms : ∀ {c c' : Cursor} {arms : List Node},
    valueArms bound c = .ok (arms, c') → Node.AllNamesSatisfy allowed arms →
      Arms allowed c.rest arms c'.rest
  defaultArm : ∀ {c c' : Cursor} {arm : Node},
    defaultArm bound c = .ok (arm, c') → arm.NamesSatisfy allowed →
      DefaultArm allowed c.rest arm c'.rest

namespace StatementsSound

theorem zero : StatementsSound allowed 0 where
  statements h := by simp [Grammar.statements, Rule.fail] at h
  statement h := by simp [Grammar.statement, Rule.fail] at h
  conditional h := by simp [Grammar.conditional, Rule.fail] at h
  loop h := by simp [Grammar.loop, Rule.fail] at h
  switch h := by simp [Grammar.switch, Rule.fail] at h
  valueArms h := by simp [Grammar.valueArms, Rule.fail] at h
  defaultArm h := by simp [Grammar.defaultArm, Rule.fail] at h

variable {bound : Nat} (ih : StatementsSound allowed bound)
include ih

theorem statements_succ {c c' : Cursor} {ss : List Node}
    (h : Grammar.statements (bound + 1) c = .ok (ss, c'))
    (hss : Node.AllNamesSatisfy allowed ss) : Block allowed c.rest ss c'.rest := by
  obtain ⟨c₀, c₁, h₁, h₂⟩ := Rule.bind_eq_ok.mp h
  cases h₁
  by_cases hstop : c.seesText blockTerminators = true
  · rw [if_pos hstop] at h₂
    cases h₂
    exact .nil
  rw [if_neg hstop] at h₂
  by_cases hempty : c.rest.isEmpty = true
  · rw [if_pos hempty] at h₂
    simp [Rule.reject] at h₂
  rw [if_neg hempty] at h₂
  obtain ⟨first, c₁, h₃, h₄⟩ := Rule.bind_eq_ok.mp h₂
  obtain ⟨others, c₂, h₅, h₆⟩ := Rule.bind_eq_ok.mp h₄
  cases h₆
  refine .cons (ih.statement h₃ fun y hy => hss y ?_) (ih.statements h₅ fun y hy => hss y ?_)
  · simp [Node.identifiersAll, hy]
  · simp [Node.identifiersAll, hy]

theorem statement_succ {c c' : Cursor} {s : Node}
    (h : Grammar.statement (bound + 1) c = .ok (s, c')) (hs : s.NamesSatisfy allowed) :
    Statement allowed c.rest s c'.rest := by
  obtain ⟨c₀, c₁, h₁, h₂⟩ := Rule.bind_eq_ok.mp h
  cases h₁
  by_cases hlet : c.sees (.text "LET") = true
  · rw [if_pos hlet] at h₂
    exact derives_of_declaration h₂ hs
  rw [if_neg hlet] at h₂
  by_cases hswitch : c.sees (.text "SWITCH") = true
  · rw [if_pos hswitch] at h₂
    exact ih.switch h₂ hs
  rw [if_neg hswitch] at h₂
  by_cases hif : c.sees (.text "IF") = true
  · rw [if_pos hif] at h₂
    exact ih.conditional h₂ hs
  rw [if_neg hif] at h₂
  by_cases hwhile : c.sees (.text "WHILE") = true
  · rw [if_pos hwhile] at h₂
    exact ih.loop h₂ hs
  rw [if_neg hwhile] at h₂
  by_cases hreturn : c.sees (.text "RETURN") = true
  · rw [if_pos hreturn] at h₂
    exact derives_of_returning h₂ hs
  rw [if_neg hreturn] at h₂
  exact derives_of_evaluationOrAssignment h₂ hs

theorem conditional_succ {c c' : Cursor} {s : Node}
    (h : Grammar.conditional (bound + 1) c = .ok (s, c')) (hs : s.NamesSatisfy allowed) :
    Statement allowed c.rest s c'.rest := by
  obtain ⟨u, c₁, hif, h⟩ := Rule.bind_eq_ok.mp h
  obtain ⟨condition, c₂, hcondition, h⟩ := Rule.bind_eq_ok.mp h
  obtain ⟨u, c₃, hdo, h⟩ := Rule.bind_eq_ok.mp h
  obtain ⟨thenBody, c₄, hthen, h⟩ := Rule.bind_eq_ok.mp h
  obtain ⟨b, c₅, haccept, h⟩ := Rule.bind_eq_ok.mp h
  rcases acceptText_eq_ok haccept with ⟨rfl, helse⟩ | ⟨rfl, rfl, _⟩
  · obtain ⟨elseBody, c₆, hbody, h⟩ := Rule.bind_eq_ok.mp h
    obtain ⟨u, c₇, hend, h⟩ := Rule.bind_eq_ok.mp h
    cases h
    exact .alternative (terminal_of_expectText hif)
      (derives_of_expression hcondition fun y hy => hs y (by simp [Node.identifiers, hy]))
      (terminal_of_expectText hdo)
      (ih.statements hthen fun y hy => hs y (by simp [Node.identifiers, hy])) helse
      (ih.statements hbody fun y hy => hs y (by simp [Node.identifiers, hy]))
      (terminal_of_expectText hend)
  · obtain ⟨u, c₆, hend, h⟩ := Rule.bind_eq_ok.mp h
    cases h
    exact .conditional (terminal_of_expectText hif)
      (derives_of_expression hcondition fun y hy => hs y (by simp [Node.identifiers, hy]))
      (terminal_of_expectText hdo)
      (ih.statements hthen fun y hy => hs y (by simp [Node.identifiers, hy]))
      (terminal_of_expectText hend)

theorem loop_succ {c c' : Cursor} {s : Node}
    (h : Grammar.loop (bound + 1) c = .ok (s, c')) (hs : s.NamesSatisfy allowed) :
    Statement allowed c.rest s c'.rest := by
  obtain ⟨u, c₁, hwhile, h⟩ := Rule.bind_eq_ok.mp h
  obtain ⟨condition, c₂, hcondition, h⟩ := Rule.bind_eq_ok.mp h
  obtain ⟨u, c₃, hdo, h⟩ := Rule.bind_eq_ok.mp h
  obtain ⟨body, c₄, hbody, h⟩ := Rule.bind_eq_ok.mp h
  obtain ⟨u, c₅, hend, h⟩ := Rule.bind_eq_ok.mp h
  cases h
  exact .loop (terminal_of_expectText hwhile)
    (derives_of_expression hcondition fun y hy => hs y (by simp [Node.identifiers, hy]))
    (terminal_of_expectText hdo)
    (ih.statements hbody fun y hy => hs y (by simp [Node.identifiers, hy]))
    (terminal_of_expectText hend)

theorem switch_succ {c c' : Cursor} {s : Node}
    (h : Grammar.switch (bound + 1) c = .ok (s, c')) (hs : s.NamesSatisfy allowed) :
    Statement allowed c.rest s c'.rest := by
  obtain ⟨u, c₁, hswitch, h⟩ := Rule.bind_eq_ok.mp h
  obtain ⟨condition, c₂, hcondition, h⟩ := Rule.bind_eq_ok.mp h
  obtain ⟨arms, c₃, harms, h⟩ := Rule.bind_eq_ok.mp h
  cases arms with
  | nil =>
      simp [Rule.reject] at h
  | cons first others =>
      simp only [List.isEmpty_cons, Bool.false_eq_true, if_false] at h
      obtain ⟨b, c₄, hsees, h⟩ := Rule.bind_eq_ok.mp h
      cases hsees
      by_cases hdefault : c₃.sees (.text "DEFAULT") = true
      · rw [hdefault] at h
        simp only [Bool.not_true, Bool.false_eq_true, if_false] at h
        obtain ⟨last, c₅, hlast, h⟩ := Rule.bind_eq_ok.mp h
        obtain ⟨u, c₆, hend, h⟩ := Rule.bind_eq_ok.mp h
        cases h
        refine .switch (terminal_of_expectText hswitch)
          (derives_of_expression hcondition fun y hy => hs y (by simp [Node.identifiers, hy]))
          (ih.valueArms harms fun y hy => hs y ?_)
          (ih.defaultArm hlast fun y hy => hs y ?_) (terminal_of_expectText hend)
        · rw [Node.identifiers, Node.identifiersAll_append]
          simp [hy]
        · rw [Node.identifiers, Node.identifiersAll_append]
          simp [Node.identifiersAll, hy]
      · rw [Bool.not_eq_true] at hdefault
        simp [hdefault, Rule.reject] at h

theorem valueArms_succ {c c' : Cursor} {arms : List Node}
    (h : Grammar.valueArms (bound + 1) c = .ok (arms, c'))
    (harms : Node.AllNamesSatisfy allowed arms) : Arms allowed c.rest arms c'.rest := by
  obtain ⟨b, c₁, haccept, h⟩ := Rule.bind_eq_ok.mp h
  rcases acceptText_eq_ok haccept with ⟨rfl, hcase⟩ | ⟨rfl, rfl, _⟩
  · obtain ⟨value, c₂, hvalue, h⟩ := Rule.bind_eq_ok.mp h
    obtain ⟨u, c₃, hcolon, h⟩ := Rule.bind_eq_ok.mp h
    obtain ⟨body, c₄, hbody, h⟩ := Rule.bind_eq_ok.mp h
    obtain ⟨others, c₅, hothers, h⟩ := Rule.bind_eq_ok.mp h
    cases h
    refine .cons hcase (derives_of_expression hvalue fun y hy => harms y ?_)
      (terminal_of_expectText hcolon) (ih.statements hbody fun y hy => harms y ?_)
      (ih.valueArms hothers fun y hy => harms y ?_)
    · simp [Node.identifiersAll, Node.identifiers, hy]
    · simp [Node.identifiersAll, Node.identifiers, hy]
    · simp [Node.identifiersAll, hy]
  · cases h
    exact .nil

theorem defaultArm_succ {c c' : Cursor} {arm : Node}
    (h : Grammar.defaultArm (bound + 1) c = .ok (arm, c')) (harm : arm.NamesSatisfy allowed) :
    DefaultArm allowed c.rest arm c'.rest := by
  obtain ⟨u, c₁, hdefault, h⟩ := Rule.bind_eq_ok.mp h
  obtain ⟨b, c₂, haccept, h⟩ := Rule.bind_eq_ok.mp h
  obtain ⟨body, c₃, hbody, h⟩ := Rule.bind_eq_ok.mp h
  cases h
  have hbody := ih.statements hbody fun y hy => harm y (by simp [Node.identifiers, hy])
  rcases acceptText_eq_ok haccept with ⟨rfl, hcolon⟩ | ⟨rfl, rfl, _⟩
  · exact .colon (terminal_of_expectText hdefault) hcolon hbody
  · exact .plain (terminal_of_expectText hdefault) hbody

theorem succ : StatementsSound allowed (bound + 1) where
  statements := ih.statements_succ
  statement := ih.statement_succ
  conditional := ih.conditional_succ
  loop := ih.loop_succ
  switch := ih.switch_succ
  valueArms := ih.valueArms_succ
  defaultArm := ih.defaultArm_succ

end StatementsSound

theorem statementsSound (bound : Nat) : StatementsSound allowed bound := by
  induction bound with
  | zero => exact .zero
  | succ bound ih => exact ih.succ

theorem derives_of_block {c c' : Cursor} {ss : List Node} (h : block c = .ok (ss, c'))
    (hss : Node.AllNamesSatisfy allowed ss) : Block allowed c.rest ss c'.rest :=
  (statementsSound _).statements h hss

end Statements

section Globals

theorem derives_of_listGlobal {c₀ c c₁ c' : Cursor} {g : Node}
    (hlist : Terminal "LIST" c₀.rest c.rest)
    (h : listGlobal c = .ok (g, c₁))
    (hend : Terminal ";" c₁.rest c'.rest) (hg : g.NamesSatisfy allowed) :
    Global allowed c₀.rest g c'.rest := by
  obtain ⟨x, c₃, hx, hdeclared⟩ := Rule.bind_eq_ok.mp h
  obtain ⟨type, c₄, htype, hdeclared⟩ := Rule.bind_eq_ok.mp hdeclared
  obtain ⟨u, c₅, hequals, hdeclared⟩ := Rule.bind_eq_ok.mp hdeclared
  obtain ⟨u, c₆, hopen, hdeclared⟩ := Rule.bind_eq_ok.mp hdeclared
  obtain ⟨value, c₇, hvalue, hdeclared⟩ := Rule.bind_eq_ok.mp hdeclared
  cases hdeclared
  obtain ⟨elements, c₈, helements, hvalue⟩ := Rule.bind_eq_ok.mp hvalue
  obtain ⟨u, c₉, hclose, hvalue⟩ := Rule.bind_eq_ok.mp hvalue
  cases hvalue
  have hes : Node.AllNamesSatisfy allowed elements := fun y hy =>
    hg y (by simp [Node.identifiers, hy])
  exact .list hlist (identifier_of_identifier hx (hg x (by simp [Node.identifiers])))
    (optionalType_of_optionalType htype fun y hy => hg y (by simp [Node.identifiers, hy]))
    (terminal_of_expectText hequals) (terminal_of_expectText hopen)
    ((expressionsSound _).expressions helements hes) (terminal_of_expectText hclose)
    hend

theorem derives_of_immutableGlobal {c₀ c c₁ c' : Cursor} {g : Node}
    (hval : Terminal "VAL" c₀.rest c.rest)
    (h : immutableGlobal c = .ok (g, c₁))
    (hend : Terminal ";" c₁.rest c'.rest) (hg : g.NamesSatisfy allowed) :
    Global allowed c₀.rest g c'.rest := by
  obtain ⟨x, c₃, hx, hdeclared⟩ := Rule.bind_eq_ok.mp h
  obtain ⟨type, c₄, htype, hdeclared⟩ := Rule.bind_eq_ok.mp hdeclared
  obtain ⟨t, c₅, hequals, hdeclared⟩ := Rule.bind_eq_ok.mp hdeclared
  obtain ⟨value, c₆, hvalue, hdeclared⟩ := Rule.bind_eq_ok.mp hdeclared
  cases hdeclared
  obtain ⟨hrest, _, ht⟩ := expectAs_eq_ok.mp hequals
  have hequals : Terminal "=" c₄.rest c₅.rest := by
    rw [hrest]
    exact .intro (by simpa [TokenPattern.fits] using ht)
  exact .fixed hval (identifier_of_identifier hx (hg x (by simp [Node.identifiers])))
    (optionalType_of_optionalType htype fun y hy => hg y (by simp [Node.identifiers, hy]))
    hequals (derives_of_expression hvalue fun y hy => hg y (by simp [Node.identifiers, hy]))
    hend

theorem derives_of_mutableGlobal {c₀ c c₁ c' : Cursor} {keyword : String} {g : Node}
    (hkeyword : keyword = "VAR" ∨ keyword = "LET") (hvar : Terminal keyword c₀.rest c.rest)
    (h : mutableGlobal c = .ok (g, c₁))
    (hend : Terminal ";" c₁.rest c'.rest) (hg : g.NamesSatisfy allowed) :
    Global allowed c₀.rest g c'.rest := by
  obtain ⟨x, c₃, hx, hdeclared⟩ := Rule.bind_eq_ok.mp h
  obtain ⟨type, c₄, htype, hdeclared⟩ := Rule.bind_eq_ok.mp hdeclared
  obtain ⟨value, c₅, hvalue, hdeclared⟩ := Rule.bind_eq_ok.mp hdeclared
  cases hdeclared
  exact .changeable hkeyword hvar
    (identifier_of_identifier hx (hg x (by simp [Node.identifiers])))
    (optionalType_of_optionalType htype fun y hy => hg y (by simp [Node.identifiers, hy]))
    (derives_of_optionalValue hvalue fun y hy => hg y (by simp [Node.identifiers, hy]))
    hend

/-- The rule for globals is only called at one of their keywords. -/
theorem derives_of_global {c c' : Cursor} {g : Node} (h : global c = .ok (g, c'))
    (hsees : c.seesText globalKeywords = true) (hg : g.NamesSatisfy allowed) :
    Global allowed c.rest g c'.rest := by
  obtain ⟨b, c₁, haccept, h₁⟩ := Rule.bind_eq_ok.mp h
  rcases acceptText_eq_ok haccept with ⟨rfl, hlist⟩ | ⟨rfl, rfl, hlist⟩
  · obtain ⟨g', c₂, hdeclared, h₂⟩ := Rule.bind_eq_ok.mp h₁
    obtain ⟨u, c₃, hend, h₃⟩ := Rule.bind_eq_ok.mp h₂
    cases h₃
    exact derives_of_listGlobal hlist hdeclared (terminal_of_expectText hend) hg
  obtain ⟨b, c₂, haccept, h₂⟩ := Rule.bind_eq_ok.mp h₁
  rcases acceptText_eq_ok haccept with ⟨rfl, hval⟩ | ⟨rfl, rfl, hval⟩
  · obtain ⟨g', c₃, hdeclared, h₃⟩ := Rule.bind_eq_ok.mp h₂
    obtain ⟨u, c₄, hend, h₄⟩ := Rule.bind_eq_ok.mp h₃
    cases h₄
    exact derives_of_immutableGlobal hval hdeclared (terminal_of_expectText hend) hg
  obtain ⟨u, c₃, hskip, h₃⟩ := Rule.bind_eq_ok.mp h₂
  cases hskip
  obtain ⟨g', c₄, hdeclared, h₄⟩ := Rule.bind_eq_ok.mp h₃
  obtain ⟨u, c₅, hend, h₅⟩ := Rule.bind_eq_ok.mp h₄
  cases h₅
  obtain ⟨p, ts⟩ := c
  cases ts with
  | nil =>
      simp [Cursor.seesText, Cursor.sees] at hsees
  | cons t rest =>
      have hl : t.text ≠ "LIST" := by simpa [Avoids] using hlist
      have hv : t.text ≠ "VAL" := by simpa [Avoids] using hval
      have hkeyword : t.text = "VAR" ∨ t.text = "LET" := by
        simpa [Cursor.seesText, Cursor.sees, TokenPattern.fits, globalKeywords, hl, hv]
          using hsees
      have hvar : Terminal t.text (t :: rest) (Cursor.skip ⟨p, t :: rest⟩).rest := .intro rfl
      exact derives_of_mutableGlobal hkeyword hvar hdeclared (terminal_of_expectText hend) hg

theorem derives_of_globals {bound : Nat} {c c' : Cursor} {gs : List Node}
    (h : globals bound c = .ok (gs, c')) (hgs : Node.AllNamesSatisfy allowed gs) :
    Row (Global allowed) c.rest gs c'.rest := by
  induction bound generalizing c gs with
  | zero =>
      simp [globals, Rule.fail] at h
  | succ bound ih =>
      obtain ⟨c₀, c₁, hcursor, h₁⟩ := Rule.bind_eq_ok.mp h
      cases hcursor
      by_cases hsees : c.seesText globalKeywords = true
      · rw [if_pos hsees] at h₁
        obtain ⟨first, c₂, hfirst, h₂⟩ := Rule.bind_eq_ok.mp h₁
        obtain ⟨others, c₃, hothers, h₃⟩ := Rule.bind_eq_ok.mp h₂
        cases h₃
        refine .cons (derives_of_global hfirst hsees fun y hy => hgs y ?_)
          (ih hothers fun y hy => hgs y ?_)
        · simp [Node.identifiersAll, hy]
        · simp [Node.identifiersAll, hy]
      · rw [if_neg hsees] at h₁
        cases h₁
        exact .nil

end Globals

section Functions

theorem derives_of_parameter {c c' : Cursor} {p : String × Option String}
    (h : parameter c = .ok (p, c')) (hname : allowed p.1)
    (htype : ∀ x, Name.ofText? p.2 = Name.ofText x → allowed x) :
    Parameter allowed c.rest p c'.rest := by
  obtain ⟨x, c₁, hx, h₁⟩ := Rule.bind_eq_ok.mp h
  obtain ⟨type, c₂, ht, h₂⟩ := Rule.bind_eq_ok.mp h₁
  cases h₂
  exact .intro (identifier_of_identifier hx hname) (optionalType_of_optionalType ht htype)

theorem derives_of_parameters {bound : Nat} {c c' : Cursor}
    {ps : List (String × Option String)} (h : parameters bound c = .ok (ps, c'))
    (hps : ∀ p ∈ ps, allowed p.1 ∧ ∀ x, Name.ofText? p.2 = Name.ofText x → allowed x) :
    Separated (Parameter allowed) c.rest ps c'.rest := by
  induction bound generalizing c ps with
  | zero =>
      simp [parameters, Rule.fail] at h
  | succ bound ih =>
      obtain ⟨first, c₁, hfirst, h₁⟩ := Rule.bind_eq_ok.mp h
      obtain ⟨b, c₂, haccept, h₂⟩ := Rule.bind_eq_ok.mp h₁
      rcases acceptText_eq_ok haccept with ⟨rfl, hcomma⟩ | ⟨rfl, rfl, _⟩
      · obtain ⟨others, c₃, hothers, h₃⟩ := Rule.bind_eq_ok.mp h₂
        cases h₃
        obtain ⟨hname, htype⟩ := hps first (by simp)
        exact .cons (derives_of_parameter hfirst hname htype) hcomma
          (ih hothers fun p hp => hps p (by simp [hp]))
      · cases h₂
        obtain ⟨hname, htype⟩ := hps first (by simp)
        exact .last (derives_of_parameter hfirst hname htype)

theorem derives_of_optionalParameters {c c' : Cursor} {ps : List (String × Option String)}
    (h : optionalParameters c = .ok (ps, c'))
    (hps : ∀ p ∈ ps, allowed p.1 ∧ ∀ x, Name.ofText? p.2 = Name.ofText x → allowed x) :
    OptionalParameters allowed c.rest ps c'.rest := by
  obtain ⟨b, c₁, hsees, h₁⟩ := Rule.bind_eq_ok.mp h
  cases hsees
  cases hclose : c.sees (.text ")") with
  | true =>
      rw [hclose] at h₁
      cases h₁
      exact .none
  | false =>
      rw [hclose] at h₁
      exact .some (derives_of_parameters h₁ hps)

theorem derives_of_function {c c' : Cursor} {f : Node} (h : function c = .ok (f, c'))
    (hf : f.NamesSatisfy allowed) : Derivation.Function allowed c.rest f c'.rest := by
  obtain ⟨u, c₁, hfun, h₁⟩ := Rule.bind_eq_ok.mp h
  obtain ⟨x, c₂, hx, h₂⟩ := Rule.bind_eq_ok.mp h₁
  obtain ⟨u, c₃, hopen, h₃⟩ := Rule.bind_eq_ok.mp h₂
  obtain ⟨ps, c₄, hparameters, h₄⟩ := Rule.bind_eq_ok.mp h₃
  obtain ⟨u, c₅, hclose, h₅⟩ := Rule.bind_eq_ok.mp h₄
  obtain ⟨type, c₆, htype, h₆⟩ := Rule.bind_eq_ok.mp h₅
  obtain ⟨u, c₇, hdo, h₇⟩ := Rule.bind_eq_ok.mp h₆
  obtain ⟨body, c₈, hbody, h₈⟩ := Rule.bind_eq_ok.mp h₇
  obtain ⟨u, c₉, hend, h₉⟩ := Rule.bind_eq_ok.mp h₈
  cases h₉
  have hps : ∀ p ∈ ps, allowed p.1 ∧ ∀ y, Name.ofText? p.2 = Name.ofText y → allowed y := by
    intro p hp
    refine ⟨hf p.1 ?_, fun y hy => hf y ?_⟩
    · simp only [Node.identifiers, List.mem_cons, List.mem_append, List.mem_map]
      exact Or.inr (Or.inr (Or.inl (Or.inl ⟨p, hp, rfl⟩)))
    · simp only [Node.identifiers, List.mem_cons, List.mem_append, List.mem_map]
      exact Or.inr (Or.inr (Or.inl (Or.inr ⟨p, hp, hy⟩)))
  exact .intro (terminal_of_expectText hfun)
    (identifier_of_identifier hx (hf x (by simp [Node.identifiers])))
    (terminal_of_expectText hopen) (derives_of_optionalParameters hparameters hps)
    (terminal_of_expectText hclose)
    (optionalType_of_optionalType htype fun y hy => hf y (by simp [Node.identifiers, hy]))
    (terminal_of_expectText hdo)
    (derives_of_block hbody fun y hy => hf y (by simp [Node.identifiers, hy]))
    (terminal_of_expectText hend)

theorem derives_of_functions {bound : Nat} {c c' : Cursor} {fs : List Node}
    (h : functions bound c = .ok (fs, c')) (hfs : Node.AllNamesSatisfy allowed fs) :
    Row (Derivation.Function allowed) c.rest fs c'.rest := by
  induction bound generalizing c fs with
  | zero =>
      simp [functions, Rule.fail] at h
  | succ bound ih =>
      obtain ⟨b, c₁, hsees, h₁⟩ := Rule.bind_eq_ok.mp h
      cases hsees
      by_cases hfun : c.sees (.text "FUN") = true
      · rw [if_pos hfun] at h₁
        obtain ⟨first, c₂, hfirst, h₂⟩ := Rule.bind_eq_ok.mp h₁
        obtain ⟨others, c₃, hothers, h₃⟩ := Rule.bind_eq_ok.mp h₂
        cases h₃
        refine .cons (derives_of_function hfirst fun y hy => hfs y ?_)
          (ih hothers fun y hy => hfs y ?_)
        · simp [Node.identifiersAll, hy]
        · simp [Node.identifiersAll, hy]
      · rw [if_neg hfun] at h₁
        cases h₁
        exact .nil

end Functions

/-- A tree that is made from tokens is that of a derivation of all of them. -/
theorem derives_of_parse {tokens : List Token} {tree : Node} (h : parse tokens = .ok tree)
    (htree : tree.NamesSatisfy allowed) : Source allowed tokens tree := by
  unfold parse at h
  cases hsource : source (.start tokens) with
  | error e =>
      rw [hsource] at h
      cases h
  | ok result =>
      obtain ⟨tree', c'⟩ := result
      rw [hsource] at h
      cases h
      obtain ⟨c₀, c₁, hcursor, h₁⟩ := Rule.bind_eq_ok.mp hsource
      cases hcursor
      obtain ⟨gs, c₂, hglobals, h₂⟩ := Rule.bind_eq_ok.mp h₁
      obtain ⟨fs, c₃, hfunctions, h₃⟩ := Rule.bind_eq_ok.mp h₂
      obtain ⟨last, c₄, hlast, h₄⟩ := Rule.bind_eq_ok.mp h₃
      cases hlast
      by_cases hempty : c₃.rest.isEmpty = true
      · rw [if_pos hempty] at h₄
        cases h₄
        have hgs := derives_of_globals hglobals fun y hy =>
          htree y (by simp [Node.identifiers, hy])
        have hfs := derives_of_functions hfunctions fun y hy =>
          htree y (by simp [Node.identifiers, hy])
        rw [List.isEmpty_iff.mp hempty] at hfs
        exact .intro hgs hfs
      · rw [if_neg hempty] at h₄
        simp [Rule.reject] at h₄

end Grammar
end BlockScript
