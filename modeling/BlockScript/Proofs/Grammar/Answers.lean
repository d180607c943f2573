import BlockScript.Grammar.Source

/-!
# Every rule answers

A rule answers on a row of tokens when it reads a part of the row or gives a reason not to:
a token that does not fit, or a numeral of the row without a value.  The bound on nested
rules is never the reason, so the grammar decides every row of tokens.

The bound counts down along the nesting of rules.  What a rule needs of it grows with the
number of tokens left, and a little more the further it stands from the next token.
-/

namespace BlockScript

/-- A reason that a row of tokens gives to fail. -/
def ParseFailure.IsReasonIn (tokens : List Token) : ParseFailure → Prop
  | .rejected _ => True
  | .integerNumeral => ∃ t ∈ tokens, t.kind = .integer ∧ Text.readLooseInt? t.text.toList = none
  | .decimalNumeral => ∃ t ∈ tokens, t.kind = .decimal ∧ Decimal.ofText? t.text = none
  | .exhausted => False

theorem ParseFailure.IsReasonIn.of_suffix {ts rest : List Token} (hrest : rest <:+ ts) :
    {f : ParseFailure} → f.IsReasonIn rest → f.IsReasonIn ts
  | .rejected _, _ => trivial
  | .integerNumeral, ⟨t, ht, h⟩ => ⟨t, hrest.subset ht, h⟩
  | .decimalNumeral, ⟨t, ht, h⟩ => ⟨t, hrest.subset ht, h⟩

/-- What fails is an error of the grammar or a literal without a value. -/
theorem ParseFailure.IsReasonIn.rejected_or_valueless {tokens : List Token} {f : ParseFailure}
    (h : f.IsReasonIn tokens) :
    (∃ e, f = .rejected e) ∨ ∃ t ∈ tokens, Literal.ofToken t = .error f := by
  cases f with
  | rejected e => exact Or.inl ⟨e, rfl⟩
  | integerNumeral =>
      obtain ⟨t, ht, hkind, hread⟩ := h
      exact Or.inr ⟨t, ht, by simp only [Literal.ofToken, hkind, hread]⟩
  | decimalNumeral =>
      obtain ⟨t, ht, hkind, hread⟩ := h
      exact Or.inr ⟨t, ht, by simp only [Literal.ofToken, hkind, hread]⟩
  | exhausted => exact h.elim

/-- A cursor is at least `k` tokens behind another one in the same row. -/
structure Cursor.Behind (k : Nat) (c c' : Cursor) : Prop where
  suffix : c'.rest <:+ c.rest
  position : c'.position + c'.rest.length = c.position + c.rest.length
  length : c'.rest.length + k ≤ c.rest.length

namespace Cursor.Behind

variable {k : Nat} {c c₁ c₂ : Cursor}

theorem refl (c : Cursor) : c.Behind 0 c := ⟨List.suffix_refl _, rfl, Nat.le_refl _⟩

theorem add {j : Nat} (h₁ : c.Behind j c₁) (h₂ : c₁.Behind k c₂) : c.Behind (j + k) c₂ where
  suffix := h₂.suffix.trans h₁.suffix
  position := h₂.position.trans h₁.position
  length := by
    have := h₁.length
    have := h₂.length
    omega

theorem trans (h₁ : c.Behind k c₁) (h₂ : c₁.Behind 0 c₂) : c.Behind k c₂ := h₁.add h₂

theorem weaken (h : c.Behind k c₁) : c.Behind 0 c₁ :=
  ⟨h.suffix, h.position, h.suffix.length_le⟩

theorem cons (p : Nat) (t : Token) (ts : List Token) :
    Cursor.Behind 1 ⟨p, t :: ts⟩ ⟨p + 1, ts⟩ :=
  ⟨List.suffix_cons t ts, by simp only [List.length_cons]; omega, Nat.le_refl _⟩

end Cursor.Behind

namespace Rule

variable {α β : Type} {k : Nat} {c : Cursor}

/-- A rule reads at least `k` tokens of a row, or fails for a reason that the row gives. -/
def Answers (k : Nat) (r : Rule α) (c : Cursor) : Prop :=
  match r c with
  | .ok (_, c') => c.Behind k c'
  | .error f => f.IsReasonIn c.rest

theorem Answers.of_ok {r : Rule α} {c' : Cursor} {a : α} (hr : r c = .ok (a, c'))
    (h : c.Behind k c') : r.Answers k c := by
  rwa [Answers, hr]

theorem Answers.of_error {r : Rule α} {f : ParseFailure} (hr : r c = .error f)
    (h : f.IsReasonIn c.rest) : r.Answers k c := by
  rwa [Answers, hr]

theorem Answers.congr {r r' : Rule α} (h : r'.Answers k c) (hr : r c = r' c) :
    r.Answers k c := by
  rwa [Answers, hr]

theorem Answers.behind {r : Rule α} {c' : Cursor} {a : α} (h : r.Answers k c)
    (hr : r c = .ok (a, c')) : c.Behind k c' := by
  rwa [Answers, hr] at h

theorem Answers.isReasonIn {r : Rule α} {f : ParseFailure} (h : r.Answers k c)
    (hr : r c = .error f) : f.IsReasonIn c.rest := by
  rwa [Answers, hr] at h

theorem Answers.ne_exhausted {r : Rule α} (h : r.Answers k c) :
    r c ≠ .error .exhausted := by
  intro hr
  exact h.isReasonIn hr

theorem Answers.weaken {r : Rule α} (h : r.Answers k c) : r.Answers 0 c := by
  cases hr : r c with
  | ok result => exact .of_ok hr (h.behind hr).weaken
  | error f => exact .of_error hr (h.isReasonIn hr)

theorem answers_pure (a : α) : (pure a : Rule α).Answers 0 c := Cursor.Behind.refl c

theorem answers_reject (cause : ParseCause) : (reject cause : Rule α).Answers k c := trivial

theorem Answers.bind_of_ok {r : Rule α} {next : α → Rule β} (h : r.Answers k c)
    (hnext : ∀ a c', r c = .ok (a, c') → (next a).Answers 0 c') : (r >>= next).Answers k c := by
  cases hr : (r >>= next) c with
  | ok result =>
      obtain ⟨a, c₁, h₁, h₂⟩ := bind_eq_ok.mp hr
      exact .of_ok hr ((h.behind h₁).trans ((hnext a c₁ h₁).behind h₂))
  | error f =>
      rcases bind_eq_error.mp hr with h₁ | ⟨a, c₁, h₁, h₂⟩
      · exact .of_error hr (h.isReasonIn h₁)
      · exact .of_error hr (((hnext a c₁ h₁).isReasonIn h₂).of_suffix (h.behind h₁).suffix)

theorem Answers.bind {r : Rule α} {next : α → Rule β} (h : r.Answers k c)
    (hnext : ∀ a c', c.Behind k c' → (next a).Answers 0 c') : (r >>= next).Answers k c :=
  h.bind_of_ok fun a c' hr => hnext a c' (h.behind hr)

/-- A chain that starts by looking at the cursor answers as the chain for that cursor. -/
theorem answers_cursor {next : Cursor → Rule β} (h : (next c).Answers k c) :
    (cursor >>= next).Answers k c := h

theorem answers_sees {p : TokenPattern} {next : Bool → Rule β}
    (h : (next (c.sees p)).Answers k c) : (sees p >>= next).Answers k c := h

theorem answers_expectAs (p : TokenPattern) (what : String) : (expectAs p what).Answers 1 c := by
  obtain ⟨n, ts⟩ := c
  cases ts with
  | nil => exact Answers.of_error rfl trivial
  | cons t ts =>
      by_cases ht : p.fits t = true
      · exact Answers.of_ok (if_pos ht) (.cons n t ts)
      · exact Answers.of_error (if_neg ht) trivial

theorem answers_expectText (s : String) : (expectText s).Answers 1 c :=
  (answers_expectAs _ _).bind fun _ _ _ => answers_pure _

theorem answers_identifier (what : String) : (identifier what).Answers 1 c :=
  (answers_expectAs _ _).bind fun _ _ _ => answers_pure _

/-- A chain that passes a token answers when the rest does behind the token. -/
theorem answers_skip {p : Nat} {t : Token} {ts : List Token} {next : Unit → Rule β}
    (h : (next ()).Answers 0 ⟨p + 1, ts⟩) : (skip >>= next).Answers 1 ⟨p, t :: ts⟩ := by
  have hstep := Cursor.Behind.cons p t ts
  have heq : (skip >>= next) ⟨p, t :: ts⟩ = next () ⟨p + 1, ts⟩ := rfl
  cases hr : next () ⟨p + 1, ts⟩ with
  | ok result => exact .of_ok (heq.trans hr) (hstep.trans (h.behind hr))
  | error f => exact .of_error (heq.trans hr) ((h.isReasonIn hr).of_suffix hstep.suffix)

theorem acceptText_cons (s : String) (p : Nat) (t : Token) (ts : List Token) :
    acceptText s ⟨p, t :: ts⟩ =
      .ok (if t.text = s then (true, ⟨p + 1, ts⟩) else (false, ⟨p, t :: ts⟩)) := by
  by_cases ht : t.text = s <;>
    simp [acceptText, accept, Cursor.seesAll, Cursor.sees, TokenPattern.fits, ht]

/-- A chain that accepts a text which stands there passes it. -/
theorem acceptText_bind_of_eq {s : String} {next : Bool → Rule β} {t : Token}
    (ht : t.text = s) (p : Nat) (ts : List Token) :
    (acceptText s >>= next) ⟨p, t :: ts⟩ = (skip >>= fun _ => next true) ⟨p, t :: ts⟩ := by
  simp only [Bind.bind, acceptText_cons, ht, if_true]
  rfl

/-- A chain that accepts a text which does not stand there goes on without it. -/
theorem acceptText_bind_of_ne {s : String} {next : Bool → Rule β} {t : Token}
    (ht : t.text ≠ s) (p : Nat) (ts : List Token) :
    (acceptText s >>= next) ⟨p, t :: ts⟩ = next false ⟨p, t :: ts⟩ := by
  simp only [Bind.bind, acceptText_cons, ht, if_false]

/-- A chain that accepts a text answers when it does behind the text and without it. -/
theorem answers_acceptText {s : String} {next : Bool → Rule β}
    (htrue : ∀ c', c.Behind 1 c' → (next true).Answers 0 c')
    (hfalse : (next false).Answers 0 c) : (acceptText s >>= next).Answers 0 c := by
  obtain ⟨p, _ | ⟨t, ts⟩⟩ := c
  · exact hfalse
  by_cases ht : t.text = s
  · have hnext : (skip >>= fun _ => next true).Answers 1 ⟨p, t :: ts⟩ :=
      answers_skip (htrue _ (.cons p t ts))
    exact hnext.weaken.congr (acceptText_bind_of_eq ht p ts)
  · exact hfalse.congr (acceptText_bind_of_ne ht p ts)

theorem answers_optionalType : optionalType.Answers 0 c :=
  answers_acceptText
    (fun _ _ => ((answers_identifier _).bind fun _ _ _ => answers_pure _).weaken)
    (answers_pure _)

end Rule

namespace Grammar

open Rule

section Expressions

variable {p : Nat} {ts : List Token}

/-- The value of a literal token is missing only where its numeral is at fault. -/
theorem answers_literalNode (t : Token) :
    (skip >>= fun _ => literalNode t).Answers 1 ⟨p, t :: ts⟩ := by
  have hvalue : ∀ f, Literal.ofToken t = .error f → f.IsReasonIn (t :: ts) := by
    intro f hf
    unfold Literal.ofToken at hf
    split at hf
    · rename_i hk
      split at hf
      · cases hf
      · rename_i hn
        cases hf
        exact ⟨t, List.mem_cons_self, hk, hn⟩
    · rename_i hk
      split at hf
      · cases hf
      · rename_i hd
        cases hf
        exact ⟨t, List.mem_cons_self, hk, hd⟩
    · cases hf
    · cases hf
  cases hvalue' : Literal.ofToken t with
  | ok value =>
      refine .of_ok (a := .literal value) ?_ (.cons p t ts)
      change literalNode t ⟨p + 1, ts⟩ = _
      rw [literalNode, hvalue']
      rfl
  | error f =>
      refine .of_error ?_ (hvalue f hvalue')
      change literalNode t ⟨p + 1, ts⟩ = _
      rw [literalNode, hvalue']
      rfl

/-- What is claimed of each rule for expressions at one bound. -/
structure ExpressionsAnswer (bound : Nat) : Prop where
  -- No more than eight rules call each other without passing a token, so a bound of eight for
  -- each token is enough, and what a rule needs on top is the number of those still to come.
  layers : ∀ {ls : List (List String)} {c : Cursor}, ls.length ≤ 4 →
    8 * c.rest.length + ls.length + 2 ≤ bound → (layers bound ls).Answers 1 c
  operations : ∀ {operators : List String} {inner : List (List String)} {left : Node}
    {c : Cursor}, inner.length ≤ 3 → 8 * c.rest.length + 1 ≤ bound →
    (operations bound operators inner left).Answers 0 c
  primary : ∀ {c : Cursor}, 8 * c.rest.length + 1 ≤ bound → (primary bound).Answers 1 c
  named : ∀ {name : String} {c : Cursor}, 8 * c.rest.length + 8 ≤ bound →
    (named bound name).Answers 0 c
  expressions : ∀ {c : Cursor}, 8 * c.rest.length + 7 ≤ bound →
    (expressions bound).Answers 1 c

namespace ExpressionsAnswer

theorem zero : ExpressionsAnswer 0 where
  layers _ hbound := by omega
  operations _ hbound := by omega
  primary hbound := by omega
  named hbound := by omega
  expressions hbound := by omega

variable {bound : Nat} {c : Cursor} (ih : ExpressionsAnswer bound)
include ih

theorem layers_succ {ls : List (List String)} (hls : ls.length ≤ 4)
    (hbound : 8 * c.rest.length + ls.length + 2 ≤ bound + 1) :
    (Grammar.layers (bound + 1) ls).Answers 1 c := by
  cases ls with
  | nil =>
      rw [List.length_nil] at hbound
      exact ih.primary (by omega)
  | cons operators inner =>
      rw [List.length_cons] at hls hbound
      refine (ih.layers (by omega) (by omega)).bind fun left c₁ h₁ => ?_
      have := h₁.length
      exact ih.operations (by omega) (by omega)

theorem operations_succ {operators : List String} {inner : List (List String)} {left : Node}
    (hinner : inner.length ≤ 3) (hbound : 8 * c.rest.length + 1 ≤ bound + 1) :
    (Grammar.operations (bound + 1) operators inner left).Answers 0 c := by
  obtain ⟨p, ts⟩ := c
  refine answers_cursor ?_
  cases ts with
  | nil => exact answers_pure left
  | cons t ts =>
      simp only [List.length_cons] at hbound
      by_cases ht : operators.contains t.text = true
      · simp only [ht, if_true]
        refine (answers_skip (Answers.weaken (k := 1) ?_)).weaken
        refine (ih.layers (by omega) (by simp only; omega)).bind fun right c₁ h₁ => ?_
        have := h₁.length
        exact ih.operations hinner (by simp only at this; omega)
      · simp only [ht]
        exact answers_pure left

theorem expression_of_bound (hbound : 8 * c.rest.length + 6 ≤ bound) :
    (Grammar.layers bound operatorLayers).Answers 1 c :=
  ih.layers (by decide) hbound

theorem named_succ {name : String} (hbound : 8 * c.rest.length + 8 ≤ bound + 1) :
    (Grammar.named (bound + 1) name).Answers 0 c := by
  refine answers_acceptText (fun c₁ h₁ => ?_) (answers_acceptText (fun c₁ h₁ => ?_) ?_)
  · have := h₁.length
    refine answers_sees ?_
    cases hclose : c₁.sees (.text ")") with
    | true =>
        obtain ⟨p, _ | ⟨t, ts⟩⟩ := c₁
        · cases hclose
        · exact (answers_skip (answers_pure _)).weaken
    | false =>
        refine ((ih.expressions (by omega)).bind fun arguments c₂ h₂ => ?_).weaken
        exact ((answers_expectText _).bind fun _ _ _ => answers_pure _).weaken
  · have := h₁.length
    refine ((ih.expression_of_bound (by omega)).bind fun offset c₂ h₂ => ?_).weaken
    exact ((answers_expectText _).bind fun _ _ _ => answers_pure _).weaken
  · exact answers_pure _

theorem primary_succ (hbound : 8 * c.rest.length + 1 ≤ bound + 1) :
    (Grammar.primary (bound + 1)).Answers 1 c := by
  obtain ⟨p, ts⟩ := c
  refine answers_cursor ?_
  cases ts with
  | nil => exact answers_reject _
  | cons t ts =>
      simp only [List.length_cons] at hbound
      have hword : ∀ s, (skip >>= fun _ => (pure (.literal s) : Rule Node)).Answers 1
          ⟨p, t :: ts⟩ := fun s => answers_skip (answers_pure _)
      by_cases hnil : t.text == "NIL"
      · simp only [hnil, if_true]
        exact hword _
      by_cases htrue : t.text == "TRUE"
      · simp only [hnil, htrue, if_true]
        exact hword _
      by_cases hfalse : t.text == "FALSE"
      · simp only [hnil, htrue, hfalse, if_true]
        exact hword _
      simp only [hnil, htrue, hfalse]
      cases hk : t.kind with
      | identifier => exact answers_skip (ih.named (by simp only; omega))
      | operator =>
          by_cases hopen : t.text == "["
          · simp only [hopen, if_true]
            refine answers_skip (Answers.weaken (k := 1) ?_)
            refine (ih.expressions (by simp only; omega)).bind fun elements c₁ h₁ => ?_
            exact ((answers_expectText _).bind fun _ _ _ => answers_pure _).weaken
          by_cases hparen : t.text == "("
          · simp only [hopen, hparen, if_true]
            refine answers_skip (Answers.weaken (k := 1) ?_)
            refine (ih.expression_of_bound (by simp only; omega)).bind fun inner c₁ h₁ => ?_
            exact ((answers_expectText _).bind fun _ _ _ => answers_pure _).weaken
          simp only [hopen, hparen]
          exact answers_reject _
      | integer => exact answers_literalNode t
      | decimal => exact answers_literalNode t
      | character => exact answers_literalNode t
      | string => exact answers_literalNode t

theorem expressions_succ (hbound : 8 * c.rest.length + 7 ≤ bound + 1) :
    (Grammar.expressions (bound + 1)).Answers 1 c := by
  refine (ih.expression_of_bound (by omega)).bind fun first c₁ h₁ => ?_
  refine answers_acceptText (fun c₂ h₂ => ?_) (answers_pure _)
  have := h₁.length
  have := h₂.length
  exact ((ih.expressions (by omega)).bind fun _ _ _ => answers_pure _).weaken

theorem succ : ExpressionsAnswer (bound + 1) where
  layers := ih.layers_succ
  operations := ih.operations_succ
  primary := ih.primary_succ
  named := ih.named_succ
  expressions := ih.expressions_succ

end ExpressionsAnswer

theorem expressionsAnswer (bound : Nat) : ExpressionsAnswer bound := by
  induction bound with
  | zero => exact .zero
  | succ bound ih => exact ih.succ

theorem answers_expression {c : Cursor} : expression.Answers 1 c :=
  ((expressionsAnswer _).expression_of_bound (by unfold nestingBound; omega)).congr rfl

theorem answers_listElements {c : Cursor} : listElements.Answers 1 c := by
  have hchain : (expressions (nestingBound c.rest) >>= fun elements =>
      Rule.expectText "]" >>= fun _ => pure (Node.list elements)).Answers 1 c := by
    refine ((expressionsAnswer _).expressions (by unfold nestingBound; omega)).bind
      fun elements c₁ h₁ => ?_
    exact ((answers_expectText _).bind fun _ _ _ => answers_pure _).weaken
  exact hchain.congr rfl

end Expressions

section Statements

variable {c : Cursor}

theorem answers_optionalValue : optionalValue.Answers 0 c :=
  answers_acceptText (fun _ _ => answers_expression.weaken) (answers_pure _)

theorem answers_declaration : declaration.Answers 1 c := by
  refine (answers_expectText _).bind fun _ c₁ h₁ => ?_
  refine ((answers_identifier _).bind fun name c₂ h₂ => ?_).weaken
  refine answers_optionalType.bind fun typeName c₃ h₃ => ?_
  refine answers_optionalValue.bind fun value c₄ h₄ => ?_
  exact ((answers_expectText _).bind fun _ _ _ => answers_pure _).weaken

theorem answers_returning : returning.Answers 1 c := by
  refine (answers_expectText _).bind fun _ c₁ h₁ => ?_
  refine answers_acceptText (fun _ _ => answers_pure _) ?_
  refine (answers_expression.bind fun value c₂ h₂ => ?_).weaken
  exact ((answers_expectText _).bind fun _ _ _ => answers_pure _).weaken

theorem answers_evaluationOrAssignment : evaluationOrAssignment.Answers 1 c := by
  refine answers_expression.bind fun left c₁ h₁ => answers_cursor ?_
  by_cases hequals : c₁.sees (.text "=") = true
  · rw [if_pos hequals]
    split
    · obtain ⟨p, _ | ⟨t, ts⟩⟩ := c₁
      · cases hequals
      refine (answers_skip ?_).weaken
      refine (answers_expression.bind fun value c₂ h₂ => ?_).weaken
      exact ((answers_expectText _).bind fun _ _ _ => answers_pure _).weaken
    · exact answers_reject _
  · rw [if_neg hequals]
    exact ((answers_expectText _).bind fun _ _ _ => answers_pure _).weaken

/-- What is claimed of each rule for statements at one bound. -/
structure StatementsAnswer (bound : Nat) : Prop where
  statements : ∀ {c : Cursor}, 8 * c.rest.length + 3 ≤ bound → (statements bound).Answers 0 c
  statement : ∀ {c : Cursor}, 8 * c.rest.length + 2 ≤ bound → (statement bound).Answers 1 c
  conditional : ∀ {c : Cursor}, 8 * c.rest.length + 1 ≤ bound →
    (conditional bound).Answers 1 c
  loop : ∀ {c : Cursor}, 8 * c.rest.length + 1 ≤ bound → (loop bound).Answers 1 c
  switch : ∀ {c : Cursor}, 8 * c.rest.length + 1 ≤ bound → (switch bound).Answers 1 c
  valueArms : ∀ {c : Cursor}, 8 * c.rest.length + 1 ≤ bound → (valueArms bound).Answers 0 c
  defaultArm : ∀ {c : Cursor}, 8 * c.rest.length + 1 ≤ bound → (defaultArm bound).Answers 1 c

namespace StatementsAnswer

theorem zero : StatementsAnswer 0 where
  statements hbound := by omega
  statement hbound := by omega
  conditional hbound := by omega
  loop hbound := by omega
  switch hbound := by omega
  valueArms hbound := by omega
  defaultArm hbound := by omega

variable {bound : Nat} (ih : StatementsAnswer bound)
include ih

theorem statements_succ (hbound : 8 * c.rest.length + 3 ≤ bound + 1) :
    (Grammar.statements (bound + 1)).Answers 0 c := by
  refine answers_cursor ?_
  split
  · exact answers_pure _
  split
  · exact answers_reject _
  refine ((ih.statement (by omega)).bind fun first c₁ h₁ => ?_).weaken
  have := h₁.length
  exact (ih.statements (by omega)).bind fun _ _ _ => answers_pure _

theorem statement_succ (hbound : 8 * c.rest.length + 2 ≤ bound + 1) :
    (Grammar.statement (bound + 1)).Answers 1 c := by
  refine answers_cursor ?_
  split
  · exact answers_declaration
  split
  · exact ih.switch (by omega)
  split
  · exact ih.conditional (by omega)
  split
  · exact ih.loop (by omega)
  split
  · exact answers_returning
  · exact answers_evaluationOrAssignment

theorem conditional_succ (hbound : 8 * c.rest.length + 1 ≤ bound + 1) :
    (Grammar.conditional (bound + 1)).Answers 1 c := by
  refine (answers_expectText _).bind fun _ c₁ h₁ => ?_
  have := h₁.length
  refine (answers_expression.bind fun condition c₂ h₂ => ?_).weaken
  refine ((answers_expectText _).bind fun _ c₃ h₃ => ?_).weaken
  have := h₂.length
  have := h₃.length
  refine (ih.statements (by omega)).bind fun thenBody c₄ h₄ => ?_
  have := h₄.length
  refine answers_acceptText (fun c₅ h₅ => ?_) ?_
  · have := h₅.length
    refine (ih.statements (by omega)).bind fun elseBody c₆ h₆ => ?_
    exact ((answers_expectText _).bind fun _ _ _ => answers_pure _).weaken
  · exact ((answers_expectText _).bind fun _ _ _ => answers_pure _).weaken

theorem loop_succ (hbound : 8 * c.rest.length + 1 ≤ bound + 1) :
    (Grammar.loop (bound + 1)).Answers 1 c := by
  refine (answers_expectText _).bind fun _ c₁ h₁ => ?_
  have := h₁.length
  refine (answers_expression.bind fun condition c₂ h₂ => ?_).weaken
  refine ((answers_expectText _).bind fun _ c₃ h₃ => ?_).weaken
  have := h₂.length
  have := h₃.length
  refine (ih.statements (by omega)).bind fun body c₄ h₄ => ?_
  exact ((answers_expectText _).bind fun _ _ _ => answers_pure _).weaken

theorem switch_succ (hbound : 8 * c.rest.length + 1 ≤ bound + 1) :
    (Grammar.switch (bound + 1)).Answers 1 c := by
  refine (answers_expectText _).bind fun _ c₁ h₁ => ?_
  have := h₁.length
  refine (answers_expression.bind fun condition c₂ h₂ => ?_).weaken
  have := h₂.length
  refine (ih.valueArms (by omega)).bind fun arms c₃ h₃ => ?_
  have := h₃.length
  split
  · exact answers_reject _
  refine answers_sees ?_
  split
  · exact answers_reject _
  refine ((ih.defaultArm (by omega)).bind fun last c₄ h₄ => ?_).weaken
  exact ((answers_expectText _).bind fun _ _ _ => answers_pure _).weaken

theorem valueArms_succ (hbound : 8 * c.rest.length + 1 ≤ bound + 1) :
    (Grammar.valueArms (bound + 1)).Answers 0 c := by
  refine answers_acceptText (fun c₁ h₁ => ?_) (answers_pure _)
  have := h₁.length
  refine (answers_expression.bind fun value c₂ h₂ => ?_).weaken
  refine ((answers_expectText _).bind fun _ c₃ h₃ => ?_).weaken
  have := h₂.length
  have := h₃.length
  refine (ih.statements (by omega)).bind fun body c₄ h₄ => ?_
  have := h₄.length
  exact (ih.valueArms (by omega)).bind fun _ _ _ => answers_pure _

theorem defaultArm_succ (hbound : 8 * c.rest.length + 1 ≤ bound + 1) :
    (Grammar.defaultArm (bound + 1)).Answers 1 c := by
  refine (answers_expectText _).bind fun _ c₁ h₁ => ?_
  have := h₁.length
  have hbody : ∀ c' : Cursor, c'.rest.length ≤ c₁.rest.length →
      (Grammar.statements bound >>= fun body =>
        (pure (.arm .absent body) : Rule Node)).Answers 0 c' := fun c' hc' =>
    (ih.statements (by omega)).bind fun _ _ _ => answers_pure _
  exact answers_acceptText (fun c₂ h₂ => hbody c₂ h₂.suffix.length_le)
    (hbody c₁ (Nat.le_refl _))

theorem succ : StatementsAnswer (bound + 1) where
  statements := ih.statements_succ
  statement := ih.statement_succ
  conditional := ih.conditional_succ
  loop := ih.loop_succ
  switch := ih.switch_succ
  valueArms := ih.valueArms_succ
  defaultArm := ih.defaultArm_succ

end StatementsAnswer

theorem statementsAnswer (bound : Nat) : StatementsAnswer bound := by
  induction bound with
  | zero => exact .zero
  | succ bound ih => exact ih.succ

theorem answers_block : block.Answers 0 c :=
  ((statementsAnswer _).statements (by unfold nestingBound; omega)).congr rfl

end Statements

section Declarations

variable {c : Cursor}

theorem answers_listGlobal : listGlobal.Answers 1 c := by
  refine (answers_identifier _).bind fun name c₁ h₁ => ?_
  refine answers_optionalType.bind fun typeName c₂ h₂ => ?_
  refine ((answers_expectText _).bind fun _ c₃ h₃ => ?_).weaken
  refine ((answers_expectText _).bind fun _ c₄ h₄ => ?_).weaken
  exact (answers_listElements.bind fun _ _ _ => answers_pure _).weaken

theorem answers_mutableGlobal : mutableGlobal.Answers 1 c := by
  refine (answers_identifier _).bind fun name c₁ h₁ => ?_
  refine answers_optionalType.bind fun typeName c₂ h₂ => ?_
  exact answers_optionalValue.bind fun _ _ _ => answers_pure _

theorem answers_immutableGlobal : immutableGlobal.Answers 1 c := by
  refine (answers_identifier _).bind fun name c₁ h₁ => ?_
  refine answers_optionalType.bind fun typeName c₂ h₂ => ?_
  refine ((answers_expectAs _ _).bind fun _ c₃ h₃ => ?_).weaken
  exact (answers_expression.bind fun _ _ _ => answers_pure _).weaken

/-- The rule for globals is only called at one of their keywords; any first token is passed. -/
theorem answers_global {p : Nat} {t : Token} {ts : List Token} :
    global.Answers 1 ⟨p, t :: ts⟩ := by
  have hdeclared : ∀ {r : Rule Node}, (∀ {c : Cursor}, r.Answers 1 c) →
      (skip >>= fun _ => r >>= fun declared => Rule.expectText ";" >>= fun _ =>
        pure declared).Answers 1 ⟨p, t :: ts⟩ := fun hr =>
    answers_skip (hr.bind fun _ _ _ =>
      ((answers_expectText _).bind fun _ _ _ => answers_pure _).weaken).weaken
  by_cases hlist : t.text = "LIST"
  · exact (hdeclared answers_listGlobal).congr (acceptText_bind_of_eq hlist p ts)
  by_cases hval : t.text = "VAL"
  · exact (hdeclared answers_immutableGlobal).congr
      ((acceptText_bind_of_ne hlist p ts).trans (acceptText_bind_of_eq hval p ts))
  · exact (hdeclared answers_mutableGlobal).congr
      ((acceptText_bind_of_ne hlist p ts).trans (acceptText_bind_of_ne hval p ts))

theorem answers_global_of_sees (h : c.seesText globalKeywords = true) : global.Answers 1 c := by
  obtain ⟨p, _ | ⟨t, ts⟩⟩ := c
  · simp [Cursor.seesText, Cursor.sees] at h
  · exact answers_global

theorem answers_globals {bound : Nat} (hbound : c.rest.length + 1 ≤ bound) :
    (globals bound).Answers 0 c := by
  induction bound generalizing c with
  | zero => omega
  | succ bound ih =>
      refine answers_cursor ?_
      split
      · rename_i hsees
        refine ((answers_global_of_sees hsees).bind fun first c₁ h₁ => ?_).weaken
        have := h₁.length
        exact (ih (by omega)).bind fun _ _ _ => answers_pure _
      · exact answers_pure _

theorem answers_parameter : parameter.Answers 1 c :=
  (answers_identifier _).bind fun _ _ _ => answers_optionalType.bind fun _ _ _ =>
    answers_pure _

theorem answers_parameters {bound : Nat} (hbound : c.rest.length + 1 ≤ bound) :
    (parameters bound).Answers 1 c := by
  induction bound generalizing c with
  | zero => omega
  | succ bound ih =>
      refine answers_parameter.bind fun first c₁ h₁ => ?_
      have := h₁.length
      refine answers_acceptText (fun c₂ h₂ => ?_) (answers_pure _)
      have := h₂.length
      exact ((ih (by omega)).bind fun _ _ _ => answers_pure _).weaken

theorem optionalParameters_of_sees (h : c.sees (.text ")") = true) :
    optionalParameters c = .ok ([], c) := by
  change (if c.sees (.text ")") = true then pure [] else _ : Rule _) c = _
  rw [h]
  rfl

theorem optionalParameters_of_not_sees (h : c.sees (.text ")") = false) :
    optionalParameters c = parameters (nestingBound c.rest) c := by
  change (if c.sees (.text ")") = true then pure [] else _ : Rule _) c = _
  rw [h]
  rfl

theorem answers_optionalParameters : optionalParameters.Answers 0 c := by
  cases hclose : c.sees (.text ")") with
  | true => exact (answers_pure []).congr (optionalParameters_of_sees hclose)
  | false =>
      have hparameters : (parameters (nestingBound c.rest)).Answers 1 c :=
        answers_parameters (by unfold nestingBound; omega)
      exact hparameters.weaken.congr (optionalParameters_of_not_sees hclose)

theorem answers_function : function.Answers 1 c := by
  refine (answers_expectText _).bind fun _ c₁ h₁ => ?_
  refine ((answers_identifier _).bind fun name c₂ h₂ => ?_).weaken
  refine ((answers_expectText _).bind fun _ c₃ h₃ => ?_).weaken
  refine answers_optionalParameters.bind fun ps c₄ h₄ => ?_
  refine ((answers_expectText _).bind fun _ c₅ h₅ => ?_).weaken
  refine answers_optionalType.bind fun returnType c₆ h₆ => ?_
  refine ((answers_expectText _).bind fun _ c₇ h₇ => ?_).weaken
  refine answers_block.bind fun body c₈ h₈ => ?_
  exact ((answers_expectText _).bind fun _ _ _ => answers_pure _).weaken

theorem answers_functions {bound : Nat} (hbound : c.rest.length + 1 ≤ bound) :
    (functions bound).Answers 0 c := by
  induction bound generalizing c with
  | zero => omega
  | succ bound ih =>
      refine answers_sees ?_
      split
      · refine (answers_function.bind fun first c₁ h₁ => ?_).weaken
        have := h₁.length
        exact (ih (by omega)).bind fun _ _ _ => answers_pure _
      · exact answers_pure _

theorem answers_source : source.Answers 0 c := by
  refine answers_cursor ?_
  refine (answers_globals (by unfold nestingBound; omega)).bind fun gs c₁ h₁ => ?_
  have := h₁.length
  refine (answers_functions (by unfold nestingBound; omega)).bind fun fs c₂ h₂ => ?_
  refine answers_cursor ?_
  split
  · exact answers_pure _
  · exact answers_reject _

end Declarations

/-- A row of tokens without a tree gives the reason. -/
theorem isReasonIn_of_parse {tokens : List Token} {f : ParseFailure}
    (h : parse tokens = .error f) : f.IsReasonIn tokens := by
  unfold parse at h
  cases hsource : source (.start tokens) with
  | ok result =>
      rw [hsource] at h
      cases h
  | error f' =>
      rw [hsource] at h
      cases h
      exact answers_source.isReasonIn hsource

end Grammar
end BlockScript
