import BlockScript.Grammar.Source
import BlockScript.Proofs.Token.Splitting
import Mathlib.Data.List.Forall2

/-!
# Trees do not depend on places

A token is moved when it keeps its kind and its text and stands at another place.  The rules
of the grammar look at kinds and texts only, and count the tokens that they pass: on two rows
of tokens that are moved one by one, they read the same trees or fail with the same reason at
the same token.
-/

namespace BlockScript

/-- Two tokens are the same but for their places. -/
structure Token.Moved (t t' : Token) : Prop where
  kind : t.kind = t'.kind
  text : t.text = t'.text

/-- Two cursors have passed as many tokens, and the tokens left are the same but for their
places. -/
inductive Cursor.Moved : Cursor → Cursor → Prop
  | nil {n : Nat} : Moved ⟨n, []⟩ ⟨n, []⟩
  | cons {n : Nat} {t t' : Token} {ts ts' : List Token} : t.Moved t' →
      List.Forall₂ Token.Moved ts ts' → Moved ⟨n, t :: ts⟩ ⟨n, t' :: ts'⟩

namespace Token.Moved

variable {t t' : Token}

theorem fits (h : t.Moved t') (p : TokenPattern) : p.fits t = p.fits t' := by
  cases p <;> simp only [TokenPattern.fits, h.kind, h.text]

theorem ofToken (h : t.Moved t') : Literal.ofToken t = Literal.ofToken t' := by
  unfold Literal.ofToken
  rw [h.kind, h.text]

end Token.Moved

namespace Token

/-- Rows of tokens with the same kinds and texts differ only in places. -/
theorem moved_of_reading {ts ts' : List Token} (h : ts.map reading = ts'.map reading) :
    List.Forall₂ Moved ts ts' := by
  have hrows : List.Forall₂ (· = ·) (ts.map reading) (ts'.map reading) := by
    rw [List.forall₂_eq_eq_eq]
    exact h
  refine (List.forall₂_map_right_iff.mp (List.forall₂_map_left_iff.mp hrows)).imp ?_
  exact fun t t' heq =>
    ⟨congrArg Prod.fst heq, String.toList_injective (congrArg Prod.snd heq)⟩

end Token

namespace Cursor.Moved

variable {c c' : Cursor}

theorem of_forall₂ {ts ts' : List Token} (n : Nat) (h : List.Forall₂ Token.Moved ts ts') :
    Cursor.Moved ⟨n, ts⟩ ⟨n, ts'⟩ := by
  cases h with
  | nil => exact .nil
  | cons ht hts => exact .cons ht hts

theorem position (h : c.Moved c') : c.position = c'.position := by
  cases h <;> rfl

theorem rest (h : c.Moved c') : List.Forall₂ Token.Moved c.rest c'.rest := by
  cases h with
  | nil => exact .nil
  | cons ht hts => exact .cons ht hts

theorem skip (h : c.Moved c') : c.skip.Moved c'.skip := by
  cases h with
  | nil => exact .nil
  | cons _ hts => exact .of_forall₂ _ hts

theorem sees (h : c.Moved c') (p : TokenPattern) : c.sees p = c'.sees p := by
  cases h with
  | nil => rfl
  | cons ht _ => exact ht.fits p

theorem seesAll (h : c.Moved c') (ps : List TokenPattern) : c.seesAll ps = c'.seesAll ps := by
  induction ps generalizing c c' with
  | nil => rfl
  | cons p ps ih => rw [Cursor.seesAll, Cursor.seesAll, h.sees p, ih h.skip]

theorem seesText (h : c.Moved c') (texts : List String) :
    c.seesText texts = c'.seesText texts := by
  simp only [Cursor.seesText, h.sees]

theorem isEmpty (h : c.Moved c') : c.rest.isEmpty = c'.rest.isEmpty := by
  cases h <;> rfl

theorem error (h : c.Moved c') (cause : ParseCause) : c.error cause = c'.error cause := by
  cases h with
  | nil => rfl
  | cons ht _ => simp only [Cursor.error, List.head?_cons, Option.map_some, ht.text]

theorem nestingBound (h : c.Moved c') :
    Grammar.nestingBound c.rest = Grammar.nestingBound c'.rest := by
  rw [Grammar.nestingBound, Grammar.nestingBound, h.rest.length_eq]

end Cursor.Moved

namespace Rule

variable {α β : Type}

/-- Two readings have the same result and leave tokens that are the same but for their
places, or fail alike. -/
inductive Agree : Except ParseFailure (α × Cursor) → Except ParseFailure (α × Cursor) → Prop
  | ok {a : α} {c c' : Cursor} : c.Moved c' → Agree (.ok (a, c)) (.ok (a, c'))
  | error {e : ParseFailure} : Agree (.error e) (.error e)

section Rules

variable {r r' : Rule α} {c c' : Cursor}

theorem Agree.bind {next next' : α → Rule β} (h : Agree (r c) (r' c'))
    (hnext : ∀ a d d', d.Moved d' → Agree (next a d) (next' a d')) :
    Agree ((r >>= next) c) ((r' >>= next') c') := by
  simp only [Bind.bind]
  generalize r c = o at h ⊢
  generalize r' c' = o' at h ⊢
  cases h with
  | ok hd => exact hnext _ _ _ hd
  | error => exact .error

theorem agree_pure (a : α) (h : c.Moved c') : Agree ((pure a : Rule α) c) ((pure a : Rule α) c') :=
  .ok h

theorem agree_fail (e : ParseFailure) : Agree ((fail e : Rule α) c) ((fail e : Rule α) c') :=
  .error

theorem agree_reject (cause : ParseCause) (h : c.Moved c') :
    Agree ((reject cause : Rule α) c) ((reject cause : Rule α) c') := by
  unfold reject
  rw [h.error]
  exact .error

theorem agree_cursor {next : Cursor → Rule α} (h : Agree (next c c) (next c' c')) :
    Agree ((cursor >>= next) c) ((cursor >>= next) c') := h

theorem agree_skip (h : c.Moved c') : Agree (skip c) (skip c') := .ok h.skip

theorem agree_sees (p : TokenPattern) (h : c.Moved c') : Agree (sees p c) (sees p c') := by
  unfold sees
  rw [h.sees]
  exact .ok h

theorem agree_accept (ps : List TokenPattern) (h : c.Moved c') :
    Agree (accept ps c) (accept ps c') := by
  unfold accept
  rw [h.seesAll, h.position]
  split
  · exact .ok (.of_forall₂ _ (List.forall₂_drop _ h.rest))
  · exact .ok h

theorem agree_acceptText (s : String) (h : c.Moved c') :
    Agree (acceptText s c) (acceptText s c') :=
  agree_accept _ h

/-- A token that is expected is passed in both rows, and the chains go on with tokens that are
the same but for their places. -/
theorem agree_expectAs {next : Token → Rule β} (p : TokenPattern) (what : String)
    (h : c.Moved c')
    (hnext : ∀ t t' d d', t.Moved t' → d.Moved d' → Agree (next t d) (next t' d')) :
    Agree ((expectAs p what >>= next) c) ((expectAs p what >>= next) c') := by
  have herror := h.error (.expected what)
  cases h with
  | nil => exact .error
  | @cons n t t' ts ts' ht hts =>
      by_cases hfits : p.fits t = true
      · have hread : expectAs p what ⟨n, t :: ts⟩ = .ok (t, ⟨n + 1, ts⟩) := if_pos hfits
        have hread' : expectAs p what ⟨n, t' :: ts'⟩ = .ok (t', ⟨n + 1, ts'⟩) :=
          if_pos (ht.fits p ▸ hfits)
        simp only [Bind.bind, hread, hread']
        exact hnext _ _ _ _ ht (.of_forall₂ _ hts)
      · have hread : expectAs p what ⟨n, t :: ts⟩ = .error _ := if_neg hfits
        have hread' : expectAs p what ⟨n, t' :: ts'⟩ = .error _ :=
          if_neg (ht.fits p ▸ hfits)
        simp only [Bind.bind, hread, hread', herror]
        exact .error

theorem agree_expectText (s : String) (h : c.Moved c') :
    Agree (expectText s c) (expectText s c') :=
  agree_expectAs _ _ h fun _ _ _ _ _ hd => agree_pure () hd

theorem agree_identifier (what : String) (h : c.Moved c') :
    Agree (identifier what c) (identifier what c') := by
  refine agree_expectAs _ _ h fun t t' d d' ht hd => ?_
  rw [ht.text]
  exact agree_pure _ hd

theorem agree_optionalType (h : c.Moved c') : Agree (optionalType c) (optionalType c') := by
  refine (agree_acceptText ":" h).bind fun typed d d' hd => ?_
  split
  · exact (agree_identifier _ hd).bind fun _ _ _ hd => agree_pure _ hd
  · exact agree_pure _ hd

end Rules

end Rule

namespace Grammar

open Rule

variable {bound : Nat} {c c' : Cursor}

theorem agree_literalNode {t t' : Token} (ht : t.Moved t') (h : c.Moved c') :
    Agree (literalNode t c) (literalNode t' c') := by
  unfold literalNode
  rw [ht.ofToken]
  cases Literal.ofToken t' with
  | ok value => exact agree_pure _ h
  | error failure => exact agree_fail _

/-- The rules of expressions read alike under a bound on their nesting. -/
structure ExpressionsAgree (bound : Nat) : Prop where
  layers : ∀ {c c' : Cursor} (ls : List (List String)), c.Moved c' →
    Agree (layers bound ls c) (layers bound ls c')
  operations : ∀ {c c' : Cursor} (operators : List String) (inner : List (List String))
    (left : Node), c.Moved c' →
    Agree (operations bound operators inner left c) (operations bound operators inner left c')
  primary : ∀ {c c' : Cursor}, c.Moved c' → Agree (primary bound c) (primary bound c')
  named : ∀ {c c' : Cursor} (name : String), c.Moved c' →
    Agree (named bound name c) (named bound name c')
  expressions : ∀ {c c' : Cursor}, c.Moved c' →
    Agree (expressions bound c) (expressions bound c')

section Expressions

theorem agree_layers (ih : ExpressionsAgree bound) (ls : List (List String))
    (h : c.Moved c') : Agree (layers (bound + 1) ls c) (layers (bound + 1) ls c') := by
  cases ls with
  | nil => exact ih.primary h
  | cons operators inner =>
      refine (ih.layers inner h).bind fun left d d' hd => ?_
      exact ih.operations operators inner left hd

theorem agree_operations (ih : ExpressionsAgree bound) (operators : List String)
    (inner : List (List String)) (left : Node) (h : c.Moved c') :
    Agree (operations (bound + 1) operators inner left c)
      (operations (bound + 1) operators inner left c') := by
  refine agree_cursor ?_
  have hc := h
  cases h with
  | nil => exact agree_pure _ hc
  | cons ht _ =>
      dsimp only
      rw [← ht.text]
      split
      · refine (agree_skip hc).bind fun _ d d' hd => ?_
        refine (ih.layers inner hd).bind fun right d d' hd => ?_
        exact ih.operations _ _ _ hd
      · exact agree_pure _ hc

theorem agree_primary (ih : ExpressionsAgree bound) (h : c.Moved c') :
    Agree (primary (bound + 1) c) (primary (bound + 1) c') := by
  refine agree_cursor ?_
  have hc := h
  cases h with
  | nil => exact agree_reject _ hc
  | @cons _ t _ _ _ ht _ =>
      have hword : ∀ s : Scalar, Agree
          ((do Rule.skip; return Node.literal s : Rule Node) _)
          ((do Rule.skip; return Node.literal s : Rule Node) _) :=
        fun s => (agree_skip hc).bind fun _ _ _ hd => agree_pure _ hd
      dsimp only
      rw [← ht.text, ← ht.kind]
      split
      · exact hword _
      split
      · exact hword _
      split
      · exact hword _
      cases t.kind with
      | identifier => exact (agree_skip hc).bind fun _ _ _ hd => ih.named _ hd
      | operator =>
          dsimp only
          split
          · refine (agree_skip hc).bind fun _ _ _ hd => ?_
            refine (ih.expressions hd).bind fun elements _ _ hd => ?_
            exact (agree_expectText _ hd).bind fun _ _ _ hd => agree_pure _ hd
          split
          · refine (agree_skip hc).bind fun _ _ _ hd => ?_
            refine (ih.layers _ hd).bind fun inner _ _ hd => ?_
            exact (agree_expectText _ hd).bind fun _ _ _ hd => agree_pure _ hd
          · exact agree_reject _ hc
      | integer | decimal | character | string =>
          exact (agree_skip hc).bind fun _ _ _ hd => agree_literalNode ht hd

theorem agree_named (ih : ExpressionsAgree bound) (name : String) (h : c.Moved c') :
    Agree (named (bound + 1) name c) (named (bound + 1) name c') := by
  refine (agree_acceptText "(" h).bind fun called d d' hd => ?_
  split
  · refine (agree_sees (.text ")") hd).bind fun closed d d' hd => ?_
    split
    · exact (agree_skip hd).bind fun _ _ _ hd => agree_pure _ hd
    · refine (ih.expressions hd).bind fun arguments _ _ hd => ?_
      exact (agree_expectText _ hd).bind fun _ _ _ hd => agree_pure _ hd
  · refine (agree_acceptText "[" hd).bind fun indexed d d' hd => ?_
    split
    · refine (ih.layers _ hd).bind fun offset _ _ hd => ?_
      exact (agree_expectText _ hd).bind fun _ _ _ hd => agree_pure _ hd
    · exact agree_pure _ hd

theorem agree_expressions (ih : ExpressionsAgree bound) (h : c.Moved c') :
    Agree (expressions (bound + 1) c) (expressions (bound + 1) c') := by
  refine (ih.layers _ h).bind fun first d d' hd => ?_
  refine (agree_acceptText "," hd).bind fun more d d' hd => ?_
  split
  · exact (ih.expressions hd).bind fun others _ _ hd => agree_pure _ hd
  · exact agree_pure _ hd

theorem expressionsAgree (bound : Nat) : ExpressionsAgree bound := by
  induction bound with
  | zero => exact ⟨fun _ _ => .error, fun _ _ _ _ => .error, fun _ => .error,
      fun _ _ => .error, fun _ => .error⟩
  | succ bound ih => exact ⟨agree_layers ih, agree_operations ih, agree_primary ih,
      agree_named ih, agree_expressions ih⟩

theorem agree_expression (h : c.Moved c') : Agree (expression c) (expression c') := by
  unfold expression
  rw [h.nestingBound]
  exact (expressionsAgree _).layers _ h

theorem agree_listElements (h : c.Moved c') : Agree (listElements c) (listElements c') := by
  unfold listElements
  rw [h.nestingBound]
  refine ((expressionsAgree _).expressions h).bind fun elements _ _ hd => ?_
  exact (agree_expectText _ hd).bind fun _ _ _ hd => agree_pure _ hd

end Expressions

section Statements

theorem agree_optionalValue (h : c.Moved c') : Agree (optionalValue c) (optionalValue c') := by
  refine (agree_acceptText "=" h).bind fun given d d' hd => ?_
  split
  · exact agree_expression hd
  · exact agree_pure _ hd

theorem agree_declaration (h : c.Moved c') : Agree (declaration c) (declaration c') := by
  refine (agree_expectText "LET" h).bind fun _ _ _ hd => ?_
  refine (agree_identifier _ hd).bind fun name _ _ hd => ?_
  refine (agree_optionalType hd).bind fun typeName _ _ hd => ?_
  refine (agree_optionalValue hd).bind fun value _ _ hd => ?_
  exact (agree_expectText ";" hd).bind fun _ _ _ hd => agree_pure _ hd

theorem agree_returning (h : c.Moved c') : Agree (returning c) (returning c') := by
  refine (agree_expectText "RETURN" h).bind fun _ _ _ hd => ?_
  refine (agree_acceptText ";" hd).bind fun ended _ _ hd => ?_
  split
  · exact agree_pure _ hd
  · refine (agree_expression hd).bind fun value _ _ hd => ?_
    exact (agree_expectText ";" hd).bind fun _ _ _ hd => agree_pure _ hd

theorem agree_evaluationOrAssignment (h : c.Moved c') :
    Agree (evaluationOrAssignment c) (evaluationOrAssignment c') := by
  refine (agree_expression h).bind fun left d d' hd => ?_
  refine agree_cursor ?_
  rw [← hd.sees]
  split
  · split
    · refine (agree_skip hd).bind fun _ _ _ hd => ?_
      refine (agree_expression hd).bind fun value _ _ hd => ?_
      exact (agree_expectText ";" hd).bind fun _ _ _ hd => agree_pure _ hd
    · exact agree_reject _ hd
  · exact (agree_expectText ";" hd).bind fun _ _ _ hd => agree_pure _ hd

/-- The rules of statements read alike under a bound on their nesting. -/
structure StatementsAgree (bound : Nat) : Prop where
  statements : ∀ {c c' : Cursor}, c.Moved c' → Agree (statements bound c) (statements bound c')
  statement : ∀ {c c' : Cursor}, c.Moved c' → Agree (statement bound c) (statement bound c')
  conditional : ∀ {c c' : Cursor}, c.Moved c' →
    Agree (conditional bound c) (conditional bound c')
  loop : ∀ {c c' : Cursor}, c.Moved c' → Agree (loop bound c) (loop bound c')
  switch : ∀ {c c' : Cursor}, c.Moved c' → Agree (switch bound c) (switch bound c')
  valueArms : ∀ {c c' : Cursor}, c.Moved c' → Agree (valueArms bound c) (valueArms bound c')
  defaultArm : ∀ {c c' : Cursor}, c.Moved c' → Agree (defaultArm bound c) (defaultArm bound c')

theorem agree_statements (ih : StatementsAgree bound) (h : c.Moved c') :
    Agree (statements (bound + 1) c) (statements (bound + 1) c') := by
  refine agree_cursor ?_
  rw [← h.seesText, ← h.isEmpty]
  split
  · exact agree_pure _ h
  split
  · exact agree_reject _ h
  · refine (ih.statement h).bind fun first _ _ hd => ?_
    exact (ih.statements hd).bind fun others _ _ hd => agree_pure _ hd

theorem agree_statement (ih : StatementsAgree bound) (h : c.Moved c') :
    Agree (statement (bound + 1) c) (statement (bound + 1) c') := by
  refine agree_cursor ?_
  simp only [← h.sees]
  split
  · exact agree_declaration h
  split
  · exact ih.switch h
  split
  · exact ih.conditional h
  split
  · exact ih.loop h
  split
  · exact agree_returning h
  · exact agree_evaluationOrAssignment h

theorem agree_conditional (ih : StatementsAgree bound) (h : c.Moved c') :
    Agree (conditional (bound + 1) c) (conditional (bound + 1) c') := by
  refine (agree_expectText "IF" h).bind fun _ _ _ hd => ?_
  refine (agree_expression hd).bind fun condition _ _ hd => ?_
  refine (agree_expectText "DO" hd).bind fun _ _ _ hd => ?_
  refine (ih.statements hd).bind fun thenBody _ _ hd => ?_
  refine (agree_acceptText "ELSE" hd).bind fun more _ _ hd => ?_
  split
  · refine (ih.statements hd).bind fun elseBody _ _ hd => ?_
    exact (agree_expectText "END" hd).bind fun _ _ _ hd => agree_pure _ hd
  · exact (agree_expectText "END" hd).bind fun _ _ _ hd => agree_pure _ hd

theorem agree_loop (ih : StatementsAgree bound) (h : c.Moved c') :
    Agree (loop (bound + 1) c) (loop (bound + 1) c') := by
  refine (agree_expectText "WHILE" h).bind fun _ _ _ hd => ?_
  refine (agree_expression hd).bind fun condition _ _ hd => ?_
  refine (agree_expectText "DO" hd).bind fun _ _ _ hd => ?_
  refine (ih.statements hd).bind fun body _ _ hd => ?_
  exact (agree_expectText "END" hd).bind fun _ _ _ hd => agree_pure _ hd

theorem agree_switch (ih : StatementsAgree bound) (h : c.Moved c') :
    Agree (switch (bound + 1) c) (switch (bound + 1) c') := by
  refine (agree_expectText "SWITCH" h).bind fun _ _ _ hd => ?_
  refine (agree_expression hd).bind fun condition _ _ hd => ?_
  refine (ih.valueArms hd).bind fun arms _ _ hd => ?_
  split
  · exact agree_reject _ hd
  refine (agree_sees (.text "DEFAULT") hd).bind fun closes _ _ hd => ?_
  split
  · exact agree_reject _ hd
  · refine (ih.defaultArm hd).bind fun last _ _ hd => ?_
    exact (agree_expectText "END" hd).bind fun _ _ _ hd => agree_pure _ hd

theorem agree_valueArms (ih : StatementsAgree bound) (h : c.Moved c') :
    Agree (valueArms (bound + 1) c) (valueArms (bound + 1) c') := by
  refine (agree_acceptText "CASE" h).bind fun more _ _ hd => ?_
  split
  · refine (agree_expression hd).bind fun value _ _ hd => ?_
    refine (agree_expectText ":" hd).bind fun _ _ _ hd => ?_
    refine (ih.statements hd).bind fun body _ _ hd => ?_
    exact (ih.valueArms hd).bind fun others _ _ hd => agree_pure _ hd
  · exact agree_pure _ hd

theorem agree_defaultArm (ih : StatementsAgree bound) (h : c.Moved c') :
    Agree (defaultArm (bound + 1) c) (defaultArm (bound + 1) c') := by
  refine (agree_expectText "DEFAULT" h).bind fun _ _ _ hd => ?_
  refine (agree_acceptText ":" hd).bind fun _ _ _ hd => ?_
  exact (ih.statements hd).bind fun body _ _ hd => agree_pure _ hd

theorem statementsAgree (bound : Nat) : StatementsAgree bound := by
  induction bound with
  | zero => exact ⟨fun _ => .error, fun _ => .error, fun _ => .error, fun _ => .error,
      fun _ => .error, fun _ => .error, fun _ => .error⟩
  | succ bound ih => exact ⟨agree_statements ih, agree_statement ih, agree_conditional ih,
      agree_loop ih, agree_switch ih, agree_valueArms ih, agree_defaultArm ih⟩

theorem agree_block (h : c.Moved c') : Agree (block c) (block c') := by
  unfold block
  rw [h.nestingBound]
  exact (statementsAgree _).statements h

end Statements

section Declarations

theorem agree_listGlobal (h : c.Moved c') : Agree (listGlobal c) (listGlobal c') := by
  refine (agree_identifier _ h).bind fun name _ _ hd => ?_
  refine (agree_optionalType hd).bind fun typeName _ _ hd => ?_
  refine (agree_expectText "=" hd).bind fun _ _ _ hd => ?_
  refine (agree_expectText "[" hd).bind fun _ _ _ hd => ?_
  exact (agree_listElements hd).bind fun value _ _ hd => agree_pure _ hd

theorem agree_mutableGlobal (h : c.Moved c') : Agree (mutableGlobal c) (mutableGlobal c') := by
  refine (agree_identifier _ h).bind fun name _ _ hd => ?_
  refine (agree_optionalType hd).bind fun typeName _ _ hd => ?_
  exact (agree_optionalValue hd).bind fun value _ _ hd => agree_pure _ hd

theorem agree_immutableGlobal (h : c.Moved c') :
    Agree (immutableGlobal c) (immutableGlobal c') := by
  refine (agree_identifier _ h).bind fun name _ _ hd => ?_
  refine (agree_optionalType hd).bind fun typeName _ _ hd => ?_
  refine agree_expectAs _ _ hd fun _ _ _ _ _ hd => ?_
  exact (agree_expression hd).bind fun value _ _ hd => agree_pure _ hd

theorem agree_global (h : c.Moved c') : Agree (global c) (global c') := by
  refine (agree_acceptText "LIST" h).bind fun list _ _ hd => ?_
  split
  · refine (agree_listGlobal hd).bind fun declared _ _ hd => ?_
    exact (agree_expectText ";" hd).bind fun _ _ _ hd => agree_pure _ hd
  refine (agree_acceptText "VAL" hd).bind fun immutable _ _ hd => ?_
  split
  · refine (agree_immutableGlobal hd).bind fun declared _ _ hd => ?_
    exact (agree_expectText ";" hd).bind fun _ _ _ hd => agree_pure _ hd
  · refine (agree_skip hd).bind fun _ _ _ hd => ?_
    refine (agree_mutableGlobal hd).bind fun declared _ _ hd => ?_
    exact (agree_expectText ";" hd).bind fun _ _ _ hd => agree_pure _ hd

theorem agree_parameter (h : c.Moved c') : Agree (parameter c) (parameter c') := by
  refine (agree_identifier _ h).bind fun name _ _ hd => ?_
  exact (agree_optionalType hd).bind fun typeName _ _ hd => agree_pure _ hd

theorem agree_parameters (bound : Nat) (h : c.Moved c') :
    Agree (parameters bound c) (parameters bound c') := by
  induction bound generalizing c c' with
  | zero => exact agree_fail _
  | succ bound ih =>
      refine (agree_parameter h).bind fun first _ _ hd => ?_
      refine (agree_acceptText "," hd).bind fun more _ _ hd => ?_
      split
      · exact (ih hd).bind fun others _ _ hd => agree_pure _ hd
      · exact agree_pure _ hd

theorem agree_optionalParameters (h : c.Moved c') :
    Agree (optionalParameters c) (optionalParameters c') := by
  refine (agree_sees (.text ")") h).bind fun closed d d' hd => ?_
  cases closed with
  | true => exact agree_pure _ hd
  | false =>
      have hread : Agree (parameters (nestingBound d.rest) d)
          (parameters (nestingBound d'.rest) d') :=
        hd.nestingBound ▸ agree_parameters _ hd
      exact hread

theorem agree_function (h : c.Moved c') : Agree (function c) (function c') := by
  refine (agree_expectText "FUN" h).bind fun _ _ _ hd => ?_
  refine (agree_identifier _ hd).bind fun name _ _ hd => ?_
  refine (agree_expectText "(" hd).bind fun _ _ _ hd => ?_
  refine (agree_optionalParameters hd).bind fun ps _ _ hd => ?_
  refine (agree_expectText ")" hd).bind fun _ _ _ hd => ?_
  refine (agree_optionalType hd).bind fun returnType _ _ hd => ?_
  refine (agree_expectText "DO" hd).bind fun _ _ _ hd => ?_
  refine (agree_block hd).bind fun body _ _ hd => ?_
  exact (agree_expectText "END" hd).bind fun _ _ _ hd => agree_pure _ hd

theorem agree_globals (bound : Nat) (h : c.Moved c') :
    Agree (globals bound c) (globals bound c') := by
  induction bound generalizing c c' with
  | zero => exact agree_fail _
  | succ bound ih =>
      refine agree_cursor ?_
      rw [← h.seesText]
      split
      · refine (agree_global h).bind fun first _ _ hd => ?_
        exact (ih hd).bind fun others _ _ hd => agree_pure _ hd
      · exact agree_pure _ h

theorem agree_functions (bound : Nat) (h : c.Moved c') :
    Agree (functions bound c) (functions bound c') := by
  induction bound generalizing c c' with
  | zero => exact agree_fail _
  | succ bound ih =>
      refine (agree_sees (.text "FUN") h).bind fun more _ _ hd => ?_
      split
      · refine (agree_function hd).bind fun first _ _ hd => ?_
        exact (ih hd).bind fun others _ _ hd => agree_pure _ hd
      · exact agree_pure _ hd

theorem agree_source (h : c.Moved c') : Agree (source c) (source c') := by
  refine agree_cursor ?_
  rw [h.nestingBound]
  refine (agree_globals _ h).bind fun gs _ _ hd => ?_
  refine (agree_functions _ hd).bind fun fs _ _ hd => ?_
  refine agree_cursor ?_
  rw [← hd.isEmpty]
  split
  · exact agree_pure _ hd
  · exact agree_reject _ hd

end Declarations

/-- Rows of tokens that are the same but for the places have the same tree, or fail alike. -/
theorem parse_moved {ts ts' : List Token} (h : List.Forall₂ Token.Moved ts ts') :
    parse ts = parse ts' := by
  have hsource := agree_source (Cursor.Moved.of_forall₂ 0 h)
  unfold parse Cursor.start
  generalize source ⟨0, ts⟩ = o at hsource ⊢
  generalize source ⟨0, ts'⟩ = o' at hsource ⊢
  cases hsource <;> rfl

/-- The tree of a text depends only on the kinds and texts of its tokens. -/
theorem parseProgram_of_readings {s s' : String} {ts ts' : List Token}
    (hscan : Token.scan s = .ok ts) (hscan' : Token.scan s' = .ok ts')
    (h : ts.map Token.reading = ts'.map Token.reading) : parseProgram s = parseProgram s' := by
  rw [parseProgram, parseProgram, hscan, hscan']
  dsimp only
  rw [parse_moved (Token.moved_of_reading h)]

end Grammar
end BlockScript
