import BlockScript.Proofs.Grammar.Numerals
import BlockScript.Proofs.Grammar.Rounds

/-!
# Every rule makes progress

A rule that is called at a position of a row of tokens is rejected, or comes upon a literal
whose numeral has no value, or returns at a later position of the row.  A block may return
where it was called, but only in front of a keyword that ends blocks.

The rows of the grammar are loops: rounds that go on from a state as long as one is due.
Each round passes a token, so that a loop has no more rounds than there are tokens left, and
every row of tokens is decided.
-/

namespace BlockScript

/-- The cursor at a position of a row of tokens. -/
def Cursor.ofPosition (tokens : List Token) (p : Nat) : Cursor := ⟨p, tokens.drop p⟩

/-- A cursor behind another one is that of its position. -/
theorem Cursor.Behind.eq_ofPosition {tokens : List Token} {p k : Nat} {c : Cursor}
    (h : (Cursor.ofPosition tokens p).Behind k c) (hp : p ≤ tokens.length) :
    c = .ofPosition tokens c.position ∧ p + k ≤ c.position ∧ c.position ≤ tokens.length := by
  obtain ⟨hsuffix, hposition, hlength⟩ := h
  simp only [ofPosition, List.length_drop] at hposition hlength
  have hrest : c.rest = tokens.drop (tokens.length - c.rest.length) :=
    List.suffix_iff_eq_drop.mp (hsuffix.trans (List.drop_suffix p tokens))
  have hc : c.position = tokens.length - c.rest.length := by omega
  refine ⟨?_, by omega, by omega⟩
  rw [ofPosition, hc, ← hrest, ← hc]

/-- Whatever passes a token starts in the row. -/
theorem Cursor.Behind.lt_length {tokens : List Token} {p : Nat} {c : Cursor}
    (h : (Cursor.ofPosition tokens p).Behind 1 c) : p < tokens.length := by
  have := h.length
  simp only [ofPosition, List.length_drop] at this
  omega

/-- Whatever leaves a token starts in the row. -/
theorem Cursor.Behind.le_length {tokens : List Token} {p k : Nat} {c : Cursor}
    (h : (Cursor.ofPosition tokens p).Behind k c) (hc : c.rest ≠ []) : p ≤ tokens.length := by
  have hpos := List.length_pos_iff.mpr hc
  have := h.length
  simp only [ofPosition, List.length_drop] at this
  omega

theorem Cursor.ne_nil_of_seesText {texts : List String} {c : Cursor}
    (h : c.seesText texts = true) : c.rest ≠ [] := by
  intro hnil
  simp [seesText, sees, hnil] at h

namespace Rule

variable {α σ : Type}

/-- How a rule ends that is called at a position of a row of tokens: with an error, at a
literal further on whose numeral has no value, or with a result and the cursor at a position
of the row, for which a condition holds. -/
inductive EndsAt (r : Rule α) (tokens : List Token) (p : Nat) (P : α → Nat → Prop) : Prop
  | rejected {e : ParseError} : r (.ofPosition tokens p) = .error (.rejected e) →
      EndsAt r tokens p P
  | valueless {t : Token} {f : ParseFailure} : t ∈ tokens.drop p →
      Literal.ofToken t = .error f → r (.ofPosition tokens p) = .error f → EndsAt r tokens p P
  | returned {a : α} {q : Nat} : r (.ofPosition tokens p) = .ok (a, .ofPosition tokens q) →
      q ≤ tokens.length → P a q → EndsAt r tokens p P

/-- A rule makes progress from a position. -/
def Advances (r : Rule α) (tokens : List Token) (p : Nat) : Prop :=
  r.EndsAt tokens p fun _ q => p < q

theorem EndsAt.congr {r r' : Rule α} {tokens : List Token} {p : Nat} {P : α → Nat → Prop}
    (h : r'.EndsAt tokens p P) (hr : r (.ofPosition tokens p) = r' (.ofPosition tokens p)) :
    r.EndsAt tokens p P := by
  cases h with
  | rejected he => exact .rejected (hr.trans he)
  | valueless ht hvalue hf => exact .valueless ht hvalue (hr.trans hf)
  | returned ha hq hP => exact .returned (hr.trans ha) hq hP

theorem Answers.endsAt {r : Rule α} {tokens : List Token} {p k : Nat} {P : α → Nat → Prop}
    (h : r.Answers k (.ofPosition tokens p))
    (hreturned : ∀ a c, r (.ofPosition tokens p) = .ok (a, c) →
      (Cursor.ofPosition tokens p).Behind k c → p ≤ tokens.length ∧ P a c.position) :
    r.EndsAt tokens p P := by
  cases hr : r (.ofPosition tokens p) with
  | ok result =>
      obtain ⟨a, c⟩ := result
      have hbehind := h.behind hr
      obtain ⟨hp, hP⟩ := hreturned a c hr hbehind
      obtain ⟨hc, -, hlength⟩ := hbehind.eq_ofPosition hp
      rw [hc] at hr
      exact .returned hr hlength hP
  | error f =>
      rcases (h.isReasonIn hr).rejected_or_valueless with ⟨e, rfl⟩ | ⟨t, ht, hvalue⟩
      · exact .rejected hr
      · exact .valueless ht hvalue hr

theorem Answers.advances {r : Rule α} {tokens : List Token} {p : Nat}
    (h : r.Answers 1 (.ofPosition tokens p)) : r.Advances tokens p :=
  h.endsAt fun _ _ _ hbehind =>
    have hp := hbehind.lt_length
    ⟨hp.le, (hbehind.eq_ofPosition hp.le).2.1⟩

/-- A loop from any position of a row of tokens: it reads a state and then runs rounds, each
of which passes a token unless it is the last one.  So as many rounds pass as many tokens,
and those that are granted, one for each token left, are enough. -/
structure LoopsIn (tokens : List Token) (loop start : Rule σ) (round : σ → Rule (Option σ)) :
    Prop where
  eq_bind : loop = start >>= repeated round
  step : ∀ p ≤ tokens.length, ∀ s,
    (round s).EndsAt tokens p fun next q => p ≤ q ∧ (next.isSome = true → p < q)
  run : ∀ p ≤ tokens.length, ∀ {k s s' c}, Reaches round k s (.ofPosition tokens p) s' c →
    c = .ofPosition tokens c.position ∧ p + k ≤ c.position ∧ c.position ≤ tokens.length
  ends : ∀ p ≤ tokens.length, ∀ s, (repeated round s).EndsAt tokens p fun _ q => p ≤ q

theorem IsLoop.loopsIn {loop start : Rule σ} {round : σ → Rule (Option σ)}
    (h : loop.IsLoop start round) (tokens : List Token) : loop.LoopsIn tokens start round where
  eq_bind := h.eq_bind
  step p hp s := by
    refine (h.isRound.answers s _).endsAt fun next c hround hbehind => ⟨hp, ?_, fun hnext => ?_⟩
    · exact (hbehind.eq_ofPosition hp).2.1
    · obtain ⟨s', rfl⟩ := Option.isSome_iff_exists.mp hnext
      exact ((h.isRound.passes hround).eq_ofPosition hp).2.1
  run p hp k s s' c hreaches := (h.isRound.behind_of_reaches hreaches).eq_ofPosition hp
  ends p hp s :=
    h.isRound.answers_repeated.endsAt fun _ _ _ hbehind => ⟨hp, (hbehind.eq_ofPosition hp).2.1⟩

end Rule

namespace Grammar

open Rule

/-- A bound on nested rules that is enough behind a position, such as `nestingBound`. -/
def SufficesAt (tokens : List Token) (p bound : Nat) : Prop :=
  8 * (tokens.drop p).length + 8 ≤ bound

theorem sufficesAt_nestingBound (tokens : List Token) (p : Nat) :
    SufficesAt tokens p (nestingBound (tokens.drop p)) := by
  unfold SufficesAt nestingBound
  omega

theorem SufficesAt.le {tokens : List Token} {p bound k : Nat} (h : SufficesAt tokens p bound)
    (hk : k ≤ 8) : 8 * (Cursor.ofPosition tokens p).rest.length + k ≤ bound :=
  Nat.le_trans (Nat.add_le_add_left hk _) h

/-- What is claimed of each rule at a position of a row of tokens. -/
structure RulesAdvance (tokens : List Token) (p : Nat) : Prop where
  function : function.Advances tokens p
  oneStatement : oneStatement.Advances tokens p
  statement : ∀ bound, SufficesAt tokens p bound → (statement bound).Advances tokens p
  declaration : declaration.Advances tokens p
  switch : ∀ bound, SufficesAt tokens p bound → (switch bound).Advances tokens p
  conditional : ∀ bound, SufficesAt tokens p bound → (conditional bound).Advances tokens p
  loop : ∀ bound, SufficesAt tokens p bound → (loop bound).Advances tokens p
  returning : returning.Advances tokens p
  evaluationOrAssignment : evaluationOrAssignment.Advances tokens p
  arm : arm.Advances tokens p
  expression : expression.Advances tokens p
  layers : ∀ bound, SufficesAt tokens p bound → ∀ ls, ls <:+ operatorLayers →
    (layers bound ls).Advances tokens p
  primary : ∀ bound, SufficesAt tokens p bound → (primary bound).Advances tokens p
  listElements : listElements.Advances tokens p
  global : (Cursor.ofPosition tokens p).seesText globalKeywords = true →
    global.Advances tokens p
  listGlobal : listGlobal.Advances tokens p
  mutableGlobal : mutableGlobal.Advances tokens p
  immutableGlobal : immutableGlobal.Advances tokens p
  /-- A block ends in front of a keyword that ends blocks. -/
  statements : ∀ bound, SufficesAt tokens p bound → (statements bound).EndsAt tokens p fun _ q =>
    p ≤ q ∧ (Cursor.ofPosition tokens q).seesText blockTerminators = true
  block : block.EndsAt tokens p fun _ q =>
    p ≤ q ∧ (Cursor.ofPosition tokens q).seesText blockTerminators = true

/-- What is claimed of the loops in a row of tokens. -/
structure LoopsAdvance (tokens : List Token) : Prop where
  globals : (unbounded globals).LoopsIn tokens (pure [])
    (appending (Rule.seesText globalKeywords) global)
  functions : (unbounded functions).LoopsIn tokens (pure [])
    (appending (sees (.text "FUN")) function)
  statements : block.LoopsIn tokens (pure []) (appending statementFollows oneStatement)
  arms : (unbounded valueArms).LoopsIn tokens (pure []) (appending (sees (.text "CASE")) arm)
  operators : ∀ operators inner, operators :: inner <:+ operatorLayers →
    (unbounded (layers · (operators :: inner))).LoopsIn tokens (unbounded (layers · inner))
      (operatorRound operators inner)
  arguments : (unbounded expressions).LoopsIn tokens (expression >>= fun first => pure [first])
    (appending (acceptText ",") expression)
  parameters : (unbounded parameters).LoopsIn tokens (parameter >>= fun first => pure [first])
    (appending (acceptText ",") parameter)

theorem length_operatorLayers_le {ls : List (List String)} (h : ls <:+ operatorLayers) :
    ls.length ≤ 4 :=
  h.length_le

theorem seesText_of_statements {bound : Nat} {c c' : Cursor} {ss : List Node}
    (h : statements bound c = .ok (ss, c')) : c'.seesText blockTerminators = true := by
  induction bound generalizing c ss with
  | zero => cases h
  | succ bound ih =>
      change (if c.seesText blockTerminators = true then pure [] else
        if c.rest.isEmpty = true then reject _ else _ : Rule (List Node)) c = _ at h
      split at h
      · rename_i hsees
        cases h
        exact hsees
      split at h
      · cases h
      obtain ⟨first, c₁, -, hothers⟩ := bind_eq_ok.mp h
      obtain ⟨others, c₂, hrow, hpure⟩ := bind_eq_ok.mp hothers
      cases hpure
      exact ih hrow

/-- A block goes no further than to a keyword that ends blocks. -/
theorem SufficesAt.statements_endsAt {tokens : List Token} {p bound : Nat}
    (h : SufficesAt tokens p bound) :
    (statements bound).EndsAt tokens p fun _ q =>
      p ≤ q ∧ (Cursor.ofPosition tokens q).seesText blockTerminators = true := by
  refine ((statementsAnswer bound).statements (h.le (by decide))).endsAt
    fun ss c hblock hbehind => ?_
  have hsees := seesText_of_statements hblock
  have hp : p ≤ tokens.length := hbehind.le_length (Cursor.ne_nil_of_seesText hsees)
  obtain ⟨hc, hle, -⟩ := hbehind.eq_ofPosition hp
  exact ⟨hp, hle, hc ▸ hsees⟩

theorem rulesAdvance (tokens : List Token) (p : Nat) : RulesAdvance tokens p where
  function := answers_function.advances
  oneStatement := answers_oneStatement.advances
  statement bound h := ((statementsAnswer bound).statement (h.le (by decide))).advances
  declaration := answers_declaration.advances
  switch bound h := ((statementsAnswer bound).switch (h.le (by decide))).advances
  conditional bound h := ((statementsAnswer bound).conditional (h.le (by decide))).advances
  loop bound h := ((statementsAnswer bound).loop (h.le (by decide))).advances
  returning := answers_returning.advances
  evaluationOrAssignment := answers_evaluationOrAssignment.advances
  arm := answers_arm.advances
  expression := answers_expression.advances
  layers bound h ls hls := by
    have hlength := length_operatorLayers_le hls
    have hbound := h.le (show ls.length + 2 ≤ 8 by omega)
    exact ((expressionsAnswer bound).layers hlength hbound).advances
  primary bound h := ((expressionsAnswer bound).primary (h.le (by decide))).advances
  listElements := answers_listElements.advances
  global hsees := (answers_global_of_sees hsees).advances
  listGlobal := answers_listGlobal.advances
  mutableGlobal := answers_mutableGlobal.advances
  immutableGlobal := answers_immutableGlobal.advances
  statements bound h := h.statements_endsAt
  block := (sufficesAt_nestingBound tokens p).statements_endsAt.congr rfl

theorem loopsAdvance (tokens : List Token) : LoopsAdvance tokens where
  globals := isLoop_globals.loopsIn tokens
  functions := isLoop_functions.loopsIn tokens
  statements := isLoop_block.loopsIn tokens
  arms := isLoop_valueArms.loopsIn tokens
  operators _ _ h :=
    (isLoop_layers (Nat.le_of_succ_le_succ (length_operatorLayers_le h))).loopsIn tokens
  arguments := isLoop_expressions.loopsIn tokens
  parameters := isLoop_parameters.loopsIn tokens

theorem unbounded_layers_of_error {c : Cursor} {f : ParseFailure}
    (h : unbounded primary c = .error f) {ls : List (List String)} (hls : ls.length ≤ 4) :
    unbounded (layers · ls) c = .error f := by
  induction ls with
  | nil => exact (primary_eq_unbounded (by omega)).trans h
  | cons operators inner ih =>
      rw [List.length_cons] at hls
      rw [unbounded_layers (by omega)]
      exact bind_eq_error.mpr (Or.inl (ih (by omega)))

/-- An expression that starts with a literal without a value fails for it, and not with an
error of the grammar. -/
theorem expression_of_valueless {p : Nat} {t : Token} {ts : List Token} {f : ParseFailure}
    (hvalue : Literal.ofToken t = .error f) (hword : t.text ∉ ["NIL", "TRUE", "FALSE"]) :
    expression ⟨p, t :: ts⟩ = .error f := by
  have hliteral : (skip >>= fun _ => literalNode t) ⟨p, t :: ts⟩ = .error f := by
    change literalNode t ⟨p + 1, ts⟩ = .error f
    rw [literalNode, hvalue]
    rfl
  have hprimary : unbounded primary ⟨p, t :: ts⟩ = .error f := by
    simp only [List.mem_cons, List.not_mem_nil, or_false, not_or] at hword
    obtain ⟨hnil, htrue, hfalse⟩ := hword
    change operand _ t _ = _
    simp only [operand, beq_false_of_ne hnil, beq_false_of_ne htrue, beq_false_of_ne hfalse]
    cases hkind : t.kind with
    | integer => exact hliteral
    | decimal => exact hliteral
    | _ => simp [Literal.ofToken, hkind] at hvalue
  exact unbounded_layers_of_error hprimary (show operatorLayers.length ≤ 4 by decide)

theorem readInt?_of_long {ds : List Char} (hds : ∀ c ∈ ds, Text.isDigit c = true)
    (hlong : Text.digitLimit < ds.length) : Text.readInt? ds = none := by
  obtain ⟨d, ds, rfl⟩ := List.exists_cons_of_length_pos (Nat.zero_lt_of_lt hlong)
  rw [Text.readInt?, Decimal.splitSign_of_isDigit (hds d List.mem_cons_self)]
  exact if_neg fun h => Nat.not_lt.mpr h.2.2 hlong

/-- An integer literal of a number of ones. -/
def onesToken (n : Nat) : Token :=
  ⟨.integer, String.ofList (List.replicate n '1'), 0, n, 1, 1⟩

theorem ofToken_onesToken {n : Nat} (hn : Text.digitLimit < n) :
    Literal.ofToken (onesToken n) = .error .integerNumeral := by
  have hdigits : ∀ c ∈ List.replicate n '1', Text.isDigit c = true := by
    intro c hc
    rw [List.eq_of_mem_replicate hc]
    decide
  have hread : Text.readLooseInt? (onesToken n).text.toList = none := by
    rw [onesToken, String.toList_ofList,
      Text.readLooseInt?_of_plain fun c hc => Text.isPlain_of_isDigit (hdigits c hc)]
    exact readInt?_of_long hdigits (by rwa [List.length_replicate])
  have hkind : (onesToken n).kind = .integer := rfl
  simp only [Literal.ofToken, hkind, hread]

theorem expression_of_onesToken {n : Nat} (hn : Text.digitLimit < n) (p : Nat)
    (ts : List Token) : expression ⟨p, onesToken n :: ts⟩ = .error .integerNumeral := by
  refine expression_of_valueless (ofToken_onesToken hn) fun hword => ?_
  have hones : ∀ c ∈ (onesToken n).text.toList, c = '1' := by
    rw [onesToken, String.toList_ofList]
    exact fun c hc => List.eq_of_mem_replicate hc
  have hletters : ∀ s ∈ ["NIL", "TRUE", "FALSE"], ¬ ∀ c ∈ s.toList, c = '1' := by simp
  exact hletters _ hword hones

/-- Every rule makes progress from every position, so that every loop has a token for each of
its rounds and every row of tokens is decided.  A rule that is neither rejected nor returns
has come upon a literal without a value, which in source text is one that is too long. -/
theorem every_rule_makes_progress (tokens : List Token) :
    (∀ p, RulesAdvance tokens p) ∧ LoopsAdvance tokens ∧
      ((∃ tree, parse tokens = .ok tree) ∨ (∃ e, parse tokens = .error (.rejected e)) ∨
        ∃ t ∈ tokens, ∃ f, Literal.ofToken t = .error f ∧ parse tokens = .error f) ∧
      ∀ source, Token.scan source = .ok tokens → ∀ t ∈ tokens, ∀ f,
        Literal.ofToken t = .error f →
          (f = .integerNumeral ∧ t.kind = .integer ∧ Text.digitLimit < t.digits.length) ∨
            (f = .decimalNumeral ∧ t.kind = .decimal ∧ 10 ^ 18 ≤ source.toList.length) := by
  refine ⟨rulesAdvance tokens, loopsAdvance tokens, ?_, fun source hscan t ht f hvalue =>
    Token.overlong_of_valueless hscan ht hvalue⟩
  cases hparse : parse tokens with
  | ok tree => exact Or.inl ⟨tree, rfl⟩
  | error f =>
      rcases (isReasonIn_of_parse hparse).rejected_or_valueless with ⟨e, rfl⟩ | ⟨t, ht, hvalue⟩
      · exact Or.inr (Or.inl ⟨e, rfl⟩)
      · exact Or.inr (Or.inr ⟨t, ht, f, hvalue, rfl⟩)

/-- One digit more than are converted: the expression is neither rejected nor read. -/
theorem overlong_literal_is_not_rejected :
    expression (.ofPosition [onesToken 4301] 0) = .error .integerNumeral ∧
      RulesAdvance [onesToken 4301] 0 ∧ LoopsAdvance [onesToken 4301] :=
  have hprogress := every_rule_makes_progress [onesToken 4301]
  ⟨expression_of_onesToken (by decide) 0 [], hprogress.1 0, hprogress.2.1⟩

end Grammar
end BlockScript
