import BlockScript.Proofs.Grammar.Unbounded

/-!
# The loops of the grammar

A loop goes from state to state in rounds, as long as a round is due.  The rows of the
grammar are such loops: their state is the row of pieces so far, and for the operators of a
layer the operand so far.

When each round passes a token, a loop has no more rounds than there are tokens left.
-/

namespace BlockScript

namespace Rule

variable {α σ : Type}

/-- Rounds from a state on, as long as one is due: `n` of them at most, with the one that
finds that none is due any more. -/
def rounds (round : σ → Rule (Option σ)) : Nat → σ → Rule σ
  | 0, _ => fail .exhausted
  | n + 1, s => do
      match ← round s with
      | some s' => rounds round n s'
      | none => return s

/-- Rounds from a state on, no more than one for each token left. -/
def repeated (round : σ → Rule (Option σ)) (s : σ) : Rule σ := fun c =>
  rounds round (c.rest.length + 1) s c

/-- A number of rounds lead from a state at a cursor to another state at another cursor. -/
inductive Reaches (round : σ → Rule (Option σ)) : Nat → σ → Cursor → σ → Cursor → Prop
  | refl {s : σ} {c : Cursor} : Reaches round 0 s c s c
  | next {k : Nat} {s s₁ s₂ : σ} {c c₁ c₂ : Cursor} : round s c = .ok (some s₁, c₁) →
      Reaches round k s₁ c₁ s₂ c₂ → Reaches round (k + 1) s c s₂ c₂

/-- A round that answers, and passes a token unless it is the last one. -/
structure IsRound (round : σ → Rule (Option σ)) : Prop where
  answers : ∀ s c, (round s).Answers 0 c
  passes : ∀ {s s' c c'}, round s c = .ok (some s', c') → c.Behind 1 c'

namespace IsRound

variable {round : σ → Rule (Option σ)} (h : IsRound round)
include h

/-- As many rounds pass as many tokens. -/
theorem behind_of_reaches {k : Nat} {s s' : σ} {c c' : Cursor}
    (hreaches : Reaches round k s c s' c') : c.Behind k c' := by
  induction hreaches with
  | refl => exact .refl _
  | next hround _ ih =>
      have hbehind := (h.passes hround).add ih
      rwa [Nat.add_comm] at hbehind

/-- Rounds answer when one is granted for each token left. -/
theorem answers_rounds {n : Nat} {s : σ} {c : Cursor} (hn : c.rest.length < n) :
    (rounds round n s).Answers 0 c := by
  induction n generalizing s c with
  | zero => omega
  | succ n ih =>
      refine (h.answers s c).bind_of_ok fun next c' hround => ?_
      cases next with
      | none => exact answers_pure s
      | some s' =>
          have := (h.passes hround).length
          exact ih (by omega)

theorem answers_repeated {s : σ} {c : Cursor} : (repeated round s).Answers 0 c :=
  (h.answers_rounds (Nat.lt_succ_self _)).congr rfl

/-- Rules that go on from each state by a round are the rounds. -/
theorem eq_repeated {loop : σ → Rule σ}
    (hloop : ∀ s, loop s = round s >>= fun
      | some s' => loop s'
      | none => pure s) :
    loop = repeated round := by
  have hrounds : ∀ n s c, c.rest.length < n → loop s c = rounds round n s c := by
    intro n
    induction n with
    | zero => intro s c hn; omega
    | succ n ih =>
        intro s c hn
        rw [hloop]
        refine bind_congr rfl fun next c' hround => ?_
        cases next with
        | none => rfl
        | some s' =>
            have := (h.passes hround).length
            exact ih s' c' (by omega)
  funext s c
  exact hrounds _ s c (Nat.lt_succ_self _)

end IsRound

/-- A round that puts a piece behind the ones so far. -/
def appending (more : Rule Bool) (piece : Rule α) (pieces : List α) : Rule (Option (List α)) :=
  more >>= fun due =>
    if due then piece >>= fun next => pure (some (pieces ++ [next])) else pure none

theorem isRound_appending {more : Rule Bool} {piece : Rule α} (hmore : ∀ c, more.Answers 0 c)
    (hpiece : ∀ c c', more c = .ok (true, c') → piece.Answers 1 c') :
    IsRound (appending more piece) where
  answers pieces c := by
    refine (hmore c).bind_of_ok fun due c' hdue => ?_
    cases due with
    | false => exact answers_pure none
    | true => exact ((hpiece c c' hdue).bind fun _ _ _ => answers_pure _).weaken
  passes := by
    intro pieces pieces' c c' hround
    obtain ⟨due, c₁, hdue, hnext⟩ := bind_eq_ok.mp hround
    cases due with
    | false => cases hnext
    | true =>
        obtain ⟨next, c₂, hread, hpure⟩ := bind_eq_ok.mp hnext
        cases hpure
        have hbehind := ((hmore c).behind hdue).add ((hpiece c c₁ hdue).behind hread)
        rwa [Nat.zero_add] at hbehind

/-- A row is a loop on the pieces so far. -/
theorem IsRow.eq_repeated {row : Rule (List α)} {more : Rule Bool} {piece : Rule α}
    (h : row.IsRow more piece) (hround : IsRound (appending more piece)) :
    (fun pieces => row >>= fun others => pure (pieces ++ others)) =
      repeated (appending more piece) := by
  refine hround.eq_repeated fun pieces => ?_
  conv => lhs; rw [h]
  rw [appending, bind_assoc, bind_assoc]
  congr 1
  funext due
  cases due with
  | false => simp only [Bool.false_eq_true, if_false, pure_bind, List.append_nil]
  | true =>
      simp only [if_true, bind_assoc, pure_bind, List.append_assoc, List.cons_append,
        List.nil_append]

/-- A rule is a loop: it reads a state, and goes on from there in rounds. -/
structure IsLoop (loop start : Rule σ) (round : σ → Rule (Option σ)) : Prop where
  eq_bind : loop = start >>= repeated round
  isRound : IsRound round

theorem IsRow.isLoop {row : Rule (List α)} {more : Rule Bool} {piece : Rule α}
    (h : row.IsRow more piece) (hround : IsRound (appending more piece)) :
    row.IsLoop (pure []) (appending more piece) where
  eq_bind := by
    have hrow : (row >>= fun others => pure ([] ++ others)) = repeated (appending more piece) [] :=
      congrFun (h.eq_repeated hround) []
    simp only [List.nil_append, bind_pure] at hrow
    rw [pure_bind, hrow]
  isRound := hround

theorem isRound_commas {piece : Rule α} (hpiece : ∀ c, piece.Answers 1 c) :
    IsRound (appending (acceptText ",") piece) :=
  isRound_appending (fun _ => answers_acceptText_alone) fun _ c' _ => hpiece c'

/-- Pieces with commas in between are a loop from the first one. -/
theorem isLoop_separated {piece : Rule α} {pieces : Rule (List α)}
    (h : pieces = piece >>= fun first => behindComma pieces >>= fun others =>
      pure (first :: others)) (hpiece : ∀ c, piece.Answers 1 c) :
    pieces.IsLoop (piece >>= fun first => pure [first]) (appending (acceptText ",") piece) where
  eq_bind := by
    have hcommas := (isRow_behindComma h).eq_repeated (isRound_commas hpiece)
    rw [← hcommas]
    simpa only [bind_assoc, pure_bind, List.singleton_append] using h
  isRound := isRound_commas hpiece

end Rule

namespace Grammar

open Rule

theorem isLoop_globals :
    (unbounded globals).IsLoop (pure []) (appending (Rule.seesText globalKeywords) global) := by
  refine isRow_globals.isLoop (isRound_appending (fun c => Cursor.Behind.refl c) ?_)
  intro c c' hdue
  obtain ⟨hsees, rfl⟩ := Prod.mk.inj (Except.ok.inj hdue)
  exact answers_global_of_sees hsees

theorem isLoop_functions :
    (unbounded functions).IsLoop (pure []) (appending (sees (.text "FUN")) function) :=
  isRow_functions.isLoop
    (isRound_appending (fun c => Cursor.Behind.refl c) fun _ _ _ => answers_function)

theorem answers_statementFollows {c : Cursor} : statementFollows.Answers 0 c := by
  refine answers_cursor ?_
  split
  · exact answers_pure false
  split
  · exact answers_reject _
  · exact answers_pure true

theorem answers_oneStatement {c : Cursor} : oneStatement.Answers 1 c :=
  ((statementsAnswer _).statement (by unfold nestingBound; omega)).congr rfl

theorem isLoop_block : block.IsLoop (pure []) (appending statementFollows oneStatement) :=
  isRow_block.isLoop
    (isRound_appending (fun _ => answers_statementFollows) fun _ _ _ => answers_oneStatement)

theorem answers_unbounded_defaultArm {c : Cursor} : (unbounded defaultArm).Answers 1 c :=
  ((statementsAnswer _).defaultArm (by unfold nestingBound; omega)).congr rfl

theorem answers_arm {c : Cursor} : arm.Answers 1 c := by
  cases hcase : c.sees (.text "CASE") with
  | false => exact answers_unbounded_defaultArm.congr (arm_of_not_sees hcase)
  | true =>
      obtain ⟨p, _ | ⟨t, ts⟩⟩ := c
      · cases hcase
      have ht : t.text = "CASE" := by simpa [Cursor.sees, TokenPattern.fits] using hcase
      refine Answers.congr (answers_skip ?_) (acceptText_bind_of_eq ht p ts)
      refine (answers_expression.bind fun value c₁ h₁ => ?_).weaken
      refine ((answers_expectText _).bind fun _ c₂ h₂ => ?_).weaken
      exact answers_block.bind fun _ _ _ => answers_pure _

theorem isLoop_valueArms :
    (unbounded valueArms).IsLoop (pure []) (appending (sees (.text "CASE")) arm) :=
  isRow_valueArms.isLoop
    (isRound_appending (fun c => Cursor.Behind.refl c) fun _ _ _ => answers_arm)

theorem isLoop_expressions :
    (unbounded expressions).IsLoop (expression >>= fun first => pure [first])
      (appending (acceptText ",") expression) :=
  isLoop_separated unbounded_expressions fun _ => answers_expression

theorem isLoop_parameters :
    (unbounded parameters).IsLoop (parameter >>= fun first => pure [first])
      (appending (acceptText ",") parameter) :=
  isLoop_separated unbounded_parameters fun _ => answers_parameter

/-- A round that takes an operator and its right operand to the operand so far. -/
def operatorRound (operators : List String) (inner : List (List String)) (left : Node) :
    Rule (Option Node) := do
  let c ← Rule.cursor
  match c.rest with
  | t :: _ =>
      if operators.contains t.text then
        Rule.skip
        let right ← unbounded (layers · inner)
        return some (.binary t.text left right)
      else return none
  | [] => return none

theorem answers_unbounded_layers {ls : List (List String)} (hls : ls.length ≤ 4) {c : Cursor} :
    (unbounded (layers · ls)).Answers 1 c :=
  ((expressionsAnswer _).layers hls (by unfold nestingBound; omega)).congr rfl

/-- An operator and its right operand. -/
theorem answers_operator {operators : List String} {inner : List (List String)}
    (hinner : inner.length ≤ 3) {left : Node} {p : Nat} {t : Token} {ts : List Token}
    (ht : operators.contains t.text = true) :
    (operatorRound operators inner left).Answers 1 ⟨p, t :: ts⟩ := by
  refine answers_cursor ?_
  simp only [ht, if_true]
  exact answers_skip ((answers_unbounded_layers (by omega)).bind fun _ _ _ =>
    answers_pure _).weaken

theorem operatorRound_of_not_contains {operators : List String} {inner : List (List String)}
    {left : Node} {p : Nat} {t : Token} {ts : List Token}
    (ht : operators.contains t.text = false) :
    operatorRound operators inner left ⟨p, t :: ts⟩ = .ok (none, ⟨p, t :: ts⟩) := by
  change (if operators.contains t.text = true then _ else pure none : Rule (Option Node)) _ = _
  rw [ht]
  rfl

theorem isRound_operatorRound {operators : List String} {inner : List (List String)}
    (hinner : inner.length ≤ 3) : IsRound (operatorRound operators inner) where
  answers left c := by
    obtain ⟨p, _ | ⟨t, ts⟩⟩ := c
    · exact Cursor.Behind.refl _
    cases ht : operators.contains t.text with
    | true => exact (answers_operator hinner ht).weaken
    | false => exact (answers_pure none).congr (operatorRound_of_not_contains ht)
  passes := by
    rintro left left' ⟨p, _ | ⟨t, ts⟩⟩ c' hround
    · cases hround
    cases ht : operators.contains t.text with
    | true => exact (answers_operator hinner ht).behind hround
    | false =>
        rw [operatorRound_of_not_contains ht] at hround
        cases hround

/-- A layer of operators is a loop from its first operand. -/
theorem isLoop_layers {operators : List String} {inner : List (List String)}
    (hinner : inner.length ≤ 3) :
    (unbounded (layers · (operators :: inner))).IsLoop (unbounded (layers · inner))
      (operatorRound operators inner) where
  eq_bind := by
    have hoperations : (fun left => unbounded (operations · operators inner left)) =
        repeated (operatorRound operators inner) := by
      refine (isRound_operatorRound hinner).eq_repeated fun left => ?_
      rw [unbounded_operations hinner, operatorRound, bind_assoc]
      congr 1
      funext c
      cases c.rest with
      | nil => rfl
      | cons t ts =>
          by_cases ht : operators.contains t.text = true
          · simp only [ht, if_true, bind_assoc, pure_bind]
          · simp only [ht]
            rfl
    rw [unbounded_layers hinner, hoperations]
  isRound := isRound_operatorRound hinner

end Grammar
end BlockScript
