import BlockScript.Proofs.Grammar.Prefixes

/-!
# Rules without a bound

The bound on nested rules makes no difference once it is large enough for the tokens left.
So a family of rules, one for each bound, comes to one rule, `unbounded`, and under every
bound that is enough it gives the results of that rule.

The rules without a bound call each other as the grammar says.  For the rules that read
rows of pieces this gives equations in which each rule reads a piece and then calls itself.
-/

namespace BlockScript

open Grammar (nestingBound)

namespace Rule

variable {α β : Type}

/-- The rule that a family of rules comes to: each row of tokens gets a bound that is large
enough for it. -/
def unbounded (s : Nat → Rule α) : Rule α := fun c => s (nestingBound c.rest) c

/-- Whether the next token has one of the given texts. -/
def seesText (texts : List String) : Rule Bool := fun c => .ok (c.seesText texts, c)

/-- A row of pieces: as long as there is one more it is read, and then the others. -/
def IsRow (row : Rule (List α)) (more : Rule Bool) (piece : Rule α) : Prop :=
  row = more >>= fun due =>
    if due then piece >>= fun first => row >>= fun others => pure (first :: others)
    else pure []

/-- Behind a piece: nothing, or a comma and the pieces behind it. -/
def behindComma (pieces : Rule (List α)) : Rule (List α) :=
  acceptText "," >>= fun due => if due then pieces else pure []

instance : LawfulMonad Rule := by
  refine LawfulMonad.mk' Rule (fun r => ?_) (fun _ _ => rfl) bind_assoc
  funext c
  simp only [Functor.map]
  cases r c <;> rfl

/-- Chains agree when their first rules do, and the second ones behind what was read. -/
theorem bind_congr {r r' : Rule α} {next next' : α → Rule β} {c : Cursor} (hr : r c = r' c)
    (hnext : ∀ a c', r c = .ok (a, c') → next a c' = next' a c') :
    (r >>= next) c = (r' >>= next') c := by
  simp only [Bind.bind]
  rw [← hr]
  cases h : r c with
  | error f => rfl
  | ok result => exact hnext _ _ h

/-- A piece in front of a row, where both are given in two ways. -/
theorem Answers.cons_congr {piece piece' : Rule α} {row row' : Rule (List α)} {k : Nat}
    {c : Cursor} (h : piece.Answers k c) (hpiece : piece c = piece' c)
    (hrow : ∀ c', c.Behind k c' → row c' = row' c') :
    (piece >>= fun first => row >>= fun others => pure (first :: others)) c =
      (piece' >>= fun first => row' >>= fun others => pure (first :: others)) c :=
  bind_congr hpiece fun _ c' hc' => bind_congr (hrow c' (h.behind hc')) fun _ _ _ => rfl

theorem acceptText_of_sees {s : String} {c : Cursor} (h : c.sees (.text s) = true) :
    acceptText s c = .ok (true, c.skip) := by
  simp [acceptText, accept, Cursor.seesAll, h, Cursor.skip]

theorem acceptText_of_not_sees {s : String} {c : Cursor} (h : c.sees (.text s) = false) :
    acceptText s c = .ok (false, c) := by
  simp [acceptText, accept, Cursor.seesAll, h]

theorem answers_acceptText_alone {s : String} {c : Cursor} : (acceptText s).Answers 0 c := by
  have h : (acceptText s >>= pure).Answers 0 c :=
    answers_acceptText (fun _ _ => answers_pure true) (answers_pure false)
  exact h.congr (by rw [bind_pure])

/-- A piece in front of a comma and more pieces, where all are given in two ways. -/
theorem Answers.separated_congr {piece piece' : Rule α} {pieces pieces' : Rule (List α)}
    {k : Nat} {c : Cursor} (h : piece.Answers k c) (hpiece : piece c = piece' c)
    (hpieces : ∀ c', c.Behind k c' → pieces c' = pieces' c') :
    (piece >>= fun first => acceptText "," >>= fun due =>
        if due then pieces >>= fun others => pure (first :: others) else pure [first]) c =
      (piece' >>= fun first => behindComma pieces' >>= fun others =>
        pure (first :: others)) c := by
  refine bind_congr hpiece fun first c₁ h₁ => ?_
  rw [behindComma, bind_assoc]
  refine bind_congr rfl fun due c₂ h₂ => ?_
  have hc₂ := (h.behind h₁).trans (answers_acceptText_alone.behind h₂)
  cases due with
  | true => exact bind_congr (hpieces c₂ hc₂) fun _ _ _ => rfl
  | false => rfl

/-- Pieces with commas in between are a first piece and a row of others. -/
theorem isRow_behindComma {piece : Rule α} {pieces : Rule (List α)}
    (h : pieces = piece >>= fun first => behindComma pieces >>= fun others =>
      pure (first :: others)) :
    (behindComma pieces).IsRow (acceptText ",") piece := by
  unfold IsRow
  rw [← h]
  rfl

/-- Under two bounds for which a prompt rule answers it gives the same. -/
theorem Prompt.eq_of_answers {start : List Token → Prop} {follow : α → List Token → Prop}
    {s : Nat → Rule α} {b b' k k' : Nat} {c : Cursor}
    (h : ∀ b, Prompt start follow s (s b) c) (hb : (s b).Answers k c)
    (hb' : (s b').Answers k' c) : s b c = s b' c :=
  ((h b).settles rfl hb.ne_exhausted).unique ((h b').settles rfl hb'.ne_exhausted)

end Rule

namespace Grammar

open Rule

variable {bound : Nat} {c : Cursor}

section Expressions

theorem layers_eq_unbounded {ls : List (List String)} (hls : ls.length ≤ 4)
    (hbound : 8 * c.rest.length + ls.length + 2 ≤ bound) :
    layers bound ls c = unbounded (layers · ls) c :=
  Prompt.eq_of_answers (fun b => (expressionsPrompt b).layers ls c)
    ((expressionsAnswer bound).layers hls hbound)
    ((expressionsAnswer _).layers hls (by unfold nestingBound; omega))

theorem operations_eq_unbounded {operators : List String} {inner : List (List String)}
    {left : Node} (hinner : inner.length ≤ 3) (hbound : 8 * c.rest.length + 1 ≤ bound) :
    operations bound operators inner left c =
      unbounded (operations · operators inner left) c :=
  Prompt.eq_of_answers (fun b => (expressionsPrompt b).operations operators inner left .absent c)
    ((expressionsAnswer bound).operations hinner hbound)
    ((expressionsAnswer _).operations hinner (by unfold nestingBound; omega))

theorem primary_eq_unbounded (hbound : 8 * c.rest.length + 1 ≤ bound) :
    primary bound c = unbounded primary c :=
  Prompt.eq_of_answers (fun b => (expressionsPrompt b).primary c)
    ((expressionsAnswer bound).primary hbound)
    ((expressionsAnswer _).primary (by unfold nestingBound; omega))

/-- A layer of operators is an operand of the next layer and operators behind it. -/
theorem unbounded_layers {operators : List String} {inner : List (List String)}
    (hinner : inner.length ≤ 3) :
    unbounded (layers · (operators :: inner)) = unbounded (layers · inner) >>= fun left =>
      unbounded (operations · operators inner left) := by
  funext c
  have hbound : 8 * c.rest.length + inner.length + 2 ≤ 16 * c.rest.length + 15 := by omega
  refine bind_congr (layers_eq_unbounded (by omega) hbound) fun left c' hc' => ?_
  have := (((expressionsAnswer _).layers (by omega) hbound).behind hc').length
  exact operations_eq_unbounded hinner (by omega)

/-- Operators of one layer: the next one takes what was read as its left operand. -/
theorem unbounded_operations {operators : List String} {inner : List (List String)}
    (hinner : inner.length ≤ 3) (left : Node) :
    unbounded (operations · operators inner left) = cursor >>= fun c =>
      match c.rest with
      | t :: _ =>
          if operators.contains t.text then
            skip >>= fun _ => unbounded (layers · inner) >>= fun right =>
              unbounded (operations · operators inner (.binary t.text left right))
          else pure left
      | [] => pure left := by
  funext c
  obtain ⟨p, _ | ⟨t, ts⟩⟩ := c
  · rfl
  change (if operators.contains t.text = true then
      skip >>= fun _ => layers (16 * (ts.length + 1) + 15) inner >>= fun right =>
        operations (16 * (ts.length + 1) + 15) operators inner (.binary t.text left right)
    else pure left : Rule Node) ⟨p, t :: ts⟩ =
      (if operators.contains t.text = true then _ else _ : Rule Node) ⟨p, t :: ts⟩
  split
  · -- The operator is passed, so all that follows has less to read.
    change (layers _ inner >>= _) (⟨p + 1, ts⟩ : Cursor) = _
    have hbound : 8 * ts.length + inner.length + 2 ≤ 16 * (ts.length + 1) + 15 := by omega
    refine bind_congr (layers_eq_unbounded (by omega) hbound) fun right c' hc' => ?_
    have := (((expressionsAnswer _).layers (by omega) hbound).behind hc').length
    exact operations_eq_unbounded hinner (by simp only at this; omega)
  · rfl

theorem expressions_eq_unbounded (hbound : 8 * c.rest.length + 7 ≤ bound) :
    expressions bound c = unbounded expressions c :=
  Prompt.eq_of_answers (fun b => (expressionsPrompt b).expressions c)
    ((expressionsAnswer bound).expressions hbound)
    ((expressionsAnswer _).expressions (by unfold nestingBound; omega))

/-- Expressions with commas in between. -/
theorem unbounded_expressions :
    unbounded expressions = expression >>= fun first =>
      behindComma (unbounded expressions) >>= fun others => pure (first :: others) := by
  funext c
  have hbound : 8 * c.rest.length + 6 ≤ 16 * c.rest.length + 15 := by omega
  refine ((expressionsAnswer _).expression_of_bound hbound).separated_congr
    (layers_eq_unbounded (by decide) hbound) fun c' hc' => expressions_eq_unbounded ?_
  have := hc'.length
  omega

end Expressions

section Statements

theorem statements_eq_block (hbound : 8 * c.rest.length + 3 ≤ bound) :
    statements bound c = block c :=
  Prompt.eq_of_answers (fun b => (statementsPrompt b).statements c)
    ((statementsAnswer bound).statements hbound)
    ((statementsAnswer _).statements (by unfold nestingBound; omega))

theorem statement_eq_oneStatement (hbound : 8 * c.rest.length + 2 ≤ bound) :
    statement bound c = oneStatement c :=
  Prompt.eq_of_answers (fun b => (statementsPrompt b).statement c)
    ((statementsAnswer bound).statement hbound)
    ((statementsAnswer _).statement (by unfold nestingBound; omega))

theorem valueArms_eq_unbounded (hbound : 8 * c.rest.length + 1 ≤ bound) :
    valueArms bound c = unbounded valueArms c :=
  Prompt.eq_of_answers (fun b => (statementsPrompt b).valueArms c)
    ((statementsAnswer bound).valueArms hbound)
    ((statementsAnswer _).valueArms (by unfold nestingBound; omega))

/-- Whether a block goes on, which the end of the tokens leaves open. -/
def statementFollows : Rule Bool := do
  let c ← Rule.cursor
  if c.seesText blockTerminators then return false
  else if c.rest.isEmpty then Rule.reject (.expected "END")
  else return true

/-- A block is a row of statements. -/
theorem isRow_block : block.IsRow statementFollows oneStatement := by
  funext c
  change (if c.seesText blockTerminators = true then pure [] else
    if c.rest.isEmpty = true then reject _ else
      statement (16 * c.rest.length + 15) >>= fun first =>
        statements (16 * c.rest.length + 15) >>= fun others =>
          pure (first :: others) : Rule (List Node)) c =
    ((if c.seesText blockTerminators = true then pure false else
      if c.rest.isEmpty = true then reject _ else pure true : Rule Bool) >>= _) c
  split
  · rfl
  split
  · rfl
  · refine ((statementsAnswer _).statement (by omega)).cons_congr
      (statement_eq_oneStatement (by omega)) fun c' hc' => statements_eq_block ?_
    have := hc'.length
    omega

/-- A case of a choice: a value and a block, or the default. -/
def arm : Rule Node := do
  if ← Rule.acceptText "CASE" then
    let value ← expression
    Rule.expectText ":"
    let body ← block
    return .arm value body
  else unbounded defaultArm

/-- The default is the case that does not start with `CASE`. -/
theorem arm_of_not_sees (h : c.sees (.text "CASE") = false) : arm c = unbounded defaultArm c := by
  simp only [arm, Bind.bind, acceptText_of_not_sees h]
  rfl

/-- The cases with a value are a row. -/
theorem isRow_valueArms : (unbounded valueArms).IsRow (sees (.text "CASE")) arm := by
  funext c
  change (acceptText "CASE" >>= fun due =>
    if due = true then
      expression >>= fun value => expectText ":" >>= fun _ =>
        statements (16 * c.rest.length + 15) >>= fun body =>
          valueArms (16 * c.rest.length + 15) >>= fun others =>
            pure (.arm value body :: others)
    else pure []) c = (if c.sees (.text "CASE") = true then
      (acceptText "CASE" >>= _) >>= _ else pure [] : Rule (List Node)) c
  cases hcase : c.sees (.text "CASE") with
  | false =>
      simp only [Bind.bind, acceptText_of_not_sees hcase]
      rfl
  | true =>
      rw [if_pos rfl, bind_assoc]
      refine bind_congr rfl fun due c₁ h₁ => ?_
      have hc₁ := answers_acceptText_alone.behind h₁
      rw [acceptText_of_sees hcase] at h₁
      cases h₁
      simp only [if_true, bind_assoc]
      refine bind_congr rfl fun value c₂ h₂ => bind_congr rfl fun _ c₃ h₃ => ?_
      have hc₃ := hc₁.trans ((answers_expression.behind h₂).weaken.trans
        ((answers_expectText _).behind h₃).weaken)
      have hlength := hc₃.length
      have hbody : statements (16 * c.rest.length + 15) c₃ = block c₃ :=
        statements_eq_block (by omega)
      refine bind_congr hbody fun body c₄ h₄ => ?_
      have := (answers_block.behind (hbody.symm.trans h₄)).length
      exact bind_congr (valueArms_eq_unbounded (by omega)) fun _ _ _ => rfl

end Statements

section Declarations

theorem globals_eq_unbounded (hbound : c.rest.length + 1 ≤ bound) :
    globals bound c = unbounded globals c :=
  Prompt.eq_of_answers (fun b => (steady_globals b).prompt c) (answers_globals hbound)
    (answers_globals (by unfold nestingBound; omega))

theorem functions_eq_unbounded (hbound : c.rest.length + 1 ≤ bound) :
    functions bound c = unbounded functions c :=
  Prompt.eq_of_answers (fun b => (steady_functions b fun _ => True).prompt c)
    (answers_functions hbound) (answers_functions (by unfold nestingBound; omega))

theorem parameters_eq_unbounded (hbound : c.rest.length + 1 ≤ bound) :
    parameters bound c = unbounded parameters c :=
  Prompt.eq_of_answers (fun b => prompt_parameters b c) (answers_parameters hbound)
    (answers_parameters (by unfold nestingBound; omega))

/-- The globals of a program are a row. -/
theorem isRow_globals : (unbounded globals).IsRow (seesText globalKeywords) global := by
  funext c
  change (if c.seesText globalKeywords = true then
      global >>= fun first => globals (16 * c.rest.length + 15) >>= fun others =>
        pure (first :: others)
    else pure [] : Rule (List Node)) c =
      (if c.seesText globalKeywords = true then _ else _ : Rule (List Node)) c
  split
  · rename_i hsees
    refine (answers_global_of_sees hsees).cons_congr rfl fun c' hc' => globals_eq_unbounded ?_
    have := hc'.length
    omega
  · rfl

/-- The functions of a program are a row. -/
theorem isRow_functions : (unbounded functions).IsRow (sees (.text "FUN")) function := by
  funext c
  change (if c.sees (.text "FUN") = true then
      function >>= fun first => functions (16 * c.rest.length + 15) >>= fun others =>
        pure (first :: others)
    else pure [] : Rule (List Node)) c =
      (if c.sees (.text "FUN") = true then _ else _ : Rule (List Node)) c
  split
  · refine answers_function.cons_congr rfl fun c' hc' => functions_eq_unbounded ?_
    have := hc'.length
    omega
  · rfl

/-- Parameters with commas in between. -/
theorem unbounded_parameters :
    unbounded parameters = parameter >>= fun first =>
      behindComma (unbounded parameters) >>= fun others => pure (first :: others) := by
  funext c
  have hbehind : ∀ c', c.Behind 1 c' →
      parameters (16 * c.rest.length + 15) c' = unbounded parameters c' := by
    intro c' hc'
    have := hc'.length
    exact parameters_eq_unbounded (by omega)
  exact answers_parameter.separated_congr rfl hbehind

end Declarations

end Grammar
end BlockScript
