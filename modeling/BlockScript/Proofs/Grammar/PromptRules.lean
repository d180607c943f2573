import BlockScript.Proofs.Grammar.Promptness

/-!
# The rules of the grammar are prompt

Each rule of the grammar decides token by token, and a few words complete what it has
passed.  What may not follow is a token that the rule would take: an operator of its layers
behind an expression, a colon behind a name that may have a type.
-/

namespace BlockScript
namespace Grammar

open Rule

theorem avoids_nil (texts : List String) : Avoids texts [] := by
  simp [Avoids]

/-- A first token that is none of some texts. -/
theorem avoids_cons {texts : List String} {t : Token} {z : List Token} :
    Avoids texts (t :: z) ↔ t.text ∉ texts := by
  simp [Avoids]

section Expressions

variable {c : Cursor}

/-- What may follow an expression: no operator of its layers, and no bracket that would make
its last name a call or an item. -/
def AfterLayers (ls : List (List String)) (_ : Node) (z : List Token) : Prop :=
  Avoids (ls.flatten ++ ["(", "["]) z

/-- What may follow a row of expressions. -/
def AfterExpressions (_ : List Node) (z : List Token) : Prop :=
  Avoids ("," :: (operatorLayers.flatten ++ ["(", "["])) z

theorem AfterLayers.inner {operators : List String} {inner : List (List String)} {e e' : Node}
    {z : List Token} (h : AfterLayers (operators :: inner) e z) : AfterLayers inner e' z :=
  h.mono (by rw [List.flatten_cons, List.append_assoc]; exact List.subset_append_right _ _)

theorem AfterLayers.operators {operators : List String} {inner : List (List String)} {e : Node}
    {z : List Token} (h : AfterLayers (operators :: inner) e z) : Avoids operators z :=
  h.mono (by rw [List.flatten_cons, List.append_assoc]; exact List.subset_append_left _ _)

/-- An operator that does not stand there ends its layer. -/
theorem operations_of_avoids {bound : Nat} {operators : List String}
    {inner : List (List String)} {left : Node} {p : Nat} {z : List Token}
    (hz : Avoids operators z) :
    operations (bound + 1) operators inner left ⟨p, z⟩ = .ok (left, ⟨p, z⟩) := by
  cases z with
  | nil => rfl
  | cons t z =>
      have ht : ¬ operators.contains t.text = true := by simpa using avoids_cons.mp hz
      change (if operators.contains t.text = true then _ else (pure left : Rule Node))
        ⟨p, t :: z⟩ = _
      rw [if_neg ht]
      rfl

theorem operations_of_mem {bound : Nat} {operators : List String}
    {inner : List (List String)} {left : Node} {p : Nat} {t : Token} {z : List Token}
    (ht : operators.contains t.text = true) :
    operations (bound + 1) operators inner left ⟨p, t :: z⟩ =
      (skip >>= fun _ => layers bound inner >>= fun right =>
        operations bound operators inner (.binary (Name.ofText t.text) left right))
        ⟨p, t :: z⟩ := by
  change (if operators.contains t.text = true then _ else (pure left : Rule Node))
    ⟨p, t :: z⟩ = _
  rw [if_pos ht]

theorem completable_operations {operators : List String} {inner : List (List String)}
    {left e : Node} :
    Completable (AfterLayers inner e) (AfterLayers (operators :: inner)) fun b =>
      operations b operators inner left :=
  completable_nil (fun _ => AfterLayers.inner) fun _ _ hz =>
    (Settles.of_forall fun _ => operations_of_avoids hz.operators).succ

/-- What an operand is by its first token. -/
def operand (bound : Nat) (t : Token) : Rule Node :=
  if t.text == "NIL" then skip >>= fun _ => pure (.literal .nil)
  else if t.text == "TRUE" then skip >>= fun _ => pure (.literal (.boolean true))
  else if t.text == "FALSE" then skip >>= fun _ => pure (.literal (.boolean false))
  else match t.kind with
    | .identifier => skip >>= fun _ => named bound t.text
    | .operator =>
        if t.text == "[" then
          skip >>= fun _ => expressions bound >>= fun elements => expectText "]" >>= fun _ =>
            pure (.list elements)
        else if t.text == "(" then
          skip >>= fun _ => layers bound operatorLayers >>= fun inner => expectText ")" >>=
            fun _ => pure (.group inner)
        else reject (.expected "expression")
    | _ => skip >>= fun _ => literalNode t

theorem primary_cons (bound p : Nat) (t : Token) (ts : List Token) :
    primary (bound + 1) ⟨p, t :: ts⟩ = operand bound t ⟨p, t :: ts⟩ := rfl

section Completions

variable {start : List Token → Prop} (hstart : ∀ z, start (word .identifier "NIL" :: z))
include hstart

theorem completable_primary : Completable start (AfterLayers []) primary := by
  refine ⟨[word .identifier "NIL"], .literal .nil, ?_, fun z _ => hstart z, fun p z _ => ?_⟩
  · exact fun t ht => by simp_all [completions]
  · exact (Settles.of_forall fun _ => rfl).succ

theorem completable_layers (ls : List (List String)) :
    Completable start (AfterLayers ls) fun b => layers b ls := by
  induction ls with
  | nil => exact (completable_primary hstart).succ
  | cons operators inner ih =>
      exact (ih.bind fun left => completable_operations (e := left)).succ

theorem completable_expressions : Completable start AfterExpressions expressions := by
  refine ((completable_layers hstart operatorLayers).bind fun first => ?_).succ
  refine completable_accept (completable_pure fun z hz => ⟨?_, ?_⟩)
  · exact hz.mono (List.subset_cons_self _ _)
  · exact hz.mono (by simp)

end Completions

theorem completable_named (name : String) :
    Completable (fun _ => True) (AfterLayers []) fun b => named b name := by
  refine (completable_accept ?_).succ
  refine completable_accept (completable_pure fun z hz => ?_)
  exact ⟨⟨trivial, hz.mono (by simp)⟩, hz.mono (by simp)⟩

theorem prompt_literalNode {p : Nat} (t : Token) (ts : List Token) :
    Prompt Passes (AfterLayers []) (fun _ => skip >>= fun _ => literalNode t)
      (skip >>= fun _ => literalNode t) ⟨p, t :: ts⟩ := by
  cases hvalue : Literal.ofToken t with
  | ok value =>
      have hnode : literalNode t = pure (.literal value) := by
        rw [literalNode, hvalue]
      rw [hnode]
      exact prompt_skip (P := fun _ => True) (steady_pure fun _ _ => trivial)
  | error f =>
      have hnode : literalNode t = Rule.fail f := by
        rw [literalNode, hvalue]
      have hf : ∀ e, f ≠ .rejected e := by
        rintro e rfl
        unfold Literal.ofToken at hvalue
        repeat' split at hvalue
        all_goals cases hvalue
      rw [hnode]
      exact prompt_of_failure rfl hf fun _ => rfl

/-- What is claimed of each rule for expressions at one bound. -/
structure ExpressionsPrompt (bound : Nat) : Prop where
  layers : ∀ (ls : List (List String)) (c : Cursor),
    Prompt Passes (AfterLayers ls) (fun b => layers b ls) (layers bound ls) c
  operations : ∀ (operators : List String) (inner : List (List String)) (left e : Node)
    (c : Cursor),
    Prompt (AfterLayers inner e) (AfterLayers (operators :: inner))
      (fun b => operations b operators inner left) (operations bound operators inner left) c
  primary : ∀ c : Cursor, Prompt Passes (AfterLayers []) primary (primary bound) c
  named : ∀ (name : String) (c : Cursor),
    Prompt (fun _ => True) (AfterLayers []) (fun b => named b name) (named bound name) c
  expressions : ∀ c : Cursor, Prompt Passes AfterExpressions expressions (expressions bound) c

namespace ExpressionsPrompt

theorem zero : ExpressionsPrompt 0 where
  layers _ _ := prompt_exhausted
  operations _ _ _ _ _ := prompt_exhausted
  primary _ := prompt_exhausted
  named _ _ := prompt_exhausted
  expressions _ := prompt_exhausted

variable {bound : Nat} (ih : ExpressionsPrompt bound)
include ih

theorem steady_layers {start : List Token → Prop}
    (hstart : ∀ z, start (word .identifier "NIL" :: z)) (ls : List (List String)) :
    Steady start (AfterLayers ls) (fun b => Grammar.layers b ls) (Grammar.layers bound ls) :=
  ⟨fun c => (ih.layers ls c).of_passes, completable_layers hstart ls⟩

theorem steady_operations (operators : List String) (inner : List (List String))
    (left e : Node) :
    Steady (AfterLayers inner e) (AfterLayers (operators :: inner))
      (fun b => Grammar.operations b operators inner left)
      (Grammar.operations bound operators inner left) :=
  ⟨ih.operations operators inner left e, completable_operations⟩

theorem steady_expressions {start : List Token → Prop}
    (hstart : ∀ z, start (word .identifier "NIL" :: z)) :
    Steady start AfterExpressions Grammar.expressions (Grammar.expressions bound) :=
  ⟨fun c => (ih.expressions c).of_passes, completable_expressions hstart⟩

theorem layers_succ (ls : List (List String)) (c : Cursor) :
    Prompt Passes (AfterLayers ls) (fun b => Grammar.layers b ls)
      (Grammar.layers (bound + 1) ls) c := by
  cases ls with
  | nil => exact Prompt.succ (ih.primary c)
  | cons operators inner =>
      exact Prompt.succ ((ih.layers inner c).bind fun left =>
        ih.steady_operations operators inner left left)

theorem operations_succ (operators : List String) (inner : List (List String)) (left e : Node)
    (c : Cursor) :
    Prompt (AfterLayers inner e) (AfterLayers (operators :: inner))
      (fun b => Grammar.operations b operators inner left)
      (Grammar.operations (bound + 1) operators inner left) c := by
  refine Prompt.succ ?_
  by_cases hc : Avoids operators c.rest
  · exact prompt_stop (s := fun b => Grammar.operations (b + 1) operators inner left)
      (fun hz hz' => by rwa [Avoids, hz]) hc (fun b p z hz => operations_of_avoids hz)
      (fun z hz => hz.operators) fun z hz => hz.inner
  · obtain ⟨p, _ | ⟨t, ts⟩⟩ := c
    · exact absurd (avoids_nil _) hc
    have ht : operators.contains t.text = true := by simpa [avoids_cons] using hc
    refine Prompt.dispatch_cons (s := fun b => Grammar.operations (b + 1) operators inner left)
      ?_ fun b z => operations_of_mem ht
    -- The next operator of this layer, its right operand, and what is left of the layer.
    exact prompt_skip (P := fun _ => True)
      ((ih.steady_layers (fun _ => trivial) inner).bind fun right =>
      ih.steady_operations operators inner _ right)

theorem primary_succ (c : Cursor) :
    Prompt Passes (AfterLayers []) Grammar.primary (Grammar.primary (bound + 1)) c := by
  refine Prompt.succ ?_
  obtain ⟨p, _ | ⟨t, ts⟩⟩ := c
  · exact Prompt.dispatch_nil (s := fun b => Grammar.primary (b + 1))
      (prompt_reject (.expected "expression")) fun _ => rfl
  refine Prompt.dispatch_cons (s := fun b => Grammar.primary (b + 1))
    (u := fun b => operand b t) ?_ fun b z => primary_cons b p t z
  have hword : ∀ s, Prompt Passes (AfterLayers []) (fun _ => skip >>= fun _ => pure (.literal s))
      (skip >>= fun _ => pure (.literal s)) ⟨p, t :: ts⟩ := fun s =>
    prompt_skip (P := fun _ => True) (steady_pure fun _ _ => trivial)
  unfold operand
  by_cases hnil : t.text == "NIL"
  · simp only [hnil, if_true]
    exact hword _
  by_cases htrue : t.text == "TRUE"
  · simp only [hnil, htrue, if_true]
    exact hword _
  by_cases hfalse : t.text == "FALSE"
  · simp only [hnil, htrue, hfalse, if_true]
    exact hword _
  simp only [hnil, htrue, hfalse]
  cases hk : t.kind with
  | identifier => exact prompt_skip ⟨ih.named t.text, completable_named t.text⟩
  | operator =>
      by_cases hopen : t.text == "["
      · simp only [hopen, if_true]
        exact prompt_skip (P := fun _ => True) ((ih.steady_expressions fun _ => trivial).closed
          (t := word .operator "]") (by decide) (fun _ _ => avoids_cons.mpr (by decide)) Node.list)
      by_cases hparen : t.text == "("
      · simp only [hopen, hparen, if_true]
        exact prompt_skip (P := fun _ => True)
          ((ih.steady_layers (fun _ => trivial) operatorLayers).closed
          (t := word .operator ")") (by decide) (fun _ _ => avoids_cons.mpr (by decide)) Node.group)
      simp only [hopen, hparen]
      exact prompt_reject _
  | integer => exact prompt_literalNode t ts
  | decimal => exact prompt_literalNode t ts
  | character => exact prompt_literalNode t ts
  | string => exact prompt_literalNode t ts

theorem named_succ (name : String) (c : Cursor) :
    Prompt (fun _ => True) (AfterLayers []) (fun b => Grammar.named b name)
      (Grammar.named (bound + 1) name) c := by
  refine Prompt.succ ((steady_accept ⟨fun c' => ?_, ?_⟩ (steady_accept ?_ ?_)).prompt c)
  · refine prompt_sees ?_
    cases hclose : c'.sees (.text ")") with
    | true =>
        obtain ⟨p, _ | ⟨t, ts⟩⟩ := c'
        · cases hclose
        · exact prompt_skip (P := fun _ => True) (steady_pure fun _ _ => trivial)
    | false =>
        exact (ih.expressions c').closed (t := word .operator ")") (by decide)
          (fun _ _ => avoids_cons.mpr (by decide)) (Node.call name)
  · refine ⟨[word .operator ")"], .call name [], ?_, fun _ _ => trivial, fun p z _ => ?_⟩
    · exact fun t ht => by simp_all [completions]
    · exact .of_forall fun _ => rfl
  · exact (ih.steady_layers (fun _ => trivial) operatorLayers).closed
      (t := word .operator "]") (by decide) (fun _ _ => avoids_cons.mpr (by decide))
      (Node.access name)
  · exact steady_pure fun z hz => ⟨⟨trivial, hz.mono (by simp)⟩, hz.mono (by simp)⟩

theorem expressions_succ (c : Cursor) :
    Prompt Passes AfterExpressions Grammar.expressions (Grammar.expressions (bound + 1)) c := by
  refine Prompt.succ ((ih.layers operatorLayers c).bind fun first => steady_accept ?_ ?_)
  · refine (ih.steady_expressions fun _ => trivial).bind fun others => ?_
    exact steady_pure fun z hz => hz
  · refine steady_pure fun z hz => ⟨?_, ?_⟩
    · exact hz.mono (List.subset_cons_self _ _)
    · exact hz.mono (by simp)

theorem succ : ExpressionsPrompt (bound + 1) where
  layers := ih.layers_succ
  operations := ih.operations_succ
  primary := ih.primary_succ
  named := ih.named_succ
  expressions := ih.expressions_succ

end ExpressionsPrompt

theorem expressionsPrompt (bound : Nat) : ExpressionsPrompt bound := by
  induction bound with
  | zero => exact .zero
  | succ bound ih => exact ih.succ

theorem prompt_expression (c : Cursor) :
    Prompt Passes (AfterLayers operatorLayers) (fun _ => expression) expression c :=
  Prompt.limit (fun b c => (expressionsPrompt b).layers operatorLayers c)
    (fun _ => answers_expression.ne_exhausted) c

section Steady

variable {start : List Token → Prop} (hstart : ∀ z, start (word .identifier "NIL" :: z))
include hstart

theorem steady_expression :
    Steady start (AfterLayers operatorLayers) (fun _ => expression) expression :=
  Steady.limit (fun b => (expressionsPrompt b).steady_layers hstart operatorLayers)
    fun _ => answers_expression.ne_exhausted

theorem steady_listElements : Steady start Anything (fun _ => listElements) listElements :=
  Steady.limit
    (fun b => ((expressionsPrompt b).steady_expressions hstart).closed
      (t := word .operator "]") (by decide) (fun _ _ => avoids_cons.mpr (by decide)) Node.list)
    fun _ => answers_listElements.ne_exhausted

end Steady

end Expressions

section Statements

variable {start : List Token → Prop}

theorem steady_optionalType :
    Steady start (fun _ => Without start ":") (fun _ => Rule.optionalType) Rule.optionalType := by
  refine steady_accept ?_ (steady_pure fun z hz => hz)
  exact (steady_identifier (t := word .identifier "NIL") _
    (by decide) rfl fun _ => trivial).bind fun _ =>
      steady_pure fun _ _ => trivial

/-- What may follow a value that may be left out. -/
def AfterValue (start : List Token → Prop) (e : Node) (z : List Token) : Prop :=
  Without start "=" z ∧ AfterLayers operatorLayers e z

theorem steady_optionalValue :
    Steady start (AfterValue start) (fun _ => optionalValue) optionalValue :=
  steady_accept ((steady_expression fun _ => trivial).mono (fun _ => id) fun _ _ hz => hz.2)
    (steady_pure fun _ hz => hz.1)

theorem prompt_declaration (c : Cursor) :
    Prompt Passes Anything (fun _ => declaration) declaration c := by
  refine (prompt_expectText "LET").bind fun _ => ?_
  refine (steady_identifier (t := word .identifier "NIL") _
    (by decide) rfl fun _ => trivial).bind fun name => ?_
  refine steady_optionalType.bind fun typeName => ?_
  refine steady_optionalValue.closed (t := word .operator ";") (by decide) ?_
    (Node.declaration name (.ofText? typeName))
  exact fun _ _ => ⟨⟨⟨trivial, avoids_cons.mpr (by decide)⟩, avoids_cons.mpr (by decide)⟩,
    avoids_cons.mpr (by decide)⟩

theorem prompt_returning (c : Cursor) :
    Prompt Passes Anything (fun _ => returning) returning c := by
  refine (prompt_expectText "RETURN").bind fun _ => ?_
  refine steady_accept (steady_pure fun _ _ => trivial) ?_
  exact (steady_expression fun _ => ⟨trivial, avoids_cons.mpr (by decide)⟩).closed
    (t := word .operator ";") (by decide) (fun _ _ => avoids_cons.mpr (by decide)) Node.returning

theorem prompt_evaluationOrAssignment (c : Cursor) :
    Prompt Passes Anything (fun _ => evaluationOrAssignment) evaluationOrAssignment c := by
  refine (prompt_expression c).bind fun left => ⟨fun c' => ?_, ?_⟩
  · refine prompt_cursor (k := 0) ?_ fun z hz _ => by simp only [sees_congr hz]
    by_cases hequals : c'.sees (.text "=") = true
    · simp only [hequals, if_true]
      split
      · obtain ⟨p, _ | ⟨t, ts⟩⟩ := c'
        · cases hequals
        exact prompt_skip (P := fun _ => True) ((steady_expression fun _ => trivial).closed
          (t := word .operator ";") (by decide) (fun _ _ => avoids_cons.mpr (by decide))
          (Node.assignment left))
      · exact prompt_reject _
    · simp only [hequals]
      exact (prompt_expectText ";").bind fun _ => steady_pure fun _ _ => trivial
  · refine ⟨[word .operator ";"], .evaluation left, ?_, ?_, fun p z _ => ?_⟩
    · exact fun t ht => by simp_all [completions]
    · exact fun _ _ => avoids_cons.mpr (by decide)
    · exact .of_forall fun _ => rfl

/-- One of some texts stands at the front. -/
def Stands (texts : List String) (z : List Token) : Prop := ∃ t ∈ z.head?, t.text ∈ texts

theorem stands_cons {texts : List String} {t : Token} {z : List Token} :
    Stands texts (t :: z) ↔ t.text ∈ texts := by
  simp [Stands]

theorem Stands.mono {texts texts' : List String} {z : List Token} (h : Stands texts z)
    (hsub : texts ⊆ texts') : Stands texts' z := by
  obtain ⟨t, ht, hmem⟩ := h
  exact ⟨t, ht, hsub hmem⟩

theorem Stands.avoids {texts texts' : List String} {z : List Token} (h : Stands texts z)
    (hdisjoint : ∀ s ∈ texts, s ∉ texts') : Avoids texts' z := by
  obtain ⟨t, ht, hmem⟩ := h
  intro t' ht'
  cases Option.mem_unique ht ht'
  exact hdisjoint _ hmem

theorem seesText_iff {texts : List String} {c : Cursor} :
    c.seesText texts = true ↔ Stands texts c.rest := by
  obtain ⟨p, _ | ⟨t, ts⟩⟩ := c
  · simp [Cursor.seesText, Cursor.sees, Stands]
  · simp [Cursor.seesText, Cursor.sees, TokenPattern.fits, stands_cons]

theorem sees_iff {s : String} {c : Cursor} : c.sees (.text s) = true ↔ Stands [s] c.rest := by
  obtain ⟨p, _ | ⟨t, ts⟩⟩ := c
  · simp [Cursor.sees, Stands]
  · simp [Cursor.sees, TokenPattern.fits, stands_cons]

/-- A block stands in front of one of the keywords that end blocks. -/
def AfterBlock {α : Type} (_ : α) : List Token → Prop := Stands blockTerminators

/-- Cases with a value stand in front of the end of a block, but not of another one. -/
def AfterArms (_ : List Node) : List Token → Prop := Without (Stands blockTerminators) "CASE"

theorem statements_of_stands {bound p : Nat} {z : List Token} (hz : Stands blockTerminators z) :
    statements (bound + 1) ⟨p, z⟩ = .ok ([], ⟨p, z⟩) := by
  have hsees : (⟨p, z⟩ : Cursor).seesText blockTerminators = true := seesText_iff.mpr hz
  change (if (⟨p, z⟩ : Cursor).seesText blockTerminators = true then pure [] else _ : Rule _)
    ⟨p, z⟩ = _
  rw [hsees]
  rfl

theorem completable_statements {start : List Token → Prop}
    (hstart : ∀ z, Stands blockTerminators z → start z) :
    Completable start AfterBlock statements :=
  completable_nil hstart fun _ _ hz =>
    (Settles.of_forall fun _ => statements_of_stands hz).succ

theorem completable_valueArms :
    Completable (Stands blockTerminators) AfterArms valueArms := by
  refine (completable_accept ?_).succ
  exact completable_pure fun _ hz => hz

theorem completable_defaultArm {start : List Token → Prop}
    (hstart : ∀ z, start (word .identifier "DEFAULT" :: z)) :
    Completable start AfterBlock defaultArm := by
  refine ((steady_expectText (t := word .identifier "DEFAULT") (by decide) hstart).completable.bind
    fun _ => ?_).succ
  refine completable_accept ?_
  refine (completable_statements fun z hz => ⟨trivial, hz.avoids (by decide)⟩).bind fun body => ?_
  exact completable_pure fun z hz => hz

/-- What a choice reads behind its cases with a value. -/
def lastArm (bound : Nat) (condition : Node) (arms : List Node) : Rule Node := do
  if !(← Rule.sees (.text "DEFAULT")) then Rule.reject (.expected "DEFAULT")
  else
    let last ← defaultArm bound
    Rule.expectText "END"
    return .switch condition (arms ++ [last])

/-- What a choice reads behind its condition. -/
def allArms (bound : Nat) (condition : Node) : Rule Node := do
  let arms ← valueArms bound
  if arms.isEmpty then Rule.reject (.expected "CASE")
  else lastArm bound condition arms

theorem lastArm_of_stands {bound p : Nat} {condition : Node} {arms : List Node} {z : List Token}
    (hz : Stands ["DEFAULT"] z) :
    lastArm bound condition arms ⟨p, z⟩ =
      (defaultArm bound >>= fun last => expectText "END" >>= fun _ =>
        pure (.switch condition (arms ++ [last]))) ⟨p, z⟩ := by
  have hsees : (⟨p, z⟩ : Cursor).sees (.text "DEFAULT") = true := sees_iff.mpr hz
  change (if (!(⟨p, z⟩ : Cursor).sees (.text "DEFAULT")) = true then _ else _ : Rule Node)
    ⟨p, z⟩ = _
  rw [hsees]
  rfl

theorem allArms_of_avoids {bound p : Nat} {condition : Node} {z : List Token}
    (hz : Avoids ["CASE"] z) :
    allArms (bound + 1) condition ⟨p, z⟩ = reject (.expected "CASE") ⟨p, z⟩ := by
  have harms : valueArms (bound + 1) ⟨p, z⟩ = .ok ([], ⟨p, z⟩) := by
    simp only [valueArms, Bind.bind, acceptText_of_avoids hz]
    rfl
  simp only [allArms, Bind.bind, harms]
  rfl

theorem allArms_cons {bound p : Nat} {condition : Node} {t : Token} {z : List Token}
    (ht : t.text = "CASE") :
    allArms (bound + 1) condition ⟨p, t :: z⟩ =
      (skip >>= fun _ => expression >>= fun value => expectText ":" >>= fun _ =>
        statements bound >>= fun body => valueArms bound >>= fun others =>
          lastArm (bound + 1) condition (.arm value body :: others)) ⟨p, t :: z⟩ := by
  rw [allArms, valueArms, Rule.bind_assoc, acceptText_bind_of_eq ht]
  simp only [if_true, Rule.bind_assoc]
  rfl

/-- What is claimed of each rule for statements at one bound. -/
structure StatementsPrompt (bound : Nat) : Prop where
  statements : ∀ c : Cursor,
    Prompt (Stands blockTerminators) AfterBlock statements (statements bound) c
  statement : ∀ c : Cursor, Prompt Passes Anything statement (statement bound) c
  conditional : ∀ c : Cursor, Prompt Passes Anything conditional (conditional bound) c
  loop : ∀ c : Cursor, Prompt Passes Anything loop (loop bound) c
  switch : ∀ c : Cursor, Prompt Passes Anything switch (switch bound) c
  valueArms : ∀ c : Cursor,
    Prompt (Stands blockTerminators) AfterArms valueArms (valueArms bound) c
  defaultArm : ∀ c : Cursor, Prompt Passes AfterBlock defaultArm (defaultArm bound) c

namespace StatementsPrompt

theorem zero : StatementsPrompt 0 where
  statements _ := prompt_exhausted
  statement _ := prompt_exhausted
  conditional _ := prompt_exhausted
  loop _ := prompt_exhausted
  switch _ := prompt_exhausted
  valueArms _ := prompt_exhausted
  defaultArm _ := prompt_exhausted

variable {bound : Nat} (ih : StatementsPrompt bound)
include ih

theorem steady_statements {start : List Token → Prop}
    (hstart : ∀ z, Stands blockTerminators z → start z) :
    Steady start AfterBlock Grammar.statements (Grammar.statements bound) :=
  ⟨fun c => (ih.statements c).mono hstart fun _ _ => id, completable_statements hstart⟩

theorem steady_valueArms :
    Steady (Stands blockTerminators) AfterArms Grammar.valueArms (Grammar.valueArms bound) :=
  ⟨ih.valueArms, completable_valueArms⟩

theorem statements_succ (c : Cursor) :
    Prompt (Stands blockTerminators) AfterBlock Grammar.statements
      (Grammar.statements (bound + 1)) c := by
  refine Prompt.succ ?_
  by_cases hc : Stands blockTerminators c.rest
  · exact prompt_stop (s := fun b => Grammar.statements (b + 1))
      (fun hz hz' => by rwa [Stands, hz]) hc (fun b p z hz => statements_of_stands hz)
      (fun _ => id) fun _ => id
  refine prompt_cursor ?_ fun z hz b => by
    simp only [seesText_congr hz, isEmpty_congr hz]
  have hsees : ¬ c.seesText blockTerminators = true := fun h => hc (seesText_iff.mp h)
  simp only [hsees]
  by_cases hempty : c.rest.isEmpty = true
  · simp only [hempty, if_true]
    exact prompt_reject _
  · simp only [hempty]
    refine (ih.statement c).bind fun first => ?_
    exact (ih.steady_statements fun _ _ => trivial).bind fun others => steady_pure fun _ => id

theorem statement_succ (c : Cursor) :
    Prompt Passes Anything Grammar.statement (Grammar.statement (bound + 1)) c := by
  refine Prompt.succ (prompt_cursor ?_ fun z hz b => by simp only [sees_congr hz])
  split
  · exact prompt_declaration c
  split
  · exact ih.switch c
  split
  · exact ih.conditional c
  split
  · exact ih.loop c
  split
  · exact prompt_returning c
  · exact prompt_evaluationOrAssignment c

theorem conditional_succ (c : Cursor) :
    Prompt Passes Anything Grammar.conditional (Grammar.conditional (bound + 1)) c := by
  refine Prompt.succ ((prompt_expectText "IF").bind fun _ => ?_)
  refine (steady_expression fun _ => trivial).bind fun condition => ?_
  refine (steady_expectText (t := word .identifier "DO") (by decide)
    fun _ => avoids_cons.mpr (by decide)).bind fun _ => ?_
  refine (ih.steady_statements fun _ _ => trivial).bind fun thenBody => ?_
  refine steady_accept ?_ ?_
  · exact (ih.steady_statements fun _ _ => trivial).closed (t := word .identifier "END")
      (by decide) (fun _ _ => stands_cons.mpr (by decide)) (Node.conditional condition thenBody)
  · exact steady_closing (t := word .identifier "END") (by decide)
      (fun _ => ⟨stands_cons.mpr (by decide), avoids_cons.mpr (by decide)⟩) _

theorem loop_succ (c : Cursor) :
    Prompt Passes Anything Grammar.loop (Grammar.loop (bound + 1)) c := by
  refine Prompt.succ ((prompt_expectText "WHILE").bind fun _ => ?_)
  refine (steady_expression fun _ => trivial).bind fun condition => ?_
  refine (steady_expectText (t := word .identifier "DO") (by decide)
    fun _ => avoids_cons.mpr (by decide)).bind fun _ => ?_
  exact (ih.steady_statements fun _ _ => trivial).closed (t := word .identifier "END")
    (by decide) (fun _ _ => stands_cons.mpr (by decide)) (Node.loop condition)

theorem valueArms_succ (c : Cursor) :
    Prompt (Stands blockTerminators) AfterArms Grammar.valueArms
      (Grammar.valueArms (bound + 1)) c := by
  refine Prompt.succ ((steady_accept ?_ ?_).prompt c)
  · refine (steady_expression fun _ => trivial).bind fun value => ?_
    refine (steady_expectText (t := word .operator ":") (by decide)
      fun _ => avoids_cons.mpr (by decide)).bind fun _ => ?_
    refine (ih.steady_statements fun _ _ => trivial).bind fun body => ?_
    exact ih.steady_valueArms.bind fun others => steady_pure fun _ => id
  · exact steady_pure fun _ => id

theorem defaultArm_succ (c : Cursor) :
    Prompt Passes AfterBlock Grammar.defaultArm (Grammar.defaultArm (bound + 1)) c := by
  refine Prompt.succ ((prompt_expectText "DEFAULT").bind fun _ => ?_)
  refine (steady_accept ?_ ?_)
  · exact (ih.steady_statements fun _ _ => trivial).bind fun body => steady_pure fun _ => id
  · exact (ih.steady_statements fun _ hz => ⟨trivial, hz.avoids (by decide)⟩).bind fun body =>
      steady_pure fun _ => id

theorem steady_lastArm (condition : Node) (arms : List Node) :
    Steady (AfterArms arms) Anything (fun b => lastArm b condition arms)
      (lastArm bound condition arms) where
  prompt c := by
    refine prompt_sees ?_
    cases c.sees (.text "DEFAULT") with
    | true =>
        exact (ih.defaultArm c).closed (t := word .identifier "END") (by decide)
          (fun _ _ => stands_cons.mpr (by decide))
          fun last => Node.switch condition (arms ++ [last])
    | false => exact prompt_reject _
  completable := by
    have hlast : Completable (Stands ["DEFAULT"]) AfterBlock Grammar.defaultArm :=
      completable_defaultArm fun _ => stands_cons.mpr (by decide)
    have hclosed : Completable (Stands ["DEFAULT"]) Anything fun b =>
        Grammar.defaultArm b >>= fun last => expectText "END" >>= fun _ =>
          pure (Node.switch condition (arms ++ [last])) :=
      hlast.bind fun last => (steady_closing (t := word .identifier "END") (by decide)
        (fun _ => stands_cons.mpr (by decide)) _).completable
    exact hclosed.congr (fun z hz => ⟨hz.mono (by decide), hz.avoids (by decide)⟩)
      fun b p z hz => lastArm_of_stands hz

end StatementsPrompt

theorem prompt_allArms {bound : Nat} (ih : ∀ b ≤ bound, StatementsPrompt b) (condition : Node)
    (c : Cursor) :
    Prompt (AfterLayers operatorLayers condition) Anything (fun b => allArms b condition)
      (allArms bound condition) c := by
  cases bound with
  | zero => exact prompt_exhausted
  | succ bound =>
      refine Prompt.succ ?_
      by_cases hc : Avoids ["CASE"] c.rest
      · exact (prompt_reject (.expected "CASE")).dispatch (allArms_of_avoids hc)
          fun z hz b => allArms_of_avoids (by rwa [Avoids, hz])
      obtain ⟨p, _ | ⟨t, ts⟩⟩ := c
      · exact absurd (avoids_nil _) hc
      have ht : t.text = "CASE" := by simpa [avoids_cons] using hc
      refine Prompt.dispatch_cons (s := fun b => allArms (b + 1) condition) ?_
        fun b z => allArms_cons ht
      have hbound := ih bound (Nat.le_succ bound)
      refine prompt_skip (P := fun _ => True) ?_
      refine (steady_expression fun _ => trivial).bind fun value => ?_
      refine (steady_expectText (t := word .operator ":") (by decide)
        fun _ => avoids_cons.mpr (by decide)).bind fun _ => ?_
      refine (hbound.steady_statements fun _ _ => trivial).bind fun body => ?_
      refine hbound.steady_valueArms.bind fun others => ?_
      exact ((ih _ (Nat.le_refl _)).steady_lastArm condition (.arm value body :: others)).shift

theorem completable_allArms (condition : Node) :
    Completable (AfterLayers operatorLayers condition) Anything fun b => allArms b condition := by
  have hlast : ∀ arms, Completable (AfterArms arms) Anything fun b =>
      lastArm (b + 1) condition arms := fun arms =>
    (StatementsPrompt.zero.steady_lastArm condition arms).shift.completable
  have hcase : Completable (Stands ["CASE"]) Anything fun b => expectText "CASE" >>= fun _ =>
      expression >>= fun value => expectText ":" >>= fun _ => statements b >>= fun body =>
        valueArms b >>= fun others => lastArm (b + 1) condition (.arm value body :: others) := by
    refine (steady_expectText (t := word .identifier "CASE") (by decide)
      fun _ => stands_cons.mpr (by decide)).completable.bind fun _ => ?_
    refine (steady_expression fun _ => trivial).completable.bind fun value => ?_
    refine (steady_expectText (t := word .operator ":") (by decide)
      fun _ => avoids_cons.mpr (by decide)).completable.bind fun _ => ?_
    refine (completable_statements fun _ _ => trivial).bind fun body => ?_
    exact completable_valueArms.bind fun others => hlast (.arm value body :: others)
  refine (hcase.congr (fun z hz => hz.avoids (by decide)) fun b p z hz => ?_).succ
  obtain ⟨t, ht, htext⟩ := hz
  cases z with
  | nil => cases ht
  | cons t' z =>
      cases ht
      have htext : t.text = "CASE" := by simpa using htext
      rw [allArms_cons htext]
      simp only [Bind.bind, expectText, expect, expectAs, TokenPattern.fits, htext]
      rfl

namespace StatementsPrompt

variable {bound : Nat}

theorem switch_succ (ih : ∀ b ≤ bound, StatementsPrompt b) (c : Cursor) :
    Prompt Passes Anything Grammar.switch (Grammar.switch (bound + 1)) c := by
  refine Prompt.succ ((prompt_expectText "SWITCH").bind fun _ => ?_)
  refine (steady_expression fun _ => trivial).bind fun condition => ?_
  exact ⟨prompt_allArms ih condition, completable_allArms condition⟩

theorem succ (ih : ∀ b ≤ bound, StatementsPrompt b) : StatementsPrompt (bound + 1) where
  statements := (ih bound (Nat.le_refl _)).statements_succ
  statement := (ih bound (Nat.le_refl _)).statement_succ
  conditional := (ih bound (Nat.le_refl _)).conditional_succ
  loop := (ih bound (Nat.le_refl _)).loop_succ
  switch := switch_succ ih
  valueArms := (ih bound (Nat.le_refl _)).valueArms_succ
  defaultArm := (ih bound (Nat.le_refl _)).defaultArm_succ

end StatementsPrompt

/-- A choice reads its first case in place, so its bound is two levels above that of the
body. -/
theorem statementsPrompt (bound : Nat) : StatementsPrompt bound := by
  induction bound using Nat.strongRecOn with
  | _ bound ih =>
      cases bound with
      | zero => exact .zero
      | succ bound => exact .succ fun b hb => ih b (Nat.lt_succ_of_le hb)

theorem steady_block {start : List Token → Prop}
    (hstart : ∀ z, Stands blockTerminators z → start z) :
    Steady start AfterBlock (fun _ => block) block :=
  Steady.limit (fun b => (statementsPrompt b).steady_statements hstart)
    fun _ => answers_block.ne_exhausted

end Statements

end Grammar
end BlockScript
