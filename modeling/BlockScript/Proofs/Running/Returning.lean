import BlockScript.Proofs.Running.Likeness

/-!
# What a `RETURN` leaves

A statement that surely returns never completes, so nothing that follows it in its body is
reached.  Programs that differ in dead statements only therefore run alongside each other,
step by step and from any machine, and end in the same way.
-/

namespace BlockScript
namespace Running

open BlockScript.Computation

section SureReturns

/-- A computation never completes: it returns or fails. -/
def NeverFinishes (c : Running Completion) : Prop :=
  ∀ m, c.Ensures m (fun ending _ => ending ≠ .finished) fun _ => True

section Rules

variable {α : Type}

theorem ensures_any (c : Running α) (m : Machine) :
    c.Ensures m (fun _ _ => True) fun _ => True :=
  ensures_iff.mpr ⟨fun _ _ _ => trivial, fun _ _ _ => trivial⟩

theorem neverFinishes_bind {c : Running α} {next : α → Running Completion}
    (h : ∀ a, NeverFinishes (next a)) : NeverFinishes (c >>= next) :=
  fun m => (ensures_any c m).bind fun a m' _ => h a m'

theorem neverFinishes_inScope {c : Running Completion} (h : NeverFinishes c) :
    NeverFinishes (inScope c) :=
  fun m => ensures_inScope (h m.enter)

theorem neverFinishes_fail (e : RunFailure) : NeverFinishes (fail e) :=
  fun _ => ensures_fail trivial

theorem neverFinishes_returned (value : Value) : NeverFinishes (pure (.returned value)) :=
  fun _ => ensures_pure nofun

end Rules

section Parts

variable {settings : Settings} {evaluate : Nat → Node → Running Value}
  {execute : Nat → Node → Running Completion}

/-- Every statement that surely returns never completes. -/
def SurelyEnds (execute : Node → Running Completion) : Prop :=
  ∀ node, node.surelyReturns = true → NeverFinishes (execute node)

theorem neverFinishes_executeAll {execute : Node → Running Completion}
    (hexec : SurelyEnds execute) {nodes : List Node} (h : Node.anySurelyReturns nodes = true) :
    NeverFinishes (executeAll execute nodes) := by
  induction nodes with
  | nil => cases h
  | cons node nodes ih =>
      rw [Node.anySurelyReturns, Bool.or_eq_true] at h
      cases h with
      | inl hnode =>
          intro m
          refine (hexec node hnode m).bind ?_
          intro ending m' hending
          cases ending with
          | finished => exact absurd rfl hending
          | returned value => exact neverFinishes_returned value m'
      | inr hnodes =>
          refine neverFinishes_bind ?_
          intro ending
          cases ending with
          | finished => exact ih hnodes
          | returned value => exact neverFinishes_returned value

theorem neverFinishes_body {execute : Node → Running Completion} (hexec : SurelyEnds execute)
    {nodes : List Node} (h : Node.anySurelyReturns nodes = true) :
    NeverFinishes (inScope (executeAll execute nodes)) :=
  neverFinishes_inScope (neverFinishes_executeAll hexec h)

/-- A choice never completes where every case has a statement that surely returns and the
last case has no value, so that one of them is chosen. -/
theorem neverFinishes_select (evaluate : Node → Running Value)
    {execute : Node → Running Completion}
    (harm : ∀ value body, Node.anySurelyReturns body = true →
      NeverFinishes (execute (.arm value body)))
    (value : Value) (position : Nat) {arms : List Node} (h : Node.armsSurelyReturn arms = true) :
    NeverFinishes (select settings evaluate execute value position arms) := by
  induction arms generalizing position with
  | nil => cases h
  | cons first arms ih =>
      obtain ⟨value', body, rfl, hbody, hlast | harms⟩ := Node.of_armsSurelyReturn h
      · -- The last case has no value, so it is chosen whenever it is reached.
        have hmeets : meets settings evaluate value value' = pure true := by
          rw [meets, if_pos hlast.2]
        intro m
        have hchosen : (meets settings evaluate value value').Ensures m
            (fun chosen _ => chosen = true) fun _ => True := by
          rw [hmeets]
          exact ensures_pure rfl
        refine hchosen.bind ?_
        rintro _ m' rfl
        exact neverFinishes_bind (fun _ => harm value' body hbody) m'
      · refine neverFinishes_bind ?_
        intro chosen
        cases chosen with
        | true => exact neverFinishes_bind fun _ => harm value' body hbody
        | false => exact ih (position + 1) harms

/-- A loop without end never completes where its body does not. -/
theorem neverFinishes_loop (calls : Nat) {condition : Node} {body : List Node}
    (hcondition : ∀ m, (evaluate calls condition).Ensures m
      (fun value _ => value = .boolean true) fun _ => True)
    (hbody : NeverFinishes (inScope (executeAll (execute calls) body))) :
    NeverFinishes (executeLoop evaluate execute calls condition body) := by
  intro m
  refine (hcondition m).bind ?_
  rintro _ m₁ rfl
  change Ensures (inScope (executeAll (execute calls) body) >>= _) m₁ _ _
  refine (hbody m₁).bind ?_
  intro ending m₂ hending
  cases ending with
  | finished => exact absurd rfl hending
  | returned value => exact neverFinishes_returned value m₂

theorem neverFinishes_executeNode (hexec : ∀ calls, SurelyEnds (execute calls))
    (harm : ∀ calls value body, Node.anySurelyReturns body = true →
      NeverFinishes (execute calls (.arm value body)))
    (hliteral : ∀ calls m, (evaluate calls (.literal (.boolean true))).Ensures m
      (fun value _ => value = .boolean true) fun _ => True)
    (calls : Nat) : SurelyEnds (executeNode settings evaluate execute calls) := by
  intro node h
  cases node with
  | returning value => exact neverFinishes_bind fun v => neverFinishes_returned v
  | conditional condition thenBody elseBody =>
      rw [Node.surelyReturns, Bool.and_eq_true] at h
      obtain ⟨hthen, helse⟩ := h
      refine neverFinishes_bind fun value => neverFinishes_bind fun holds =>
        neverFinishes_bind fun _ => ?_
      cases holds with
      | true => exact neverFinishes_body (hexec calls) hthen
      | false => exact neverFinishes_body (hexec calls) helse
  | «switch» condition arms =>
      rw [Node.surelyReturns] at h
      refine neverFinishes_inScope ?_
      refine neverFinishes_bind fun value => neverFinishes_bind fun _ => ?_
      exact neverFinishes_select (evaluate calls) (harm calls) value 0 h
  | loop condition body =>
      obtain ⟨rfl, hbody⟩ := Node.of_surelyReturns_loop h
      exact neverFinishes_loop calls (hliteral calls) (neverFinishes_body (hexec calls) hbody)
  | _ => cases h

end Parts

/-- A statement that surely returns never completes, whatever the machine. -/
theorem neverFinishes_of_surelyReturns (settings : Settings) (steps : Nat) :
    (∀ calls, SurelyEnds (execute settings steps calls)) ∧
      ∀ calls value body, Node.anySurelyReturns body = true →
        NeverFinishes (execute settings steps calls (.arm value body)) := by
  induction steps with
  | zero =>
      exact ⟨fun _ _ _ => neverFinishes_fail _, fun _ _ _ _ => neverFinishes_fail _⟩
  | succ steps ih =>
      obtain ⟨hexec, harm⟩ := ih
      have hliteral : ∀ calls m,
          (evaluate settings steps calls (.literal (.boolean true))).Ensures m
            (fun value _ => value = .boolean true) fun _ => True := by
        intro calls m
        cases steps with
        | zero => exact ensures_fail trivial
        | succ steps => exact ensures_pure rfl
      exact ⟨neverFinishes_executeNode hexec harm hliteral,
        fun calls _ _ hbody => neverFinishes_body (hexec calls) hbody⟩

end SureReturns

section Likeness

section Parts

variable {evaluate : Node → Running Value} {execute : Node → Running Completion}

/-- Expressions that are alike have equal values. -/
def EvaluatesAlike (evaluate : Node → Running Value) : Prop :=
  ∀ ⦃node node' : Node⦄, node.Alike node' → RunsAlike Eq (evaluate node) (evaluate node')

/-- Statements that are alike end equally. -/
def ExecutesAlike (execute : Node → Running Completion) : Prop :=
  ∀ ⦃node node' : Node⦄, node.Alike node' → RunsAlike Eq (execute node) (execute node')

theorem alike_evaluateAll (heval : EvaluatesAlike evaluate) {nodes nodes' : List Node}
    (h : Node.AlikeRow nodes nodes') :
    RunsAlike Eq (evaluateAll evaluate nodes) (evaluateAll evaluate nodes') := by
  induction nodes generalizing nodes' with
  | nil =>
      cases h
      exact alike_pure []
  | cons node nodes ih =>
      cases h with
      | cons hnode hnodes =>
          refine (heval hnode).bind ?_
          rintro value _ rfl
          refine (ih hnodes).bind ?_
          rintro values _ rfl
          exact alike_pure _

theorem alike_evaluateOptional (heval : EvaluatesAlike evaluate) {node node' : Node}
    (h : node.Alike node') :
    RunsAlike Eq (evaluateOptional evaluate node) (evaluateOptional evaluate node') := by
  unfold evaluateOptional
  rw [h.isAbsent_eq]
  split
  · exact alike_pure _
  · exact heval h

/-- Bodies that are alike end equally.  Behind a statement that surely returns they may
differ, since it is not left to go on there. -/
theorem alike_executeAll (hexec : ExecutesAlike execute) (hsure : SurelyEnds execute)
    {nodes nodes' : List Node} (h : Node.AlikeBody nodes nodes') :
    RunsAlike Eq (executeAll execute nodes) (executeAll execute nodes') := by
  induction nodes generalizing nodes' with
  | nil =>
      cases h
      exact alike_pure _
  | cons node nodes ih =>
      cases h with
      | cons hnode hnodes =>
          refine (hexec hnode).bind ?_
          rintro ending _ rfl
          cases ending with
          | finished => exact ih hnodes
          | returned value => exact alike_pure _
      | cut _ dead' hnode hreturns =>
          -- Neither run comes to what is behind this statement, whatever it is.
          have hends : ∀ m ending m', execute node m = (.ok ending, m') → ending ≠ .finished :=
            fun m _ _ h => (hsure node hreturns m).of_ok h
          refine ((hexec hnode).ensuring hends).bind ?_
          rintro ending _ ⟨rfl, hending⟩
          cases ending with
          | finished => exact absurd rfl hending
          | returned value => exact alike_pure _

theorem alike_body (hexec : ExecutesAlike execute) (hsure : SurelyEnds execute)
    {nodes nodes' : List Node} (h : Node.AlikeBody nodes nodes') :
    RunsAlike Eq (inScope (executeAll execute nodes)) (inScope (executeAll execute nodes')) :=
  alike_inScope (alike_executeAll hexec hsure h)

theorem alike_secondTruth (heval : EvaluatesAlike evaluate) (operator : String)
    {right right' : Node} (h : right.Alike right') :
    RunsAlike Eq (secondTruth evaluate operator right) (secondTruth evaluate operator right') := by
  refine (heval h).bind ?_
  rintro value _ rfl
  refine (alike_requireBoolean operator value).bind ?_
  rintro truth _ rfl
  exact alike_pure _

theorem alike_evaluateBinary (settings : Settings) (heval : EvaluatesAlike evaluate)
    (operator : String) {left left' right right' : Node} (hleft : left.Alike left')
    (hright : right.Alike right') :
    RunsAlike Eq (evaluateBinary settings evaluate operator left right)
      (evaluateBinary settings evaluate operator left' right') := by
  refine (heval hleft).bind ?_
  rintro a _ rfl
  split
  · refine (alike_requireBoolean operator a).bind ?_
    rintro truth _ rfl
    cases truth with
    | true => exact alike_secondTruth heval operator hright
    | false => exact alike_pure _
  split
  · refine (alike_requireBoolean operator a).bind ?_
    rintro truth _ rfl
    cases truth with
    | true => exact alike_pure _
    | false => exact alike_secondTruth heval operator hright
  · refine (heval hright).bind ?_
    rintro b _ rfl
    exact alike_applyOperator settings operator a b

theorem alike_locate (heval : EvaluatesAlike evaluate) (name : Name) (value : Value)
    {offset offset' : Node} (h : offset.Alike offset') :
    RunsAlike Eq (locate evaluate name value offset) (locate evaluate name value offset') := by
  refine (alike_requireList name value).bind ?_
  rintro reference _ rfl
  refine (heval h).bind ?_
  rintro index _ rfl
  refine (alike_requireIndex reference index).bind ?_
  rintro i _ rfl
  exact alike_pure _

theorem alike_evaluateAccess (heval : EvaluatesAlike evaluate) (name : Name)
    {offset offset' : Node} (h : offset.Alike offset') :
    RunsAlike Eq (evaluateAccess evaluate name offset) (evaluateAccess evaluate name offset') := by
  refine (alike_lookupVariable name).bind ?_
  rintro v _ rfl
  rw [h.isAbsent_eq]
  split
  · exact alike_pure _
  · refine (alike_locate heval name v.value h).bind ?_
    rintro ⟨reference, i⟩ _ rfl
    exact alike_itemAt reference i

theorem alike_noted (settings : Settings) (message : String) (value : Value) :
    RunsAlike Eq (do noteValue settings 2 message value; return Completion.finished)
      (do noteValue settings 2 message value; return Completion.finished) := by
  refine (alike_noteValue settings 2 message value).bind ?_
  intro _ _ _
  exact alike_pure _

theorem alike_assign (settings : Settings) (heval : EvaluatesAlike evaluate)
    {target target' : Node} (value : Value) (h : target.Alike target') :
    RunsAlike Eq (assign settings evaluate target value)
      (assign settings evaluate target' value) := by
  have hname := h.name?_eq
  cases h with
  | access name hoffset =>
      refine (alike_lookupVariable name).bind ?_
      rintro v _ rfl
      rw [hoffset.isAbsent_eq]
      split
      · split
        · refine (alike_setVariable name value).bind ?_
          intro _ _ _
          exact alike_noted settings _ value
        · exact alike_fail _
      · refine (alike_locate heval name v.value hoffset).bind ?_
        rintro ⟨reference, i⟩ _ rfl
        refine (alike_storeItem reference i value).bind ?_
        intro _ _ _
        exact alike_noted settings _ value
  | «global» name | function name | declaration name | call name =>
      refine (alike_lookupVariable name).bind ?_
      intro _ _ _
      exact alike_fail _
  | _ => exact alike_fail _

theorem alike_meets (settings : Settings) (heval : EvaluatesAlike evaluate) (value : Value)
    {node node' : Node} (h : node.Alike node') :
    RunsAlike Eq (meets settings evaluate value node) (meets settings evaluate value node') := by
  unfold meets
  rw [h.isAbsent_eq]
  split
  · exact alike_pure _
  · refine (heval h).bind ?_
    rintro v _ rfl
    exact alike_equalHere settings value v

theorem alike_select (settings : Settings) (heval : EvaluatesAlike evaluate)
    (hexec : ExecutesAlike execute) (value : Value) (position : Nat) {arms arms' : List Node}
    (h : Node.AlikeRow arms arms') :
    RunsAlike Eq (select settings evaluate execute value position arms)
      (select settings evaluate execute value position arms') := by
  induction arms generalizing arms' position with
  | nil =>
      cases h
      exact alike_pure _
  | cons arm arms ih =>
      cases h with
      | cons harm harms =>
          unfold select
          have hpart := harm.valuePart
          generalize arm.valuePart = part at hpart ⊢
          generalize Node.valuePart _ = part' at hpart ⊢
          cases hpart with
          | missing => exact alike_fail _
          | scalar s => exact alike_fail _
          | tree hnode =>
              refine (alike_meets settings heval value hnode).bind ?_
              rintro chosen _ rfl
              cases chosen with
              | true =>
                  refine (alike_note settings 3 _).bind ?_
                  intro _ _ _
                  exact hexec harm
              | false => exact ih (position + 1) harms

end Parts

section Nodes

variable {settings : Settings} {evaluate : Nat → Node → Running Value}
  {execute : Nat → Node → Running Completion}

theorem alike_invoke (hexec : ∀ calls, ExecutesAlike (execute calls))
    (hsure : ∀ calls, SurelyEnds (execute calls)) (calls : Nat) {f f' : Function}
    (hf : f.Alike f') (values : List Value) :
    RunsAlike Eq (invoke settings execute calls f values)
      (invoke settings execute calls f' values) := by
  have hrun : ∀ {parameters : List Name} {body body' : List Node}, Node.AlikeBody body body' →
      ∀ calls, RunsAlike Eq
        (inScope (do
          bindParameters parameters values
          let ending ← executeAll (execute calls) body
          return ending.value))
        (inScope (do
          bindParameters parameters values
          let ending ← executeAll (execute calls) body'
          return ending.value)) := by
    intro parameters body body' hbody calls
    refine alike_inScope ?_
    refine (alike_bindParameters parameters values).bind ?_
    intro _ _ _
    refine (alike_executeAll (hexec calls) (hsure calls) hbody).bind ?_
    rintro ending _ rfl
    exact alike_pure _
  have haction := hf.action
  unfold invoke
  generalize f.action = action at haction ⊢
  generalize f'.action = action' at haction ⊢
  cases haction with
  | same =>
      cases action with
      | printer => exact alike_print settings values
      | constant value => exact alike_pure value
      | collector => exact alike_makeList values
      | declared parameters body =>
          cases calls with
          | zero => exact alike_fail _
          | succ calls => exact hrun (.refl body) calls
  | declared parameters hbody =>
      cases calls with
      | zero => exact alike_fail _
      | succ calls => exact hrun hbody calls

theorem RunFailure.Alike.overflowIn {e e' : RunFailure} (h : e.Alike e') (name : String)
    (arity : Nat) : (Running.overflowIn name arity e).Alike (Running.overflowIn name arity e') := by
  cases h with
  | same e => exact .same _
  | misplacedStatement h => exact .misplacedStatement h
  | misplacedExpression h => exact .misplacedExpression h

theorem alike_evaluateCall {evaluate : Node → Running Value} (heval : EvaluatesAlike evaluate)
    (hexec : ∀ calls, ExecutesAlike (execute calls))
    (hsure : ∀ calls, SurelyEnds (execute calls)) (calls : Nat) (name : Name)
    {arguments arguments' : List Node} (h : Node.AlikeRow arguments arguments') :
    RunsAlike Eq (evaluateCall settings evaluate execute calls name arguments)
      (evaluateCall settings evaluate execute calls name arguments') := by
  refine (alike_evaluateAll heval h).bind ?_
  rintro values _ rfl
  refine (alike_lookupFunction name values.length).bind ?_
  intro f f' hf
  refine (alike_note settings 1 _).bind ?_
  intro _ _ _
  exact (alike_invoke hexec hsure calls hf values).mapFailure fun _ _ he =>
    RunFailure.Alike.overflowIn he name.text values.length

theorem alike_evaluateNode (heval : ∀ calls, EvaluatesAlike (evaluate calls))
    (hexec : ∀ calls, ExecutesAlike (execute calls))
    (hsure : ∀ calls, SurelyEnds (execute calls)) (calls : Nat) :
    EvaluatesAlike (evaluateNode settings evaluate execute calls) := by
  intro node node' h
  have hkind := h.kindName_eq
  cases h with
  | literal value => exact alike_literalValue value
  | group hexpression => exact heval calls hexpression
  | binary operator hleft hright =>
      exact alike_evaluateBinary settings (heval calls) operator.text hleft hright
  | access name hoffset => exact alike_evaluateAccess (heval calls) name hoffset
  | call name harguments => exact alike_evaluateCall (heval calls) hexec hsure calls name harguments
  | list helements =>
      refine (alike_evaluateAll (heval calls) helements).bind ?_
      rintro values _ rfl
      exact alike_makeList values
  | _ => exact alongside_fail (.misplacedExpression hkind)

theorem alike_declare (settings : Settings) (verb : String) (name : Name) (isMutable : Bool)
    (value : Value) :
    RunsAlike Eq (declare settings verb name isMutable value)
      (declare settings verb name isMutable value) := by
  refine (alike_bindVariable name isMutable value).bind ?_
  intro _ _ _
  exact alike_noted settings _ value

theorem alike_executeLoop (heval : ∀ calls, EvaluatesAlike (evaluate calls))
    (hexec : ∀ calls, ExecutesAlike (execute calls))
    (hsure : ∀ calls, SurelyEnds (execute calls)) (calls : Nat) {condition condition' : Node}
    {body body' : List Node} (hcondition : condition.Alike condition')
    (hbody : Node.AlikeBody body body') :
    RunsAlike Eq (executeLoop evaluate execute calls condition body)
      (executeLoop evaluate execute calls condition' body') := by
  refine (heval calls hcondition).bind ?_
  rintro value _ rfl
  refine (alike_requireBoolean "WHILE" value).bind ?_
  rintro holds _ rfl
  cases holds with
  | false => exact alike_pure _
  | true =>
      refine (alike_body (hexec calls) (hsure calls) hbody).bind ?_
      rintro ending _ rfl
      cases ending with
      | finished => exact hexec calls (.loop hcondition hbody)
      | returned value => exact alike_pure _

theorem alike_executeNode (heval : ∀ calls, EvaluatesAlike (evaluate calls))
    (hexec : ∀ calls, ExecutesAlike (execute calls))
    (hsure : ∀ calls, SurelyEnds (execute calls)) (calls : Nat) :
    ExecutesAlike (executeNode settings evaluate execute calls) := by
  intro node node' h
  have hkind := h.kindName_eq
  cases h with
  | «global» name typeName isMutable hvalue =>
      refine (alike_evaluateOptional (heval calls) hvalue).bind ?_
      rintro v _ rfl
      exact alike_declare settings "global" name isMutable v
  | @function body body' name parameters parameterTypes returnType hbody =>
      have hf : (declaredFunction name parameters body).Alike
          (declaredFunction name parameters body') :=
        ⟨rfl, rfl, .declared parameters hbody⟩
      refine (alike_bindFunction hf).bind ?_
      intro _ _ _
      refine (alike_note settings 2 _).bind ?_
      intro _ _ _
      exact alike_pure _
  | evaluation hexpression =>
      refine (heval calls hexpression).bind ?_
      intro _ _ _
      exact alike_pure _
  | declaration name typeName hvalue =>
      refine (alike_evaluateOptional (heval calls) hvalue).bind ?_
      rintro v _ rfl
      exact alike_declare settings "declare" name true v
  | assignment htarget hvalue =>
      refine (heval calls hvalue).bind ?_
      rintro v _ rfl
      exact alike_assign settings (heval calls) v htarget
  | conditional hcondition hthen helse =>
      refine (heval calls hcondition).bind ?_
      rintro value _ rfl
      refine (alike_requireBoolean "IF" value).bind ?_
      rintro holds _ rfl
      refine (alike_note settings 3 _).bind ?_
      intro _ _ _
      cases holds with
      | true => exact alike_body (hexec calls) (hsure calls) hthen
      | false => exact alike_body (hexec calls) (hsure calls) helse
  | loop hcondition hbody => exact alike_executeLoop heval hexec hsure calls hcondition hbody
  | «switch» hcondition harms =>
      refine alike_inScope ?_
      refine (heval calls hcondition).bind ?_
      rintro value _ rfl
      refine (alike_bindVariable switchName true value).bind ?_
      intro _ _ _
      exact alike_select settings (heval calls) (hexec calls) value 0 harms
  | arm hvalue hbody => exact alike_body (hexec calls) (hsure calls) hbody
  | returning hvalue =>
      refine (alike_evaluateOptional (heval calls) hvalue).bind ?_
      rintro v _ rfl
      exact alike_pure _
  | _ => exact alongside_fail (.misplacedStatement hkind)

end Nodes

section Runs

theorem alike_steps (settings : Settings) (steps : Nat) :
    (∀ calls, EvaluatesAlike (evaluate settings steps calls)) ∧
      ∀ calls, ExecutesAlike (execute settings steps calls) := by
  induction steps with
  | zero => exact ⟨fun _ _ _ _ => alike_fail _, fun _ _ _ _ => alike_fail _⟩
  | succ steps ih =>
      obtain ⟨heval, hexec⟩ := ih
      have hsure := (neverFinishes_of_surelyReturns settings steps).1
      exact ⟨alike_evaluateNode heval hexec hsure, alike_executeNode heval hexec hsure⟩

theorem alike_executeEach (settings : Settings) (steps : Nat) {nodes nodes' : List Node}
    (h : Node.AlikeRow nodes nodes') :
    RunsAlike Eq (executeEach settings steps nodes) (executeEach settings steps nodes') := by
  induction nodes generalizing nodes' with
  | nil =>
      cases h
      exact alike_pure _
  | cons node nodes ih =>
      cases h with
      | cons hnode hnodes =>
          refine ((alike_steps settings steps).2 settings.calls hnode).bind ?_
          intro _ _ _
          exact ih hnodes

/-- Programs that are alike run alongside each other. -/
theorem alike_runProgram (settings : Settings) (steps : Nat) {program program' : Node}
    (h : program.Alike program') :
    RunsAlike Eq (runProgram settings steps program) (runProgram settings steps program') := by
  cases h with
  | source hglobals hfunctions =>
      refine (alike_executeEach settings steps hglobals).bind ?_
      intro _ _ _
      refine (alike_executeEach settings steps hfunctions).bind ?_
      intro _ _ _
      refine alike_mainFunction.bind ?_
      intro f f' hf
      refine (alike_note settings 1 _).bind ?_
      intro _ _ _
      have hexec := (alike_steps settings steps).2
      have hsure := (neverFinishes_of_surelyReturns settings steps).1
      refine (alike_invoke hexec hsure settings.calls hf []).bind ?_
      rintro value _ rfl
      refine (alike_noteValue settings 1 _ value).bind ?_
      intro _ _ _
      exact alike_pure _
  | _ => exact alike_fail _

/-- Two runs end alike: with the same result or the same error, and they leave the same
output, trace, lists and variables. -/
structure EndAlike (run run' : Except RunFailure Value × Machine) : Prop where
  result : Related RunFailure.Alike Eq run.1 run'.1
  output : run.2.output = run'.2.output
  trace : run.2.trace = run'.2.trace
  heap : run.2.heap = run'.2.heap
  loaded : run.2.loaded = run'.2.loaded
  vars : run.2.scopes.toList.map Scope.vars = run'.2.scopes.toList.map Scope.vars

/-- A `RETURN` ends the call and nothing behind it runs: a statement that surely returns
never completes, and no run tells apart two programs that differ only in what follows such
statements. -/
theorem nothing_runs_behind_return :
    (∀ (settings : Settings) (steps calls : Nat) (node : Node) (m m' : Machine),
      node.surelyReturns = true → execute settings steps calls node m ≠ (.ok .finished, m')) ∧
    ∀ (settings : Settings) (steps : Nat) (program program' : Node) (m : Machine),
      program.Alike program' →
        EndAlike (runProgram settings steps program m) (runProgram settings steps program' m) := by
  refine ⟨?_, ?_⟩
  · intro settings steps calls node m m' hreturns hrun
    have hnever := (neverFinishes_of_surelyReturns settings steps).1 calls node hreturns m
    exact hnever.of_ok hrun rfl
  · intro settings steps program program' m h
    obtain ⟨hresult, hm⟩ := alike_runProgram settings steps h (Machine.Alike.refl m)
    exact ⟨hresult, hm.output, hm.trace, hm.heap, hm.loaded, hm.scopes.vars_eq⟩

/-- A loop without end that returns at once, with some statements behind the `RETURN`. -/
def returningLoop (dead : List Node) : Node :=
  .loop (.literal (.boolean true)) (.returning (.literal (.integer 1)) :: dead)

/-- A program whose `main` consists of such a loop and some statements behind it. -/
def loopingProgram (dead behind : List Node) : Node :=
  .source [] [.function "main" [] [] .missing (returningLoop dead :: behind)]

theorem loopingProgram_alike (dead dead' behind behind' : List Node) :
    (loopingProgram dead behind).Alike (loopingProgram dead' behind') := by
  have hloop : (returningLoop dead).Alike (returningLoop dead') :=
    .loop (.refl _) (Node.alikeBody_append_cut [] rfl dead dead')
  exact .source .nil (.cons (.function "main" [] [] .missing (.cut behind behind' hloop rfl)) .nil)

theorem nothing_runs_behind_returningLoop :
    execute .standard 9 9 (returningLoop []) (.start [] .empty (.start 3)) ≠
      (.ok .finished, .start [] .empty (.start 3)) ∧
    EndAlike
      (runProgram .standard 9 (loopingProgram [] []) (.start [] .empty (.start 3)))
      (runProgram .standard 9 (loopingProgram [.absent] [.returning .absent])
        (.start [] .empty (.start 3))) :=
  ⟨nothing_runs_behind_return.1 .standard 9 9 (returningLoop []) _ _ rfl,
    nothing_runs_behind_return.2 .standard 9 _ _ _ (loopingProgram_alike [] _ [] _)⟩

end Runs

end Likeness

end Running
end BlockScript
