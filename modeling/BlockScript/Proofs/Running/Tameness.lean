import BlockScript.Proofs.Running.Plainness

/-!
# Runs of regular programs are tame

From a plain machine, a regular expression or statement leads to a plain machine or fails in
a tame way.  No node of it is met in a place that the runner was not made for, every name can
be bound, and every item that is read or stored into is one that its list has.

Only a call turns a walk without end into an error of the language.  The call of `main` that
starts a run is none of the tree, so what has no end there, outside of all calls, stays what
it is.
-/

namespace BlockScript
namespace Running

open BlockScript.Computation Node

variable {settings : Settings} {has : Contents}

/-- A computation leads to a plain machine and a result with a property, or fails in a tame
way. -/
def RunsTamely {α : Type} (settings : Settings) (has : Contents) (c : Running α) (m : Machine)
    (post : α → Prop) : Prop :=
  c.Ensures m (fun a m' => m'.IsPlain has ∧ post a) (RunFailure.IsTame settings has)

section Rules

variable {α β : Type} {m : Machine}

theorem RunsTamely.bind {c : Running α} {next : α → Running β} {post : α → Prop}
    {post' : β → Prop} (h : RunsTamely settings has c m post)
    (hnext : ∀ a m', m'.IsPlain has → post a → RunsTamely settings has (next a) m' post') :
    RunsTamely settings has (c >>= next) m post' :=
  Ensures.bind h fun a m' ha => hnext a m' ha.1 ha.2

theorem tame_pure {a : α} {post : α → Prop} (hm : m.IsPlain has) (ha : post a) :
    RunsTamely settings has (pure a) m post :=
  ensures_pure ⟨hm, ha⟩

theorem tame_failWith (error : RunError) {post : α → Prop} :
    RunsTamely settings has (failWith error : Running α) m post :=
  ensures_fail (.raised error)

theorem tame_note (level : Nat) (message : String) (hm : m.IsPlain has) :
    RunsTamely settings has (note settings level message) m fun _ => True :=
  ensures_note (fun _ => ⟨⟨hm.scopes, hm.heap⟩, trivial⟩) .unwritable

theorem tame_noteValue (level : Nat) (message : String) {value : Value} (hm : m.IsPlain has)
    (hvalue : value.IsPlain has) :
    RunsTamely settings has (noteValue settings level message value) m fun _ => True :=
  ensures_noteValue (fun _ _ => ⟨⟨hm.scopes, hm.heap⟩, trivial⟩)
    (fun _ => tame_textOf hm.heap hvalue) .unwritable

theorem tame_inScope {c : Running α} {post : α → Prop}
    (h : RunsTamely settings has c m.enter post) :
    RunsTamely settings has (inScope c) m post :=
  ensures_inScope (Ensures.imp h fun _ _ ha => ⟨ha.1.leave, ha.2⟩)

/-- What is found or bound under a text is there, or its fault is an error. -/
theorem tame_boundUnder {name : Name} (hname : IsText name) {binding : Except ScopeFault α}
    {post : α → Prop} (hm : m.IsPlain has) (h : ∀ a, binding = .ok a → post a) :
    RunsTamely settings has (lift (boundUnder name binding)) m post := by
  unfold boundUnder
  rw [if_pos hname.isBindable]
  cases binding with
  | ok a => exact ⟨hm, h a rfl⟩
  | error fault => exact .raised _

theorem tame_lookupVariable {name : Name} (hname : IsText name) (hm : m.IsPlain has) :
    RunsTamely settings has (lookupVariable name) m fun v => v.value.IsPlain has :=
  Ensures.ofState (tame_boundUnder hname hm fun _ hv => hm.scopes.lookupVariable hv)

theorem tame_lookupFunction {name : Name} (hname : IsText name) (arity : Nat)
    (hm : m.IsPlain has) :
    RunsTamely settings has (lookupFunction name arity) m
      fun f => f.IsPlain has ∧ f.arity = arity :=
  Ensures.ofState (tame_boundUnder hname hm fun _ hf =>
    ⟨hm.scopes.lookupFunction hf, Chain.arity_of_lookupFunction hf⟩)

theorem tame_bindVariable {name : Name} (hname : IsText name) (isMutable : Bool) {value : Value}
    (hm : m.IsPlain has) (hvalue : value.IsPlain has) :
    RunsTamely settings has (bindVariable name isMutable value) m fun _ => True := by
  have hdefine : RunsTamely settings has (lift (boundUnder name
      (m.scopes.defineVariable (boundVariable name isMutable value)))) m (Chain.IsPlain has) :=
    tame_boundUnder hname hm fun _ hc => hm.scopes.defineVariable hvalue hc
  refine Ensures.ofState (hdefine.bind ?_)
  intro c m' hm' hc
  exact ensures_change ⟨⟨hc, hm'.heap⟩, trivial⟩

theorem tame_bindFunction {f : Function} (hname : IsText f.name) (hm : m.IsPlain has)
    (hf : f.IsPlain has) :
    RunsTamely settings has (bindFunction f) m fun _ => True := by
  have hdefine : RunsTamely settings has (lift (boundUnder f.name
      (m.scopes.defineFunction f))) m (Chain.IsPlain has) :=
    tame_boundUnder hname hm fun _ hc => hm.scopes.defineFunction hf hc
  refine Ensures.ofState (hdefine.bind ?_)
  intro c m' hm' hc
  exact ensures_change ⟨⟨hc, hm'.heap⟩, trivial⟩

theorem tame_bindParameters {names : List Name} {values : List Value}
    (hnames : ∀ name ∈ names, IsText name) (hm : m.IsPlain has)
    (hvalues : ∀ v ∈ values, v.IsPlain has) :
    RunsTamely settings has (bindParameters names values) m fun _ => True := by
  induction names generalizing values m with
  | nil => exact tame_pure hm trivial
  | cons name names ih =>
      cases values with
      | nil => exact tame_pure hm trivial
      | cons value values =>
          obtain ⟨hname, hnames⟩ := List.forall_mem_cons.mp hnames
          obtain ⟨hvalue, hvalues⟩ := List.forall_mem_cons.mp hvalues
          refine (tame_bindVariable hname true hm hvalue).bind ?_
          intro _ m₁ hm₁ _
          exact ih hnames hm₁ hvalues

theorem tame_setVariable (name : Name) {value : Value} (hm : m.IsPlain has)
    (hvalue : value.IsPlain has) :
    RunsTamely settings has (setVariable name value) m fun _ => True :=
  ensures_change ⟨⟨hm.scopes.setVariable name hvalue, hm.heap⟩, trivial⟩

theorem tame_makeList (hlists : has.lists) {items : List Value} (hm : m.IsPlain has)
    (hitems : ∀ v ∈ items, v.IsPlain has) :
    RunsTamely settings has (makeList items) m fun v => v.IsPlain has :=
  ⟨⟨hm.scopes, hm.heap.allocate hitems⟩, hlists⟩

theorem tame_literalValue {s : Scalar} (hs : s.IsWithin has) (hm : m.IsPlain has) :
    RunsTamely settings has (literalValue s) m fun v => v.IsPlain has := by
  have hnative : ∀ items place, s ≠ .foreign (.array items) place := by
    rintro items place rfl
    exact hs
  rw [literalValue_eq_pure hnative]
  exact tame_pure hm hs

theorem tame_itemAt (reference index : Nat) (hm : m.IsPlain has) :
    RunsTamely settings has (itemAt reference index) m fun v => v.IsPlain has :=
  ⟨hm, hm.heap.getD reference index⟩

theorem tame_storeItem (reference index : Nat) {value : Value} (hm : m.IsPlain has)
    (hvalue : value.IsPlain has) :
    RunsTamely settings has (storeItem reference index value) m fun _ => True :=
  ensures_change ⟨⟨hm.scopes, hm.heap.store reference index hvalue⟩, trivial⟩

theorem tame_requireBoolean (what : String) (value : Value) (hm : m.IsPlain has) :
    RunsTamely settings has (requireBoolean what value) m fun _ => True :=
  ensures_requireBoolean (fun _ _ => ⟨hm, trivial⟩) fun _ => .raised _

theorem tame_requireList (name : Name) (value : Value) (hm : m.IsPlain has) :
    RunsTamely settings has (requireList name value) m fun _ => True :=
  ensures_requireList (fun _ _ => ⟨hm, trivial⟩) fun _ => .raised _

theorem tame_requireIndex (reference : Nat) {value : Value} (hm : m.IsPlain has)
    (hvalue : value.IsPlain has) :
    RunsTamely settings has (requireIndex reference value) m fun _ => True := by
  unfold requireIndex
  split
  · rename_i n
    have hwritten : has.arithmetic ∨ Text.intText? n ≠ none := hvalue
    refine Ensures.ofState ?_
    split
    · exact tame_pure hm trivial
    split
    · exact tame_failWith _
    · rename_i hnone
      exact ensures_fail (.numeral (hwritten.resolve_right (absurd hnone)))
  · exact tame_failWith _

theorem tame_applyOperator {operator : String} {a b : Value}
    (harithmetic : operator ∈ arithmeticOperators → has.arithmetic) (hm : m.IsPlain has)
    (ha : a.IsPlain has) (hb : b.IsPlain has) :
    RunsTamely settings has (applyOperator settings operator a b) m
      fun v => v.IsPlain has := by
  have hgives : GivesPlain settings has (operate settings m.heap operator a b) :=
    givesPlain_operate hm.heap harithmetic ha hb
  refine Ensures.ofState ?_
  cases hresult : operate settings m.heap operator a b with
  | ok v =>
      rw [hresult] at hgives
      exact ⟨hm, hgives⟩
  | error e =>
      rw [hresult] at hgives
      exact hgives

theorem tame_equalHere {a b : Value} (hm : m.IsPlain has) (ha : a.IsPlain has)
    (hb : b.IsPlain has) :
    RunsTamely settings has (equalHere settings a b) m fun _ => True :=
  Ensures.ofState (ensures_lift (fun _ _ => ⟨hm, trivial⟩)
    fun _ => tame_valuesEqual hm.heap ha hb)

theorem tame_print {values : List Value} (hsome : 0 < values.length) (hm : m.IsPlain has)
    (hvalues : ∀ v ∈ values, v.IsPlain has) :
    RunsTamely settings has (print settings values) m fun v => v.IsPlain has := by
  cases values with
  | nil => exact absurd hsome (Nat.lt_irrefl 0)
  | cons value values =>
      have htext : RunsTamely settings has (lift (textOf settings m.heap value)) m
          fun _ => True :=
        ensures_lift (fun _ _ => ⟨hm, trivial⟩)
          fun _ => tame_textOf hm.heap (hvalues value List.mem_cons_self)
      refine Ensures.ofState (htext.bind ?_)
      intro text m₁ hm₁ _
      have hwrite : RunsTamely settings has (writeLine settings text) m₁ fun _ => True := by
        unfold writeLine
        split
        · rename_i hrefused
          rw [Bool.and_eq_true] at hrefused
          exact ensures_fail (.unwritable hrefused.1)
        · exact ensures_change ⟨⟨hm₁.scopes, hm₁.heap⟩, trivial⟩
      refine hwrite.bind ?_
      intro _ m₂ hm₂ _
      exact tame_pure hm₂ trivial

end Rules

section Parts

variable {m : Machine} {evaluate : Node → Running Value} {execute : Node → Running Completion}

/-- Every regular expression is evaluated tamely. -/
def EvaluatesTamely (settings : Settings) (has : Contents) (evaluate : Node → Running Value) :
    Prop :=
  ∀ (node : Node) (m : Machine), node.IsExpression → node.Every (IsRegular has) →
    m.IsPlain has → RunsTamely settings has (evaluate node) m fun v => v.IsPlain has

/-- Every regular statement or declaration is executed tamely. -/
def ExecutesTamely (settings : Settings) (has : Contents)
    (execute : Node → Running Completion) : Prop :=
  ∀ (node : Node) (m : Machine), node.IsExecuted → node.Every (IsRegular has) →
    m.IsPlain has →
      RunsTamely settings has (execute node) m fun ending => ending.value.IsPlain has

theorem tame_evaluateAll (heval : EvaluatesTamely settings has evaluate) {nodes : List Node}
    (hexpressions : ∀ node ∈ nodes, node.IsExpression)
    (hnodes : EveryOf (IsRegular has) nodes) (hm : m.IsPlain has) :
    RunsTamely settings has (evaluateAll evaluate nodes) m
      fun values => ∀ v ∈ values, v.IsPlain has := by
  induction nodes generalizing m with
  | nil => exact tame_pure hm nofun
  | cons node nodes ih =>
      obtain ⟨hexpression, hexpressions⟩ := List.forall_mem_cons.mp hexpressions
      refine (heval node m hexpression hnodes.1 hm).bind ?_
      intro v m₁ hm₁ hv
      refine (ih hexpressions hnodes.2 hm₁).bind ?_
      intro vs m₂ hm₂ hvs
      exact tame_pure hm₂ (List.forall_mem_cons.mpr ⟨hv, hvs⟩)

theorem tame_evaluateOptional (heval : EvaluatesTamely settings has evaluate) {node : Node}
    (hoptional : node.IsOptional) (hnode : node.Every (IsRegular has)) (hm : m.IsPlain has) :
    RunsTamely settings has (evaluateOptional evaluate node) m fun v => v.IsPlain has := by
  unfold evaluateOptional
  split
  · exact tame_pure hm trivial
  · rename_i hpresent
    exact heval node m (hoptional.isExpression hpresent) hnode hm

theorem tame_executeAll (hexec : ExecutesTamely settings has execute) {nodes : List Node}
    (hbody : IsBody nodes) (hnodes : EveryOf (IsRegular has) nodes) (hm : m.IsPlain has) :
    RunsTamely settings has (executeAll execute nodes) m
      fun ending => ending.value.IsPlain has := by
  induction nodes generalizing m with
  | nil => exact tame_pure hm trivial
  | cons node nodes ih =>
      obtain ⟨hstatement, hbody⟩ := List.forall_mem_cons.mp hbody
      refine (hexec node m hstatement.isExecuted hnodes.1 hm).bind ?_
      intro ending m₁ hm₁ hending
      cases ending with
      | finished => exact ih hbody hnodes.2 hm₁
      | returned value => exact tame_pure hm₁ hending

theorem tame_body (hexec : ExecutesTamely settings has execute) {nodes : List Node}
    (hbody : IsBody nodes) (hnodes : EveryOf (IsRegular has) nodes) (hm : m.IsPlain has) :
    RunsTamely settings has (inScope (executeAll execute nodes)) m
      fun ending => ending.value.IsPlain has :=
  tame_inScope (tame_executeAll hexec hbody hnodes hm.enter)

theorem tame_secondTruth (heval : EvaluatesTamely settings has evaluate) (operator : String)
    {right : Node} (hexpression : right.IsExpression) (hright : right.Every (IsRegular has))
    (hm : m.IsPlain has) :
    RunsTamely settings has (secondTruth evaluate operator right) m
      fun v => v.IsPlain has := by
  refine (heval right m hexpression hright hm).bind ?_
  intro value m₁ hm₁ _
  refine (tame_requireBoolean operator value hm₁).bind ?_
  intro truth m₂ hm₂ _
  exact tame_pure hm₂ trivial

theorem tame_evaluateBinary (heval : EvaluatesTamely settings has evaluate)
    {operator : String} (harithmetic : operator ∈ arithmeticOperators → has.arithmetic)
    {left right : Node} (hleft : left.IsExpression)
    (hright : right.IsExpression) (hl : left.Every (IsRegular has))
    (hr : right.Every (IsRegular has)) (hm : m.IsPlain has) :
    RunsTamely settings has (evaluateBinary settings evaluate operator left right) m
      fun v => v.IsPlain has := by
  refine (heval left m hleft hl hm).bind ?_
  intro a m₁ hm₁ ha
  split
  · refine (tame_requireBoolean operator a hm₁).bind ?_
    intro truth m₂ hm₂ _
    split
    · exact tame_secondTruth heval operator hright hr hm₂
    · exact tame_pure hm₂ trivial
  split
  · refine (tame_requireBoolean operator a hm₁).bind ?_
    intro truth m₂ hm₂ _
    split
    · exact tame_pure hm₂ trivial
    · exact tame_secondTruth heval operator hright hr hm₂
  · refine (heval right m₁ hright hr hm₁).bind ?_
    intro b m₂ hm₂ hb
    exact tame_applyOperator harithmetic hm₂ ha hb

theorem tame_locate (heval : EvaluatesTamely settings has evaluate) (name : Name)
    (value : Value) {offset : Node} (hexpression : offset.IsExpression)
    (hoffset : offset.Every (IsRegular has)) (hm : m.IsPlain has) :
    RunsTamely settings has (locate evaluate name value offset) m fun _ => True := by
  refine (tame_requireList name value hm).bind ?_
  intro reference m₁ hm₁ _
  refine (heval offset m₁ hexpression hoffset hm₁).bind ?_
  intro index m₂ hm₂ hindex
  refine (tame_requireIndex reference hm₂ hindex).bind ?_
  intro i m₃ hm₃ _
  exact tame_pure hm₃ trivial

theorem tame_evaluateAccess (heval : EvaluatesTamely settings has evaluate) {name : Name}
    {offset : Node} (hname : IsText name) (hoptional : offset.IsOptional)
    (hoffset : offset.Every (IsRegular has)) (hm : m.IsPlain has) :
    RunsTamely settings has (evaluateAccess evaluate name offset) m
      fun v => v.IsPlain has := by
  refine (tame_lookupVariable hname hm).bind ?_
  intro v m₁ hm₁ hv
  split
  · exact tame_pure hm₁ hv
  · rename_i hpresent
    have hexpression := hoptional.isExpression hpresent
    refine (tame_locate heval name v.value hexpression hoffset hm₁).bind ?_
    rintro ⟨reference, i⟩ m₂ hm₂ _
    exact tame_itemAt reference i hm₂

theorem tame_noted (message : String) {value : Value} (hm : m.IsPlain has)
    (hvalue : value.IsPlain has) :
    RunsTamely settings has
      (do noteValue settings 2 message value; return Completion.finished) m
      fun ending => ending.value.IsPlain has := by
  refine (tame_noteValue 2 message hm hvalue).bind ?_
  intro _ m₁ hm₁ _
  exact tame_pure hm₁ trivial

theorem tame_assign (heval : EvaluatesTamely settings has evaluate) {name : Name}
    {offset : Node} {value : Value} (htarget : (access name offset).Every (IsRegular has))
    (hm : m.IsPlain has) (hvalue : value.IsPlain has) :
    RunsTamely settings has (assign settings evaluate (.access name offset) value) m
      fun ending => ending.value.IsPlain has := by
  obtain ⟨h, hoffset⟩ := htarget
  refine (tame_lookupVariable h.formed hm).bind ?_
  intro v m₁ hm₁ _
  split
  · split
    · refine (tame_setVariable name hm₁ hvalue).bind ?_
      intro _ m₂ hm₂ _
      exact tame_noted _ hm₂ hvalue
    · exact tame_failWith _
  · rename_i hpresent
    have hexpression := IsOptional.isExpression h.placed hpresent
    refine (tame_locate heval name v.value hexpression hoffset hm₁).bind ?_
    rintro ⟨reference, i⟩ m₂ hm₂ _
    refine (tame_storeItem reference i hm₂ hvalue).bind ?_
    intro _ m₃ hm₃ _
    exact tame_noted _ hm₃ hvalue

theorem tame_meets (heval : EvaluatesTamely settings has evaluate) {value : Value}
    {node : Node} (hoptional : node.IsOptional) (hnode : node.Every (IsRegular has))
    (hm : m.IsPlain has) (hvalue : value.IsPlain has) :
    RunsTamely settings has (meets settings evaluate value node) m fun _ => True := by
  unfold meets
  split
  · exact tame_pure hm trivial
  · rename_i hpresent
    refine (heval node m (hoptional.isExpression hpresent) hnode hm).bind ?_
    intro v m₁ hm₁ hv
    exact tame_equalHere hm₁ hvalue hv

theorem tame_select (heval : EvaluatesTamely settings has evaluate)
    (hexec : ExecutesTamely settings has execute) {value : Value} (position : Nat)
    {arms : List Node} (hforms : ∀ a ∈ arms, a.IsArm) (harms : EveryOf (IsRegular has) arms)
    (hm : m.IsPlain has) (hvalue : value.IsPlain has) :
    RunsTamely settings has (select settings evaluate execute value position arms) m
      fun ending => ending.value.IsPlain has := by
  induction arms generalizing m position with
  | nil => exact tame_pure hm trivial
  | cons first arms ih =>
      have hothers : ∀ a ∈ arms, a.IsArm := fun a ha => hforms a (List.mem_cons_of_mem _ ha)
      obtain ⟨node, body, rfl⟩ := (hforms first List.mem_cons_self).exists_eq
      obtain ⟨h, hnode, hbody⟩ := harms.1
      refine (tame_meets heval h.placed.1 hnode hm hvalue).bind ?_
      intro chosen m₁ hm₁ _
      split
      · refine (tame_note 3 _ hm₁).bind ?_
        intro _ m₂ hm₂ _
        exact hexec (.arm node body) m₂ trivial ⟨h, hnode, hbody⟩ hm₂
      · exact ih (position + 1) hothers harms.2 hm₁

end Parts

section Calls

variable {m : Machine} {execute : Nat → Node → Running Completion}

/-- Invoking a function with as many values as it takes is tame, but for a call that is one too
deep. -/
theorem tame_invoke (hexec : ∀ calls, ExecutesTamely settings has (execute calls))
    (calls : Nat) {f : Function} {values : List Value} (hm : m.IsPlain has)
    (hf : f.IsPlain has) (harity : f.arity = values.length)
    (hvalues : ∀ v ∈ values, v.IsPlain has) :
    (invoke settings execute calls f values).Ensures m
      (fun v m' => m'.IsPlain has ∧ v.IsPlain has)
      fun e => e.IsTame settings has ∨ (calls = 0 ∧ e = .endless) := by
  have htame : ∀ {c : Running Value}, RunsTamely settings has c m (fun v => v.IsPlain has) →
      c.Ensures m (fun v m' => m'.IsPlain has ∧ v.IsPlain has)
        fun e => e.IsTame settings has ∨ (calls = 0 ∧ e = .endless) :=
    fun h => Ensures.mono h (fun _ _ ha => ha) fun _ he => Or.inl he
  have hact := hf.action
  unfold invoke
  split
  · rename_i haction
    exact htame (tame_print (harity ▸ hf.printer haction) hm hvalues)
  · rename_i value haction
    rw [haction] at hact
    exact htame (tame_pure hm hact)
  · rename_i haction
    rw [haction] at hact
    exact htame (tame_makeList hact hm hvalues)
  · rename_i parameters body haction
    rw [haction] at hact
    obtain ⟨hparameters, hbody, hnodes⟩ := hact
    split
    · -- No call is left.  Only the caller makes an error of the language of that.
      exact ensures_fail (Or.inr ⟨rfl, rfl⟩)
    · rename_i calls
      refine htame (tame_inScope ?_)
      refine (tame_bindParameters hparameters hm.enter hvalues).bind ?_
      intro _ m₁ hm₁ _
      refine (tame_executeAll (hexec calls) hbody hnodes hm₁).bind ?_
      intro ending m₂ hm₂ hending
      exact tame_pure hm₂ hending

theorem tame_evaluateCall {evaluate : Node → Running Value}
    (heval : EvaluatesTamely settings has evaluate)
    (hexec : ∀ calls, ExecutesTamely settings has (execute calls)) (calls : Nat) {name : Name}
    {arguments : List Node} (hname : IsText name)
    (hexpressions : ∀ a ∈ arguments, a.IsExpression)
    (harguments : EveryOf (IsRegular has) arguments) (hm : m.IsPlain has) :
    RunsTamely settings has (evaluateCall settings evaluate execute calls name arguments) m
      fun v => v.IsPlain has := by
  refine (tame_evaluateAll heval hexpressions harguments hm).bind ?_
  intro values m₁ hm₁ hvalues
  refine (tame_lookupFunction hname values.length hm₁).bind ?_
  rintro f m₂ hm₂ ⟨hf, harity⟩
  refine (tame_note 1 _ hm₂).bind ?_
  intro _ m₃ hm₃ _
  refine Ensures.mapFailure ((tame_invoke hexec calls hm₃ hf harity hvalues).mono
    (fun _ _ ha => ha) ?_)
  rintro e (he | ⟨_, rfl⟩)
  · cases he with
    | endless => exact .raised _
    | range harithmetic hdecimals hrange =>
        rcases hrange with rfl | rfl | rfl
        · exact .range harithmetic hdecimals (Or.inl rfl)
        · exact .range harithmetic hdecimals (Or.inr (Or.inl rfl))
        · exact .range harithmetic hdecimals (Or.inr (Or.inr rfl))
    | raised error => exact .raised error
    | numeral harithmetic => exact .numeral harithmetic
    | unwritable h => exact .unwritable h
    | exhausted => exact .exhausted
  · exact .raised _

/-- A call never ends with a walk without end, unless one of its arguments does: it is an
error of the language by then. -/
theorem evaluateAll_of_endless {evaluate : Node → Running Value} {calls : Nat} {name : Name}
    {arguments : List Node} {m' : Machine}
    (h : evaluateCall settings evaluate execute calls name arguments m = (.error .endless, m')) :
    evaluateAll evaluate arguments m = (.error .endless, m') := by
  rcases bind_eq_error.mp h with h | ⟨values, m₁, _, h⟩
  · exact h
  exfalso
  rcases bind_eq_error.mp h with h | ⟨f, m₂, _, h⟩
  · have hlookup : (lookupFunction name values.length).Ensures m₁ (fun _ _ => True)
        fun e => e ≠ .endless :=
      ensures_lookupFunction (fun _ _ => trivial) (fun _ _ => nofun) nofun
    exact hlookup.of_error h rfl
  rcases bind_eq_error.mp h with h | ⟨_, m₃, _, h⟩
  · have hnote : (note settings 1 ("call " ++ ScopeFault.signature name.text values.length)).Ensures
        m₂ (fun _ _ => True) fun e => e ≠ .endless :=
      ensures_note (fun _ => trivial) fun _ => nofun
    exact hnote.of_error h rfl
  · have hmapped : ((invoke settings execute calls f values).mapFailure
        (overflowIn name.text values.length)).Ensures m₃ (fun _ _ => True)
        fun e => e ≠ .endless := by
      refine Ensures.mapFailure (ensures_iff.mpr ⟨fun _ _ _ => trivial, ?_⟩)
      intro e _ _
      cases e <;> exact nofun
    exact hmapped.of_error h rfl

end Calls

section Nodes

variable {m : Machine} {evaluate : Nat → Node → Running Value}
  {execute : Nat → Node → Running Completion}

theorem tame_evaluateNode (heval : ∀ calls, EvaluatesTamely settings has (evaluate calls))
    (hexec : ∀ calls, ExecutesTamely settings has (execute calls)) (calls : Nat) :
    EvaluatesTamely settings has (evaluateNode settings evaluate execute calls) := by
  intro node m hexpression hnode hm
  cases node with
  | literal value => exact tame_literalValue hnode.isWithin hm
  | group inner => exact heval calls inner m hnode.1.placed hnode.2 hm
  | binary operator left right =>
      obtain ⟨h, hl, hr⟩ := hnode
      obtain ⟨_, hleft, hright⟩ := h.placed
      exact tame_evaluateBinary (heval calls) h.within.arithmetic hleft hright hl hr hm
  | access name offset =>
      exact tame_evaluateAccess (heval calls) hnode.1.formed hnode.1.placed hnode.2 hm
  | call name arguments =>
      exact tame_evaluateCall (heval calls) hexec calls hnode.1.formed hnode.1.placed hnode.2 hm
  | list elements =>
      refine (tame_evaluateAll (heval calls) hnode.1.placed.2 hnode.2 hm).bind ?_
      intro values m₁ hm₁ hvalues
      exact tame_makeList (hnode.1.within.lists trivial) hm₁ hvalues
  | _ => exact hexpression.elim

theorem tame_declare (verb : String) {name : Name} (hname : IsText name) (isMutable : Bool)
    {value : Value} (hm : m.IsPlain has) (hvalue : value.IsPlain has) :
    RunsTamely settings has (declare settings verb name isMutable value) m
      fun ending => ending.value.IsPlain has := by
  refine (tame_bindVariable hname isMutable hm hvalue).bind ?_
  intro _ m₁ hm₁ _
  exact tame_noted _ hm₁ hvalue

theorem tame_executeLoop (heval : ∀ calls, EvaluatesTamely settings has (evaluate calls))
    (hexec : ∀ calls, ExecutesTamely settings has (execute calls)) (calls : Nat)
    {condition : Node} {body : List Node} (hloop : (loop condition body).Every (IsRegular has))
    (hm : m.IsPlain has) :
    RunsTamely settings has (executeLoop evaluate execute calls condition body) m
      fun ending => ending.value.IsPlain has := by
  obtain ⟨h, hcondition, hbody⟩ := hloop
  refine (heval calls condition m h.placed.1 hcondition hm).bind ?_
  intro value m₁ hm₁ _
  refine (tame_requireBoolean "WHILE" value hm₁).bind ?_
  intro holds m₂ hm₂ _
  split
  · refine (tame_body (hexec calls) h.placed.2 hbody hm₂).bind ?_
    intro ending m₃ hm₃ hending
    cases ending with
    | finished => exact hexec calls (.loop condition body) m₃ trivial ⟨h, hcondition, hbody⟩ hm₃
    | returned value => exact tame_pure hm₃ hending
  · exact tame_pure hm₂ trivial

theorem tame_executeNode (heval : ∀ calls, EvaluatesTamely settings has (evaluate calls))
    (hexec : ∀ calls, ExecutesTamely settings has (execute calls)) (calls : Nat) :
    ExecutesTamely settings has (executeNode settings evaluate execute calls) := by
  intro node m hexecuted hnode hm
  cases node with
  | «global» name typeName isMutable value =>
      obtain ⟨h, hvalue⟩ := hnode
      refine (tame_evaluateOptional (heval calls) h.placed hvalue hm).bind ?_
      intro v m₁ hm₁ hv
      exact tame_declare "global" h.formed.1 isMutable hm₁ hv
  | function name parameters parameterTypes returnType body =>
      obtain ⟨h, hbody⟩ := hnode
      have hdeclared : (declaredFunction name parameters body).IsPlain has :=
        ⟨⟨h.formed.2.1, h.placed, hbody⟩, nofun⟩
      refine (tame_bindFunction h.formed.1 hm hdeclared).bind ?_
      intro _ m₁ hm₁ _
      refine (tame_note 2 _ hm₁).bind ?_
      intro _ m₂ hm₂ _
      exact tame_pure hm₂ trivial
  | evaluation expression =>
      refine (heval calls expression m hnode.1.placed hnode.2 hm).bind ?_
      intro _ m₁ hm₁ _
      exact tame_pure hm₁ trivial
  | declaration name typeName value =>
      obtain ⟨h, hvalue⟩ := hnode
      refine (tame_evaluateOptional (heval calls) h.placed hvalue hm).bind ?_
      intro v m₁ hm₁ hv
      exact tame_declare "declare" h.formed.1 true hm₁ hv
  | assignment target value =>
      obtain ⟨h, htarget, hvalue⟩ := hnode
      obtain ⟨⟨name, offset, rfl⟩, hexpression⟩ := h.placed
      refine (heval calls value m hexpression hvalue hm).bind ?_
      intro v m₁ hm₁ hv
      exact tame_assign (heval calls) htarget hm₁ hv
  | conditional condition thenBody elseBody =>
      obtain ⟨h, hcondition, hthen, helse⟩ := hnode
      obtain ⟨hexpression, hthenBody, helseBody⟩ := h.placed
      refine (heval calls condition m hexpression hcondition hm).bind ?_
      intro value m₁ hm₁ _
      refine (tame_requireBoolean "IF" value hm₁).bind ?_
      intro holds m₂ hm₂ _
      refine (tame_note 3 _ hm₂).bind ?_
      intro _ m₃ hm₃ _
      cases holds with
      | true => exact tame_body (hexec calls) hthenBody hthen hm₃
      | false => exact tame_body (hexec calls) helseBody helse hm₃
  | loop condition body => exact tame_executeLoop heval hexec calls hnode hm
  | «switch» condition arms =>
      obtain ⟨h, hcondition, harms⟩ := hnode
      refine tame_inScope ?_
      refine (heval calls condition m.enter h.placed.1 hcondition hm.enter).bind ?_
      intro value m₁ hm₁ hvalue
      refine (tame_bindVariable (isText_ofText switchName) true hm₁ hvalue).bind ?_
      intro _ m₂ hm₂ _
      exact tame_select (heval calls) (hexec calls) 0 h.placed.2.areArms harms hm₂ hvalue
  | arm value body => exact tame_body (hexec calls) hnode.1.placed.2 hnode.2.2 hm
  | returning value =>
      refine (tame_evaluateOptional (heval calls) hnode.1.placed hnode.2 hm).bind ?_
      intro v m₁ hm₁ hv
      exact tame_pure hm₁ hv
  | _ => exact hexecuted.elim

end Nodes

section Runs

variable {m : Machine}

theorem tame_steps (settings : Settings) (has : Contents) (steps : Nat) :
    (∀ calls, EvaluatesTamely settings has (evaluate settings steps calls)) ∧
      ∀ calls, ExecutesTamely settings has (execute settings steps calls) := by
  induction steps with
  | zero =>
      exact ⟨fun _ _ _ _ _ _ => ensures_fail .exhausted,
        fun _ _ _ _ _ _ => ensures_fail .exhausted⟩
  | succ steps ih =>
      obtain ⟨heval, hexec⟩ := ih
      exact ⟨tame_evaluateNode heval hexec, tame_executeNode heval hexec⟩

theorem tame_executeEach (steps : Nat) {nodes : List Node}
    (hexecuted : ∀ node ∈ nodes, node.IsExecuted) (hnodes : EveryOf (IsRegular has) nodes)
    (hm : m.IsPlain has) :
    RunsTamely settings has (executeEach settings steps nodes) m fun _ => True := by
  induction nodes generalizing m with
  | nil => exact tame_pure hm trivial
  | cons node nodes ih =>
      obtain ⟨hnode, hexecuted⟩ := List.forall_mem_cons.mp hexecuted
      have hexec := (tame_steps settings has steps).2 settings.calls
      refine (hexec node m hnode hnodes.1 hm).bind ?_
      intro _ m₁ hm₁ _
      exact ih hexecuted hnodes.2 hm₁

/-- The run of a regular program is tame, but for a `main` that no call is left for. -/
theorem tame_runProgram (steps : Nat) {program : Node} (hprogram : program.IsProgram)
    (h : program.Every (IsRegular has)) (hm : m.IsPlain has) :
    (runProgram settings steps program).Ensures m
      (fun v m' => m'.IsPlain has ∧ v.IsPlain has)
      fun e => e.IsTame settings has ∨ (settings.calls = 0 ∧ e = .endless) := by
  have hmono : ∀ {α : Type} {c : Running α} {m : Machine} {post : α → Prop},
      RunsTamely settings has c m post → c.Ensures m (fun a m' => m'.IsPlain has ∧ post a)
        fun e => e.IsTame settings has ∨ (settings.calls = 0 ∧ e = .endless) :=
    fun h => Ensures.mono h (fun _ _ ha => ha) fun _ he => Or.inl he
  cases program with
  | source globals functions =>
      obtain ⟨hnode, hglobals, hfunctions⟩ := h
      have hglobal : ∀ g ∈ globals, g.IsExecuted := by
        intro g hg
        obtain ⟨_, _, _, _, rfl⟩ := hnode.placed.1 g hg
        trivial
      have hfunction : ∀ f ∈ functions, f.IsExecuted := by
        intro f hf
        obtain ⟨_, _, _, _, _, rfl⟩ := hnode.placed.2 f hf
        trivial
      refine (hmono (tame_executeEach steps hglobal hglobals hm)).bind ?_
      rintro _ m₁ ⟨hm₁, _⟩
      refine (hmono (tame_executeEach steps hfunction hfunctions hm₁)).bind ?_
      rintro _ m₂ ⟨hm₂, _⟩
      have hmain : RunsTamely settings has mainFunction m₂
          fun f => f.IsPlain has ∧ f.arity = 0 :=
        ensures_mainFunction
          (fun _ hf =>
            ⟨hm₂, hm₂.scopes.lookupFunction hf, Chain.arity_of_lookupFunction hf⟩)
          fun _ _ => .raised _
      refine (hmono hmain).bind ?_
      rintro f m₃ ⟨hm₃, hf, harity⟩
      refine (hmono (tame_note 1 _ hm₃)).bind ?_
      rintro _ m₄ ⟨hm₄, _⟩
      have hexec := (tame_steps settings has steps).2
      -- This call is under no node of the tree, so its failures stay what they are.
      have hnone : f.arity = ([] : List Value).length := harity
      refine (tame_invoke hexec settings.calls hm₄ hf hnone (List.forall_mem_nil _)).bind ?_
      rintro value m₅ ⟨hm₅, hvalue⟩
      refine (hmono (tame_noteValue 1 _ hm₅ hvalue)).bind ?_
      rintro _ m₆ ⟨hm₆, _⟩
      exact ensures_pure ⟨hm₆, hvalue⟩
  | _ => exact hprogram.elim

end Runs

end Running
end BlockScript
