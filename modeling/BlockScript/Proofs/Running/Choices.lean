import BlockScript.Proofs.Running.Shadowing
import BlockScript.Proofs.Text.Messages

/-!
# A switch is a chain of conditionals

A switch on a condition comes to what a block comes to that keeps the value of the condition in
a scratch variable and compares it with the values of the cases in nested conditionals
(`switch_comes_to_choice`).

The two runs open different scopes: the switch has one that it keeps its value in, and every
conditional that is not chosen leaves a scope around those behind it.  All of these scopes hold
nothing that the program looks up, so the machines differ in hidden variables throughout.  The
comparison goes by induction on the cases, with one more scope of the second run for each case
that is passed.
-/

namespace BlockScript

/-- One case of a switch, whose value may be left out. -/
structure SwitchCase where
  value : Node
  body : List Node

namespace SwitchCase

/-- The case as a part of a switch. -/
def node (c : SwitchCase) : Node := .arm c.value c.body

/-- The comparison of a scratch variable with the value of the case. -/
def test (t : Name) (c : SwitchCase) : Node := .binary "==" (.access t .absent) c.value

end SwitchCase

/-- The statements that choose between cases by the value of a scratch variable. -/
def choice (t : Name) : List SwitchCase → List Node
  | [] => []
  | c :: cases =>
      if c.value.isAbsent then c.body else [.conditional (c.test t) c.body (choice t cases)]

/-- A scope with one variable. -/
def Scope.holding (name : Name) (value : Value) : Scope :=
  ⟨[Running.boundVariable name true value], []⟩

namespace Machine.Shadows

variable {t : Name} {layers : List Overlay} {m m' : Machine}

/-- In empty scopes of their own, each of two machines may hold a value under its own name. -/
theorem hold (h : m.Shadows t (.left .empty :: .right .empty :: layers) m') (value : Value)
    {trace : Trace} (hlevel : trace.level = m'.trace.level) :
    Shadows t (.right (.holding t value) :: .left (.holding Running.switchName value) :: layers)
      { m with scopes := ⟨.holding Running.switchName value, m.scopes.outer⟩ }
      { m' with scopes := ⟨.holding t value, m'.scopes.outer⟩, trace := trace } := by
  have hleft : (Scope.holding Running.switchName value).IsHidden t Running.switchName :=
    ⟨List.forall_mem_singleton.mpr (.inr (Name.same_refl _)), rfl⟩
  have hright : (Scope.holding t value).IsHidden t Running.switchName :=
    ⟨List.forall_mem_singleton.mpr (.inl (Name.same_refl _)), rfl⟩
  have hmatches := (h.scopes.replaceLeft hleft).swap.replaceRight hright
  have hfounded := (h.founded.of_cons nofun).of_cons nofun
  have hspared := (List.forall_mem_cons.mp h.spared).2
  exact ⟨hmatches, hfounded.cons.cons,
    List.forall_mem_cons.mpr ⟨⟨fun _ _ => trivial, nofun⟩, hspared⟩, h.heap, h.output,
    hlevel.trans h.level, h.loaded⟩

end Machine.Shadows

namespace Running

open BlockScript.Computation Machine

section Steps

variable {settings : Settings} {t : Name} {m : Machine}

theorem inScope_apply {α : Type} (c : Running α) (m : Machine) :
    inScope c m = ((c m.enter).1, (c m.enter).2.leave) := rfl

theorem bind_assoc_apply {α β γ : Type} (c : Running α) (f : α → Running β) (g : β → Running γ)
    (m : Machine) : (c >>= f >>= g) m = (c >>= fun a => f a >>= g) m := by
  rw [bind_apply, bind_apply, bind_apply]
  cases c m with
  | mk r s => cases r <;> rfl

theorem executeAll_singleton (execute : Node → Running Completion) (node : Node) :
    executeAll execute [node] = execute node := by
  funext m
  rw [executeAll, bind_apply]
  cases execute node m with
  | mk r s =>
      cases r with
      | error e => rfl
      | ok ending => cases ending <;> rfl

/-- A block that starts with a declaration evaluates the value, declares the variable and goes
on. -/
theorem executeAll_declaration {value : Node} (hpresent : value.isAbsent = false)
    (steps calls : Nat) (typeName : Name) (nodes : List Node) :
    executeAll (execute settings (steps + 1) calls) (.declaration t typeName value :: nodes) =
      (do
        let v ← evaluate settings steps calls value
        let ending ← declare settings "declare" t true v
        match ending with
        | .finished => executeAll (execute settings (steps + 1) calls) nodes
        | .returned w => return .returned w) := by
  funext m
  rw [executeAll, execute, executeNode, evaluateOptional, hpresent]
  exact bind_assoc_apply _ _ _ m

/-- A message that can be written changes nothing but the messages of the trace. -/
theorem note_eq_ok (level : Nat) {message : String}
    (h : settings.strict = true → Text.isWritable message = true) (m : Machine) :
    ∃ trace : Trace, trace.level = m.trace.level ∧
      note settings level message m = (.ok (), { m with trace := trace }) := by
  rw [note_apply, refuses_eq_false h]
  split
  · exact ⟨m.trace, rfl, rfl⟩
  · exact ⟨m.trace.note level message, level_note _ _ _, rfl⟩

theorem noteValue_eq_note {value : Value} {text : String} (level : Nat) (message : String)
    (htext : textOf settings m.heap value = .ok text) :
    noteValue settings level message value m = note settings level (message ++ text) m := by
  unfold noteValue
  split
  · rw [bind_apply, state_apply]
    dsimp only
    rw [htext]
    rfl
  · rename_i hreports
    rw [note_apply, if_pos (Bool.not_eq_true _ ▸ hreports)]
    rfl

/-- A variable is bound in a scope that is empty. -/
theorem bindVariable_of_empty {name : Name} (hname : name.isBindable = true)
    (hm : m.scopes.current = .empty) (value : Value) :
    bindVariable name true value m =
      (.ok (), { m with scopes := ⟨.holding name value, m.scopes.outer⟩ }) := by
  have hdefine : m.scopes.defineVariable ⟨name, name, some .any, true, value⟩ =
      .ok ⟨.holding name value, m.scopes.outer⟩ := by
    unfold Chain.defineVariable
    rw [hm]
    rfl
  unfold bindVariable boundUnder
  rw [bind_apply, state_apply]
  dsimp only
  rw [if_pos hname, hdefine]
  rfl

/-- The operator of equality tells whether two values are equal. -/
theorem applyOperator_equals (a b : Value) :
    applyOperator settings "==" a b =
      equalHere settings a b >>= fun same => pure (.boolean same) := by
  funext m
  simp only [applyOperator, equalHere, bind_apply, state_apply]
  unfold operate
  rw [if_pos rfl]
  cases valuesEqual settings m.heap a b <;> rfl

/-- A conditional on the value of a case does what a switch does to see whether the case is the
one, and goes on with one of its bodies. -/
theorem execute_test {c : SwitchCase} {v : Variable} {steps calls : Nat}
    {thenBody elseBody : List Node} (hpresent : c.value.isAbsent = false)
    (hlookup : lookupVariable t m = (.ok v, m)) :
    execute settings (steps + 3) calls (.conditional (c.test t) thenBody elseBody) m =
      (do
        let same ← meets settings (evaluate settings (steps + 1) calls) v.value c.value
        note settings 3 ("if condition -> " ++ truthText same)
        inScope (executeAll (execute settings (steps + 2) calls)
          (if same then thenBody else elseBody))) m := by
  have haccess : evaluate settings (steps + 1) calls (.access t .absent) m = (.ok v.value, m) := by
    rw [evaluate, evaluateNode, evaluateAccess, bind_apply, hlookup]
    rfl
  have htest : evaluate settings (steps + 2) calls (c.test t) m =
      (meets settings (evaluate settings (steps + 1) calls) v.value c.value >>=
        fun same => pure (.boolean same)) m := by
    rw [SwitchCase.test, evaluate, evaluateNode, evaluateBinary, bind_apply, haccess]
    dsimp only
    rw [Name.text_ofText, if_neg (by decide), if_neg (by decide), meets, hpresent]
    simp only [applyOperator_equals]
    exact (bind_assoc_apply _ _ _ m).symm
  rw [execute, executeNode, executeConditional, bind_apply, htest, bind_apply, bind_apply]
  cases meets settings (evaluate settings (steps + 1) calls) v.value c.value m with
  | mk r s => cases r <;> rfl

/-- With fewer than three steps a conditional on the value of a case does not come to compare. -/
theorem execute_test_spent {c : SwitchCase} {steps calls : Nat} {thenBody elseBody : List Node}
    (h : steps < 3) :
    (execute settings steps calls (.conditional (c.test t) thenBody elseBody) m).1 =
      .error .exhausted := by
  match steps, h with
  | 0, _ | 1, _ | 2, _ => rfl

theorem meets_of_absent {evaluate : Node → Running Value} {node : Node}
    (h : node.isAbsent = true) (value : Value) :
    meets settings evaluate value node = pure true := by
  unfold meets
  rw [if_pos h]

/-- A case is selected if its value meets that of the condition, and the next ones are looked at
otherwise. -/
theorem select_case {evaluate : Node → Running Value} {execute : Node → Running Completion}
    {value : Value} {position : Nat} {c : SwitchCase} {arms : List Node} :
    select settings evaluate execute value position (c.node :: arms) =
      (do
        if ← meets settings evaluate value c.value then
          note settings 3 ("switch selected case " ++ Text.natText position)
          execute c.node
        else select settings evaluate execute value (position + 1) arms) := rfl

theorem selected_isWritable (position : Nat) :
    Text.isWritable ("switch selected case " ++ Text.natText position) = true :=
  Text.composes_isWritable.append (Text.composes_isWritable.ascii (by decide))
    (Text.composes_isWritable.ascii (Text.isAscii_natText position))

theorem truth_isWritable (holds : Bool) :
    Text.isWritable ("if condition -> " ++ truthText holds) = true := by
  cases holds <;> decide

end Steps

section Cases

variable {settings : Settings} {side : Side} {t : Name} {value : Value} {layers : List Overlay}
  {r : Scope} {rs : List Scope} {m m' : Machine} {steps steps' calls : Nat}

/-- The scopes of the second run keep a value in a scratch variable.  The first of them has no
other variables. -/
structure KeepsScratch (t : Name) (value : Value) (r : Scope) (rs : List Scope) : Prop where
  reserved : Reserved t r.vars
  functions : r.functions = []
  found : ∃ v, ((r :: rs).findSome? fun s => s.findVariable? t) = some v ∧ v.value = value

theorem keepsScratch_holding : KeepsScratch t value (.holding t value) [] := by
  have hreserved : Reserved t (Scope.holding t value).vars :=
    List.forall_mem_singleton.mpr (Name.same_refl t)
  refine ⟨hreserved, rfl, boundVariable t true value, ?_, rfl⟩
  simp [Scope.holding, Scope.findVariable?, boundVariable]

theorem KeepsScratch.enter (h : KeepsScratch t value r rs) :
    KeepsScratch t value .empty (r :: rs) :=
  ⟨nofun, rfl, h.found⟩

/-- The second run finds the value under the scratch name. -/
theorem KeepsScratch.lookup (h : KeepsScratch t value r rs) (ht : t.isBindable = true)
    (hm : m.Shadows t (.right r :: (rs.map .right ++ layers)) m') :
    ∃ v, lookupVariable t m' = (.ok v, m') ∧ v.value = value := by
  obtain ⟨v, hfind, hv⟩ := h.found
  have hmatching : Matching t switchName ((r :: rs).map .right ++ layers) m.scopes.toList
      m'.scopes.toList := hm.scopes
  obtain ⟨rest, hrest⟩ := hmatching.rights
  have hlookup : m'.scopes.lookupVariable t = .ok v := by
    rw [Chain.lookupVariable, hrest, List.findSome?_append, hfind]
    rfl
  exact ⟨v, lookupVariable_of_chain ht hlookup, hv⟩

/-- As seen from a side, the steps of a switch and those of its conditionals are enough for a
number of cases. -/
def Side.Covers : Side → Nat → Nat → Nat → Prop
  | first, cases, steps, steps' => steps + cases + 2 ≤ steps'
  | second, _, steps, steps' => steps' + 1 ≤ steps

theorem Side.Covers.of_cons {cases : Nat} (h : side.Covers (cases + 1) steps (steps' + 1)) :
    side.Covers cases steps steps' := by
  cases side <;> simp only [Side.Covers] at h ⊢ <;> omega

theorem Side.Covers.one {cases : Nat} (h : side.Covers (cases + 1) steps steps') :
    side.Covers 1 steps steps' := by
  cases side <;> simp only [Side.Covers] at h ⊢ <;> omega

/-- The conditional on the value of a case has the steps to compare it, or the comparison is made
from its side. -/
theorem Side.Covers.compared {cases : Nat} (h : side.Covers (cases + 1) steps steps') :
    side = second ∧ steps' < 3 ∨ ∃ k, steps' = k + 3 ∧ side.Within steps (k + 1) := by
  cases side with
  | first => exact .inr ⟨steps' - 3, by simp only [Side.Covers, Side.Within] at h ⊢; omega⟩
  | second =>
      by_cases hfew : steps' < 3
      · exact .inl ⟨rfl, hfew⟩
      · exact .inr ⟨steps' - 3, by simp only [Side.Covers, Side.Within] at h ⊢; omega⟩

/-- The case without a value runs its body: the switch in a scope of its own, the conditionals in
the scope that stands for it. -/
theorem agree_default {c : SwitchCase} (hcovers : side.Covers 1 steps steps')
    (hbody : Node.EveryOf (Node.Spares t) c.body) (hkeeps : KeepsScratch t value r rs)
    (hm : m.Shadows t (.right r :: (rs.map .right ++ layers)) m') :
    Agree side (fun s s' => s.Shadows t (rs.map .right ++ layers) s'.leave)
      (execute settings steps calls c.node m)
      (executeAll (execute settings steps' calls) c.body m') := by
  cases steps with
  | zero =>
      cases side with
      | first => exact .inl rfl
      | second => cases (hcovers : steps' + 1 ≤ 0)
  | succ steps =>
      have hwithin : side.Within steps steps' := by
        cases side <;> simp only [Side.Covers, Side.Within] at hcovers ⊢ <;> omega
      have hfounded := hm.founded.of_cons nofun
      -- The scope that the switch opens goes along with the current one of the other run, whose
      -- scratch variable stands behind whatever the body binds.
      have hagree := beside_executeAll (beside_steps settings hwithin calls).2 hbody
        (hm.enterBeside hkeeps.reserved hkeeps.functions)
      rw [SwitchCase.node, execute, executeNode, inScope_apply]
      exact hagree.change (f := leave) (g := id) fun _ _ hs => hs.leave hfounded

/-- The case whose value is equal runs its body, on both sides in a scope of its own. -/
theorem agree_chosen {c : SwitchCase} (hcovers : side.Covers 1 steps (steps' + 1))
    (hbody : Node.EveryOf (Node.Spares t) c.body) (hm : m.Shadows t (.right r :: layers) m') :
    Agree side (fun s s' => s.Shadows t layers s'.leave)
      (execute settings steps calls c.node m)
      (inScope (executeAll (execute settings steps' calls) c.body) m') := by
  cases steps with
  | zero =>
      cases side with
      | first => exact .inl rfl
      | second => cases (hcovers : steps' + 1 + 1 ≤ 0)
  | succ steps =>
      have hwithin : side.Within steps steps' := by
        cases side <;> simp only [Side.Covers, Side.Within] at hcovers ⊢ <;> omega
      rw [SwitchCase.node, execute, executeNode]
      exact (beside_body (beside_steps settings hwithin calls).2 hbody hm).imp
        fun _ _ hs => hs.leaveRight

/-- A case with a value is selected or passed as the conditional on its value chooses. -/
theorem agree_compared {c : SwitchCase} {cases : List SwitchCase} (ht : t.isBindable = true)
    (hpresent : c.value.isAbsent = false)
    (hcovers : side.Covers (cases.length + 1) steps (steps' + 3))
    (hwithin : side.Within steps (steps' + 1)) (hvalue : c.value.Every (Node.Spares t))
    (hbody : Node.EveryOf (Node.Spares t) c.body) (position : Nat) {arms elseBody : List Node}
    (hkeeps : KeepsScratch t value r rs)
    (hm : m.Shadows t (.right r :: (rs.map .right ++ layers)) m')
    (hrest : ∀ s s', s.Shadows t (.right .empty :: .right r :: (rs.map .right ++ layers)) s' →
      Agree side (fun s s' => s.Shadows t (.right r :: (rs.map .right ++ layers)) s'.leave)
        (select settings (evaluate settings steps calls) (execute settings steps calls) value
          (position + 1) arms s)
        (executeAll (execute settings (steps' + 2) calls) elseBody s')) :
    Agree side (fun s s' => s.Shadows t (rs.map .right ++ layers) s'.leave)
      (select settings (evaluate settings steps calls) (execute settings steps calls) value
        position (c.node :: arms) m)
      (execute settings (steps' + 3) calls (.conditional (c.test t) c.body elseBody) m') := by
  obtain ⟨v, hlookup, hv⟩ := hkeeps.lookup ht hm
  have hmeets : Agree side _ (meets settings (evaluate settings steps calls) value c.value m)
      (meets settings (evaluate settings (steps' + 1) calls) value c.value m') :=
    beside_meets (beside_steps settings hwithin calls).1 value hvalue hm
  rw [select_case, execute_test hpresent hlookup, hv]
  refine hmeets.bind (fun _ _ hs => hs.leaveRight) fun same s s' _ hs => ?_
  obtain ⟨trace', hlevel', hnote'⟩ := note_eq_ok 3 (fun _ => truth_isWritable same) s'
  rw [bind_apply, hnote']
  cases same with
  | true =>
      obtain ⟨trace, hlevel, hnote⟩ := note_eq_ok 3 (fun _ => selected_isWritable position) s
      rw [if_pos rfl, bind_apply, hnote]
      have hlevels : trace'.level = trace.level := by rw [hlevel, hlevel', hs.level]
      exact agree_chosen hcovers.one hbody (hs.withTraces _ _ hlevels)
  | false =>
      have hs' : s.Shadows t _ { s' with trace := trace' } :=
        hs.withTraces s.trace trace' (hlevel'.trans hs.level)
      rw [if_neg Bool.false_ne_true]
      dsimp only
      rw [inScope_apply, if_neg Bool.false_ne_true]
      exact (hrest _ _ hs'.enterRight).change (f := id) (g := leave) fun _ _ hs => hs.leaveRight

/-- Selecting a case by its value comes to what the conditionals come to that compare the
scratch variable with the values of the cases. -/
theorem agree_select {cases : List SwitchCase} (ht : t.isBindable = true)
    (hcovers : side.Covers cases.length steps steps')
    (hspares : Node.EveryOf (Node.Spares t) (cases.map SwitchCase.node)) (position : Nat)
    (hkeeps : KeepsScratch t value r rs)
    (hm : m.Shadows t (.right r :: (rs.map .right ++ layers)) m') :
    Agree side (fun s s' => s.Shadows t (rs.map .right ++ layers) s'.leave)
      (select settings (evaluate settings steps calls) (execute settings steps calls) value
        position (cases.map SwitchCase.node) m)
      (executeAll (execute settings steps' calls) (choice t cases) m') := by
  -- The second run has one more scope and one step less for each case that is passed.
  induction cases generalizing r rs m m' steps' position with
  | nil => exact .inr ⟨rfl, hm.leaveRight⟩
  | cons c cases ih =>
      obtain ⟨⟨_, hvalue, hbody⟩, hspares⟩ := hspares
      rw [List.map_cons, choice]
      split
      · rename_i habsent
        obtain ⟨trace, hlevel, hnote⟩ := note_eq_ok 3 (fun _ => selected_isWritable position) m
        rw [select_case, meets_of_absent habsent, bind_apply, pure_apply]
        dsimp only
        rw [if_pos rfl, bind_apply, hnote]
        have hm' := hm.withTraces trace m'.trace (hm.level.trans hlevel.symm)
        exact agree_default hcovers.one hbody hkeeps hm'
      · rename_i hpresent
        rw [executeAll_singleton]
        rcases hcovers.compared with ⟨rfl, hfew⟩ | ⟨k, rfl, hwithin⟩
        · exact .inl (execute_test_spent hfew)
        · exact agree_compared ht (Bool.eq_false_iff.mpr hpresent) hcovers hwithin hvalue hbody
            position hkeeps hm fun s s' hs =>
              ih hcovers.of_cons hspares (position + 1) hkeeps.enter hs

end Cases

section Outcomes

variable {α : Type} {c c' : Nat → Running α} {m m' : Machine} {r : Except RunFailure α}

/-- A run that is given enough steps comes to a result or a failure and, but for the trace, to a
machine. -/
def ComesTo (c : Nat → Running α) (m : Machine) (r : Except RunFailure α) (m' : Machine) : Prop :=
  r ≠ .error .exhausted ∧ ∃ steps, (c steps m).1 = r ∧ m'.SameButTrace (c steps m).2

/-- Two runs come to the same if each of them, as seen from its side, agrees with the other one
as soon as that has enough steps. -/
theorem comesTo_iff_of_agree
    (hfirst : ∀ steps, ∃ steps', Agree .first SameButTrace (c steps m) (c' steps' m))
    (hsecond : ∀ steps', ∃ steps, Agree .second SameButTrace (c steps m) (c' steps' m)) :
    ComesTo c m r m' ↔ ComesTo c' m r m' := by
  refine and_congr_right fun hr => ⟨?_, ?_⟩
  · rintro ⟨steps, hresult, hsame⟩
    obtain ⟨steps', hspent | ⟨hresult', hsame'⟩⟩ := hfirst steps
    · exact absurd (hresult.symm.trans hspent) hr
    · exact ⟨steps', hresult'.trans hresult, hsame.trans hsame'⟩
  · rintro ⟨steps', hresult', hsame'⟩
    obtain ⟨steps, hspent | ⟨hresult, hsame⟩⟩ := hsecond steps'
    · exact absurd (hresult'.symm.trans hspent) hr
    · exact ⟨steps, hresult.symm.trans hresult', hsame'.trans hsame.symm⟩

end Outcomes

section Switches

variable {settings : Settings} {side : Side} {t : Name} {layers : List Overlay} {m m' : Machine}
  {steps steps' calls : Nat} {condition : Node} {cases : List SwitchCase}

/-- The value of a condition, if there is one, can be written as a text. -/
def HasText (settings : Settings) (calls : Nat) (condition : Node) (m : Machine) : Prop :=
  ∀ steps v m₁, evaluate settings steps calls condition m = (.ok v, m₁) →
    ∃ text, textOf settings m₁.heap v = .ok text ∧
      (settings.strict = true → Text.isWritable text = true)

/-- The statements that keep the value of a condition in a scratch variable and choose between
cases by it. -/
def chosenBy (t : Name) (condition : Node) (cases : List SwitchCase) : List Node :=
  .declaration t .missing condition :: choice t cases

theorem declared_isWritable (ht : settings.strict = true → Text.isWritable t.text = true)
    {text : String} (htext : settings.strict = true → Text.isWritable text = true)
    (hstrict : settings.strict = true) :
    Text.isWritable ("declare" ++ " " ++ t.text ++ " = " ++ text) = true := by
  have hcomposes := Text.composes_isWritable
  have hname := hcomposes.append (hcomposes.ascii (by decide : Text.IsAscii ("declare" ++ " ")))
    (ht hstrict)
  exact hcomposes.append (hcomposes.append hname (hcomposes.ascii (by decide))) (htext hstrict)

theorem declare_of_empty {verb text : String} (ht : t.isBindable = true)
    (hm : m.scopes.current = .empty) {value : Value}
    (htext : textOf settings m.heap value = .ok text)
    (hwritable : settings.strict = true →
      Text.isWritable (verb ++ " " ++ t.text ++ " = " ++ text) = true) :
    ∃ trace : Trace, trace.level = m.trace.level ∧
      declare settings verb t true value m =
        (.ok .finished,
          { m with scopes := ⟨.holding t value, m.scopes.outer⟩, trace := trace }) := by
  have htext' : textOf settings ({ m with scopes := ⟨.holding t value, m.scopes.outer⟩ } :
      Machine).heap value = .ok text := htext
  obtain ⟨trace, hlevel, hnote⟩ := note_eq_ok 2 hwritable
    { m with scopes := ⟨.holding t value, m.scopes.outer⟩ }
  refine ⟨trace, hlevel, ?_⟩
  rw [declare, bind_apply, bindVariable_of_empty ht hm]
  dsimp only
  rw [bind_apply, noteValue_eq_note 2 _ htext', hnote]
  rfl

/-- From machines that differ in hidden variables, a switch and the block that keeps the value of
its condition in a scratch variable agree. -/
theorem agree_switch (ht : t.isBindable = true)
    (hname : settings.strict = true → Text.isWritable t.text = true)
    (hpresent : condition.isAbsent = false)
    (hspares : (Node.switch condition (cases.map SwitchCase.node)).Every (Node.Spares t))
    (htext : HasText settings calls condition m.enter)
    (hwithin : side.Within steps steps') (hcovers : side.Covers cases.length steps (steps' + 1))
    (hm : m.Shadows t layers m') :
    Agree side (Shadows t layers)
      (execute settings (steps + 1) calls (.switch condition (cases.map SwitchCase.node)) m)
      (inScope (executeAll (execute settings (steps' + 1) calls) (chosenBy t condition cases))
        m') := by
  obtain ⟨_, hcondition, harms⟩ := hspares
  -- Each run opens a scope that counts as its own, so that it is still empty behind the condition.
  have hevaluate : Agree side _ (evaluate settings steps calls condition m.enter)
      (evaluate settings steps' calls condition m'.enter) :=
    (beside_steps settings hwithin calls).1 hcondition hm.enterRight.enterLeft
  have hinner : Agree side (fun s s' => s.leave.Shadows t layers s'.leave)
      ((do
        let value ← evaluate settings steps calls condition
        bindVariable switchName true value
        select settings (evaluate settings steps calls) (execute settings steps calls) value 0
          (cases.map SwitchCase.node)) m.enter)
      ((do
        let value ← evaluate settings steps' calls condition
        let ending ← declare settings "declare" t true value
        match ending with
        | .finished => executeAll (execute settings (steps' + 1) calls) (choice t cases)
        | .returned value => return .returned value) m'.enter) := by
    refine hevaluate.bind (fun _ _ hs => hs.leaveLeft.leaveRight) fun value s s' hvalue hs => ?_
    obtain ⟨text, hvaluetext, hwritable⟩ := htext steps value s hvalue
    have htext' : textOf settings s'.heap value = .ok text := by rw [hs.heap, hvaluetext]
    obtain ⟨trace, hlevel, hdeclare⟩ :=
      declare_of_empty ht hs.scopes.swap.current_right htext' (declared_isWritable hname hwritable)
    have hheld : Shadows t (.right (.holding t value) :: ([].map .right ++
        .left (.holding switchName value) :: layers)) _ _ := hs.hold value hlevel
    rw [bind_apply, bind_apply, hdeclare,
      bindVariable_of_empty (Name.isBindable_ofText _) hs.scopes.current_left]
    exact (agree_select ht hcovers harms 0 keepsScratch_holding hheld).imp
      fun _ _ hs => hs.leaveLeft
  rw [execute, executeNode, chosenBy, executeAll_declaration hpresent, inScope_apply, inScope_apply]
  exact hinner.change fun _ _ hs => hs

/-- A switch and the block that keeps the value of its condition in a scratch variable, compares it
with the values of the cases in nested conditionals and runs the body that these choose come to
the same result or failure, with the same output, lists and scopes, or neither of them comes to
an end.  This is so for every scratch name under which the program and the functions in scope
neither bind nor look up a variable, as long as they look up none under the name of the value of
a switch, and as long as the value of the condition can be written as a text.

What is asked of the name itself only makes it one that a declaration can have: something can be
bound under it (`ht`), and a strict trace takes the message about its declaration (`hname`), which
the switch does not make.

So a switch evaluates its condition once and the values of its cases up to the first that is
equal, and runs one body at most. -/
theorem switch_comes_to_choice (settings : Settings) (calls : Nat) (ht : t.isBindable = true)
    (hname : settings.strict = true → Text.isWritable t.text = true)
    (hpresent : condition.isAbsent = false)
    (hspares : (Node.switch condition (cases.map SwitchCase.node)).Every (Node.Spares t))
    (hscopes : m.scopes.Every (fun _ => True) (Function.Spares t))
    (htext : HasText settings calls condition m.enter) (r : Except RunFailure Completion)
    (m' : Machine) :
    ComesTo (fun steps =>
        execute settings steps calls (.switch condition (cases.map SwitchCase.node))) m r m' ↔
      ComesTo (fun steps =>
        inScope (executeAll (execute settings steps calls) (chosenBy t condition cases)))
        m r m' := by
  have hlayers : ∀ l ∈ m.scopes.toList.map fun _ => Overlay.shared [] [], l = .shared [] [] :=
    fun _ hl => (List.mem_map.mp hl).elim fun _ hs => hs.2.symm
  have hagree (side : Side) (steps steps' : Nat) (hwithin : side.Within steps steps')
      (hcovers : side.Covers cases.length steps (steps' + 1)) :=
    (agree_switch ht hname hpresent hspares htext hwithin hcovers (.rfl hscopes)).imp
      fun _ _ hs => hs.sameButTrace hlayers
  refine comesTo_iff_of_agree (fun steps => ?_) fun steps' => ?_
  · cases steps with
    | zero => exact ⟨0, .inl rfl⟩
    | succ steps =>
        exact ⟨_, hagree .first steps (steps + cases.length + 1)
          (by simp only [Side.Within]; omega) (by simp only [Side.Covers]; omega)⟩
  · cases steps' with
    | zero => exact ⟨0, .inl rfl⟩
    | succ steps' =>
        exact ⟨_, hagree .second (steps' + 2) steps' (by simp only [Side.Within]; omega)
          (by simp only [Side.Covers]; omega)⟩

/-- The cases of a switch on a text: one returns, one prints and one has no value. -/
def printingCases : List SwitchCase :=
  [⟨.literal (.string "a"), [.returning .absent]⟩,
    ⟨.literal (.string "b"), [.evaluation (.call "print" [.literal (.string "found")])]⟩,
    ⟨.absent, [.returning .absent]⟩]

/-- The conditionals on the text of the second case print as the switch does. -/
theorem printingCases_come_to_choice :
    (Node.switch (.literal (.string "b")) (printingCases.map SwitchCase.node)).Every
        (Node.Spares "t") ∧
      (Machine.start [] .empty (.start 0)).scopes.Every (fun _ => True) (Function.Spares "t") ∧
      HasText .standard 250 (.literal (.string "b")) (Machine.start [] .empty (.start 0)).enter ∧
      ComesTo (fun steps => inScope (executeAll (execute .standard steps 250)
          (chosenBy "t" (.literal (.string "b")) printingCases)))
        (.start [] .empty (.start 0)) (.ok .finished)
        { Machine.start [] .empty (.start 0) with output := "found\n" } := by
  have hspares : (Node.switch (.literal (.string "b")) (printingCases.map SwitchCase.node)).Every
      (Node.Spares "t") := by
    simp [printingCases, SwitchCase.node, Node.Every, Node.EveryOf, Node.Spares]
  have hscopes : (Machine.start [] .empty (.start 0)).scopes.Every (fun _ => True)
      (Function.Spares "t") := .root trivial fun _ hs => absurd hs List.not_mem_nil
  have hstandard (p : Prop) : Settings.standard.strict = true → p :=
    fun h => absurd h Bool.false_ne_true
  have htext : HasText .standard 250 (.literal (.string "b"))
      (Machine.start [] .empty (.start 0)).enter := by
    intro steps v m₁ h
    cases steps with
    | zero => cases h
    | succ steps =>
        cases h
        exact ⟨"b", rfl, hstandard _⟩
  refine ⟨hspares, hscopes, htext, ?_⟩
  exact (switch_comes_to_choice .standard 250 (Name.isBindable_ofText _) (hstandard _) rfl hspares
    hscopes htext _ _).mp ⟨by simp, 9, rfl, rfl⟩

end Switches

end Running
end BlockScript
