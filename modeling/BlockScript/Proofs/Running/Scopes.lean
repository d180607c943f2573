import BlockScript.Proofs.Effect
import BlockScript.Proofs.Running.Rules
import BlockScript.Proofs.Scope.Persistence

/-!
# What a run leaves of the scopes

An expression and a statement leave the scopes that they found, one around the other as
before, however they end: with a value, with a return, or with a failure at any depth of blocks
and calls.  The scopes keep their names, and what is bound to these stays what it is but for the
values of mutable variables.  A declaration adds the one name that it declares.

Scopes are opened in three places: by blocks, by switches and by calls.  `obeys_inScope` says
that each of them is left again, and the walk through the functions that evaluate and execute
carries that on to all trees, by induction on the number of steps.
-/

namespace BlockScript

/-- What a declaration adds to a scope: a name that was not bound there. -/
inductive Node.Binds : Node → Scope → Scope → Prop
  | nothing {node : Node} {s : Scope} : Binds node s s
  | global {name typeName : Name} {isMutable : Bool} {node : Node} {value : Value} {s : Scope} :
      s.findVariable? name = none →
      Binds (.global name typeName isMutable node) s
        { s with vars := Running.boundVariable name isMutable value :: s.vars }
  | declaration {name typeName : Name} {node : Node} {value : Value} {s : Scope} :
      s.findVariable? name = none →
      Binds (.declaration name typeName node) s
        { s with vars := Running.boundVariable name true value :: s.vars }
  | function {name returnType : Name} {parameters parameterTypes : List Name} {body : List Node}
      {s : Scope} : s.findFunction? name parameters.length = none →
      Binds (.function name parameters parameterTypes returnType body) s
        { s with functions := Running.declaredFunction name parameters body :: s.functions }

/-- A chain behind a statement: its scopes persist, and the current one may have got the name
that the statement declares. -/
structure Chain.Declares (node : Node) (c d : Chain) : Prop where
  current : ∃ kept, c.current.Persists kept ∧ node.Binds kept d.current
  outer : List.Forall₂ Scope.Persists c.outer d.outer

theorem Chain.Persists.declares {c d : Chain} (h : c.Persists d) (node : Node) :
    c.Declares node d :=
  ⟨⟨d.current, (persists_iff.mp h).1, .nothing⟩, (persists_iff.mp h).2⟩

/-- Statements that declare nothing leave their scopes as they are. -/
theorem Chain.Declares.persists {node : Node} {c d : Chain} (h : c.Declares node d)
    (hnode : ∀ s t, node.Binds s t → t = s) : c.Persists d := by
  obtain ⟨⟨kept, hkept, hbinds⟩, houter⟩ := h
  rw [← hnode _ _ hbinds] at hkept
  exact persists_iff.mpr ⟨hkept, houter⟩

theorem Node.Binds.grows {node : Node} {s t : Scope} (h : node.Binds s t) : s.Grows t := by
  cases h with
  | nothing => exact refl s
  | «global» | declaration => exact ⟨[_], [], s, refl s, rfl⟩
  | function => exact ⟨[], [_], s, refl s, rfl⟩

theorem Chain.Declares.grows {node : Node} {c d : Chain} (h : c.Declares node d) :
    c.Grows d := by
  obtain ⟨⟨kept, hkept, hbinds⟩, houter⟩ := h
  exact ⟨IsTrans.trans _ _ _ hkept.grows hbinds.grows, houter⟩

/-- The chains of two machines are related, if no scope has two variables of one name, and then
the latter is so of the second one too. -/
def Machine.Scoped (R : Chain → Chain → Prop) (m m' : Machine) : Prop :=
  m.scopes.Distinct → R m.scopes m'.scopes ∧ m'.scopes.Distinct

namespace Machine

variable {R S : Chain → Chain → Prop}

instance [IsPreorder Chain R] : IsPreorder Machine (Scoped R) where
  refl m h := ⟨refl m.scopes, h⟩
  trans m₁ m₂ m₃ h h' hm := by
    obtain ⟨hfirst, hm₂⟩ := h hm
    obtain ⟨hsecond, hm₃⟩ := h' hm₂
    exact ⟨IsTrans.trans _ _ _ hfirst hsecond, hm₃⟩

theorem Scoped.imp {m m' : Machine} (h : Scoped R m m') (himp : ∀ c d, R c d → S c d) :
    Scoped S m m' := fun hm => ⟨himp _ _ (h hm).1, (h hm).2⟩

theorem scoped_of_eq [IsPreorder Chain R] {m m' : Machine} (h : m'.scopes = m.scopes) :
    Scoped R m m' := by
  intro hm
  rw [h]
  exact ⟨refl m.scopes, hm⟩

theorem Scoped.declares_trans {node : Node} {m₁ m₂ m₃ : Machine}
    (h : Scoped (Chain.Declares node) m₁ m₂) (h' : Scoped Eq m₂ m₃) :
    Scoped (Chain.Declares node) m₁ m₃ := by
  intro hm₁
  obtain ⟨hdeclares, hm₂⟩ := h hm₁
  obtain ⟨heq, hm₃⟩ := h' hm₂
  rw [← heq]
  exact ⟨hdeclares, heq ▸ hm₃⟩

theorem Scoped.trans_declares {node : Node} {m₁ m₂ m₃ : Machine}
    (h : Scoped Chain.Persists m₁ m₂) (h' : Scoped (Chain.Declares node) m₂ m₃) :
    Scoped (Chain.Declares node) m₁ m₃ := by
  intro hm₁
  obtain ⟨hpersists, hm₂⟩ := h hm₁
  obtain ⟨⟨⟨kept, hkept, hbinds⟩, houter⟩, hm₃⟩ := h' hm₂
  obtain ⟨hcurrent, houter'⟩ := Chain.persists_iff.mp hpersists
  exact ⟨⟨⟨kept, IsTrans.trans _ _ _ hcurrent hkept, hbinds⟩, forall₂_trans houter' houter⟩, hm₃⟩

end Machine

namespace Running

open BlockScript.Computation Machine

section Steps

variable {α : Type} {R : Chain → Chain → Prop} [IsPreorder Chain R]

theorem obeys_of_scopes {c : Running α} (h : ∀ m, (c m).2.scopes = m.scopes) :
    c.Obeys (Scoped R) := fun m => scoped_of_eq (h m)

theorem obeys_note (settings : Settings) (level : Nat) (message : String) :
    (note settings level message).Obeys (Scoped R) := by
  refine obeys_of_scopes fun m => ?_
  rw [note_apply]
  split
  · rfl
  · split <;> rfl

theorem obeys_noteValue (settings : Settings) (level : Nat) (message : String) (value : Value) :
    (noteValue settings level message value).Obeys (Scoped R) := by
  unfold noteValue
  split
  · exact obeys_state.bind fun _ => (obeys_lift _).bind fun _ => obeys_note settings level _
  · exact obeys_pure ()

theorem obeys_lookupVariable (name : Name) : (lookupVariable name).Obeys (Scoped R) :=
  obeys_state.bind fun _ => obeys_lift _

theorem obeys_lookupFunction (name : Name) (arity : Nat) :
    (lookupFunction name arity).Obeys (Scoped R) :=
  obeys_state.bind fun _ => obeys_lift _

theorem obeys_makeList (items : List Value) : (makeList items).Obeys (Scoped R) :=
  obeys_of_scopes fun _ => rfl

theorem obeys_literalValue (s : Scalar) : (literalValue s).Obeys (Scoped R) := by
  refine obeys_of_scopes fun m => ?_
  cases s with
  | «foreign» value place =>
      cases value with
      | array items =>
          rw [literalValue_array_apply]
          split <;> rfl
      | _ => rfl
  | _ => rfl

theorem obeys_itemAt (reference index : Nat) : (itemAt reference index).Obeys (Scoped R) :=
  obeys_of_scopes fun _ => rfl

theorem obeys_storeItem (reference index : Nat) (value : Value) :
    (storeItem reference index value).Obeys (Scoped R) :=
  obeys_of_scopes fun _ => rfl

theorem obeys_requireBoolean (what : String) (value : Value) :
    (requireBoolean what value).Obeys (Scoped R) := by
  unfold requireBoolean
  split
  · exact obeys_pure _
  · exact obeys_fail _

theorem obeys_requireList (name : Name) (value : Value) :
    (requireList name value).Obeys (Scoped R) := by
  unfold requireList
  split
  · exact obeys_pure _
  · exact obeys_fail _

theorem obeys_requireIndex (reference : Nat) (value : Value) :
    (requireIndex reference value).Obeys (Scoped R) := by
  unfold requireIndex
  split
  · refine obeys_state.bind fun m => ?_
    split
    · exact obeys_pure _
    · split <;> exact obeys_fail _
  · exact obeys_fail _

theorem obeys_applyOperator (settings : Settings) (operator : String) (a b : Value) :
    (applyOperator settings operator a b).Obeys (Scoped R) :=
  obeys_state.bind fun _ => obeys_lift _

theorem obeys_equalHere (settings : Settings) (a b : Value) :
    (equalHere settings a b).Obeys (Scoped R) :=
  obeys_state.bind fun _ => obeys_lift _

theorem obeys_writeLine (settings : Settings) (text : String) :
    (writeLine settings text).Obeys (Scoped R) := by
  unfold writeLine
  split
  · exact obeys_fail _
  · exact obeys_of_scopes fun _ => rfl

theorem obeys_print (settings : Settings) (values : List Value) :
    (print settings values).Obeys (Scoped R) := by
  unfold print
  split
  · exact obeys_fail _
  · exact obeys_state.bind fun _ => (obeys_lift _).bind fun text =>
      (obeys_writeLine settings text).bind fun _ => obeys_pure _

theorem obeys_mainFunction : mainFunction.Obeys (Scoped R) := by
  refine obeys_state.bind fun m => ?_
  split
  · exact obeys_pure _
  · exact obeys_fail _

end Steps

section Bindings

variable {α : Type} {m : Machine}

/-- A scope of its own is left however a computation ends. -/
theorem obeys_inScope {c : Running α} (h : c.Obeys (Scoped Chain.Grows)) :
    (inScope c).Obeys (Scoped Chain.Persists) := by
  intro m hm
  have hinside : m.scopes.push.Grows (c m.enter).2.scopes := (h m.enter hm.push).1
  have hpersists : m.scopes.Persists ((inScope c) m).2.scopes := hinside.pop
  exact ⟨hpersists, hpersists.distinct hm⟩

/-- What binding a variable comes to, for the scopes. -/
theorem bindVariable_scopes (name : Name) (isMutable : Bool) (value : Value) (m : Machine) :
    (bindVariable name isMutable value m).2.scopes = m.scopes ∨
      m.scopes.defineVariable (boundVariable name isMutable value) =
        .ok (bindVariable name isMutable value m).2.scopes := by
  unfold bindVariable boundUnder
  rw [bind_apply, state_apply]
  dsimp only
  split
  · cases h : m.scopes.defineVariable ⟨name, name, some .any, isMutable, value⟩ with
    | ok scopes => exact Or.inr h
    | error fault => exact Or.inl rfl
  · exact Or.inl rfl

theorem bindFunction_scopes (f : Function) (m : Machine) :
    (bindFunction f m).2.scopes = m.scopes ∨
      m.scopes.defineFunction f = .ok (bindFunction f m).2.scopes := by
  unfold bindFunction boundUnder
  rw [bind_apply, state_apply]
  dsimp only
  split
  · cases m.scopes.defineFunction f with
    | ok scopes => exact Or.inr rfl
    | error fault => exact Or.inl rfl
  · exact Or.inl rfl

/-- Binding a variable adds its name, if the node is one that declares it. -/
theorem obeys_bindVariable {node : Node} {name : Name} {isMutable : Bool} {value : Value}
    (hbinds : ∀ s, s.findVariable? name = none →
      node.Binds s { s with vars := boundVariable name isMutable value :: s.vars }) :
    (bindVariable name isMutable value).Obeys (Scoped (Chain.Declares node)) := by
  intro m hm
  rcases bindVariable_scopes name isMutable value m with h | h
  · rw [h]
    exact ⟨(refl (r := Chain.Persists) m.scopes).declares node, hm⟩
  · obtain ⟨hnone, hscopes⟩ := Chain.defineVariable_eq_ok_iff.mp h
    rw [hscopes]
    refine ⟨⟨⟨m.scopes.current, refl _, hbinds _ hnone⟩, refl m.scopes.outer⟩, ?_⟩
    intro s hs
    rcases List.mem_cons.mp hs with rfl | hs
    · exact (hm _ List.mem_cons_self).cons hnone
    · exact hm s (List.mem_cons_of_mem _ hs)

theorem obeys_bindFunction (name returnType : Name) (parameters parameterTypes : List Name)
    (body : List Node) :
    (bindFunction (declaredFunction name parameters body)).Obeys
      (Scoped (Chain.Declares (.function name parameters parameterTypes returnType body))) := by
  intro m hm
  rcases bindFunction_scopes (declaredFunction name parameters body) m with h | h
  · rw [h]
    exact ⟨(refl (r := Chain.Persists) m.scopes).declares _, hm⟩
  · obtain ⟨hnone, hscopes⟩ := Chain.defineFunction_eq_ok_iff.mp h
    have harity : (declaredFunction name parameters body).arity = parameters.length :=
      List.length_map _
    rw [harity] at hnone
    rw [hscopes]
    refine ⟨⟨⟨m.scopes.current, refl _, .function hnone⟩, refl m.scopes.outer⟩, ?_⟩
    intro s hs
    rcases List.mem_cons.mp hs with rfl | hs
    · exact hm m.scopes.current List.mem_cons_self
    · exact hm s (List.mem_cons_of_mem _ hs)

/-- Binding a variable that any declaration of its name could bind. -/
theorem obeys_bindVariable_grows (name : Name) (value : Value) :
    (bindVariable name true value).Obeys (Scoped Chain.Grows) := by
  have hdeclares : (bindVariable name true value).Obeys
      (Scoped (Chain.Declares (.declaration name .missing .absent))) :=
    obeys_bindVariable fun _ => .declaration
  exact hdeclares.imp fun _ _ h => h.imp fun _ _ => Chain.Declares.grows

theorem obeys_bindParameters (names : List Name) (values : List Value) :
    (bindParameters names values).Obeys (Scoped Chain.Grows) := by
  induction names generalizing values with
  | nil => exact obeys_pure ()
  | cons name names ih =>
      cases values with
      | nil => exact obeys_pure ()
      | cons value values => exact (obeys_bindVariable_grows name value).bind fun _ => ih values

/-- Storing into the variable that a lookup found to be mutable. -/
theorem scoped_setVariable {name : Name} {v : Variable} {value : Value}
    (hv : m.scopes.lookupVariable name = .ok v) (hmutable : v.isMutable = true) :
    Scoped Chain.Persists m (setVariable name value m).2 := by
  intro hm
  have hpersists : m.scopes.Persists (m.scopes.setVariable name value) :=
    Chain.persists_setVariable hm hv hmutable
  exact ⟨hpersists, hpersists.distinct hm⟩

/-- A lookup that gives a variable has found it in the scopes. -/
theorem lookupVariable_eq_ok {name : Name} {v : Variable} {m' : Machine}
    (h : lookupVariable name m = (.ok v, m')) :
    m.scopes.lookupVariable name = .ok v ∧ m' = m := by
  have hfound : (lookupVariable name).Ensures m
      (fun v m' => m.scopes.lookupVariable name = .ok v ∧ m' = m) fun _ => True :=
    ensures_lookupVariable (fun _ hv => ⟨hv, rfl⟩) (fun _ _ => trivial) trivial
  exact hfound.of_ok h

end Bindings

section Parts

variable {settings : Settings} {evaluate : Node → Running Value}
  {execute : Node → Running Completion}

/-- Every expression leaves the scopes as it found them. -/
def EvaluationPersists (evaluate : Node → Running Value) : Prop :=
  ∀ node, (evaluate node).Obeys (Scoped Chain.Persists)

/-- Every statement leaves the scopes as it found them, apart from a name that it declares. -/
def ExecutionDeclares (execute : Node → Running Completion) : Prop :=
  ∀ node, (execute node).Obeys (Scoped (Chain.Declares node))

theorem ExecutionDeclares.grows (hexec : ExecutionDeclares execute) (node : Node) :
    (execute node).Obeys (Scoped Chain.Grows) :=
  (hexec node).imp fun _ _ h => h.imp fun _ _ => Chain.Declares.grows

theorem obeys_evaluateAll (heval : EvaluationPersists evaluate) (nodes : List Node) :
    (evaluateAll evaluate nodes).Obeys (Scoped Chain.Persists) := by
  induction nodes with
  | nil => exact obeys_pure _
  | cons node nodes ih =>
      exact (heval node).bind fun _ => ih.bind fun _ => obeys_pure _

theorem obeys_evaluateOptional (heval : EvaluationPersists evaluate) (node : Node) :
    (evaluateOptional evaluate node).Obeys (Scoped Chain.Persists) := by
  unfold evaluateOptional
  split
  · exact obeys_pure _
  · exact heval node

theorem obeys_executeAll (hexec : ExecutionDeclares execute) (nodes : List Node) :
    (executeAll execute nodes).Obeys (Scoped Chain.Grows) := by
  induction nodes with
  | nil => exact obeys_pure _
  | cons node nodes ih =>
      refine (hexec.grows node).bind fun ending => ?_
      cases ending with
      | finished => exact ih
      | returned value => exact obeys_pure _

theorem obeys_body (hexec : ExecutionDeclares execute) (nodes : List Node) :
    (inScope (executeAll execute nodes)).Obeys (Scoped Chain.Persists) :=
  obeys_inScope (obeys_executeAll hexec nodes)

theorem obeys_secondTruth (heval : EvaluationPersists evaluate) (operator : String)
    (right : Node) : (secondTruth evaluate operator right).Obeys (Scoped Chain.Persists) :=
  (heval right).bind fun value => (obeys_requireBoolean operator value).bind fun _ => obeys_pure _

theorem obeys_evaluateBinary (heval : EvaluationPersists evaluate) (operator : String)
    (left right : Node) :
    (evaluateBinary settings evaluate operator left right).Obeys (Scoped Chain.Persists) := by
  refine (heval left).bind fun a => ?_
  split
  · refine (obeys_requireBoolean operator a).bind fun holds => ?_
    split
    · exact obeys_secondTruth heval operator right
    · exact obeys_pure _
  · split
    · refine (obeys_requireBoolean operator a).bind fun holds => ?_
      split
      · exact obeys_pure _
      · exact obeys_secondTruth heval operator right
    · exact (heval right).bind fun b => obeys_applyOperator settings operator a b

theorem obeys_locate (heval : EvaluationPersists evaluate) (name : Name) (value : Value)
    (offset : Node) : (locate evaluate name value offset).Obeys (Scoped Chain.Persists) :=
  (obeys_requireList name value).bind fun reference => (heval offset).bind fun index =>
    (obeys_requireIndex reference index).bind fun _ => obeys_pure _

theorem obeys_evaluateAccess (heval : EvaluationPersists evaluate) (name : Name)
    (offset : Node) : (evaluateAccess evaluate name offset).Obeys (Scoped Chain.Persists) := by
  refine (obeys_lookupVariable name).bind fun v => ?_
  split
  · exact obeys_pure _
  · exact (obeys_locate heval name v.value offset).bind fun place => obeys_itemAt place.1 place.2

theorem obeys_assign (heval : EvaluationPersists evaluate) (target : Node) (value : Value) :
    (assign settings evaluate target value).Obeys (Scoped Chain.Persists) := by
  unfold assign
  split
  · rename_i name offset
    refine (obeys_lookupVariable name).chain (fun _ _ h => h) (fun _ _ _ => IsTrans.trans _ _ _) ?_
    intro m v m' hlookup
    obtain ⟨hv, rfl⟩ := lookupVariable_eq_ok hlookup
    split
    · split
      · rename_i hmutable
        exact IsTrans.trans _ _ _ (scoped_setVariable hv hmutable)
          (((obeys_noteValue settings 2 _ value).bind fun _ => obeys_pure _) _)
      · exact obeys_fail _ _
    · refine ((obeys_locate heval name v.value offset).bind fun place => ?_) _
      exact (obeys_storeItem place.1 place.2 value).bind fun _ =>
        (obeys_noteValue settings 2 _ value).bind fun _ => obeys_pure _
  · split
    · exact (obeys_lookupVariable _).bind fun _ => obeys_fail _
    · exact obeys_fail _

theorem obeys_meets (heval : EvaluationPersists evaluate) (value : Value) (node : Node) :
    (meets settings evaluate value node).Obeys (Scoped Chain.Persists) := by
  unfold meets
  split
  · exact obeys_pure _
  · exact (heval node).bind fun v => obeys_equalHere settings value v

theorem obeys_select (heval : EvaluationPersists evaluate) (hexec : ExecutionDeclares execute)
    (value : Value) (position : Nat) (arms : List Node) :
    (select settings evaluate execute value position arms).Obeys (Scoped Chain.Grows) := by
  induction arms generalizing position with
  | nil => exact obeys_pure _
  | cons arm arms ih =>
      unfold select
      split
      · exact obeys_fail _
      · exact obeys_fail _
      · have hmeets (node : Node) :
            (meets settings evaluate value node).Obeys (Scoped Chain.Grows) :=
          (obeys_meets heval value node).imp fun _ _ h => h.imp fun _ _ => Chain.Persists.grows
        refine (hmeets _).bind fun chosen => ?_
        split
        · exact (obeys_note settings 3 _).bind fun _ => hexec.grows arm
        · exact ih (position + 1)

theorem obeys_invoke {execute : Nat → Node → Running Completion}
    (hexec : ∀ calls, ExecutionDeclares (execute calls)) (calls : Nat) (f : Function)
    (values : List Value) :
    (invoke settings execute calls f values).Obeys (Scoped Chain.Persists) := by
  unfold invoke
  split
  · exact obeys_print settings values
  · exact obeys_pure _
  · exact obeys_makeList values
  · cases calls with
    | zero => exact obeys_fail _
    | succ calls =>
        refine obeys_inScope ?_
        exact (obeys_bindParameters _ values).bind fun _ =>
          (obeys_executeAll (hexec calls) _).bind fun _ => obeys_pure _

theorem obeys_evaluateCall {execute : Nat → Node → Running Completion}
    (heval : EvaluationPersists evaluate) (hexec : ∀ calls, ExecutionDeclares (execute calls))
    (calls : Nat) (name : Name) (arguments : List Node) :
    (evaluateCall settings evaluate execute calls name arguments).Obeys
      (Scoped Chain.Persists) := by
  refine (obeys_evaluateAll heval arguments).bind fun values => ?_
  refine (obeys_lookupFunction name values.length).bind fun f => ?_
  refine (obeys_note settings 1 _).bind fun _ => ?_
  exact (obeys_invoke hexec calls f values).mapFailure

end Parts

section Nodes

variable {settings : Settings} {evaluate : Nat → Node → Running Value}
  {execute : Nat → Node → Running Completion} {calls : Nat}

theorem evaluationPersists_node (heval : ∀ calls, EvaluationPersists (evaluate calls))
    (hexec : ∀ calls, ExecutionDeclares (execute calls)) (calls : Nat) :
    EvaluationPersists (evaluateNode settings evaluate execute calls) := by
  intro node
  cases node with
  | literal value => exact obeys_literalValue value
  | group expression => exact heval calls expression
  | binary operator left right => exact obeys_evaluateBinary (heval calls) operator.text left right
  | access name offset => exact obeys_evaluateAccess (heval calls) name offset
  | call name arguments => exact obeys_evaluateCall (heval calls) hexec calls name arguments
  | list elements =>
      exact (obeys_evaluateAll (heval calls) elements).bind fun values => obeys_makeList values
  | _ => exact obeys_fail _

theorem obeys_declare {node : Node} {name : Name} {isMutable : Bool} {value : Value}
    (verb : String) (hbinds : ∀ s, s.findVariable? name = none →
      node.Binds s { s with vars := boundVariable name isMutable value :: s.vars }) :
    (declare settings verb name isMutable value).Obeys (Scoped (Chain.Declares node)) :=
  (obeys_bindVariable hbinds).chain (fun _ _ h => h) (fun _ _ _ => Scoped.declares_trans)
    fun _ _ m _ => ((obeys_noteValue settings 2 _ value).bind fun _ => obeys_pure _) m

/-- What a declaration does behind its expression. -/
theorem obeys_declaration {node expression : Node} {name : Name} {isMutable : Bool}
    (heval : EvaluationPersists (evaluate calls)) (verb : String)
    (hbinds : ∀ value s, s.findVariable? name = none →
      node.Binds s { s with vars := boundVariable name isMutable value :: s.vars }) :
    (evaluateOptional (evaluate calls) expression >>= fun value =>
      declare settings verb name isMutable value).Obeys (Scoped (Chain.Declares node)) :=
  (obeys_evaluateOptional heval expression).chain
    (fun _ _ h => h.imp fun _ _ h => h.declares node) (fun _ _ _ => Scoped.trans_declares)
    fun _ value m _ => obeys_declare verb (hbinds value) m

theorem obeys_executeLoop (heval : EvaluationPersists (evaluate calls))
    (hexec : ExecutionDeclares (execute calls)) (condition : Node) (body : List Node) :
    (executeLoop evaluate execute calls condition body).Obeys (Scoped Chain.Persists) := by
  refine (heval condition).bind fun value => ?_
  refine (obeys_requireBoolean "WHILE" value).bind fun holds => ?_
  split
  · refine (obeys_body hexec body).bind fun ending => ?_
    cases ending with
    | finished =>
        exact (hexec (.loop condition body)).imp fun _ _ h => h.imp fun _ _ h =>
          h.persists fun _ _ hbinds => by
            cases hbinds
            rfl
    | returned value => exact obeys_pure _
  · exact obeys_pure _

theorem obeys_executeSwitch (heval : EvaluationPersists (evaluate calls))
    (hexec : ExecutionDeclares (execute calls)) (condition : Node) (arms : List Node) :
    (executeNode settings evaluate execute calls (.switch condition arms)).Obeys
      (Scoped Chain.Persists) := by
  refine obeys_inScope ?_
  have hcondition : (evaluate calls condition).Obeys (Scoped Chain.Grows) :=
    (heval condition).imp fun _ _ h => h.imp fun _ _ => Chain.Persists.grows
  exact hcondition.bind fun value => (obeys_bindVariable_grows switchName value).bind fun _ =>
    obeys_select heval hexec value 0 arms

theorem executionDeclares_node (heval : ∀ calls, EvaluationPersists (evaluate calls))
    (hexec : ∀ calls, ExecutionDeclares (execute calls)) (calls : Nat) :
    ExecutionDeclares (executeNode settings evaluate execute calls) := by
  have hpersists {node : Node} {c : Running Completion} (h : c.Obeys (Scoped Chain.Persists)) :
      c.Obeys (Scoped (Chain.Declares node)) :=
    h.imp fun _ _ h => h.imp fun _ _ h => h.declares node
  intro node
  cases node with
  | «global» name typeName isMutable value =>
      exact obeys_declaration (heval calls) "global" fun _ _ => .global
  | declaration name typeName value =>
      exact obeys_declaration (heval calls) "declare" fun _ _ => .declaration
  | function name parameters parameterTypes returnType body =>
      refine (obeys_bindFunction name returnType parameters parameterTypes body).chain
        (fun _ _ h => h) (fun _ _ _ => Scoped.declares_trans) fun _ _ m _ => ?_
      exact ((obeys_note settings 2 _).bind fun _ => obeys_pure _) m
  | evaluation expression =>
      exact hpersists ((heval calls expression).bind fun _ => obeys_pure _)
  | assignment target value =>
      exact hpersists ((heval calls value).bind fun v => obeys_assign (heval calls) target v)
  | conditional condition thenBody elseBody =>
      refine hpersists ((heval calls condition).bind fun value => ?_)
      refine (obeys_requireBoolean "IF" value).bind fun holds => ?_
      exact (obeys_note settings 3 _).bind fun _ => obeys_body (hexec calls) _
  | loop condition body =>
      exact hpersists (obeys_executeLoop (heval calls) (hexec calls) condition body)
  | switch condition arms =>
      exact hpersists (obeys_executeSwitch (heval calls) (hexec calls) condition arms)
  | arm value body => exact hpersists (obeys_body (hexec calls) body)
  | returning value =>
      exact hpersists ((obeys_evaluateOptional (heval calls) value).bind fun _ => obeys_pure _)
  | _ => exact hpersists fun m => refl m

/-- Expressions and statements keep to their scopes, however many steps they take. -/
theorem persists_steps (settings : Settings) (steps calls : Nat) :
    EvaluationPersists (Running.evaluate settings steps calls) ∧
      ExecutionDeclares (Running.execute settings steps calls) := by
  induction steps generalizing calls with
  | zero =>
      refine ⟨fun node => obeys_fail _, fun node m => ?_⟩
      exact Scoped.imp (refl m) fun _ _ h => Chain.Persists.declares h node
  | succ steps ih =>
      exact ⟨evaluationPersists_node (fun calls => (ih calls).1) (fun calls => (ih calls).2) calls,
        executionDeclares_node (fun calls => (ih calls).1) (fun calls => (ih calls).2) calls⟩

end Nodes

section Programs

variable (settings : Settings) (steps : Nat)

theorem obeys_executeEach (nodes : List Node) :
    (executeEach settings steps nodes).Obeys (Scoped Chain.Grows) := by
  induction nodes with
  | nil => exact obeys_pure _
  | cons node nodes ih =>
      exact ((persists_steps settings steps settings.calls).2.grows node).bind fun _ => ih

theorem obeys_runProgram (program : Node) :
    (runProgram settings steps program).Obeys (Scoped Chain.Grows) := by
  unfold runProgram
  split
  · refine (obeys_executeEach settings steps _).bind fun _ => ?_
    refine (obeys_executeEach settings steps _).bind fun _ => ?_
    refine obeys_mainFunction.bind fun f => (obeys_note settings 1 _).bind fun _ => ?_
    have hinvoke : (invoke settings (execute settings steps) settings.calls f []).Obeys
        (Scoped Chain.Persists) :=
      obeys_invoke (fun calls => (persists_steps settings steps calls).2) settings.calls f []
    refine (hinvoke.imp fun _ _ h => h.imp fun _ _ => Chain.Persists.grows).bind fun value => ?_
    exact (obeys_noteValue settings 1 _ value).bind fun _ => obeys_pure _
  · exact obeys_fail _

/-- One step of a session: what is evaluated, executed or run on the machine that the steps
before it left. -/
inductive SessionStep
  | expression (node : Node)
  | statement (node : Node)
  | program (node : Node)

/-- The machine behind a step of a session, whether that failed or not. -/
def SessionStep.behind (m : Machine) : SessionStep → Machine
  | expression node => (evaluate settings steps settings.calls node m).2
  | statement node => (execute settings steps settings.calls node m).2
  | program node => (runProgram settings steps node m).2

theorem SessionStep.grows (step : SessionStep) (m : Machine) :
    Scoped Chain.Grows m (step.behind settings steps m) := by
  cases step with
  | expression node =>
      exact ((persists_steps settings steps settings.calls).1 node m).imp fun _ _ =>
        Chain.Persists.grows
  | statement node => exact (persists_steps settings steps settings.calls).2.grows node m
  | program node => exact obeys_runProgram settings steps node m

theorem session_grows (session : List SessionStep) (m : Machine) :
    Scoped Chain.Grows m (session.foldl (SessionStep.behind settings steps) m) := by
  induction session generalizing m with
  | nil => exact refl m
  | cons step session ih =>
      exact IsTrans.trans _ _ _ (step.grows settings steps m) (ih _)

end Programs

/-- However an expression or a statement ends, the scopes are those from which it started, each
with the variables and functions that it had, and with the same values but for those of mutable
variables.  A statement adds to the current scope at most the name that it declares.  So a
session stays at the scope where it began, whatever of its steps fail. -/
theorem scopes_stay_in_place (settings : Settings) (steps calls : Nat) {m : Machine}
    (hm : m.scopes.Distinct) :
    (∀ node r m', evaluate settings steps calls node m = (r, m') →
      m.scopes.Persists m'.scopes ∧ m'.scopes.Distinct) ∧
    (∀ node r m', execute settings steps calls node m = (r, m') →
      m.scopes.Declares node m'.scopes ∧ m'.scopes.Distinct) ∧
    ∀ session : List SessionStep, ∀ m',
      session.foldl (SessionStep.behind settings steps) m = m' →
      m.scopes.Grows m'.scopes ∧ m'.scopes.depth = m.scopes.depth := by
  refine ⟨?_, ?_, ?_⟩
  · intro node r m' h
    exact ((persists_steps settings steps calls).1 node).of_eq h hm
  · intro node r m' h
    exact ((persists_steps settings steps calls).2 node).of_eq h hm
  · rintro session m' rfl
    have hgrows := (session_grows settings steps session m hm).1
    exact ⟨hgrows, hgrows.depth⟩

/-- A loop whose body declares a variable and then fails. -/
def failingLoop : Node :=
  .loop (.literal (.boolean true))
    [.declaration "x" .missing (.literal .nil),
      .evaluation (.binary "/" (.literal (.integer 1)) (.literal (.integer 0)))]

/-- A statement that fails inside of a loop leaves a session at its only scope. -/
theorem failingLoop_stays_in_place :
    (Machine.start [] .empty (.start 0)).scopes.Distinct ∧
      (execute .standard 9 250 failingLoop (.start [] .empty (.start 0))).1 =
        .error (.raised .divisionByZero) ∧
      (SessionStep.behind .standard 9 (.start [] .empty (.start 0))
        (.statement failingLoop)).scopes.depth = 1 := by
  have hdistinct : (Machine.start [] .empty (.start 0)).scopes.Distinct := by
    intro s hs
    rcases List.mem_singleton.mp hs with rfl
    exact .nil
  refine ⟨hdistinct, rfl, ?_⟩
  obtain ⟨_, _, hsession⟩ := scopes_stay_in_place .standard 9 250 hdistinct
  exact (hsession [.statement failingLoop] _ rfl).2

end Running
end BlockScript
