import BlockScript.Proofs.Running.Reordering
import BlockScript.Proofs.Running.Scopes

/-!
# The order of function declarations

The functions of a program are defined behind its globals and before `main` is called.  Defining
a function neither runs nor looks up anything, so functions of different signatures may be
declared in any order: the run of the program from there on does not see it.

Two things can come between the definitions.  Nothing can be bound under a name that is an array
or an object, so a function of such a name ends the program where it is declared.  And the trace
of a strict run takes no message with half of a surrogate pair: a function with a half in its name
ends the program behind its definition, from the second level on.  The functions behind it are
then not defined, and which ones these are is seen from the order.  Functions of the first kind
are left out below, and functions of the second kind where it is said what a run leaves of
functions and messages.
-/

namespace BlockScript

/-- The declaration of a global variable. -/
structure GlobalDeclaration where
  name : Name
  typeName : Name
  isMutable : Bool
  value : Node

/-- The declaration of a function. -/
structure FunctionDeclaration where
  name : Name
  parameters : List Name
  parameterTypes : List Name
  returnType : Name
  body : List Node

namespace GlobalDeclaration

/-- The node of a declaration. -/
def node (g : GlobalDeclaration) : Node := .global g.name g.typeName g.isMutable g.value

end GlobalDeclaration

namespace FunctionDeclaration

/-- The node of a declaration. -/
def node (d : FunctionDeclaration) : Node :=
  .function d.name d.parameters d.parameterTypes d.returnType d.body

/-- What functions of one scope must differ in: the key of the name and the number of
parameters. -/
def signature (d : FunctionDeclaration) : Json × Nat := (d.name.key, d.parameters.length)

/-- The function that a declaration defines. -/
def function (d : FunctionDeclaration) : Function :=
  Running.declaredFunction d.name d.parameters d.body

/-- The message of a definition. -/
def message (d : FunctionDeclaration) : String :=
  "define function " ++ ScopeFault.signature d.name.text d.parameters.length

/-- A trace of a level breaks off at the message of a definition. -/
structure IsRefused (settings : Settings) (level : Nat) (d : FunctionDeclaration) : Prop where
  reports : settings.reports = true
  strict : settings.strict = true
  level : 2 ≤ level
  unwritable : Text.isWritable d.message = false

/-- The message of one of several definitions, as it stands in a trace. -/
def Reports (ds : List FunctionDeclaration) (e : Nat × String) : Prop :=
  ∃ d ∈ ds, e = (2, d.message)

variable {d e : FunctionDeclaration}

@[simp] theorem arity_function (d : FunctionDeclaration) :
    d.function.arity = d.parameters.length := by
  simp [function, Running.declaredFunction, Function.arity]

/-- A function is found under its signature. -/
theorem answers_function {name : Name} {arity : Nat} :
    d.function.answers name arity = true ↔ d.signature = (name.key, arity) := by
  rw [answers_iff, arity_function, signature, Prod.mk.injEq]
  exact and_congr_left' Name.same_iff

end FunctionDeclaration

/-- The tree of a program. -/
def Node.ofDeclarations (globals : List GlobalDeclaration)
    (functions : List FunctionDeclaration) : Node :=
  .source (globals.map GlobalDeclaration.node) (functions.map FunctionDeclaration.node)

/-- Two machines with the same variables and lists that have written the same. -/
structure Machine.SameValues (m m' : Machine) : Prop where
  vars : List.Forall₂ (fun s t => t.vars = s.vars) m.scopes.toList m'.scopes.toList
  heap : m'.heap = m.heap
  output : m'.output = m.output
  loaded : m'.loaded = m.loaded

namespace Machine

variable {special : Nat × String → Prop} {m m' : Machine}

theorem Reordered.sameValues (h : m.Reordered special m') : m.SameValues m' :=
  ⟨h.scopes.imp fun _ _ hs => hs.vars, h.heap, h.output, h.loaded⟩

protected theorem SameValues.rfl : m.SameValues m :=
  ⟨List.forall₂_same.mpr fun _ _ => rfl, rfl, rfl, rfl⟩

/-- A machine with other functions in its current scope, and another trace. -/
def withFunctions (m : Machine) (functions : List Function) (trace : Trace) : Machine :=
  { m with
    scopes := { m.scopes with current := { m.scopes.current with functions := functions } }
    trace := trace }

theorem sameValues_withFunctions (m : Machine) (fs gs : List Function) (t u : Trace) :
    (m.withFunctions fs t).SameValues (m.withFunctions gs u) :=
  ⟨.cons rfl (List.forall₂_same.mpr fun _ _ => rfl), rfl, rfl, rfl⟩

end Machine

/-- A search that at most one item of a row meets does not depend on the order of the row. -/
theorem find?_of_perm {α : Type} {p : α → Bool} {l l' : List α} (h : l.Perm l')
    (hp : l.Pairwise fun a b => ¬(p a = true ∧ p b = true)) : l'.find? p = l.find? p := by
  induction h with
  | nil => rfl
  | cons a _ ih => rw [List.find?_cons, List.find?_cons, ih (List.pairwise_cons.mp hp).2]
  | swap a b l =>
      have hab := (List.pairwise_cons.mp hp).1 a List.mem_cons_self
      simp only [List.find?_cons]
      cases ha : p a <;> cases hb : p b <;> simp_all
  | trans h _ ih ih' =>
      have hsymm : ∀ a b, ¬(p a = true ∧ p b = true) → ¬(p b = true ∧ p a = true) :=
        fun _ _ hn hba => hn hba.symm
      rw [ih' (h.pairwise hp @hsymm), ih hp]

namespace Running

open BlockScript.Computation FunctionDeclaration

section Globals

variable {settings : Settings}

/-- The level of the trace is kept. -/
def KeepsLevel (m m' : Machine) : Prop := m'.trace.level = m.trace.level

instance : IsPreorder Machine KeepsLevel where
  refl _ := rfl
  trans _ _ _ h h' := h'.trans h

/-- The level of a trace is never changed. -/
theorem inherited_keepsLevel :
    Inherited settings (fun {α : Type} (c : Running α) => c.Obeys KeepsLevel) where
  aside {α} _ h m :=
    congrArg (fun o : Except RunFailure α × Machine => o.2.trace.level) (h m m.scopes m.trace)
  bind h hnext := h.bind hnext
  inScope h := fun m => h m.enter
  mapFailure _ h := h.mapFailure
  note level message m := by
    rw [note_apply]
    split
    · rfl
    split
    · rfl
    · simp only [KeepsLevel, Trace.note]
      split <;> rfl
  lookupVariable _ := obeys_state.bind fun _ => obeys_lift _
  lookupFunction _ _ := obeys_state.bind fun _ => obeys_lift _
  bindVariable _ _ _ := obeys_state.bind fun _ => (obeys_lift _).bind fun _ _ => rfl
  bindFunction _ := obeys_state.bind fun _ => (obeys_lift _).bind fun _ _ => rfl
  setVariable _ _ _ := rfl

/-- The current scope keeps the functions that it has. -/
def KeepsFunctions (c d : Chain) : Prop := d.current.functions = c.current.functions

instance : IsPreorder Chain KeepsFunctions where
  refl _ := rfl
  trans _ _ _ h h' := h'.trans h

/-- A global binds no function. -/
theorem keepsFunctions_of_declares {g : GlobalDeclaration} {c d : Chain}
    (h : c.Declares g.node d) : KeepsFunctions c d := by
  obtain ⟨kept, hkept, hbinds⟩ := h.current
  unfold KeepsFunctions
  rw [← hkept.functions]
  generalize d.current = s at hbinds
  cases hbinds <;> rfl

variable (settings) (steps : Nat)

theorem obeys_globals (gs : List GlobalDeclaration) :
    (executeEach settings steps (gs.map GlobalDeclaration.node)).Obeys
      (Machine.Scoped KeepsFunctions) := by
  induction gs with
  | nil => exact obeys_pure _
  | cons g gs ih =>
      have hg := (persists_steps settings steps settings.calls).2 g.node
      exact (hg.imp fun _ _ h => h.imp fun _ _ => keepsFunctions_of_declares).bind fun _ => ih

theorem keepsLevel_executeEach (nodes : List Node) :
    (executeEach settings steps nodes).Obeys KeepsLevel := by
  induction nodes with
  | nil => exact obeys_pure _
  | cons node nodes ih =>
      exact ((inherited_keepsLevel.steps steps settings.calls node).2).bind fun _ => ih

end Globals

section Definitions

variable {settings : Settings} {steps calls : Nat} {m : Machine} {d : FunctionDeclaration}
  {ds : List FunctionDeclaration}

/-- The trace behind a definition. -/
def traceBehind (settings : Settings) (trace : Trace) (d : FunctionDeclaration) : Trace :=
  if settings.reports then trace.note 2 d.message else trace

/-- The machine behind a definition. -/
def behind (settings : Settings) (m : Machine) (d : FunctionDeclaration) : Machine :=
  m.withFunctions (d.function :: m.scopes.current.functions) (traceBehind settings m.trace d)

/-- The functions of some declarations can be bound in the current scope of a machine, which has
none of their signatures. -/
structure Fresh (ds : List FunctionDeclaration) (m : Machine) : Prop where
  bindable : ∀ d ∈ ds, d.name.isBindable = true
  unbound : ∀ d ∈ ds, ∀ f ∈ m.scopes.current.functions,
    f.answers d.name d.parameters.length = false

theorem bindFunction_of_fresh (h : Fresh (d :: ds) m) : bindFunction d.function m =
    (.ok (), m.withFunctions (d.function :: m.scopes.current.functions) m.trace) := by
  have hname : d.function.name.isBindable = true := h.bindable d List.mem_cons_self
  have hfind : m.scopes.current.findFunction? d.function.name d.function.arity = none := by
    refine List.find?_eq_none.mpr fun f hf => ?_
    rw [arity_function, Bool.not_eq_true]
    exact h.unbound d List.mem_cons_self f hf
  have hdefine : m.scopes.defineFunction d.function = .ok
      { m.scopes with
        current := { m.scopes.current with
          functions := d.function :: m.scopes.current.functions } } := by
    simp only [Chain.defineFunction, Scope.defineFunction, hfind]
    rfl
  refine bind_eq_ok.mpr ⟨m, m, rfl, ?_⟩
  rw [boundUnder_eq_ok.mpr ⟨hname, hdefine⟩]
  rfl

/-- A definition either goes through or is stopped at its message. -/
theorem execute_definition (h : Fresh (d :: ds) m) :
    (¬d.IsRefused settings m.trace.level →
      execute settings (steps + 1) calls d.node m = (.ok .finished, behind settings m d)) ∧
    (d.IsRefused settings m.trace.level → execute settings (steps + 1) calls d.node m =
      (.error .unwritable,
        m.withFunctions (d.function :: m.scopes.current.functions) m.trace)) := by
  have hrun : execute settings (steps + 1) calls d.node m =
      (note settings 2 d.message >>= fun _ => pure Completion.finished)
        (m.withFunctions (d.function :: m.scopes.current.functions) m.trace) := by
    change (bindFunction d.function >>= fun _ => note settings 2 d.message >>= fun _ =>
      pure Completion.finished) m = _
    rw [bind_apply, bindFunction_of_fresh h]
  rw [hrun, bind_apply, note_apply]
  by_cases hrefused : d.IsRefused settings m.trace.level
  · refine ⟨fun h => absurd hrefused h, fun _ => ?_⟩
    have hrefuses : refuses settings m.trace 2 d.message = true :=
      refuses_iff.mpr ⟨hrefused.strict, hrefused.level, hrefused.unwritable⟩
    simp [hrefused.reports, hrefuses, Machine.withFunctions]
  · refine ⟨fun _ => ?_, fun h => absurd h hrefused⟩
    cases hreports : settings.reports with
    | false => simp [behind, traceBehind, hreports, Machine.withFunctions]
    | true =>
        have hrefuses : refuses settings m.trace 2 d.message = false := by
          rw [← Bool.not_eq_true, refuses_iff]
          rintro ⟨hstrict, hlevel, hmessage⟩
          exact hrefused ⟨hreports, hstrict, hlevel, hmessage⟩
        simp [behind, traceBehind, hreports, hrefuses, Machine.withFunctions]

theorem Fresh.behind (h : Fresh (d :: ds) m) (hdistinct : d.signature ∉ ds.map signature) :
    Fresh ds (behind settings m d) := by
  refine ⟨fun e he => h.bindable e (List.mem_cons_of_mem d he), fun e he f hf => ?_⟩
  rcases List.mem_cons.mp hf with rfl | hf
  · rw [← Bool.not_eq_true, answers_function]
    intro heq
    exact hdistinct (heq ▸ List.mem_map_of_mem (f := signature) he)
  · exact h.unbound e (List.mem_cons_of_mem d he) f hf

@[simp] theorem level_behind : (behind settings m d).trace.level = m.trace.level := by
  simp only [behind, Machine.withFunctions, traceBehind, Trace.note]
  split
  · split <;> rfl
  · rfl

/-- Definitions whose messages a trace keeps go through, one after the other. -/
theorem executeEach_definitions (hfresh : Fresh ds m) (hnodup : (ds.map signature).Nodup)
    (h : ∀ d ∈ ds, ¬d.IsRefused settings m.trace.level) :
    executeEach settings (steps + 1) (ds.map node) m = (.ok (), ds.foldl (behind settings) m) := by
  induction ds generalizing m with
  | nil => rfl
  | cons d ds ih =>
      obtain ⟨hd, hds⟩ := List.forall_mem_cons.mp h
      obtain ⟨hdistinct, hnodup⟩ := List.nodup_cons.mp hnodup
      rw [List.map_cons, executeEach, bind_apply, (execute_definition hfresh).1 hd]
      exact ih (hfresh.behind hdistinct) hnodup (level_behind.symm ▸ hds)

/-- Definitions one of which is refused end there, with some of the functions defined. -/
theorem executeEach_refused (steps : Nat) (hfresh : Fresh ds m) (hnodup : (ds.map signature).Nodup)
    (h : ∃ d ∈ ds, d.IsRefused settings m.trace.level) : ∃ functions trace,
    executeEach settings (steps + 1) (ds.map node) m =
      (.error .unwritable, m.withFunctions functions trace) := by
  induction ds generalizing m with
  | nil =>
      obtain ⟨d, hd, -⟩ := h
      cases hd
  | cons d ds ih =>
      obtain ⟨hdistinct, hnodup⟩ := List.nodup_cons.mp hnodup
      rw [List.map_cons, executeEach, bind_apply]
      by_cases hd : d.IsRefused settings m.trace.level
      · rw [(execute_definition hfresh).2 hd]
        exact ⟨_, _, rfl⟩
      · rw [(execute_definition hfresh).1 hd]
        have hlater : ∃ e ∈ ds, e.IsRefused settings (behind settings m d).trace.level := by
          obtain ⟨e, he, hrefused⟩ := h
          rcases List.mem_cons.mp he with rfl | he
          · exact absurd hrefused hd
          · exact ⟨e, he, level_behind.symm ▸ hrefused⟩
        exact ih (hfresh.behind hdistinct) hnodup hlater

/-- The messages of definitions that a trace keeps, the newest first. -/
def keptMessages (settings : Settings) (level : Nat) (ds : List FunctionDeclaration) :
    List (Nat × String) :=
  if settings.reports = true ∧ 2 ≤ level then (ds.map fun d => (2, d.message)).reverse else []

theorem foldl_behind (m : Machine) (ds : List FunctionDeclaration) :
    ds.foldl (behind settings) m =
      m.withFunctions ((ds.map function).reverse ++ m.scopes.current.functions)
        { m.trace with messages := keptMessages settings m.trace.level ds ++ m.trace.messages } := by
  induction ds generalizing m with
  | nil => simp [keptMessages, Machine.withFunctions]
  | cons d ds ih =>
      rw [List.foldl_cons, ih, level_behind]
      by_cases hkeeps : settings.reports = true ∧ 2 ≤ m.trace.level
      · simp [behind, traceBehind, Trace.note, keptMessages, hkeeps, Machine.withFunctions]
      · have htrace : traceBehind settings m.trace d = m.trace := by
          unfold traceBehind Trace.note
          split
          · rw [if_neg fun hlevel => hkeeps ⟨‹_›, hlevel⟩]
          · rfl
        simp [behind, htrace, keptMessages, hkeeps, Machine.withFunctions]

end Definitions

section Orders

variable {settings : Settings} {steps : Nat} {m : Machine} {ds ds' : List FunctionDeclaration}

/-- Of functions with different signatures, no two answer one lookup. -/
theorem answers_exclusive (hnodup : (ds.map signature).Nodup) (name : Name) (arity : Nat) :
    (ds.map function).reverse.Pairwise fun f g =>
      ¬(f.answers name arity = true ∧ g.answers name arity = true) := by
  rw [List.pairwise_reverse, List.pairwise_map]
  refine (List.pairwise_map.mp hnodup).imp fun {d e} hne => ?_
  rintro ⟨he, hd⟩
  rw [answers_iff, arity_function] at he hd
  have hname : d.name.key = e.name.key :=
    (Name.same_iff.mp hd.1).trans (Name.same_iff.mp he.1).symm
  exact hne (Prod.ext hname (hd.2.trans he.2.symm))

theorem keptMessages_perm (hperm : ds.Perm ds') (level : Nat) :
    (keptMessages settings level ds).Perm (keptMessages settings level ds') := by
  unfold keptMessages
  split
  · exact (List.reverse_perm _).trans ((hperm.map _).trans (List.reverse_perm _).symm)
  · exact .nil

theorem reports_of_mem_keptMessages {level : Nat} {e : Nat × String}
    (h : e ∈ keptMessages settings level ds) : Reports ds e := by
  unfold keptMessages at h
  split at h
  · obtain ⟨d, hd, rfl⟩ := List.mem_map.mp (List.mem_reverse.mp h)
    exact ⟨d, hd, rfl⟩
  · cases h

/-- The machines behind the definitions in two orders differ only in the order of functions and
of the messages of definitions. -/
theorem reordered_foldl_behind (hperm : ds.Perm ds') (hnodup : (ds.map signature).Nodup) :
    (ds.foldl (behind settings) m).Reordered (Reports ds) (ds'.foldl (behind settings) m) := by
  have hfunctions : (ds.map function).reverse.Perm (ds'.map function).reverse :=
    (List.reverse_perm _).trans ((hperm.map _).trans (List.reverse_perm _).symm)
  rw [foldl_behind, foldl_behind]
  refine ⟨.cons ⟨rfl, hfunctions.append_right _, fun name arity => ?_⟩ Chain.Reordered.rfl.outer,
    rfl, rfl, ⟨rfl, [], keptMessages settings m.trace.level ds,
      keptMessages settings m.trace.level ds', m.trace.messages, rfl, rfl,
      keptMessages_perm hperm _, fun e => reports_of_mem_keptMessages⟩, rfl⟩
  simp only [Machine.withFunctions, Scope.findFunction?, List.find?_append]
  rw [find?_of_perm hfunctions (answers_exclusive hnodup name arity)]

/-- How the definitions in two orders end: both without a step, or with machines that differ only
in the order of functions and messages, or both at a message that is refused. -/
theorem definitions_in_any_order (settings : Settings) (steps : Nat) (hperm : ds.Perm ds')
    (hnodup : (ds.map signature).Nodup) (hfresh : Fresh ds m) :
    (executeEach settings steps (ds'.map node) m = executeEach settings steps (ds.map node) m) ∨
    (∃ m₁ m₂, executeEach settings steps (ds.map node) m = (.ok (), m₁) ∧
      executeEach settings steps (ds'.map node) m = (.ok (), m₂) ∧ m₁.Reordered (Reports ds) m₂) ∨
    (∃ m₁ m₂, executeEach settings steps (ds.map node) m = (.error .unwritable, m₁) ∧
      executeEach settings steps (ds'.map node) m = (.error .unwritable, m₂) ∧
      m₁.SameValues m₂ ∧ ∃ d ∈ ds, d.IsRefused settings m.trace.level) := by
  cases steps with
  | zero =>
      refine .inl ?_
      cases ds with
      | nil => rw [hperm.nil_eq]
      | cons d ds =>
          cases ds' with
          | nil => exact absurd hperm.symm.nil_eq nofun
          | cons d' ds' => rfl
  | succ steps =>
      have hfresh' : Fresh ds' m :=
        ⟨fun d hd => hfresh.bindable d (hperm.symm.subset hd),
          fun d hd => hfresh.unbound d (hperm.symm.subset hd)⟩
      have hnodup' : (ds'.map signature).Nodup := (hperm.map signature).nodup_iff.mp hnodup
      refine .inr ?_
      by_cases hrefused : ∃ d ∈ ds, d.IsRefused settings m.trace.level
      · have hrefused' : ∃ d ∈ ds', d.IsRefused settings m.trace.level := by
          obtain ⟨d, hd, h⟩ := hrefused
          exact ⟨d, hperm.subset hd, h⟩
        obtain ⟨fs, t, hrun⟩ := executeEach_refused steps hfresh hnodup hrefused
        obtain ⟨fs', t', hrun'⟩ := executeEach_refused steps hfresh' hnodup' hrefused'
        exact .inr ⟨_, _, hrun, hrun', m.sameValues_withFunctions fs fs' t t', hrefused⟩
      · have hkept : ∀ d ∈ ds, ¬d.IsRefused settings m.trace.level :=
          fun d hd h => hrefused ⟨d, hd, h⟩
        exact .inl ⟨_, _, executeEach_definitions hfresh hnodup hkept,
          executeEach_definitions hfresh' hnodup' fun d hd => hkept d (hperm.symm.subset hd),
          reordered_foldl_behind hperm hnodup⟩

end Orders

section Programs

variable (settings : Settings) (steps : Nat)

/-- The call of `main`, with its messages. -/
def callMain : Running Value := do
  let f ← mainFunction
  note settings 1 "run: main"
  let value ← invoke settings (execute settings steps) settings.calls f []
  noteValue settings 1 "run: main returned " value
  return value

theorem related_eq {α : Type} {r r' : Except RunFailure α} (h : Related Eq Eq r r') : r' = r := by
  cases h with
  | ok h => rw [h]
  | error h => rw [h]

theorem distinct_start {surroundings : List Scope} (h : ∀ s ∈ surroundings, s.Distinct)
    (heap : Heap) (trace : Trace) : (Machine.start surroundings heap trace).scopes.Distinct := by
  intro s hs
  rcases List.mem_cons.mp hs with rfl | hs
  · exact .nil
  · exact h s hs

/-- Behind the globals, only `print` is bound in the scope of a program. -/
theorem fresh_behind_globals {surroundings : List Scope} (heap : Heap) (trace : Trace)
    (gs : List GlobalDeclaration) {ds : List FunctionDeclaration}
    (hsurroundings : ∀ s ∈ surroundings, s.Distinct)
    (hbindable : ∀ d ∈ ds, d.name.isBindable = true)
    (hprint : (Name.key "print", 1) ∉ ds.map signature) :
    Fresh ds (executeEach settings steps (gs.map GlobalDeclaration.node)
      (.start surroundings heap trace)).2 := by
  refine ⟨hbindable, fun d hd f hf => ?_⟩
  have hkept := (obeys_globals settings steps gs _ (distinct_start hsurroundings heap trace)).1
  rw [hkept] at hf
  obtain rfl := List.mem_singleton.mp hf
  rw [← Bool.not_eq_true, answers_iff]
  rintro ⟨hname, harity⟩
  refine hprint (List.mem_map.mpr ⟨d, hd, ?_⟩)
  exact Prod.ext (Name.same_iff.mp hname).symm harity.symm

theorem ignoresOrder_callMain (special : Nat × String → Prop) :
    IgnoresOrder special (callMain settings steps) := by
  have hsteps : Inherited settings
      (fun {α : Type} (c : Running α) => IgnoresOrder special c) := inherited_ignoresOrder
  refine ignoresOrder_mainFunction.bind ?_
  rintro f _ rfl
  refine hsteps.bind (hsteps.note 1 _) fun _ => ?_
  refine hsteps.bind (hsteps.invoke (fun calls node => (hsteps.steps steps calls node).2) _ f [])
    fun value => ?_
  exact hsteps.bind (hsteps.noteValue 1 _ value) fun _ => hsteps.pure value

end Programs

/-- A function that doubles a number. -/
def doubling : FunctionDeclaration :=
  ⟨"double", ["n"], ["Integer"], "Integer",
    [.returning (.binary "+" (.access "n" .absent) (.access "n" .absent))]⟩

/-- A function that calls another one. -/
def callingDouble : FunctionDeclaration :=
  ⟨"main", [], [], "Integer", [.returning (.call "double" [.literal (.integer 4)])]⟩

/-- A function that gives a number. -/
def givingZero : FunctionDeclaration :=
  ⟨"main", [], [], "Integer", [.returning (.literal (.integer 0))]⟩

/-- A function whose name is one half of a surrogate pair. -/
def halfNamed : FunctionDeclaration :=
  ⟨String.singleton (Text.standIn 0xD800), [], [], .missing, []⟩

/-- A function whose name is an array. -/
def arrayNamed : FunctionDeclaration := ⟨⟨.array [.integer 1]⟩, [], [], .missing, []⟩

/-- The names of the functions that a run leaves in the scope of a program. -/
def functionsLeft (level : Nat) (ds : List FunctionDeclaration) : List Name :=
  (runProgram Settings.standard.strictly 9 (.ofDeclarations [] ds)
    (.start [] .empty (.start level))).2.scopes.current.functions.map Function.name

end Running
end BlockScript
