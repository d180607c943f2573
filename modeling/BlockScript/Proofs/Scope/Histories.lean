import BlockScript.Proofs.Scope.Sessions
import Mathlib.Data.List.Induction

/-!
# Histories of a forest

A history of operations tells what every lookup behind it gives: what the one successful
definition in the nearest scope made, with the value that was stored into it last.
-/

namespace BlockScript
namespace Forest

/-- Operations that name only scopes made before, where there were `n` at the beginning. -/
def IsHistoryFrom : Nat → List Operation → Prop
  | _, [] => True
  | n, op :: ops => op.Fits n ∧ IsHistoryFrom (n + op.scopes) ops

instance decidableIsHistoryFrom : (n : Nat) → (ops : List Operation) →
    Decidable (IsHistoryFrom n ops)
  | _, [] => inferInstanceAs (Decidable True)
  | n, op :: ops =>
      have := decidableIsHistoryFrom (n + op.scopes) ops
      inferInstanceAs (Decidable (op.Fits n ∧ IsHistoryFrom (n + op.scopes) ops))

/-- Operations that can follow one another from the forest without scopes on. -/
def IsHistory (ops : List Operation) : Prop := IsHistoryFrom 0 ops

instance (ops : List Operation) : Decidable (IsHistory ops) :=
  inferInstanceAs (Decidable (IsHistoryFrom 0 ops))

/-- The session behind a history. -/
def after (ops : List Operation) : Session := ops.foldl Session.apply .start

section Histories

variable {ops before before' : List Operation} {op : Operation} {i j : Nat} {x : Name}
  {arity : Nat}

theorem after_concat (ops : List Operation) (op : Operation) :
    after (ops ++ [op]) = (after ops).apply op := by
  rw [after, List.foldl_append]
  rfl

theorem isHistoryFrom_concat (s : Session) :
    IsHistoryFrom s.forest.size (ops ++ [op]) ↔
      IsHistoryFrom s.forest.size ops ∧ op.Fits (ops.foldl Session.apply s).forest.size := by
  induction ops generalizing s with
  | nil => simp [IsHistoryFrom]
  | cons first ops ih =>
      have hrest := ih (s.apply first)
      rw [Session.size_apply] at hrest
      simp only [List.cons_append, IsHistoryFrom, hrest, List.foldl_cons, and_assoc]

theorem isHistory_concat :
    IsHistory (ops ++ [op]) ↔ IsHistory ops ∧ op.Fits (after ops).forest.size :=
  isHistoryFrom_concat .start

theorem isSound_after (h : IsHistory ops) : (after ops).IsSound := by
  induction ops using List.reverseRecOn with
  | nil => exact fun r hr => absurd hr List.not_mem_nil
  | append_singleton ops op ih =>
      obtain ⟨h, hop⟩ := isHistory_concat.mp h
      rw [after_concat]
      exact (ih h).apply hop

theorem path_after_concat (op : Operation) (hj : j < (after ops).forest.size) :
    (after (ops ++ [op])).forest.path j = (after ops).forest.path j := by
  rw [after_concat]
  exact Session.path_apply op hj

theorem stored_concat (s : Session) (ops : List Operation) (op : Operation) :
    s.stored j x (ops ++ [op]) =
      s.stored j x ops ++ ((ops.foldl Session.apply s).storedBy? j x op).toList := by
  induction ops generalizing s with
  | nil => simp [Session.stored]
  | cons first ops ih => simp [Session.stored, ih, List.append_assoc]

/-- Nothing was stored into a variable that is not there. -/
theorem stored_eq_nil (h : IsHistory ops) (hnone : (after ops).variableAt j x = none) :
    Session.start.stored j x ops = [] := by
  induction ops using List.reverseRecOn with
  | nil => rfl
  | append_singleton ops op ih =>
      obtain ⟨h, hop⟩ := isHistory_concat.mp h
      have hs := isSound_after h
      rw [after_concat, Session.variableAt_apply hs hop, Option.or_eq_none_iff,
        Option.map_eq_none_iff] at hnone
      have hby : (ops.foldl Session.apply .start).storedBy? j x op = none :=
        hs.storedBy?_eq_none hnone.1
      rw [stored_concat, ih h hnone.1, hby]
      rfl

end Histories

/-! ### What operations make once -/

section Tracking

variable {β : Type} {look : Session → Option β} {made : Operation → Option β}
  {now : List Operation → β → β} {ops before before' : List Operation} {op : Operation}
  {a a' b : β}

/-- An operation of a history, the one behind `before`, makes what was not there. -/
def Makes (look : Session → Option β) (made : Operation → Option β)
    (ops before : List Operation) (a : β) : Prop :=
  ∃ op behind, ops = before ++ op :: behind ∧ look (after before) = none ∧ made op = some a

theorem makes_concat : Makes look made (ops ++ [op]) before a ↔
    Makes look made ops before a ∨
      before = ops ∧ look (after ops) = none ∧ made op = some a := by
  constructor
  · rintro ⟨first, behind, heq, hlook, hmade⟩
    rcases behind.eq_nil_or_concat with rfl | ⟨behind, last, rfl⟩
    · obtain ⟨rfl, hop⟩ := List.append_inj' heq rfl
      obtain rfl := List.singleton_inj.mp hop
      exact .inr ⟨rfl, hlook, hmade⟩
    · rw [List.concat_eq_append, ← List.cons_append, ← List.append_assoc] at heq
      obtain ⟨rfl, -⟩ := List.append_inj' heq rfl
      exact .inl ⟨first, behind, rfl, hlook, hmade⟩
  · rintro (⟨first, behind, rfl, hlook, hmade⟩ | ⟨rfl, hlook, hmade⟩)
    · exact ⟨first, behind ++ [op], List.append_assoc .., hlook, hmade⟩
    · exact ⟨op, [], rfl, hlook, hmade⟩

/-- What is looked for is made by an operation where it is not there, and stays.  What it has
become behind a history, `now` tells. -/
structure IsTracked (look : Session → Option β) (made : Operation → Option β)
    (now : List Operation → β → β) : Prop where
  start : look .start = none
  fresh : ∀ {ops op}, IsHistory (ops ++ [op]) → look (after ops) = none →
    look (after (ops ++ [op])) = made op ∧ now (ops ++ [op]) = id
  kept : ∀ {ops op a}, IsHistory (ops ++ [op]) → look (after ops) = some (now ops a) →
    look (after (ops ++ [op])) = some (now (ops ++ [op]) a)

namespace IsTracked

theorem look_eq_some_iff (ht : IsTracked look made now) (h : IsHistory ops) :
    look (after ops) = some b ↔ ∃ before a, Makes look made ops before a ∧ b = now ops a := by
  -- A history grows at its end, where only the last operation can make or change anything.
  induction ops using List.reverseRecOn generalizing b with
  | nil =>
      constructor
      · intro hlook
        rw [show look (after []) = none from ht.start] at hlook
        cases hlook
      · rintro ⟨before, a, ⟨op, behind, heq, -, -⟩, -⟩
        exact absurd heq.symm (by simp)
  | append_singleton ops op ih =>
      have hops := (isHistory_concat.mp h).1
      simp only [makes_concat]
      cases hlook : look (after ops) with
      | none =>
          obtain ⟨hmade, hid⟩ := ht.fresh h hlook
          have hnot : ∀ before a, ¬ Makes look made ops before a := by
            intro before a hmakes
            rw [(ih hops).mpr ⟨before, a, hmakes, rfl⟩] at hlook
            cases hlook
          simp [hmade, hid, hnot, eq_comm]
      | some c =>
          obtain ⟨before, a, hmakes, rfl⟩ := (ih hops).mp hlook
          rw [ht.kept h hlook]
          constructor
          · intro hb
            exact ⟨before, a, .inl hmakes, (Option.some_inj.mp hb).symm⟩
          · rintro ⟨before', a', hmakes' | ⟨-, hnone, -⟩, rfl⟩
            -- What another operation made would be found too, so it is what was found.
            · have hsame := (ih hops).mpr ⟨before', a', hmakes', rfl⟩
              rw [← ht.kept h hsame, ht.kept h hlook]
            · cases hnone

theorem look_eq_none_iff (ht : IsTracked look made now) (h : IsHistory ops) :
    look (after ops) = none ↔ ∀ before a, ¬ Makes look made ops before a := by
  rw [Option.eq_none_iff_forall_ne_some]
  constructor
  · intro hnone before a hmakes
    exact hnone _ ((ht.look_eq_some_iff h).mpr ⟨before, a, hmakes, rfl⟩)
  · intro hnot b hlook
    obtain ⟨before, a, hmakes, -⟩ := (ht.look_eq_some_iff h).mp hlook
    exact hnot before a hmakes

/-- Nothing is made twice. -/
theorem once (ht : IsTracked look made now) (h : IsHistory ops)
    (hmakes : Makes look made ops before a) (hmakes' : Makes look made ops before' a') :
    before = before' ∧ a = a' := by
  induction ops using List.reverseRecOn with
  | nil =>
      obtain ⟨op, behind, heq, -, -⟩ := hmakes
      exact absurd heq.symm (by simp)
  | append_singleton ops op ih =>
      have hops := (isHistory_concat.mp h).1
      rcases makes_concat.mp hmakes with hmakes | ⟨rfl, hnone, hmade⟩
      · rcases makes_concat.mp hmakes' with hmakes' | ⟨-, hnone, -⟩
        · exact ih hops hmakes hmakes'
        · exact absurd hmakes ((ht.look_eq_none_iff hops).mp hnone before a)
      · rcases makes_concat.mp hmakes' with hmakes' | ⟨rfl, -, hmade'⟩
        · exact absurd hmakes' ((ht.look_eq_none_iff hops).mp hnone before' a')
        · exact ⟨rfl, Option.some_inj.mp (hmade.symm.trans hmade')⟩

end IsTracked
end Tracking
/-! ### Definitions -/

variable {ops before before' : List Operation} {op : Operation} {i j k : Nat} {x : Name}
  {arity : Nat} {v v' : Variable} {g g' : Function}

/-- An operation of a history, the one behind `before`, defined a variable of a name in a
scope. -/
def DefinesVariable (ops : List Operation) (j : Nat) (x : Name) (before : List Operation)
    (v : Variable) : Prop :=
  ∃ behind f, ops = before ++ .defineVariable j v :: behind ∧ v.name.same x = true ∧
    (after before).forest.defineVariable j v = .ok f

/-- An operation of a history, the one behind `before`, defined a function of a name and a
number of parameters in a scope. -/
def DefinesFunction (ops : List Operation) (j : Nat) (x : Name) (arity : Nat)
    (before : List Operation) (g : Function) : Prop :=
  ∃ behind f, ops = before ++ .defineFunction j g :: behind ∧ g.answers x arity = true ∧
    (after before).forest.defineFunction j g = .ok f

/-- A scope has a variable of a name behind a history. -/
def HasVariable (ops : List Operation) (x : Name) (j : Nat) : Prop :=
  ∃ before v, DefinesVariable ops j x before v

/-- A scope has a function of a name and a number of parameters behind a history. -/
def HasFunction (ops : List Operation) (x : Name) (arity j : Nat) : Prop :=
  ∃ before g, DefinesFunction ops j x arity before g

/-- A variable as a history leaves it: with the value that was stored into it last. -/
def latest (ops : List Operation) (j : Nat) (x : Name) (v : Variable) : Variable :=
  { v with value := (Session.start.stored j x ops).getLastD v.value }

theorem definesVariable_iff : DefinesVariable ops j x before v ↔
    Makes (·.variableAt j x) (·.madeVariable? j x) ops before v := by
  unfold DefinesVariable Makes
  simp only [defineVariable_eq_ok_iff]
  constructor
  · rintro ⟨behind, f, heq, hx, hnone, -⟩
    exact ⟨_, behind, heq, (findVariable?_congr _ hx).symm.trans hnone, if_pos ⟨rfl, hx⟩⟩
  · rintro ⟨op, behind, heq, hnone, hmade⟩
    unfold Operation.madeVariable? at hmade
    split at hmade
    · split at hmade
      · rename_i hat
        obtain ⟨rfl, hx⟩ := hat
        cases hmade
        exact ⟨behind, _, heq, hx, (findVariable?_congr _ hx).trans hnone, rfl⟩
      · cases hmade
    · cases hmade

theorem definesFunction_iff : DefinesFunction ops j x arity before g ↔
    Makes (·.functionAt j x arity) (·.madeFunction? j x arity) ops before g := by
  unfold DefinesFunction Makes
  simp only [defineFunction_eq_ok_iff]
  constructor
  · rintro ⟨behind, f, heq, hg, hnone, -⟩
    exact ⟨_, behind, heq, (findFunction?_congr _ hg).symm.trans hnone, if_pos ⟨rfl, hg⟩⟩
  · rintro ⟨op, behind, heq, hnone, hmade⟩
    unfold Operation.madeFunction? at hmade
    split at hmade
    · split at hmade
      · rename_i hat
        obtain ⟨rfl, hg⟩ := hat
        cases hmade
        exact ⟨behind, _, heq, hg, (findFunction?_congr _ hg).trans hnone, rfl⟩
      · cases hmade
    · cases hmade

theorem isTracked_variableAt (j : Nat) (x : Name) :
    IsTracked (·.variableAt j x) (·.madeVariable? j x) (latest · j x) where
  start := rfl
  fresh := by
    intro ops op h hnone
    have hafter := (isHistory_concat.mp h).1
    have hlook : (after (ops ++ [op])).variableAt j x = op.madeVariable? j x := by
      rw [after_concat, Session.variableAt_apply (isSound_after hafter) (isHistory_concat.mp h).2,
        hnone]
      rfl
    refine ⟨hlook, funext fun v => ?_⟩
    have hby : (ops.foldl Session.apply .start).storedBy? j x op = none :=
      (isSound_after hafter).storedBy?_eq_none hnone
    unfold latest
    rw [stored_concat, stored_eq_nil hafter hnone, hby]
    rfl
  kept := by
    intro ops op v h hlook
    obtain ⟨hops, hop⟩ := isHistory_concat.mp h
    rw [after_concat, Session.variableAt_apply (isSound_after hops) hop, hlook]
    unfold latest
    rw [stored_concat]
    unfold after
    cases (ops.foldl Session.apply .start).storedBy? j x op <;> simp

theorem isTracked_functionAt (j : Nat) (x : Name) (arity : Nat) :
    IsTracked (·.functionAt j x arity) (·.madeFunction? j x arity) (fun _ g => g) where
  start := rfl
  fresh := by
    intro ops op h hnone
    obtain ⟨hops, hop⟩ := isHistory_concat.mp h
    rw [after_concat, Session.functionAt_apply (isSound_after hops) hop, hnone]
    exact ⟨rfl, rfl⟩
  kept := by
    intro ops op g h hlook
    obtain ⟨hops, hop⟩ := isHistory_concat.mp h
    rw [after_concat, Session.functionAt_apply (isSound_after hops) hop, hlook]
    rfl

/-- What a scope has of a name is what the one definition of it made. -/
theorem variableAt_after (h : IsHistory ops) : (after ops).variableAt j x = some v ↔
    ∃ before w, DefinesVariable ops j x before w ∧ v = latest ops j x w := by
  simp only [definesVariable_iff]
  exact (isTracked_variableAt j x).look_eq_some_iff h

theorem functionAt_after (h : IsHistory ops) : (after ops).functionAt j x arity = some g ↔
    ∃ before, DefinesFunction ops j x arity before g := by
  simp only [definesFunction_iff]
  rw [(isTracked_functionAt j x arity).look_eq_some_iff h]
  simp

theorem hasVariable_iff (h : IsHistory ops) :
    HasVariable ops x j ↔ (after ops).variableAt j x ≠ none := by
  unfold HasVariable
  simp only [definesVariable_iff]
  rw [Ne, (isTracked_variableAt j x).look_eq_none_iff h]
  simp

theorem hasFunction_iff (h : IsHistory ops) :
    HasFunction ops x arity j ↔ (after ops).functionAt j x arity ≠ none := by
  unfold HasFunction
  simp only [definesFunction_iff]
  rw [Ne, (isTracked_functionAt j x arity).look_eq_none_iff h]
  simp

theorem hasVariable_eq (h : IsHistory ops) (x : Name) :
    HasVariable ops x = fun j => ((after ops).forest.scope j).findVariable? x ≠ none :=
  funext fun _ => propext (hasVariable_iff h)

theorem hasFunction_eq (h : IsHistory ops) (x : Name) (arity : Nat) : HasFunction ops x arity =
    fun j => ((after ops).forest.scope j).findFunction? x arity ≠ none :=
  funext fun _ => propext (hasFunction_iff h)

/-! ### Nested maps -/

/-- The path of a scope is settled when the scope is made. -/
structure KeepsPaths (ops : List Operation) : Prop where
  /-- A scope is in front of the path of the scope around it. -/
  new : ∀ parent : Option Nat, (∀ p ∈ parent, p < (after ops).forest.size) →
    (after (ops ++ [.newScope parent])).forest.path (after ops).forest.size =
      (after ops).forest.size :: parent.elim [] (after ops).forest.path
  /-- Paths stay. -/
  kept : ∀ op i, i < (after ops).forest.size →
    (after (ops ++ [op])).forest.path i = (after ops).forest.path i

/-- Variables are found behind a history as in maps inside maps. -/
structure NestsVariables (ops : List Operation) : Prop where
  /-- At most one definition of a name succeeds in a scope. -/
  once : ∀ j x before before' v v', DefinesVariable ops j x before v →
    DefinesVariable ops j x before' v' → before = before' ∧ v = v'
  /-- A lookup gives the variable of the nearest scope, with the value that was stored last. -/
  found : ∀ i x w, (after ops).forest.lookupVariable i x = .ok w ↔
    ∃ j before v, IsNearest (HasVariable ops x) ((after ops).forest.path i) j ∧
      DefinesVariable ops j x before v ∧ w = latest ops j x v
  /-- A lookup fails when no scope on the path has a variable of the name. -/
  missing : ∀ i x e, (after ops).forest.lookupVariable i x = .error e ↔
    (∀ j ∈ (after ops).forest.path i, ¬ HasVariable ops x j) ∧ e = .undefinedVariable x.text
  /-- A definition fails when the scope itself has a variable of the name. -/
  refused : ∀ i v e, (after ops).perform (.defineVariable i v) = .error e ↔
    HasVariable ops v.name i ∧ e = .variableDefined v.name.text
  /-- A definition that fails changes nothing. -/
  unchanged : ∀ i v, HasVariable ops v.name i →
    after (ops ++ [.defineVariable i v]) = after ops
  /-- A variable that was just defined is found from where no nearer scope has one. -/
  visible : ∀ i v k x, i < (after ops).forest.size → k < (after ops).forest.size →
    ¬ HasVariable ops v.name i →
    v.name.same x = true →
    IsNearest (fun j => j = i ∨ HasVariable ops x j) ((after ops).forest.path k) i →
    (after (ops ++ [.defineVariable i v])).forest.lookupVariable k x = .ok v
  /-- Under other names, and from elsewhere, a definition changes no lookup. -/
  apart : ∀ i v k x, i < (after ops).forest.size → k < (after ops).forest.size →
    ¬ (v.name.same x = true ∧
      IsNearest (fun j => j = i ∨ HasVariable ops x j) ((after ops).forest.path k) i) →
    (after (ops ++ [.defineVariable i v])).forest.lookupVariable k x =
      (after ops).forest.lookupVariable k x
  /-- New scopes, functions and lookups change no lookup of a variable. -/
  others : ∀ op k x, op.Fits (after ops).forest.size → k < (after ops).forest.size →
    (∀ i v, op ≠ .defineVariable i v) → (∀ l value, op ≠ .store l value) →
    (after (ops ++ [op])).forest.lookupVariable k x = (after ops).forest.lookupVariable k x

/-- Functions are found behind a history as in maps inside maps, by their names and numbers of
parameters. -/
structure NestsFunctions (ops : List Operation) : Prop where
  /-- At most one definition of a name and a number of parameters succeeds in a scope. -/
  once : ∀ j x arity before before' g g', DefinesFunction ops j x arity before g →
    DefinesFunction ops j x arity before' g' → before = before' ∧ g = g'
  /-- A lookup gives the function of the nearest scope. -/
  found : ∀ i x arity g, (after ops).forest.lookupFunction i x arity = .ok g ↔
    ∃ j before, IsNearest (HasFunction ops x arity) ((after ops).forest.path i) j ∧
      DefinesFunction ops j x arity before g
  /-- A lookup fails when no scope on the path has such a function. -/
  missing : ∀ i x arity e, (after ops).forest.lookupFunction i x arity = .error e ↔
    (∀ j ∈ (after ops).forest.path i, ¬ HasFunction ops x arity j) ∧
      e = .undefinedFunction x.text arity
  /-- A definition fails when the scope itself has such a function. -/
  refused : ∀ i g e, (after ops).perform (.defineFunction i g) = .error e ↔
    HasFunction ops g.name g.arity i ∧ e = .functionDefined g.name.text g.arity
  /-- A definition that fails changes nothing. -/
  unchanged : ∀ i g, HasFunction ops g.name g.arity i →
    after (ops ++ [.defineFunction i g]) = after ops
  /-- A function that was just defined is found from where no nearer scope has one. -/
  visible : ∀ i g k x arity, i < (after ops).forest.size → k < (after ops).forest.size →
    ¬ HasFunction ops g.name g.arity i →
    g.answers x arity = true →
    IsNearest (fun j => j = i ∨ HasFunction ops x arity j) ((after ops).forest.path k) i →
    (after (ops ++ [.defineFunction i g])).forest.lookupFunction k x arity = .ok g
  /-- Under other names and numbers, and from elsewhere, a definition changes no lookup. -/
  apart : ∀ i g k x arity, i < (after ops).forest.size → k < (after ops).forest.size →
    ¬ (g.answers x arity = true ∧
      IsNearest (fun j => j = i ∨ HasFunction ops x arity j) ((after ops).forest.path k) i) →
    (after (ops ++ [.defineFunction i g])).forest.lookupFunction k x arity =
      (after ops).forest.lookupFunction k x arity
  /-- New scopes, variables, lookups and stores change no lookup of a function. -/
  others : ∀ op k x arity, op.Fits (after ops).forest.size → k < (after ops).forest.size →
    (∀ i g, op ≠ .defineFunction i g) →
    (after (ops ++ [op])).forest.lookupFunction k x arity =
      (after ops).forest.lookupFunction k x arity

/-- Stored values go to the variables that were looked up. -/
structure StoresWhereLookedUp (ops : List Operation) : Prop where
  /-- A name is resolved to the nearest scope that has a variable of it. -/
  resolved : ∀ i x j, (after ops).forest.owner? i x = some j ↔
    IsNearest (HasVariable ops x) ((after ops).forest.path i) j
  /-- What is stored into is what a name was resolved to when it was looked up. -/
  given : ∀ r ∈ (after ops).references, ∃ before i behind,
    ops = before ++ .lookupVariable i r.name :: behind ∧
      (after before).forest.owner? i r.name = some r.scope
  /-- It is still there. -/
  kept : ∀ r ∈ (after ops).references, HasVariable ops r.name r.scope
  /-- A stored value is seen from everywhere where the name is resolved to that scope, and
  nothing else is changed. -/
  seen : ∀ l r value k x, (after ops).references[l]? = some r →
    (after (ops ++ [.store l value])).forest.lookupVariable k x =
      ((after ops).forest.lookupVariable k x).map fun w =>
        if r.name.same x = true ∧ (after ops).forest.owner? k x = some r.scope then
          { w with value := value }
        else w

theorem keepsPaths (ops : List Operation) : KeepsPaths ops where
  new := by
    intro parent hparent
    rw [after_concat]
    exact path_add_size hparent
  kept := fun op _ hi => path_after_concat op hi

theorem nestsVariables (h : IsHistory ops) : NestsVariables ops where
  once := by
    intro j x before before' v v' hv hv'
    exact (isTracked_variableAt j x).once h (definesVariable_iff.mp hv) (definesVariable_iff.mp hv')
  found := by
    intro i x w
    rw [lookupVariable_eq_ok_iff, hasVariable_eq h]
    constructor
    · rintro ⟨j, hnear, hw⟩
      obtain ⟨before, v, hv, rfl⟩ := (variableAt_after h).mp hw
      exact ⟨j, before, v, hnear, hv, rfl⟩
    · rintro ⟨j, before, v, hnear, hv, rfl⟩
      exact ⟨j, hnear, (variableAt_after h).mpr ⟨before, v, hv, rfl⟩⟩
  missing := by
    intro i x e
    constructor
    · intro he
      obtain rfl := lookupVariable_error he
      have hnone := lookupVariable_eq_error_iff.mp he
      exact ⟨fun j hj hhas => (hasVariable_iff h).mp hhas (hnone j hj), rfl⟩
    · rintro ⟨hnone, rfl⟩
      exact lookupVariable_eq_error_iff.mpr fun j hj =>
        not_not.mp fun hne => hnone j hj ((hasVariable_iff h).mpr hne)
  refused := by
    intro i v e
    rw [Session.perform_defineVariable_eq_error_iff, hasVariable_iff h]
  unchanged := by
    intro i v hhas
    rw [after_concat, Session.apply_defineVariable, if_neg ((hasVariable_iff h).mp hhas)]
  visible := by
    intro i v k x hi hk hnot hx hnear
    have hnone : (after ops).variableAt i x = none :=
      (findVariable?_congr _ hx).symm.trans
        (not_not.mp fun hne => hnot ((hasVariable_iff h).mpr hne))
    rw [hasVariable_eq h] at hnear
    rw [after_concat]
    exact Session.lookupVariable_of_defined hi hk hx hnone hnear
  apart := by
    intro i v k x hi hk hnot
    rw [hasVariable_eq h] at hnot
    rw [after_concat]
    exact Session.lookupVariable_of_not_defined hi hk hnot
  others := by
    intro op k x hop hk hdefine hstore
    rw [after_concat]
    exact Session.lookupVariable_apply_other hop hk hdefine hstore x

theorem nestsFunctions (h : IsHistory ops) : NestsFunctions ops where
  once := by
    intro j x arity before before' g g' hg hg'
    exact (isTracked_functionAt j x arity).once h (definesFunction_iff.mp hg)
      (definesFunction_iff.mp hg')
  found := by
    intro i x arity g
    rw [lookupFunction_eq_ok_iff, hasFunction_eq h]
    constructor
    · rintro ⟨j, hnear, hg⟩
      obtain ⟨before, hg⟩ := (functionAt_after h).mp hg
      exact ⟨j, before, hnear, hg⟩
    · rintro ⟨j, before, hnear, hg⟩
      exact ⟨j, hnear, (functionAt_after h).mpr ⟨before, hg⟩⟩
  missing := by
    intro i x arity e
    constructor
    · intro he
      obtain rfl := lookupFunction_error he
      have hnone := lookupFunction_eq_error_iff.mp he
      exact ⟨fun j hj hhas => (hasFunction_iff h).mp hhas (hnone j hj), rfl⟩
    · rintro ⟨hnone, rfl⟩
      exact lookupFunction_eq_error_iff.mpr fun j hj =>
        not_not.mp fun hne => hnone j hj ((hasFunction_iff h).mpr hne)
  refused := by
    intro i g e
    rw [Session.perform_defineFunction_eq_error_iff, hasFunction_iff h]
  unchanged := by
    intro i g hhas
    rw [after_concat, Session.apply_defineFunction, if_neg ((hasFunction_iff h).mp hhas)]
  visible := by
    intro i g k x arity hi hk hnot hg hnear
    have hnone : (after ops).functionAt i x arity = none :=
      (findFunction?_congr _ hg).symm.trans
        (not_not.mp fun hne => hnot ((hasFunction_iff h).mpr hne))
    rw [hasFunction_eq h] at hnear
    rw [after_concat]
    exact Session.lookupFunction_of_defined hi hk hg hnone hnear
  apart := by
    intro i g k x arity hi hk hnot
    rw [hasFunction_eq h] at hnot
    rw [after_concat]
    exact Session.lookupFunction_of_not_defined hi hk hnot
  others := by
    intro op k x arity hop hk hdefine
    rw [after_concat]
    exact Session.lookupFunction_apply_other (isSound_after h) hop hk hdefine x arity

/-- What is stored into was looked up before. -/
theorem reference_given (ops : List Operation) : ∀ r ∈ (after ops).references,
    ∃ before i behind, ops = before ++ .lookupVariable i r.name :: behind ∧
      (after before).forest.owner? i r.name = some r.scope := by
  induction ops using List.reverseRecOn with
  | nil => exact fun r hr => absurd hr List.not_mem_nil
  | append_singleton ops op ih =>
      intro r hr
      rw [after_concat] at hr
      rcases Session.mem_references_apply hr with hr | ⟨i, rfl, howner⟩
      · obtain ⟨before, i, behind, rfl, howner⟩ := ih r hr
        exact ⟨before, i, behind ++ [op], List.append_assoc .., howner⟩
      · exact ⟨ops, i, [], rfl, howner⟩

theorem storesWhereLookedUp (h : IsHistory ops) : StoresWhereLookedUp ops where
  resolved := by
    intro i x j
    rw [owner?_eq_some_iff, hasVariable_eq h]
  given := reference_given ops
  kept := fun r hr => (hasVariable_iff h).mpr (isSound_after h r hr)
  seen := by
    intro l r value k x hr
    rw [after_concat]
    exact Session.lookupVariable_apply_store (isSound_after h) hr value k x

/-- A forest of scopes behaves as nested maps, whatever was done with it. -/
structure IsForestOfMaps (ops : List Operation) : Prop where
  paths : KeepsPaths ops
  vars : NestsVariables ops
  functions : NestsFunctions ops
  stores : StoresWhereLookedUp ops

/-- Behind every history a forest of scopes behaves as nested maps: a lookup gives what the one
successful definition in the nearest scope made, with the value that was stored into it last,
and a definition is refused where the scope itself has the name. -/
theorem histories_make_forests_of_maps (h : IsHistory ops) : IsForestOfMaps ops where
  paths := keepsPaths ops
  vars := nestsVariables h
  functions := nestsFunctions h
  stores := storesWhereLookedUp h

/-- A variable is looked up from an inner scope, hidden there and then stored into. -/
def hidingHistory : List Operation :=
  [.newScope none,
   .defineVariable 0 ⟨"x", "x", some .integer, true, .scalar (.integer 1)⟩,
   .newScope (some 0),
   .lookupVariable 1 "x",
   .defineVariable 1 ⟨"x", "x", some .integer, true, .scalar (.integer 2)⟩,
   .store 0 (.scalar (.integer 3)),
   .defineVariable 1 ⟨"x", "x", some .integer, true, .scalar (.integer 4)⟩,
   .defineFunction 0 .print,
   .lookupFunction 1 "print" 1]

theorem hidingHistory_makes_forest_of_maps :
    IsHistory hidingHistory ∧ IsForestOfMaps hidingHistory :=
  ⟨by decide, histories_make_forests_of_maps (by decide)⟩

end Forest
end BlockScript
