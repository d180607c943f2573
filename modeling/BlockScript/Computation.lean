/-!
# Computations

A computation works on a state and gives a result or fails.  Either way it leaves the
state that it reached, so that nothing done before a failure is lost.

Computations chain as a monad; `bind_eq_ok` and `bind_eq_error` say what a chain gives.
-/

namespace BlockScript

/-- A computation over states `σ` with failures `ε`. -/
def Computation (σ ε α : Type) : Type := σ → Except ε α × σ

namespace Computation

variable {σ ε α β : Type}

@[always_inline]
instance : Monad (Computation σ ε) where
  pure a := fun s => (.ok a, s)
  bind m next := fun s =>
    match m s with
    | (.ok a, s') => next a s'
    | (.error e, s') => (.error e, s')

/-- Fails. -/
@[inline] def fail (e : ε) : Computation σ ε α := fun s => (.error e, s)

/-- The state as it stands. -/
@[inline] def state : Computation σ ε σ := fun s => (.ok s, s)

/-- Changes the state. -/
@[inline] def change (f : σ → σ) : Computation σ ε Unit := fun s => (.ok (), f s)

/-- A result computed without the state. -/
@[inline] def lift : Except ε α → Computation σ ε α
  | .ok a => fun s => (.ok a, s)
  | .error e => fun s => (.error e, s)

/-- Changes the state behind a computation, whether it failed or not. -/
@[inline] def afterwards (m : Computation σ ε α) (f : σ → σ) : Computation σ ε α := fun s =>
  match m s with
  | (r, s') => (r, f s')

/-- Replaces some failures by others. -/
@[inline] def mapFailure (m : Computation σ ε α) (f : ε → ε) : Computation σ ε α := fun s =>
  match m s with
  | (.ok a, s') => (.ok a, s')
  | (.error e, s') => (.error (f e), s')

@[simp] theorem pure_apply (a : α) (s : σ) : (pure a : Computation σ ε α) s = (.ok a, s) := rfl

/-- A chain goes on with the result of its first part, or keeps its failure. -/
theorem bind_apply (m : Computation σ ε α) (next : α → Computation σ ε β) (s : σ) :
    (m >>= next) s =
      match m s with
      | (.ok a, s') => next a s'
      | (.error e, s') => (.error e, s') := rfl

/-- A chain gives a result when its first part does and the second does from there. -/
theorem bind_eq_ok {m : Computation σ ε α} {next : α → Computation σ ε β} {s s' : σ} {b : β} :
    (m >>= next) s = (.ok b, s') ↔ ∃ a t, m s = (.ok a, t) ∧ next a t = (.ok b, s') := by
  rw [bind_apply]
  cases h : m s with
  | mk r t =>
    cases r with
    | ok a => simp [and_assoc]
    | error e => simp

/-- A chain fails when its first part does, or when the second does from there. -/
theorem bind_eq_error {m : Computation σ ε α} {next : α → Computation σ ε β} {s s' : σ} {e : ε} :
    (m >>= next) s = (.error e, s') ↔
      m s = (.error e, s') ∨ ∃ a t, m s = (.ok a, t) ∧ next a t = (.error e, s') := by
  rw [bind_apply]
  cases h : m s with
  | mk r t =>
    cases r with
    | ok a => simp [and_assoc]
    | error e' => simp

@[simp] theorem fail_apply (e : ε) (s : σ) : (fail e : Computation σ ε α) s = (.error e, s) := rfl

@[simp] theorem state_apply (s : σ) : (state : Computation σ ε σ) s = (.ok s, s) := rfl

@[simp] theorem change_apply (f : σ → σ) (s : σ) :
    (change f : Computation σ ε Unit) s = (.ok (), f s) := rfl

@[simp] theorem lift_ok_apply (a : α) (s : σ) :
    (lift (.ok a) : Computation σ ε α) s = (.ok a, s) := rfl

@[simp] theorem lift_error_apply (e : ε) (s : σ) :
    (lift (.error e) : Computation σ ε α) s = (.error e, s) := rfl

@[simp] theorem afterwards_apply (m : Computation σ ε α) (f : σ → σ) (s : σ) :
    m.afterwards f s = ((m s).1, f (m s).2) := rfl

end Computation
end BlockScript
