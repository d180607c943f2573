import BlockScript.Computation
import Mathlib.Order.Defs.Unbundled

/-!
# What computations leave of the state

A computation takes a state to another one, whether it gives a result or fails.  It obeys a
relation when it never takes a state to one outside of that relation.  Relations that are
reflexive and transitive are obeyed by whole chains as soon as their parts obey them.
-/

namespace BlockScript
namespace Computation

variable {σ ε α β : Type}

/-- A computation takes every state to a related one, also where it fails. -/
def Obeys (c : Computation σ ε α) (R : σ → σ → Prop) : Prop := ∀ s, R s (c s).2

section Rules

variable {c : Computation σ ε α} {R S : σ → σ → Prop}

theorem Obeys.of_eq (h : c.Obeys R) {s t : σ} {r : Except ε α} (hc : c s = (r, t)) : R s t := by
  have hs := h s
  rwa [hc] at hs

theorem Obeys.imp (h : c.Obeys R) (himp : ∀ s t, R s t → S s t) : c.Obeys S := fun s =>
  himp s _ (h s)

/-- A computation that leaves the state as it is obeys every reflexive relation. -/
theorem Obeys.of_steady [Std.Refl R] (h : c.Obeys Eq) : c.Obeys R :=
  h.imp fun s _ hst => hst ▸ refl s

/-- The second part of a chain runs from where the first one gave a result, and the relation
that both obey is one that they obey together. -/
theorem Obeys.chain {T : σ → σ → Prop} {next : α → Computation σ ε β} (h : c.Obeys R)
    (hfail : ∀ s t, R s t → T s t) (htrans : ∀ s t u, R s t → S t u → T s u)
    (hnext : ∀ s a t, c s = (.ok a, t) → S t (next a t).2) : (c >>= next).Obeys T := by
  intro s
  rw [bind_apply]
  cases hc : c s with
  | mk r t =>
      have hst : R s t := h.of_eq hc
      cases r with
      | ok a => exact htrans s t _ hst (hnext s a t hc)
      | error e => exact hfail s t hst

theorem Obeys.bind [IsTrans σ R] {next : α → Computation σ ε β} (h : c.Obeys R)
    (hnext : ∀ a, (next a).Obeys R) : (c >>= next).Obeys R :=
  h.chain (fun _ _ hst => hst) (fun _ _ _ => IsTrans.trans _ _ _) fun _ a t _ => hnext a t

/-- A computation that changes nothing obeys every reflexive relation. -/
theorem obeys_of_snd [Std.Refl R] (h : ∀ s, (c s).2 = s) : c.Obeys R := by
  intro s
  rw [h s]
  exact refl s

theorem obeys_pure [Std.Refl R] (a : α) : (pure a : Computation σ ε α).Obeys R :=
  obeys_of_snd fun _ => rfl

theorem obeys_fail [Std.Refl R] (e : ε) : (fail e : Computation σ ε α).Obeys R :=
  obeys_of_snd fun _ => rfl

theorem lift_snd (r : Except ε α) (s : σ) : ((lift r : Computation σ ε α) s).2 = s := by
  cases r <;> rfl

theorem obeys_lift [Std.Refl R] (r : Except ε α) : (lift r : Computation σ ε α).Obeys R :=
  obeys_of_snd (lift_snd r)

theorem obeys_state [Std.Refl R] : (state : Computation σ ε σ).Obeys R :=
  obeys_of_snd fun _ => rfl

theorem Obeys.mapFailure {f : ε → ε} (h : c.Obeys R) : (c.mapFailure f).Obeys R := by
  intro s
  have hs := h s
  unfold Computation.mapFailure
  cases hc : c s with
  | mk r t =>
      rw [hc] at hs
      cases r <;> exact hs

end Rules

end Computation
end BlockScript
