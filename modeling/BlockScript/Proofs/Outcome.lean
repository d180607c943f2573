import BlockScript.Computation

/-!
# What computations ensure

From a state, a computation ensures a condition on its result and the state behind it, or
fails in an accepted way.  Conditions are passed back through a chain of computations from
its last part to its first.
-/

namespace BlockScript
namespace Computation

variable {σ ε α β : Type}

/-- A computation gives a result that meets a condition, or fails in an accepted way. -/
def Ensures (c : Computation σ ε α) (s : σ) (post : α → σ → Prop) (accepted : ε → Prop) : Prop :=
  match c s with
  | (.ok a, t) => post a t
  | (.error e, _) => accepted e

section Rules

variable {c : Computation σ ε α} {s : σ} {post : α → σ → Prop} {accepted : ε → Prop}

theorem ensures_iff : c.Ensures s post accepted ↔
    (∀ a t, c s = (.ok a, t) → post a t) ∧ ∀ e t, c s = (.error e, t) → accepted e := by
  unfold Ensures
  cases h : c s with
  | mk r t =>
      cases r with
      | ok a =>
          simp
      | error e =>
          simp

theorem Ensures.of_ok (h : c.Ensures s post accepted) {a : α} {t : σ} (hc : c s = (.ok a, t)) :
    post a t :=
  (ensures_iff.mp h).1 a t hc

theorem Ensures.of_error (h : c.Ensures s post accepted) {e : ε} {t : σ}
    (hc : c s = (.error e, t)) : accepted e :=
  (ensures_iff.mp h).2 e t hc

theorem Ensures.mono {post' : α → σ → Prop} {accepted' : ε → Prop}
    (h : c.Ensures s post accepted) (hpost : ∀ a t, post a t → post' a t)
    (haccepted : ∀ e, accepted e → accepted' e) : c.Ensures s post' accepted' := by
  obtain ⟨hok, herror⟩ := ensures_iff.mp h
  refine ensures_iff.mpr ⟨?_, ?_⟩
  · intro a t hc
    exact hpost a t (hok a t hc)
  · intro e t hc
    exact haccepted e (herror e t hc)

theorem Ensures.imp {post' : α → σ → Prop} (h : c.Ensures s post accepted)
    (hpost : ∀ a t, post a t → post' a t) : c.Ensures s post' accepted :=
  h.mono hpost fun _ he => he

/-- A chain ensures what its second part does behind all that the first one ensures. -/
theorem Ensures.bind {next : α → Computation σ ε β} {post' : β → σ → Prop}
    (h : c.Ensures s post accepted)
    (hnext : ∀ a t, post a t → (next a).Ensures t post' accepted) :
    (c >>= next).Ensures s post' accepted := by
  obtain ⟨hok, herror⟩ := ensures_iff.mp h
  refine ensures_iff.mpr ⟨?_, ?_⟩
  · intro b t hc
    obtain ⟨a, u, ha, hb⟩ := bind_eq_ok.mp hc
    exact (hnext a u (hok a u ha)).of_ok hb
  · intro e t hc
    rcases bind_eq_error.mp hc with he | ⟨a, u, ha, he⟩
    · exact herror e t he
    · exact (hnext a u (hok a u ha)).of_error he

theorem ensures_pure {a : α} (h : post a s) :
    (pure a : Computation σ ε α).Ensures s post accepted := h

theorem ensures_fail {e : ε} (h : accepted e) :
    (fail e : Computation σ ε α).Ensures s post accepted := h

/-- A chain that starts by looking at the state goes on with that state. -/
theorem Ensures.ofState {next : σ → Computation σ ε α} (h : (next s).Ensures s post accepted) :
    (state >>= next).Ensures s post accepted := h

/-- A chain that starts by changing the state goes on with the changed one. -/
theorem Ensures.ofChange {f : σ → σ} {next : Unit → Computation σ ε α}
    (h : (next ()).Ensures (f s) post accepted) :
    (change f >>= next).Ensures s post accepted := h

theorem ensures_change {f : σ → σ} {post : Unit → σ → Prop} (h : post () (f s)) :
    (change f : Computation σ ε Unit).Ensures s post accepted := h

theorem ensures_lift {r : Except ε α} (hok : ∀ a, r = .ok a → post a s)
    (herror : ∀ e, r = .error e → accepted e) :
    (lift r : Computation σ ε α).Ensures s post accepted := by
  cases r with
  | ok a => exact hok a rfl
  | error e => exact herror e rfl

theorem Ensures.afterwards {f : σ → σ}
    (h : c.Ensures s (fun a t => post a (f t)) accepted) :
    (c.afterwards f).Ensures s post accepted := by
  unfold Ensures at h ⊢
  rw [afterwards_apply]
  cases hc : c s with
  | mk r t =>
      rw [hc] at h
      cases r with
      | ok a => exact h
      | error e => exact h

theorem Ensures.mapFailure {f : ε → ε} (h : c.Ensures s post fun e => accepted (f e)) :
    (c.mapFailure f).Ensures s post accepted := by
  unfold Ensures Computation.mapFailure at *
  cases hc : c s with
  | mk r t =>
      rw [hc] at h
      cases r with
      | ok a => exact h
      | error e => exact h

end Rules

end Computation
end BlockScript
