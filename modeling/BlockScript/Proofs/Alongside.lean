import BlockScript.Computation

/-!
# Computations side by side

Two computations run alongside each other when, from related states, they give related
results or related failures and leave related states.  The relation is built up along
chains of computations, from the first part to the last.
-/

namespace BlockScript
namespace Computation

variable {σ ε α β : Type}

/-- Two outcomes are results that are related, or failures that are. -/
inductive Related (fails : ε → ε → Prop) (gives : α → α → Prop) :
    Except ε α → Except ε α → Prop
  | ok {a b : α} : gives a b → Related fails gives (.ok a) (.ok b)
  | error {e e' : ε} : fails e e' → Related fails gives (.error e) (.error e')

/-- From related states, two computations give related outcomes and leave related states. -/
def Alongside (states : σ → σ → Prop) (fails : ε → ε → Prop) (gives : α → α → Prop)
    (c c' : Computation σ ε α) : Prop :=
  ∀ ⦃s s' : σ⦄, states s s' →
    Related fails gives (c s).1 (c' s').1 ∧ states (c s).2 (c' s').2

section Rules

variable {states : σ → σ → Prop} {fails : ε → ε → Prop} {gives : α → α → Prop}
  {gives' : β → β → Prop} {c c' : Computation σ ε α}

theorem alongside_pure {a b : α} (h : gives a b) :
    Alongside states fails gives (pure a) (pure b) :=
  fun _ _ hs => ⟨.ok h, hs⟩

theorem alongside_fail {e e' : ε} (h : fails e e') :
    Alongside states fails gives (fail e) (fail e') :=
  fun _ _ hs => ⟨.error h, hs⟩

theorem alongside_lift {r r' : Except ε α} (h : Related fails gives r r') :
    Alongside states fails gives (lift r) (lift r') := by
  cases h with
  | ok h => exact alongside_pure h
  | error h => exact alongside_fail h

theorem alongside_change {f f' : σ → σ} (h : ∀ s s', states s s' → states (f s) (f' s')) :
    Alongside states fails (fun _ _ => True) (change f) (change f') :=
  fun s s' hs => ⟨.ok trivial, h s s' hs⟩

theorem Alongside.bind {next next' : α → Computation σ ε β}
    (h : Alongside states fails gives c c')
    (hnext : ∀ a b, gives a b → Alongside states fails gives' (next a) (next' b)) :
    Alongside states fails gives' (c >>= next) (c' >>= next') := by
  intro s s' hs
  obtain ⟨hresult, hstates⟩ := h hs
  rw [bind_apply, bind_apply]
  cases hc : c s with
  | mk r t =>
      cases hc' : c' s' with
      | mk r' t' =>
          rw [hc, hc'] at hresult hstates
          cases hresult with
          | ok hab => exact hnext _ _ hab hstates
          | error he => exact ⟨.error he, hstates⟩

/-- Chains that start by looking at the state go on with related states. -/
theorem alongside_state {next next' : σ → Computation σ ε α}
    (h : ∀ s s', states s s' → Alongside states fails gives (next s) (next' s')) :
    Alongside states fails gives (state >>= next) (state >>= next') :=
  fun s s' hs => h s s' hs hs

theorem Alongside.imp {gives' : α → α → Prop} (h : Alongside states fails gives c c')
    (hgives : ∀ a b, gives a b → gives' a b) : Alongside states fails gives' c c' := by
  intro s s' hs
  obtain ⟨hresult, hstates⟩ := h hs
  refine ⟨?_, hstates⟩
  cases hr : (c s).1 <;> cases hr' : (c' s').1 <;> rw [hr, hr'] at hresult <;> cases hresult
  · exact .error ‹_›
  · exact .ok (hgives _ _ ‹_›)

/-- What one of two computations never gives is not among their results. -/
theorem Alongside.ensuring {P : α → Prop} (h : Alongside states fails gives c c')
    (hc : ∀ s a t, c s = (.ok a, t) → P a) :
    Alongside states fails (fun a b => gives a b ∧ P a) c c' := by
  intro s s' hs
  obtain ⟨hresult, hstates⟩ := h hs
  refine ⟨?_, hstates⟩
  have hP := hc s
  cases hcs : c s with
  | mk r t =>
      rw [hcs] at hresult
      cases hr' : (c' s').1 with
      | ok b =>
          rw [hr'] at hresult
          cases hresult with
          | ok hab => exact .ok ⟨hab, hP _ _ hcs⟩
      | error e =>
          rw [hr'] at hresult
          cases hresult with
          | error he => exact .error he

theorem Alongside.afterwards {f f' : σ → σ} (h : Alongside states fails gives c c')
    (hf : ∀ s s', states s s' → states (f s) (f' s')) :
    Alongside states fails gives (c.afterwards f) (c'.afterwards f') := by
  intro s s' hs
  obtain ⟨hresult, hstates⟩ := h hs
  exact ⟨hresult, hf _ _ hstates⟩

theorem Alongside.mapFailure {f f' : ε → ε} (h : Alongside states fails gives c c')
    (hf : ∀ e e', fails e e' → fails (f e) (f' e')) :
    Alongside states fails gives (c.mapFailure f) (c'.mapFailure f') := by
  intro s s' hs
  obtain ⟨hresult, hstates⟩ := h hs
  unfold Computation.mapFailure
  cases hc : c s with
  | mk r t =>
      cases hc' : c' s' with
      | mk r' t' =>
          rw [hc, hc'] at hresult hstates
          cases hresult with
          | ok hab => exact ⟨.ok hab, hstates⟩
          | error he => exact ⟨.error (hf _ _ he), hstates⟩

end Rules

end Computation
end BlockScript
