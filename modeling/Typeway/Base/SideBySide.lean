import Typeway.Base.Checked

/-!
# Loops side by side

A loop is followed by another one when every turn of the first has a turn of the second that keeps
their states in a relation. The second loop then gets to an end wherever the first does.
-/

namespace Checked

variable {ε ε' σ τ : Type} {cond : σ → Bool} {step : σ → Run ε σ} {μ : σ → Nat}
  {cond' : τ → Bool} {step' : τ → Run ε' τ} {μ' : τ → Nat}

theorem runLoop_follows (lowers : Lowers cond step μ) (lowers' : Lowers cond' step' μ')
    {R : σ → τ → Prop} (alike : ∀ s t, R s t → cond' t = cond s)
    (follow : ∀ s t s', R s t → cond s = true → step s = .ok s' →
      ∃ t', step' t = .ok t' ∧ R s' t') :
    ∀ {s t s'}, R s t → runLoop cond step μ s = .ok s' →
      ∃ t', runLoop cond' step' μ' t = .ok t' ∧ R s' t' := by
  intro s
  generalize measure : μ s = m
  induction m using Nat.strongRecOn generalizing s with
  | ind m ih =>
    intro t s' related run
    cases go : cond s with
    | false =>
      rw [runLoop_done go] at run
      cases run
      exact ⟨t, runLoop_done ((alike s t related).trans go), related⟩
    | true =>
      rw [runLoop_next lowers go] at run
      obtain ⟨mid, here, later⟩ := bind_eq_ok.1 run
      obtain ⟨mid', here', related'⟩ := follow s t mid related go here
      rw [runLoop_step lowers' ((alike s t related).trans go) here']
      exact ih (μ mid) (measure ▸ lowers.less s mid go here) rfl related' later

end Checked
