import Mathlib.Data.List.Basic

/-!
# Machines with observations

A machine answers an operation with its next state and with what the operation shows, or not at
all when the operation does not apply. Two machines are the same from outside when a view of the
states of one turns its steps into those of the other.
-/

namespace Observed

variable {σ τ ι ω : Type}

/-- The steps of a machine, one for each operation, with everything they show. -/
def run (step : σ → ι → Option (σ × ω)) : σ → List ι → Option (σ × List ω)
  | s, [] => some (s, [])
  | s, op :: ops =>
    (step s op).bind fun next =>
      (run step next.1 ops).map fun last => (last.1, next.2 :: last.2)

@[simp] theorem run_nil (step : σ → ι → Option (σ × ω)) (s : σ) : run step s [] = some (s, []) := rfl

theorem run_cons (step : σ → ι → Option (σ × ω)) (s : σ) (op : ι) (ops : List ι) :
    run step s (op :: ops) = (step s op).bind fun next =>
      (run step next.1 ops).map fun last => (last.1, next.2 :: last.2) := rfl

/-- A state and what was shown, the state seen through a view. -/
def through {α : Type} (view : σ → τ) (r : σ × α) : τ × α :=
  (view r.1, r.2)

/-- Machines whose steps agree through a view run alike through it. -/
theorem run_through {step : σ → ι → Option (σ × ω)} {step' : τ → ι → Option (τ × ω)} {view : σ → τ}
    (steps : ∀ s op, (step s op).map (through view) = step' (view s) op) (s : σ) (ops : List ι) :
    (run step s ops).map (through view) = run step' (view s) ops := by
  induction ops generalizing s with
  | nil => rfl
  | cons op ops ih =>
    rw [run_cons, run_cons, ← steps s op]
    cases step s op with
    | none => rfl
    | some next =>
      have rest := ih next.1
      rw [Option.map_some, Option.bind_some, Option.bind_some, through, ← rest]
      cases run step next.1 ops with
      | none => rfl
      | some last => rfl

end Observed
