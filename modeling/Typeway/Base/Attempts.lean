/-!
# Attempts

A call that is repeated as long as its outcomes ask for it and its budget lasts. The state is the
number of attempts that were made, and attempt `n` has the outcome `outcomes n`.
-/

namespace Attempts

variable {R : Type}

def attempt (outcomes : Nat → R) : StateM Nat R :=
  fun made => (outcomes made, made + 1)

/-- An attempt, and at most so many more. -/
def repeated (again : R → Bool) (outcomes : Nat → R) : Nat → StateM Nat R
  | 0 => attempt outcomes
  | more + 1 => do
    let outcome ← attempt outcomes
    if again outcome then repeated again outcomes more else pure outcome

/-- The last of the attempts: those before it ask for another one, and so does it only if there are
no more. -/
structure Last (again : R → Bool) (outcomes : Nat → R) (more last : Nat) : Prop where
  within : last ≤ more
  before : ∀ n < last, again (outcomes n) = true
  settled : again (outcomes last) = true → last = more

variable {again : R → Bool} {outcomes : Nat → R}

theorem repeated_zero (made : Nat) :
    repeated again outcomes 0 made = (outcomes made, made + 1) := rfl

theorem repeated_again {made : Nat} (asks : again (outcomes made) = true) (more : Nat) :
    repeated again outcomes (more + 1) made = repeated again outcomes more (made + 1) := by
  show (if again (outcomes made) then repeated again outcomes more else pure (outcomes made) :
    StateM Nat R) (made + 1) = _
  rw [if_pos asks]

theorem repeated_settled {made : Nat} (settles : again (outcomes made) = false) (more : Nat) :
    repeated again outcomes more made = (outcomes made, made + 1) := by
  cases more with
  | zero => rfl
  | succ more =>
    show (if again (outcomes made) then repeated again outcomes more else pure (outcomes made) :
      StateM Nat R) (made + 1) = _
    rw [if_neg (by rw [settles]; exact Bool.false_ne_true)]
    rfl

/-- The attempts up to the last one are made, and its outcome is the outcome of them all. -/
theorem repeated_last (again : R → Bool) (outcomes : Nat → R) (more made : Nat) :
    ∃ last, Last again (fun n => outcomes (made + n)) more last ∧
      repeated again outcomes more made = (outcomes (made + last), made + last + 1) := by
  induction more generalizing made with
  | zero =>
    refine ⟨0, ⟨Nat.le_refl 0, fun n below => absurd below (Nat.not_lt_zero n), fun _ => rfl⟩, ?_⟩
    exact repeated_zero made
  | succ more ih =>
    by_cases asks : again (outcomes made) = true
    · rw [repeated_again asks]
      obtain ⟨last, ends, run⟩ := ih (made + 1)
      have shift (n : Nat) : made + 1 + n = made + (n + 1) := by omega
      simp only [shift] at ends run
      refine ⟨last + 1, ⟨Nat.succ_le_succ ends.within, ?_, ?_⟩, run⟩
      · intro n below
        cases n with
        | zero => exact asks
        | succ n => exact ends.before n (by omega)
      · intro unsettled
        rw [ends.settled unsettled]
    · rw [repeated_settled (eq_false_of_ne_true asks)]
      refine ⟨0, ⟨Nat.zero_le _, fun n below => absurd below (Nat.not_lt_zero n), ?_⟩, rfl⟩
      intro unsettled
      exact absurd unsettled asks

/-- There is one last attempt. -/
theorem Last.unique {more last last' : Nat} (ends : Last again outcomes more last)
    (ends' : Last again outcomes more last') : last = last' := by
  rcases Nat.lt_trichotomy last last' with below | same | above
  · have := ends.settled (ends'.before last below)
    have := ends'.within
    omega
  · exact same
  · have := ends'.settled (ends.before last' above)
    have := ends.within
    omega

/-- The first attempt asks for another, and that one for no more. -/
theorem Last.second {more last : Nat} (ends : Last again outcomes more last) (allowed : 1 ≤ more)
    (first : again (outcomes 0) = true) (settled : again (outcomes 1) = true → 1 = more) :
    last = 1 := by
  apply ends.unique
  refine ⟨allowed, fun n below => ?_, settled⟩
  rw [Nat.lt_one_iff.1 below]
  exact first

end Attempts
