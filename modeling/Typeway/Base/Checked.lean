import Mathlib.Data.List.Basic
import Mathlib.Algebra.Group.Nat.Defs

/-!
# Checked computations

A computation ends with a value, with an error of its own, or with a panic: an addition on
`usize` that overflows, a slice whose bounds do not fit, or a number that is no duration.
Loops run on fuel, and a loop that runs out of it is `unfinished`, which is no outcome of the
program: `loop_fuel` says that a loop whose steps lower a measure never gets there.

`Returns` is the partial-correctness rule set for these computations: an error is a
legitimate outcome, a panic or an unfinished loop is not.
-/

namespace Checked

/-- A run-time failure that unwinds instead of returning. -/
inductive Panic where
  | addOverflow
  | sliceOutOfRange
  | noDuration
  deriving DecidableEq, Repr

/-- How a computation can end without a value. -/
inductive Stop (ε : Type) where
  | err (e : ε)
  | panic (p : Panic)
  | unfinished
  deriving DecidableEq, Repr

abbrev Run (ε α : Type) := Except (Stop ε) α

variable {ε α β σ : Type}

/-- The bound of `usize` on a 64-bit target. -/
abbrev usizeBound : Nat := 2 ^ 64

/-- The largest length of a slice. -/
abbrev isizeMax : Nat := 2 ^ 63 - 1

/-- `a + b` on `usize`. -/
def add (a b : Nat) : Run ε Nat :=
  if a + b < usizeBound then .ok (a + b) else .error (.panic .addOverflow)

/-- `&bytes[lo..hi]`. -/
def slice (bytes : List α) (lo hi : Nat) : Run ε (List α) :=
  if lo ≤ hi ∧ hi ≤ bytes.length then .ok ((bytes.drop lo).take (hi - lo))
  else .error (.panic .sliceOutOfRange)

/-- `&bytes[lo..]`. -/
def sliceFrom (bytes : List α) (lo : Nat) : Run ε (List α) :=
  if lo ≤ bytes.length then .ok (bytes.drop lo) else .error (.panic .sliceOutOfRange)

/-- `bytes[i]`. -/
def index (bytes : List α) (i : Nat) : Run ε α :=
  match bytes[i]? with
  | some a => .ok a
  | none => .error (.panic .sliceOutOfRange)

/-- The `?` operator on a result that cannot panic. -/
def lift (x : Except ε α) : Run ε α :=
  x.mapError .err

/-- `return Err(e)`. -/
def fail (e : ε) : Run ε α :=
  .error (.err e)

theorem add_eq_ok {a b : Nat} (h : a + b < usizeBound) : add a b = (.ok (a + b) : Run ε Nat) :=
  if_pos h

theorem add_overflows {a b : Nat} (h : ¬ a + b < usizeBound) :
    add a b = (.error (.panic .addOverflow) : Run ε Nat) :=
  if_neg h

theorem sliceFrom_eq_ok {bytes : List α} {lo : Nat} (h : lo ≤ bytes.length) :
    sliceFrom bytes lo = (.ok (bytes.drop lo) : Run ε (List α)) :=
  if_pos h

theorem slice_eq_ok {bytes : List α} {lo hi : Nat} (h : lo ≤ hi) (h' : hi ≤ bytes.length) :
    slice bytes lo hi = (.ok ((bytes.drop lo).take (hi - lo)) : Run ε (List α)) :=
  if_pos ⟨h, h'⟩

theorem index_eq_ok {bytes : List α} {i : Nat} (h : i < bytes.length) :
    index bytes i = (.ok bytes[i] : Run ε α) := by
  simp [index, h]

@[simp] theorem lift_ok (a : α) : lift (.ok a) = (.ok a : Run ε α) := rfl

@[simp] theorem lift_error (e : ε) : lift (.error e) = (.error (.err e) : Run ε α) := rfl

@[simp] theorem ok_bind (a : α) (f : α → Run ε β) : (Except.ok a : Run ε α) >>= f = f a := rfl

@[simp] theorem error_bind (s : Stop ε) (f : α → Run ε β) :
    (Except.error s : Run ε α) >>= f = .error s := rfl

theorem bind_eq_ok {x : Run ε α} {f : α → Run ε β} {b : β} :
    x >>= f = .ok b ↔ ∃ a, x = .ok a ∧ f a = .ok b := by
  cases x with
  | error s => simp
  | ok a => simp

theorem lift_eq_ok {x : Except ε α} {a : α} : lift x = .ok a ↔ x = .ok a := by
  cases x <;> simp

/-- The computation does not panic and does not stay unfinished, and a value it returns
satisfies `post`. -/
def Returns (x : Run ε α) (post : α → Prop) : Prop :=
  match x with
  | .ok a => post a
  | .error (.err _) => True
  | .error _ => False

namespace Returns

variable {x : Run ε α} {post post' : α → Prop}

theorem ok {a : α} (h : post a) : Returns (.ok a : Run ε α) post := h

theorem fail (e : ε) : Returns (Checked.fail e) post := trivial

theorem bind {f : α → Run ε β} {post : β → Prop} {P : α → Prop} (h : Returns x P)
    (k : ∀ a, P a → Returns (f a) post) : Returns (x >>= f) post := by
  cases x with
  | ok a => exact k a h
  | error s =>
    cases s with
    | err e => trivial
    | panic p => exact h.elim
    | unfinished => exact h.elim

theorem mono (h : Returns x post) (k : ∀ a, post a → post' a) : Returns x post' := by
  cases x with
  | ok a => exact k a h
  | error s => cases s <;> exact h

theorem error {post : β → Prop} {post' : α → Prop} {s : Stop ε}
    (h : Returns (.error s : Run ε β) post) : Returns (.error s : Run ε α) post' := by
  cases s <;> exact h

theorem value {a : α} (h : Returns x post) (e : x = .ok a) : post a := by
  subst e
  exact h

theorem not_panic (h : Returns x post) (p : Panic) : x ≠ .error (.panic p) := by
  rintro rfl
  exact h

/-- A result that cannot panic keeps what is known of its value. -/
theorem lift {y : Except ε α} (h : ∀ a, y = .ok a → post a) : Returns (Checked.lift y) post := by
  cases y with
  | ok a => exact h a rfl
  | error e => trivial

theorem add {a b : Nat} (fits : a + b < usizeBound) :
    Returns (Checked.add a b : Run ε Nat) (· = a + b) := by
  rw [add_eq_ok fits]
  exact ok rfl

theorem sliceFrom {bytes : List α} {lo : Nat} (fits : lo ≤ bytes.length) :
    Returns (Checked.sliceFrom bytes lo : Run ε (List α)) (· = bytes.drop lo) := by
  rw [sliceFrom_eq_ok fits]
  exact ok rfl

theorem slice {bytes : List α} {lo hi : Nat} (order : lo ≤ hi) (fits : hi ≤ bytes.length) :
    Returns (Checked.slice bytes lo hi : Run ε (List α)) (· = (bytes.drop lo).take (hi - lo)) := by
  rw [slice_eq_ok order fits]
  exact ok rfl

theorem index {bytes : List α} {i : Nat} (fits : i < bytes.length) :
    Returns (Checked.index bytes i : Run ε α) (· = bytes[i]) := by
  rw [index_eq_ok fits]
  exact ok rfl

end Returns

/-- A value the computation returns satisfies `post`; it may fail in any way. -/
def Ensures (x : Run ε α) (post : α → Prop) : Prop :=
  ∀ a, x = .ok a → post a

namespace Ensures

variable {x : Run ε α} {post post' : α → Prop}

theorem ok {a : α} (h : post a) : Ensures (.ok a : Run ε α) post := by
  intro b e
  cases e
  exact h

theorem error (s : Stop ε) : Ensures (.error s : Run ε α) post := by
  intro b e
  cases e

theorem fail (e : ε) : Ensures (Checked.fail e) post := error _

theorem bind {f : α → Run ε β} {post : β → Prop} {P : α → Prop} (h : Ensures x P)
    (k : ∀ a, P a → Ensures (f a) post) : Ensures (x >>= f) post := by
  intro b e
  obtain ⟨a, ha, hb⟩ := bind_eq_ok.1 e
  exact k a (h a ha) b hb

theorem mono (h : Ensures x post) (k : ∀ a, post a → post' a) : Ensures x post' :=
  fun a e => k a (h a e)

theorem any : Ensures x fun _ => True := fun _ _ => trivial

theorem lift {y : Except ε α} {P : α → Prop} (h : ∀ a, y = .ok a → P a) :
    Ensures (Checked.lift y) P :=
  fun a e => h a (lift_eq_ok.1 e)

theorem add (a b : Nat) : Ensures (Checked.add a b : Run ε Nat) (· = a + b) := by
  rw [Checked.add]
  split
  · exact ok rfl
  · exact error _

theorem sliceFrom (bytes : List α) (lo : Nat) :
    Ensures (Checked.sliceFrom bytes lo : Run ε (List α)) fun rest =>
      lo ≤ bytes.length ∧ rest = bytes.drop lo := by
  rw [Checked.sliceFrom]
  split
  · rename_i fits
    exact ok ⟨fits, rfl⟩
  · exact error _

theorem slice (bytes : List α) (lo hi : Nat) :
    Ensures (Checked.slice bytes lo hi : Run ε (List α)) fun part =>
      lo ≤ hi ∧ hi ≤ bytes.length ∧ part = (bytes.drop lo).take (hi - lo) := by
  rw [Checked.slice]
  split
  · rename_i fits
    exact ok ⟨fits.1, fits.2, rfl⟩
  · exact error _

theorem index (bytes : List α) (i : Nat) :
    Ensures (Checked.index bytes i : Run ε α) fun a => bytes[i]? = some a := by
  rw [Checked.index]
  split
  · rename_i a h
    exact ok h
  · exact error _

end Ensures

/-- A safe computation also has every property its values are known to have. -/
theorem Returns.with_ensures {x : Run ε α} {post post' : α → Prop} (h : Returns x post)
    (h' : Ensures x post') : Returns x fun a => x = .ok a ∧ post a ∧ post' a := by
  cases x with
  | ok a => exact ⟨rfl, h, h' a rfl⟩
  | error s => cases s <;> exact h

/-! ## Loops -/

/-- `while cond { step }`, for at most `fuel` iterations. -/
def loop (cond : σ → Bool) (step : σ → Run ε σ) : Nat → σ → Run ε σ
  | 0, s => if cond s then .error .unfinished else .ok s
  | fuel + 1, s => if cond s then step s >>= loop cond step fuel else .ok s

/-- `while cond { step }` with as much fuel as the measure allows. -/
def runLoop (cond : σ → Bool) (step : σ → Run ε σ) (μ : σ → Nat) (s : σ) : Run ε σ :=
  loop cond step (μ s) s

/-- Every iteration starts with a positive measure and lowers it. -/
structure Lowers (cond : σ → Bool) (step : σ → Run ε σ) (μ : σ → Nat) : Prop where
  pos : ∀ s, cond s = true → 0 < μ s
  less : ∀ s s', cond s = true → step s = .ok s' → μ s' < μ s

/-- The states a loop passes through, the first one included. -/
inductive Passes (cond : σ → Bool) (step : σ → Run ε σ) (s : σ) : σ → Prop where
  | start : Passes cond step s s
  | next {t t' : σ} (here : Passes cond step s t) (go : cond t = true) (run : step t = .ok t') :
      Passes cond step s t'

section Loop

variable {cond : σ → Bool} {step : σ → Run ε σ} {μ : σ → Nat}

theorem loop_done {fuel : Nat} {s : σ} (h : cond s = false) : loop cond step fuel s = .ok s := by
  cases fuel <;> simp [loop, h]

theorem loop_succ {fuel : Nat} {s : σ} (h : cond s = true) :
    loop cond step (fuel + 1) s = step s >>= loop cond step fuel := by
  simp [loop, h]

/-- With a falling measure the fuel does not matter once it covers the measure. -/
theorem loop_fuel (lowers : Lowers cond step μ) {fuel : Nat} :
    ∀ {s : σ}, μ s ≤ fuel → loop cond step fuel s = runLoop cond step μ s := by
  suffices ∀ {fuel' : Nat} {s : σ}, μ s ≤ fuel → μ s ≤ fuel' →
      loop cond step fuel s = loop cond step fuel' s from fun _ h => this h (Nat.le_refl _)
  induction fuel with
  | zero =>
    intro fuel' s low _
    have stop : cond s = false := by
      cases h : cond s with
      | false => rfl
      | true => have := lowers.pos s h; omega
    rw [loop_done stop, loop_done stop]
  | succ fuel ih =>
    intro fuel' s low low'
    cases h : cond s with
    | false => rw [loop_done h, loop_done h]
    | true =>
      obtain ⟨fuel', rfl⟩ : ∃ f, fuel' = f + 1 := ⟨fuel' - 1, by have := lowers.pos s h; omega⟩
      rw [loop_succ h, loop_succ h]
      cases e : step s with
      | error st => rfl
      | ok s' =>
        have less := lowers.less s s' h e
        exact ih (by omega) (by omega)

theorem runLoop_done {s : σ} (h : cond s = false) : runLoop cond step μ s = .ok s :=
  loop_done h

/-- One turn of the loop, free of fuel. -/
theorem runLoop_next (lowers : Lowers cond step μ) {s : σ} (h : cond s = true) :
    runLoop cond step μ s = step s >>= runLoop cond step μ := by
  obtain ⟨fuel, e⟩ : ∃ f, μ s = f + 1 := ⟨μ s - 1, by have := lowers.pos s h; omega⟩
  rw [runLoop, e, loop_succ h]
  cases run : step s with
  | error st => rfl
  | ok s' =>
    have less := lowers.less s s' h run
    exact loop_fuel lowers (by omega)

theorem runLoop_step (lowers : Lowers cond step μ) {s s' : σ} (h : cond s = true)
    (run : step s = .ok s') : runLoop cond step μ s = runLoop cond step μ s' := by
  rw [runLoop_next lowers h, run, ok_bind]

/-- Two loops whose steps agree along the way give the same result. -/
theorem runLoop_congr {step' : σ → Run ε σ} (lowers : Lowers cond step μ)
    (lowers' : Lowers cond step' μ) (agree : ∀ s, cond s = true → step s = step' s) (s : σ) :
    runLoop cond step μ s = runLoop cond step' μ s := by
  generalize h : μ s = m
  induction m using Nat.strongRecOn generalizing s with
  | ind m ih =>
    cases go : cond s with
    | false => rw [runLoop_done go, runLoop_done go]
    | true =>
      rw [runLoop_next lowers go, runLoop_next lowers' go, ← agree s go]
      cases run : step s with
      | error st => rfl
      | ok s' => exact ih (μ s') (h ▸ lowers.less s s' go run) s' rfl

/-- **The invariant rule.** -/
theorem Returns.runLoop (lowers : Lowers cond step μ) {I : σ → Prop}
    (keep : ∀ s, I s → cond s = true → Returns (step s) I) :
    ∀ {s : σ}, I s → Returns (runLoop cond step μ s) fun t => I t ∧ cond t = false := by
  intro s
  generalize h : μ s = m
  induction m using Nat.strongRecOn generalizing s with
  | ind m ih =>
    intro inv
    cases go : cond s with
    | false =>
      rw [runLoop_done go]
      exact ⟨inv, go⟩
    | true =>
      rw [runLoop_next lowers go]
      have here := keep s inv go
      cases run : step s with
      | ok s' => exact ih (μ s') (h ▸ lowers.less s s' go run) rfl (here.value run)
      | error st =>
        rw [run] at here
        exact here.error

/-- The invariant rule for loops that may fail. -/
theorem Ensures.runLoop (lowers : Lowers cond step μ) {I : σ → Prop}
    (keep : ∀ s, I s → cond s = true → Ensures (step s) I) :
    ∀ {s : σ}, I s → Ensures (runLoop cond step μ s) fun t => I t ∧ cond t = false := by
  intro s
  generalize h : μ s = m
  induction m using Nat.strongRecOn generalizing s with
  | ind m ih =>
    intro inv
    cases go : cond s with
    | false =>
      rw [runLoop_done go]
      exact .ok ⟨inv, go⟩
    | true =>
      rw [runLoop_next lowers go]
      cases run : step s with
      | ok s' => exact ih (μ s') (h ▸ lowers.less s s' go run) rfl (keep s inv go s' run)
      | error st => exact .error st

/-- A loop returns as soon as each state it passes through steps without a panic. -/
theorem Returns.of_passes (lowers : Lowers cond step μ) {s : σ}
    (safe : ∀ t, Passes cond step s t → cond t = true → Returns (step t) fun _ => True) :
    Returns (Checked.runLoop cond step μ s) (Passes cond step s) := by
  refine (Returns.runLoop lowers (I := Passes cond step s) ?_ .start).mono fun _ h => h.1
  intro t here go
  have h := safe t here go
  cases run : step t with
  | ok t' => exact .next here go run
  | error st =>
    rw [run] at h
    exact h.error

theorem Passes.trans {s t u : σ} (h : Passes cond step s t) (h' : Passes cond step t u) :
    Passes cond step s u := by
  induction h' with
  | start => exact h
  | next _ go run ih => exact .next ih go run

/-- A loop that returns has passed through the state it returns. -/
theorem Ensures.passes (lowers : Lowers cond step μ) (s : σ) :
    Ensures (Checked.runLoop cond step μ s) fun t => Passes cond step s t ∧ cond t = false :=
  Ensures.runLoop lowers (I := Passes cond step s)
    (fun _ here go _ run => .next here go run) .start

/-- A loop that has passed on has taken a step. -/
theorem Passes.head {s t : σ} (h : Passes cond step s t) :
    t = s ∨ ∃ s', cond s = true ∧ step s = .ok s' ∧ Passes cond step s' t := by
  induction h with
  | start => exact .inl rfl
  | next _ go run ih =>
    rcases ih with rfl | ⟨s', go', run', rest⟩
    · exact .inr ⟨_, go, run, .start⟩
    · exact .inr ⟨s', go', run', .next rest go run⟩

/-- The loop gets from each state it passes through to its last one. -/
theorem Passes.to_end {s t u : σ} (h : Passes cond step s u) (last : Passes cond step s t)
    (done : cond t = false) : Passes cond step u t := by
  induction h with
  | start => exact last
  | next _ go run ih =>
    rcases ih.head with rfl | ⟨s', -, run', rest⟩
    · rw [go] at done
      cases done
    · rw [run] at run'
      cases run'
      exact rest

/-- A state the loop passes through is where the rest of the loop goes on. -/
theorem Passes.runLoop_eq (lowers : Lowers cond step μ) {s t : σ} (h : Passes cond step s t) :
    runLoop cond step μ s = runLoop cond step μ t := by
  induction h with
  | start => rfl
  | next _ go run ih => rw [ih, runLoop_step lowers go run]

/-- A panic of one state's step is the panic of the loop. -/
theorem Passes.panics (lowers : Lowers cond step μ) {s t : σ} {p : Panic}
    (h : Passes cond step s t) (go : cond t = true) (panics : step t = .error (.panic p)) :
    runLoop cond step μ s = .error (.panic p) := by
  rw [h.runLoop_eq lowers, runLoop_next lowers go, panics, error_bind]

end Loop

end Checked
