import Mathlib.Algebra.Group.Nat.Defs
import Mathlib.Data.List.Induction

/-!
# The circuit breaker

`CircuitBreaker` of `client.rs`. Each operation holds the lock from its start to its end, so the
operations of all clients come one after another, each with the clock it reads. Instants and
durations are numbers of nanoseconds.
-/

namespace Typeway.Client

inductive BreakerState where
  | closed
  | opened
  | halfOpen
  deriving DecidableEq, Repr

structure CircuitBreakerState where
  failures : UInt32
  state : BreakerState
  lastFailure : Option Nat
  deriving DecidableEq, Repr

structure CircuitBreaker where
  failureThreshold : UInt32
  resetTimeout : Nat

namespace CircuitBreaker

/-- The state that `new` makes. -/
def start : CircuitBreakerState where
  failures := 0
  state := .closed
  lastFailure := none

variable (cb : CircuitBreaker)

/-- `last.elapsed() >= self.reset_timeout`, if there is a last failure. An elapsed time is never
negative. -/
def expired (s : CircuitBreakerState) (now : Nat) : Bool :=
  s.lastFailure.any fun last => cb.resetTimeout ≤ now - last

def allowRequest (s : CircuitBreakerState) (now : Nat) : CircuitBreakerState × Bool :=
  match s.state with
  | .closed | .halfOpen => (s, true)
  | .opened => if cb.expired s now then ({ s with state := .halfOpen }, true) else (s, false)

def recordSuccess (s : CircuitBreakerState) : CircuitBreakerState :=
  { s with failures := 0, state := .closed }

def recordFailure (s : CircuitBreakerState) (now : Nat) : CircuitBreakerState :=
  let failures := s.failures + 1
  { failures
    lastFailure := some now
    state := if cb.failureThreshold ≤ failures then .opened else s.state }

/-! ## Histories -/

inductive Op where
  | allowRequest
  | recordSuccess
  | recordFailure
  deriving DecidableEq, Repr

/-- An operation and the clock when it holds the lock. -/
structure Event where
  op : Op
  now : Nat
  deriving DecidableEq, Repr

def step (s : CircuitBreakerState) (e : Event) : CircuitBreakerState :=
  match e.op with
  | .allowRequest => (cb.allowRequest s e.now).1
  | .recordSuccess => recordSuccess s
  | .recordFailure => cb.recordFailure s e.now

/-- The state after a history. -/
def run (history : List Event) : CircuitBreakerState :=
  history.foldl cb.step start

/-- The clock never goes back. -/
def Timed (history : List Event) : Prop :=
  history.Pairwise fun e e' => e.now ≤ e'.now

def countFailure (k : Nat) (e : Event) : Nat :=
  match e.op with
  | .allowRequest => k
  | .recordSuccess => 0
  | .recordFailure => k + 1

/-- The failures since the last success. -/
def failuresSince (history : List Event) : Nat :=
  history.foldl countFailure 0

def noteFailure (last : Option Nat) (e : Event) : Option Nat :=
  if e.op = .recordFailure then some e.now else last

/-- When a failure was recorded last. -/
def lastFailureOf (history : List Event) : Option Nat :=
  history.foldl noteFailure none

/-- At least the reset timeout has passed since the last failure. -/
def TimeoutPassed (history : List Event) (now : Nat) : Prop :=
  ∃ last, lastFailureOf history = some last ∧ last + cb.resetTimeout ≤ now

variable {cb} {history : List Event} {e : Event} {now : Nat}

theorem run_append : cb.run (history ++ [e]) = cb.step (cb.run history) e := by
  rw [run, List.foldl_append]
  rfl

theorem failuresSince_append :
    failuresSince (history ++ [e]) = countFailure (failuresSince history) e := by
  rw [failuresSince, List.foldl_append]
  rfl

theorem lastFailureOf_append :
    lastFailureOf (history ++ [e]) = noteFailure (lastFailureOf history) e := by
  rw [lastFailureOf, List.foldl_append]
  rfl

/-- The last failure is in the history. -/
theorem mem_of_lastFailureOf {last : Nat} (h : lastFailureOf history = some last) :
    ∃ e ∈ history, e.now = last := by
  induction history using List.reverseRecOn with
  | nil => cases h
  | append_singleton history e ih =>
    rw [lastFailureOf_append, noteFailure] at h
    split at h
    · exact ⟨e, by simp, Option.some.inj h⟩
    · obtain ⟨e', mem, same⟩ := ih h
      exact ⟨e', List.mem_append_left _ mem, same⟩

/-! ## The invariant -/

variable (cb) in
/-- What the three fields of the state say of the history. In the half open state the timeout had
passed at some operation already. -/
structure Follows (history : List Event) (s : CircuitBreakerState) : Prop where
  failures : s.failures.toNat = failuresSince history
  last : s.lastFailure = lastFailureOf history
  closed : s.state = .closed ↔ failuresSince history < cb.failureThreshold.toNat
  halfOpen : s.state = .halfOpen → ∃ e ∈ history, cb.TimeoutPassed history e.now

theorem expired_iff {s : CircuitBreakerState} (last : s.lastFailure = lastFailureOf history)
    (timed : ∀ e ∈ history, e.now ≤ now) :
    cb.expired s now = true ↔ cb.TimeoutPassed history now := by
  rw [expired, last, TimeoutPassed]
  cases known : lastFailureOf history with
  | none => simp
  | some t =>
    obtain ⟨e, mem, same⟩ := mem_of_lastFailureOf known
    have := timed e mem
    simp only [Option.any_some, decide_eq_true_eq, Option.some.injEq, exists_eq_left']
    omega

theorem follows_start (positive : 0 < cb.failureThreshold) : cb.Follows [] start where
  failures := rfl
  last := rfl
  closed := iff_of_true rfl positive
  halfOpen h := by cases h

/-- No operation but a failure touches the time of the last one. -/
theorem step_lastFailure {s : CircuitBreakerState} (h : s.lastFailure = lastFailureOf history) :
    (cb.step s e).lastFailure = lastFailureOf (history ++ [e]) := by
  rw [lastFailureOf_append, noteFailure, ← h, step]
  cases e.op with
  | allowRequest =>
    rw [if_neg (by simp)]
    dsimp only
    rw [CircuitBreaker.allowRequest]
    cases s.state with
    | closed => rfl
    | halfOpen => rfl
    | opened =>
      dsimp only
      split
      · rfl
      · rfl
  | recordSuccess => rfl
  | recordFailure => rfl

theorem Follows.allowRequest {s : CircuitBreakerState} (h : cb.Follows history s)
    (timed : ∀ e' ∈ history, e'.now ≤ e.now) (op : e.op = .allowRequest) :
    cb.Follows (history ++ [e]) (cb.step s e) := by
  have count : failuresSince (history ++ [e]) = failuresSince history := by
    rw [failuresSince_append, countFailure, op]
  have noted : lastFailureOf (history ++ [e]) = lastFailureOf history := by
    rw [lastFailureOf_append, noteFailure, op]
    rfl
  have passed (now : Nat) : cb.TimeoutPassed (history ++ [e]) now ↔ cb.TimeoutPassed history now := by
    rw [TimeoutPassed, noted, TimeoutPassed]
  have same : cb.Follows (history ++ [e]) s := by
    refine ⟨h.failures.trans count.symm, h.last.trans noted.symm, count ▸ h.closed, ?_⟩
    intro half
    obtain ⟨e', mem, already⟩ := h.halfOpen half
    exact ⟨e', List.mem_append_left _ mem, (passed _).2 already⟩
  rw [step, op]
  dsimp only
  rw [CircuitBreaker.allowRequest]
  cases state : s.state with
  | closed => exact same
  | halfOpen => exact same
  | opened =>
    dsimp only
    split
    · rename_i expired
      refine ⟨same.failures, same.last, ?_, ?_⟩
      · rw [← same.closed, state]
        simp
      · intro
        exact ⟨e, by simp, (passed _).2 ((expired_iff h.last timed).1 expired)⟩
    · exact same

theorem follows_recordSuccess (positive : 0 < cb.failureThreshold) {s : CircuitBreakerState}
    (h : s.lastFailure = lastFailureOf history) (op : e.op = .recordSuccess) :
    cb.Follows (history ++ [e]) (cb.step s e) := by
  have count : failuresSince (history ++ [e]) = 0 := by
    rw [failuresSince_append, countFailure, op]
  have last : (cb.step s e).lastFailure = lastFailureOf (history ++ [e]) := step_lastFailure h
  rw [step, op] at last ⊢
  refine ⟨count.symm, last, ?_, ?_⟩
  · rw [count]
    exact iff_of_true rfl positive
  · intro half
    cases half

theorem Follows.recordFailure {s : CircuitBreakerState} (h : cb.Follows history s)
    (op : e.op = .recordFailure) (small : failuresSince history + 1 < 2 ^ 32) :
    cb.Follows (history ++ [e]) (cb.step s e) := by
  have count : failuresSince (history ++ [e]) = failuresSince history + 1 := by
    rw [failuresSince_append, countFailure, op]
  have failures : (s.failures + 1).toNat = failuresSince history + 1 := by
    rw [UInt32.toNat_add, h.failures]
    exact Nat.mod_eq_of_lt small
  have reached_iff : cb.failureThreshold ≤ s.failures + 1 ↔
      ¬ failuresSince history + 1 < cb.failureThreshold.toNat := by
    rw [UInt32.le_iff_toNat_le, failures, Nat.not_lt]
  have last : (cb.step s e).lastFailure = lastFailureOf (history ++ [e]) :=
    step_lastFailure h.last
  rw [step, op] at last ⊢
  refine ⟨failures.trans count.symm, last, ?_, ?_⟩
  · show (if cb.failureThreshold ≤ s.failures + 1 then BreakerState.opened else s.state) = _ ↔ _
    rw [count]
    split
    · rename_i reached
      exact iff_of_false (by simp) (reached_iff.1 reached)
    · rename_i below
      rw [reached_iff, not_not] at below
      exact iff_of_true (h.closed.2 (by omega)) below
  · show (if cb.failureThreshold ≤ s.failures + 1 then BreakerState.opened else s.state) = _ → _
    split
    · intro half
      cases half
    · -- below the threshold the breaker was closed
      rename_i below
      rw [reached_iff, not_not] at below
      rw [h.closed.2 (by omega)]
      intro half
      cases half

/-! ## Runs -/

theorem run_lastFailure : (cb.run history).lastFailure = lastFailureOf history := by
  induction history using List.reverseRecOn with
  | nil => rfl
  | append_singleton history e ih =>
    rw [run_append]
    exact step_lastFailure ih

theorem Timed.append (timed : Timed (history ++ [e])) :
    Timed history ∧ ∀ e' ∈ history, e'.now ≤ e.now := by
  obtain ⟨before, -, last⟩ := List.pairwise_append.1 timed
  exact ⟨before, fun e' mem => last e' mem e (by simp)⟩

/-- The counter may have wrapped before the last success: that one counts afresh. -/
theorem run_follows (positive : 0 < cb.failureThreshold) (timed : Timed history)
    (small : failuresSince history < 2 ^ 32) : cb.Follows history (cb.run history) := by
  induction history using List.reverseRecOn with
  | nil => exact follows_start positive
  | append_singleton history e ih =>
    obtain ⟨before, last⟩ := timed.append
    rw [run_append]
    rw [failuresSince_append, countFailure] at small
    cases op : e.op with
    | allowRequest =>
      rw [op] at small
      exact (ih before small).allowRequest last op
    | recordSuccess => exact follows_recordSuccess positive run_lastFailure op
    | recordFailure =>
      rw [op] at small
      exact (ih before (by dsimp only at small; omega)).recordFailure op small

/-- What `allow_request` answers at any clock from the last operation on. -/
theorem Follows.allowRequest_iff {s : CircuitBreakerState} (h : cb.Follows history s)
    (timed : ∀ e ∈ history, e.now ≤ now) :
    (cb.allowRequest s now).2 = true ↔
      failuresSince history < cb.failureThreshold.toNat ∨ cb.TimeoutPassed history now := by
  rw [← h.closed, ← expired_iff h.last timed, CircuitBreaker.allowRequest]
  cases state : s.state with
  | closed => simp
  | halfOpen =>
    obtain ⟨e, mem, t, known, passed⟩ := h.halfOpen state
    have := timed e mem
    have now : cb.TimeoutPassed history now := ⟨t, known, by omega⟩
    simp [(expired_iff h.last timed).2 now]
  | opened =>
    dsimp only
    split
    · rename_i expired
      simp [expired]
    · rename_i pending
      simp [pending]

/-- No operation after the failure is a success. -/
def Unrepaired (later : List Event) : Prop :=
  ∀ e ∈ later, e.op ≠ .recordSuccess

theorem unrepaired_append {later : List Event} :
    Unrepaired (later ++ [e]) ↔ Unrepaired later ∧ e.op ≠ .recordSuccess := by
  rw [Unrepaired, List.forall_mem_append, List.forall_mem_singleton, Unrepaired]

theorem failuresSince_le {later : List Event} (quiet : Unrepaired later) :
    failuresSince history ≤ failuresSince (history ++ later) := by
  induction later using List.reverseRecOn with
  | nil => simp
  | append_singleton later e ih =>
    obtain ⟨before, kind⟩ := unrepaired_append.1 quiet
    have := ih before
    rw [← List.append_assoc, failuresSince_append, countFailure]
    cases op : e.op with
    | allowRequest => exact this
    | recordSuccess => exact absurd op kind
    | recordFailure =>
      dsimp only
      omega

theorem lastFailureOf_append_ge {later : List Event} {t : Nat}
    (known : lastFailureOf history = some t) (after : ∀ e ∈ later, t ≤ e.now) :
    ∃ t', lastFailureOf (history ++ later) = some t' ∧ t ≤ t' := by
  induction later using List.reverseRecOn with
  | nil => exact ⟨t, by rw [List.append_nil, known], Nat.le_refl t⟩
  | append_singleton later e ih =>
    obtain ⟨t', last, le⟩ := ih fun e mem => after e (List.mem_append_left _ mem)
    rw [← List.append_assoc, lastFailureOf_append, noteFailure]
    split
    · exact ⟨e.now, rfl, after e (by simp)⟩
    · exact ⟨t', last, le⟩

/-! ## The law -/

/-- The law of the breaker. A failed probe is a failure recorded in the half open state; only a
success recorded after it admits requests earlier. -/
structure Lawful (cb : CircuitBreaker) : Prop where
  admits : ∀ (history : List Event) (now : Nat), Timed history → (∀ e ∈ history, e.now ≤ now) →
    failuresSince history < 2 ^ 32 →
    ((cb.allowRequest (cb.run history) now).2 = true ↔
      failuresSince history < cb.failureThreshold.toNat ∨ cb.TimeoutPassed history now)
  closes : ∀ (history : List Event) (e : Event), e.op = .recordSuccess →
    (cb.run (history ++ [e])).state = .closed
  rejects : ∀ (history : List Event) (e : Event) (later : List Event) (now : Nat),
    Timed (history ++ e :: later) → (∀ e' ∈ history ++ e :: later, e'.now ≤ now) →
    failuresSince (history ++ e :: later) < 2 ^ 32 →
    (cb.run history).state = .halfOpen → e.op = .recordFailure → Unrepaired later →
    now < e.now + cb.resetTimeout →
    (cb.run (history ++ [e])).state = .opened ∧
      (cb.allowRequest (cb.run (history ++ e :: later)) now).2 = false

/-- Outside the closed state one more failure opens the breaker. -/
theorem Follows.opens {s : CircuitBreakerState} (h : cb.Follows history s)
    (tripped : s.state ≠ .closed) (small : failuresSince history + 1 < 2 ^ 32)
    (op : e.op = .recordFailure) : (cb.step s e).state = .opened := by
  have reached : cb.failureThreshold.toNat ≤ failuresSince history := by
    have := mt h.closed.2 tripped
    omega
  rw [step, op]
  show (if cb.failureThreshold ≤ s.failures + 1 then BreakerState.opened else s.state) = _
  apply if_pos
  rw [UInt32.le_iff_toNat_le, UInt32.toNat_add, h.failures]
  show cb.failureThreshold.toNat ≤ (failuresSince history + 1) % 2 ^ 32
  rw [Nat.mod_eq_of_lt small]
  omega

theorem lawful (positive : 0 < cb.failureThreshold) : cb.Lawful where
  admits history now timed clock small :=
    (run_follows positive timed small).allowRequest_iff clock
  closes history e op := by
    rw [run_append, step, op]
    rfl
  rejects history e later now timed clock small half op quiet early := by
    have split : history ++ e :: later = history ++ [e] ++ later := by simp
    rw [split] at timed clock small ⊢
    have count : failuresSince (history ++ [e]) = failuresSince history + 1 := by
      rw [failuresSince_append, countFailure, op]
    have grown : failuresSince (history ++ [e]) ≤ failuresSince (history ++ [e] ++ later) :=
      failuresSince_le quiet
    have parts := List.pairwise_append.1 timed
    have follows : cb.Follows history (cb.run history) :=
      run_follows positive (Timed.append parts.1).1 (by omega)
    constructor
    · rw [run_append]
      exact follows.opens (by rw [half]; simp) (by omega) op
    · have reached : ¬ failuresSince history < cb.failureThreshold.toNat := by
        rw [← follows.closed, half]
        simp
      have noted : lastFailureOf (history ++ [e]) = some e.now := by
        rw [lastFailureOf_append, noteFailure, if_pos op]
      obtain ⟨last, known, after⟩ :=
        lastFailureOf_append_ge noted fun e' mem => parts.2.2 e (by simp) e' mem
      rw [Bool.eq_false_iff, Ne, (run_follows positive timed small).allowRequest_iff clock]
      intro admitted
      obtain below | ⟨last', known', passed⟩ := admitted
      · omega
      · have := known.symm.trans known'
        cases this
        omega

/-- A breaker that opens at the second failure and rejects for ten nanoseconds: it admits at the
start, and after the failed probe at twelve it rejects until twenty two. -/
theorem lawful_twice :
    ((CircuitBreaker.mk 2 10).allowRequest ((CircuitBreaker.mk 2 10).run []) 0).2 = true ∧
      ((CircuitBreaker.mk 2 10).run [⟨.recordFailure, 0⟩, ⟨.recordSuccess, 1⟩]).state = .closed ∧
      ((CircuitBreaker.mk 2 10).allowRequest ((CircuitBreaker.mk 2 10).run
        [⟨.recordFailure, 0⟩, ⟨.recordFailure, 1⟩, ⟨.allowRequest, 11⟩, ⟨.recordFailure, 12⟩,
          ⟨.allowRequest, 15⟩]) 21).2 = false := by
  have law : Lawful ⟨2, 10⟩ := lawful (by decide)
  refine ⟨?_, law.closes [⟨.recordFailure, 0⟩] ⟨.recordSuccess, 1⟩ rfl, ?_⟩
  · rw [law.admits [] 0 .nil (by simp) (by decide)]
    exact .inl (by decide)
  · exact (law.rejects [⟨.recordFailure, 0⟩, ⟨.recordFailure, 1⟩, ⟨.allowRequest, 11⟩]
      ⟨.recordFailure, 12⟩ [⟨.allowRequest, 15⟩] 21 (by simp [Timed]) (by simp) (by decide)
      (by decide) rfl (by simp [Unrepaired]) (by decide)).2

end CircuitBreaker

end Typeway.Client
