import Mathlib.Data.List.Basic
import Typeway.Client.Breaker

/-!
# Clients that share a circuit breaker

Any number of `send_request` attempts with one breaker: each asks with `allow_request`, and if it is
admitted it later reports with `record_success` or `record_failure`. The steps of all attempts come
in any order. The state keeps which of them turned the breaker half open and have not reported: the
breaker itself keeps nothing of them.
-/

namespace Typeway.Client

open CircuitBreaker

/-- What a client does next. -/
inductive Act where
  | ask
  | succeed
  | fail
  deriving DecidableEq, Repr

/-- A step of a client and the clock at it. -/
structure Move (ι : Type) where
  client : ι
  act : Act
  now : Nat

/-- The breaker, the clients with an admitted request, and those of them that turned the breaker
half open. -/
structure Clients (ι : Type) where
  breaker : CircuitBreakerState
  pending : List ι
  probes : List ι

variable {ι : Type} [DecidableEq ι] (cb : CircuitBreaker)

def Clients.start : Clients ι where
  breaker := CircuitBreaker.start
  pending := []
  probes := []

/-- The request turns the open breaker half open. -/
def Clients.Turns (s : Clients ι) (m : Move ι) : Prop :=
  m.act = .ask ∧ s.breaker.state = .opened ∧ cb.expired s.breaker m.now = true

instance (s : Clients ι) (m : Move ι) : Decidable (s.Turns cb m) :=
  inferInstanceAs (Decidable (_ ∧ _ ∧ _))

/-- The client reports how its request went. -/
def Move.ReportOf (m : Move ι) (c : ι) : Prop :=
  m.client = c ∧ m.act ≠ .ask

def Clients.report (s : Clients ι) (c : ι) (breaker : CircuitBreakerState) : Clients ι where
  breaker
  pending := s.pending.filter (· ≠ c)
  probes := s.probes.filter (· ≠ c)

/-- A client asks when it has no request under way, and reports when it has one. -/
def Clients.step (s : Clients ι) (m : Move ι) : Option (Clients ι) :=
  match m.act with
  | .ask =>
    if m.client ∈ s.pending then none
    else
      let (breaker, admitted) := cb.allowRequest s.breaker m.now
      some {
        breaker
        pending := if admitted then m.client :: s.pending else s.pending
        probes := if s.Turns cb m then m.client :: s.probes else s.probes }
  | .succeed => if m.client ∈ s.pending then some (s.report m.client (recordSuccess s.breaker)) else none
  | .fail =>
    if m.client ∈ s.pending then some (s.report m.client (cb.recordFailure s.breaker m.now)) else none

/-- The state after the steps, if every client could make its own. -/
def Clients.run (trace : List (Move ι)) : Option (Clients ι) :=
  trace.foldlM (Clients.step cb) Clients.start

/-- From the request that turns the breaker half open until its client reports, no other request is
admitted. -/
def SingleProbe (trace : List (Move ι)) : Prop :=
  ∀ before probe between other rest s s',
    trace = before ++ probe :: (between ++ other :: rest) →
    Clients.run cb before = some s → s.Turns cb probe →
    Clients.run cb (before ++ probe :: between) = some s' →
    (∀ m ∈ between, ¬ m.ReportOf probe.client) → other.act = .ask →
    (cb.allowRequest s'.breaker other.now).2 = false

variable {cb} {s s' : Clients ι} {m : Move ι} {trace : List (Move ι)} {c : ι}

theorem Clients.run_append :
    Clients.run cb (trace ++ [m]) = (Clients.run cb trace).bind fun s => s.step cb m := by
  simp only [Clients.run, List.foldlM_append, List.foldlM_cons, List.foldlM_nil, bind_pure]
  rfl

theorem Clients.mem_report {c' : ι} {breaker : CircuitBreakerState} :
    c ∈ (s.report c' breaker).probes ↔ c ∈ s.probes ∧ c' ≠ c := by
  rw [report, List.mem_filter, decide_eq_true_eq, ne_comm]

/-! ## The probes under way -/

theorem Clients.step_probes (h : s.step cb m = some s') :
    c ∈ s'.probes ↔ (c ∈ s.probes ∧ ¬ m.ReportOf c) ∨ (s.Turns cb m ∧ m.client = c) := by
  rw [Clients.step] at h
  cases act : m.act with
  | ask =>
    rw [act] at h
    dsimp only at h
    split at h
    · cases h
    · cases h
      dsimp only
      have asked : ¬ m.ReportOf c := fun report => report.2 act
      split
      · rename_i turns
        simp [turns, asked, eq_comm, or_comm]
      · rename_i stays
        simp [stays, asked]
  | succeed =>
    rw [act] at h
    dsimp only at h
    split at h
    · cases h
      have turns : ¬ s.Turns cb m := fun turns => by cases act.symm.trans turns.1
      simp [mem_report, Move.ReportOf, turns, act]
    · cases h
  | fail =>
    rw [act] at h
    dsimp only at h
    split at h
    · cases h
      have turns : ¬ s.Turns cb m := fun turns => by cases act.symm.trans turns.1
      simp [mem_report, Move.ReportOf, turns, act]
    · cases h

variable (cb) in
/-- The client's request turned the breaker half open, and the client has not reported since. -/
def UnderWay (trace : List (Move ι)) (c : ι) : Prop :=
  ∃ before probe between s, trace = before ++ probe :: between ∧
    Clients.run cb before = some s ∧ s.Turns cb probe ∧ probe.client = c ∧
    ∀ m ∈ between, ¬ m.ReportOf c

theorem underWay_append (ran : Clients.run cb trace = some s) :
    UnderWay cb (trace ++ [m]) c ↔
      (UnderWay cb trace c ∧ ¬ m.ReportOf c) ∨ (s.Turns cb m ∧ m.client = c) := by
  constructor
  · rintro ⟨before, probe, between, s₀, split, first, turns, client, silent⟩
    obtain rfl | ⟨between', last, rfl⟩ := between.eq_nil_or_concat'
    · obtain ⟨rfl, same⟩ := List.append_inj' split rfl
      cases same
      cases ran.symm.trans first
      exact .inr ⟨turns, client⟩
    · rw [← List.cons_append, ← List.append_assoc] at split
      obtain ⟨rfl, same⟩ := List.append_inj' split rfl
      cases same
      refine .inl ⟨⟨before, probe, between', s₀, rfl, first, turns, client, ?_⟩, ?_⟩
      · intro m mem
        exact silent m (List.mem_append_left _ mem)
      · exact silent m (by simp)
  · rintro (⟨⟨before, probe, between, s₀, rfl, first, turns, client, silent⟩, quiet⟩ | ⟨turns, client⟩)
    · refine ⟨before, probe, between ++ [m], s₀, by simp, first, turns, client, ?_⟩
      rw [List.forall_mem_append]
      exact ⟨silent, by simpa using quiet⟩
    · exact ⟨trace, m, [], s, rfl, ran, turns, client, by simp⟩

theorem mem_probes_iff (ran : Clients.run cb trace = some s) :
    c ∈ s.probes ↔ UnderWay cb trace c := by
  induction trace using List.reverseRecOn generalizing s with
  | nil =>
    cases ran
    constructor
    · intro mem
      cases mem
    · rintro ⟨before, probe, between, -, split, -⟩
      simp at split
  | append_singleton trace m ih =>
    rw [Clients.run_append] at ran
    obtain ⟨s₀, first, step⟩ := Option.bind_eq_some_iff.1 ran
    rw [Clients.step_probes step, underWay_append first, ih first]

theorem allowRequest_eq_false_iff {s : CircuitBreakerState} {now : Nat} :
    (cb.allowRequest s now).2 = false ↔ s.state = .opened ∧ cb.expired s now = false := by
  rw [allowRequest]
  cases s.state with
  | closed => simp
  | halfOpen => simp
  | opened =>
    cases expired : cb.expired s now with
    | false => simp
    | true => simp

/-! ## What the breaker sees -/

def Move.event (m : Move ι) : Event where
  op := match m.act with
    | .ask => .allowRequest
    | .succeed => .recordSuccess
    | .fail => .recordFailure
  now := m.now

theorem Clients.step_breaker (h : s.step cb m = some s') :
    s'.breaker = cb.step s.breaker m.event := by
  rw [Clients.step] at h
  cases act : m.act with
  | ask =>
    rw [act] at h
    dsimp only at h
    split at h
    · cases h
    · cases h
      simp [CircuitBreaker.step, Move.event, act]
  | succeed =>
    rw [act] at h
    dsimp only at h
    split at h
    · cases h
      simp [CircuitBreaker.step, Move.event, act, report]
    · cases h
  | fail =>
    rw [act] at h
    dsimp only at h
    split at h
    · cases h
      simp [CircuitBreaker.step, Move.event, act, report]
    · cases h

/-- The breaker sees the steps of all clients as one history. -/
theorem Clients.run_breaker (ran : Clients.run cb trace = some s) :
    s.breaker = cb.run (trace.map Move.event) := by
  induction trace using List.reverseRecOn generalizing s with
  | nil =>
    cases ran
    rfl
  | append_singleton trace m ih =>
    rw [Clients.run_append] at ran
    obtain ⟨s₀, first, step⟩ := Option.bind_eq_some_iff.1 ran
    rw [Clients.step_breaker step, ih first, List.map_append, List.map_singleton,
      CircuitBreaker.run_append]

/-- When a request is refused, said of the steps before it alone. -/
theorem Clients.refuses_iff {now : Nat} (positive : 0 < cb.failureThreshold)
    (ran : Clients.run cb trace = some s) (timed : Timed (trace.map Move.event))
    (clock : ∀ e ∈ trace.map Move.event, e.now ≤ now)
    (small : failuresSince (trace.map Move.event) < 2 ^ 32) :
    s.breaker.state = .opened ∧ cb.expired s.breaker now = false ↔
      cb.failureThreshold.toNat ≤ failuresSince (trace.map Move.event) ∧
        ¬ cb.TimeoutPassed (trace.map Move.event) now := by
  rw [← allowRequest_eq_false_iff, ← Bool.not_eq_true, Clients.run_breaker ran,
    (run_follows positive timed small).allowRequest_iff clock, not_or, Nat.not_lt]

/-! ## One probe at a time -/

variable (cb) in
/-- Whoever asks while a probe is under way comes after enough failures since the last success, and
before the timeout has passed since the last of them. -/
def WaitsForProbe (trace : List (Move ι)) : Prop :=
  ∀ before m rest, trace = before ++ m :: rest → (Clients.run cb before).isSome = true →
    m.act = .ask → (∃ c, UnderWay cb before c) →
    cb.failureThreshold.toNat ≤ failuresSince (before.map Move.event) ∧
      ¬ cb.TimeoutPassed (before.map Move.event) m.now

/-- The breaker admits one probe at a time in exactly the runs in which nobody asks beside a probe
under way, but for the times late failures have the breaker rejecting again. -/
theorem singleProbe_iff (cb : CircuitBreaker) (positive : 0 < cb.failureThreshold)
    (trace : List (Move ι)) (timed : Timed (trace.map Move.event))
    (small : ∀ before rest, trace = before ++ rest →
      failuresSince (before.map Move.event) < 2 ^ 32) :
    SingleProbe cb trace ↔ WaitsForProbe cb trace := by
  have refuses {before : List (Move ι)} {m : Move ι} {rest : List (Move ι)} {s : Clients ι}
      (split : trace = before ++ m :: rest) (ran : Clients.run cb before = some s) :
      (cb.allowRequest s.breaker m.now).2 = false ↔
        cb.failureThreshold.toNat ≤ failuresSince (before.map Move.event) ∧
          ¬ cb.TimeoutPassed (before.map Move.event) m.now := by
    rw [split, List.map_append, List.map_cons] at timed
    obtain ⟨earlier, -, last⟩ := List.pairwise_append.1 timed
    rw [allowRequest_eq_false_iff]
    exact Clients.refuses_iff positive ran earlier
      (fun e mem => last e mem m.event List.mem_cons_self) (small before _ split)
  constructor
  · intro single before m rest split ran asks under
    obtain ⟨s, ran⟩ := Option.isSome_iff_exists.1 ran
    obtain ⟨c, before', probe, between, s₀, rfl, first, turns, rfl, silent⟩ := under
    rw [← refuses split ran]
    exact single before' probe between m rest s₀ s (by simpa using split) first turns ran silent asks
  · intro waits before probe between other rest s s' split first turns ran silent asks
    have split' : trace = (before ++ probe :: between) ++ other :: rest := by simpa using split
    rw [refuses split' ran]
    exact waits _ other rest split' (Option.isSome_iff_exists.2 ⟨s', ran⟩) asks
      ⟨probe.client, before, probe, between, s, rfl, first, turns, rfl, silent⟩

/-- The first request fails and opens the breaker. When the timeout has passed the second one turns
it half open, and the third one is admitted beside it. -/
theorem not_singleProbe : ¬ ∀ (cb : CircuitBreaker) (trace : List (Move Nat)),
    (trace.Pairwise fun m m' => m.now ≤ m'.now) → (Clients.run cb trace).isSome = true →
    SingleProbe cb trace := by
  intro all
  have single := all ⟨1, 10⟩ [⟨1, .ask, 0⟩, ⟨1, .fail, 0⟩, ⟨2, .ask, 10⟩, ⟨3, .ask, 10⟩]
    (by decide) (by decide)
  have refused := single [⟨1, .ask, 0⟩, ⟨1, .fail, 0⟩] ⟨2, .ask, 10⟩ [] ⟨3, .ask, 10⟩ [] _ _ rfl rfl
    (by decide) rfl (by simp) rfl
  exact absurd refused (by decide)

/-- Client 4 reports its failure late, while the probe of client 2 is under way, and client 3 is
refused. -/
def lateFailure : List (Move Nat) :=
  [⟨1, .ask, 0⟩, ⟨4, .ask, 0⟩, ⟨1, .fail, 0⟩, ⟨2, .ask, 10⟩, ⟨4, .fail, 11⟩, ⟨3, .ask, 12⟩]

theorem singleProbe_lateFailure : SingleProbe ⟨1, 10⟩ lateFailure := by
  have short (before rest : List (Move Nat)) (split : lateFailure = before ++ rest) :
      before = lateFailure.take before.length := by
    rw [split, List.take_left' rfl]
  have few : ∀ n ≤ lateFailure.length,
      failuresSince ((lateFailure.take n).map Move.event) < 2 ^ 32 := by decide
  refine (singleProbe_iff ⟨1, 10⟩ (by decide) lateFailure (by unfold Timed; decide) ?_).2 ?_
  · intro before rest split
    rw [short before rest split]
    exact few _ (by rw [split, List.length_append]; omega)
  · intro before m rest split ran asks ⟨c, under⟩
    obtain ⟨s, ran⟩ := Option.isSome_iff_exists.1 ran
    have probes := (mem_probes_iff ran).2 under
    have place : lateFailure[before.length]? = some m := by
      rw [split, List.getElem?_append_right (Nat.le_refl _), Nat.sub_self]
      rfl
    rw [short before _ split] at ran ⊢
    generalize before.length = n at ran place
    match n with
    | 0 | 1 | 2 | 3 =>
      cases ran
      cases probes
    | 4 =>
      cases place
      cases asks
    | 5 =>
      cases place
      refine ⟨by decide, ?_⟩
      rintro ⟨last, known, passed⟩
      cases known
      revert passed
      decide
    | n + 6 => cases place

end Typeway.Client
