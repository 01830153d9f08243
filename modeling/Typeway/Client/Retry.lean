import Mathlib.Algebra.Order.Field.Power
import Mathlib.Data.Rat.Floor
import Mathlib.Tactic.NormNum
import Typeway.Base.Attempts
import Typeway.Base.Checked
import Typeway.Client.Outcome

/-!
# Calls that are repeated

`call_with_retry_full` and `call_with_retry_query` of the REST client, and `send_request` of the
gRPC client. The REST client panics where the backoff is no length of time; that of the gRPC client
saturates and is left out. A sum of `u32` wraps around, as it does in release builds.
-/

namespace Typeway.Client

open Typeway.Core Grpc Attempts Checked

/-! ## The REST client -/

inductive ClientError where
  | status (status : Nat) (body : Str)
  | url (error : Str)
  | request (error : Str) (timedOut : Bool)
  | deserialize (error : Str)
  | serialize (error : Str)
  | timeout
  | retryExhausted (lastError : ClientError) (attempts : UInt32)

/-- What backoffs are computed with: `Duration::as_secs_f64` of nanoseconds, the operations of `f64`,
the factor `1.0 + random_fraction() * 0.25` of an attempt, and `Duration::from_secs_f64`, which
panics on what is no length of time. -/
structure Clock (R : Type) where
  asSecs : Nat → R
  mul : R → R → R
  powi : R → Int → R
  min : R → R → R
  withJitter : UInt32 → R
  fromSecs : R → Option Nat

/-- What is documented of these operations on numbers that are not negative, or not numbers at all:
no operation leaves them, and one that is cut off at a length below 2^63 seconds is a length. -/
structure Clock.Documented {R : Type} (T : Clock R) (NonNegative : R → Prop) : Prop where
  asSecs : ∀ nanos, NonNegative (T.asSecs nanos)
  mul : ∀ {x y}, NonNegative x → NonNegative y → NonNegative (T.mul x y)
  powi : ∀ {x}, NonNegative x → ∀ n, NonNegative (T.powi x n)
  min : ∀ {x y}, NonNegative x → NonNegative y → NonNegative (T.min x y)
  withJitter : ∀ attempt, NonNegative (T.withJitter attempt)
  fromSecs : ∀ {x}, NonNegative x → ∀ nanos < 2 ^ 63 * 10 ^ 9,
    (T.fromSecs (T.min x (T.asSecs nanos))).isSome

/-- The durations are in nanoseconds. -/
structure RetryPolicy (R : Type) where
  maxRetries : UInt32
  initialBackoff : Nat
  maxBackoff : Nat
  backoffMultiplier : R
  retryOnStatus : List Nat
  retryOnTimeout : Bool

namespace RetryPolicy

variable {R : Type} (policy : RetryPolicy R)

def shouldRetryStatus (status : Nat) : Bool :=
  policy.retryOnStatus.contains status

/-- `backoff_for_attempt`, or `none` where it panics. -/
def backoffForAttempt (T : Clock R) (attempt : UInt32) : Option Nat :=
  let base := T.mul (T.asSecs policy.initialBackoff)
    (T.powi policy.backoffMultiplier attempt.toInt32.toInt)
  let capped := T.min base (T.asSecs policy.maxBackoff)
  let withJitter := T.mul capped (T.withJitter attempt)
  T.fromSecs (T.min withJitter (T.asSecs policy.maxBackoff))

/-- A multiplier that is not negative, and a longest backoff that an `f64` holds as a length. -/
structure Tame (NonNegative : R → Prop) : Prop where
  multiplier : NonNegative policy.backoffMultiplier
  maxBackoff : policy.maxBackoff < 2 ^ 63 * 10 ^ 9

variable {policy} {T : Clock R} {NonNegative : R → Prop}

theorem Tame.backoff (documented : T.Documented NonNegative) (tame : policy.Tame NonNegative)
    (attempt : UInt32) : ∃ nanos, policy.backoffForAttempt T attempt = some nanos := by
  have base : NonNegative (T.mul (T.asSecs policy.initialBackoff)
      (T.powi policy.backoffMultiplier attempt.toInt32.toInt)) :=
    documented.mul (documented.asSecs _) (documented.powi tame.multiplier _)
  have capped := documented.min base (documented.asSecs policy.maxBackoff)
  have jittered := documented.mul capped (documented.withJitter attempt)
  exact Option.isSome_iff_exists.1 (documented.fromSecs jittered _ tame.maxBackoff)

end RetryPolicy

namespace ClientError

def isTimeout : ClientError → Bool
  | timeout => true
  | request _ timedOut => timedOut
  | _ => false

def isRetryable {R : Type} (error : ClientError) (policy : RetryPolicy R) : Bool :=
  match error with
  | status code _ => policy.shouldRetryStatus code
  | timeout | request _ _ =>
    if error.isTimeout then policy.retryOnTimeout else policy.retryOnTimeout
  | _ => false

end ClientError

structure ResponseMeta where
  status : Nat
  headers : HeaderMap

structure TypedResponse (B : Type) where
  body : B
  status : Nat
  headers : HeaderMap

section Rest

variable {A B R : Type} (T : Clock R) (policy : RetryPolicy R)

/-- The loop over `attempt in 0..max_retries`, with so many retries left. -/
def retryAttempts (finish : A → B) (callInner : Nat → Except ClientError A) :
    Nat → ClientError → StateM Nat (Run ClientError B)
  | 0, lastError => pure (fail (.retryExhausted lastError (policy.maxRetries + 1)))
  | left + 1, _ =>
    match policy.backoffForAttempt T (policy.maxRetries - .ofNat (left + 1)) with
    | none => pure (.error (.panic .noDuration))
    | some _ => do
      match ← attempt callInner with
      | .ok response => pure (.ok (finish response))
      | .error e =>
        if e.isRetryable policy then retryAttempts finish callInner left e else pure (fail e)

/-- The initial attempt and the retries. -/
def callWithRetryWith (finish : A → B) (callInner : Nat → Except ClientError A) :
    StateM Nat (Run ClientError B) := do
  match ← attempt callInner with
  | .ok response => pure (.ok (finish response))
  | .error e =>
    if e.isRetryable policy then retryAttempts T policy finish callInner policy.maxRetries.toNat e
    else pure (fail e)

def typedResponse (response : ResponseMeta × B) : TypedResponse B where
  body := response.2
  status := response.1.status
  headers := response.1.headers

/-- `call_with_retry_full`, the attempts being `call_inner` without overrides. -/
def callWithRetryFull (callInner : Nat → Except ClientError (ResponseMeta × B)) :
    StateM Nat (Run ClientError (TypedResponse B)) :=
  callWithRetryWith T policy typedResponse callInner

/-- `call_with_retry_query`, the attempts being `call_inner` with the overrides. -/
def callWithRetryQuery (callInner : Nat → Except ClientError (ResponseMeta × B)) :
    StateM Nat (Run ClientError B) :=
  callWithRetryWith T policy Prod.snd callInner

end Rest

/-! ## The gRPC client -/

namespace GrpcClient

variable {D V : Type} (client : GrpcClient D V)

/-- The loop over `attempt in 0..max_attempts`, with so many attempts left and the last error. -/
def sendAttempts : Nat → Option (GrpcClientError D) →
    StateM Nat (Except (GrpcClientError D) (List UInt8))
  | 0, lastErr =>
    pure (.error (lastErr.getD (.transport "all retry attempts exhausted".toList)))
  | left + 1, _ => do
    match ← attempt client.sendRequestOnce with
    | .ok body => pure (.ok body)
    | .error e =>
      if client.shouldRetry e ∧ 0 < left then sendAttempts left (some e) else pure (.error e)

/-- `send_request` without a circuit breaker. -/
def sendRequestU32 : StateM Nat (Except (GrpcClientError D) (List UInt8)) :=
  client.sendAttempts client.maxAttempts none

end GrpcClient

/-! ## Both loops repeat attempts -/

section Rest

variable {A B R : Type} (policy : RetryPolicy R)

/-- The outcome of an attempt that the policy repeats. -/
def RetryPolicy.again : Except ClientError A → Bool
  | .ok _ => false
  | .error e => e.isRetryable policy

/-- What a call makes of the outcome of its last attempt. -/
def RetryPolicy.report (finish : A → B) : Except ClientError A → Except ClientError B
  | .ok response => .ok (finish response)
  | .error e =>
    if e.isRetryable policy then .error (.retryExhausted e (policy.maxRetries + 1)) else .error e

variable {policy} {T : Clock R} {NonNegative : R → Prop} (documented : T.Documented NonNegative)
  (tame : policy.Tame NonNegative) (finish : A → B) (callInner : Nat → Except ClientError A)

include documented tame

/-- Behind a backoff that does not panic there is another attempt. -/
theorem retryAttempts_attempt (left made : Nat) (e : ClientError) :
    retryAttempts T policy finish callInner (left + 1) e made =
      match callInner made with
      | .ok response => (.ok (finish response), made + 1)
      | .error e => if e.isRetryable policy then
          retryAttempts T policy finish callInner left e (made + 1) else (fail e, made + 1) := by
  obtain ⟨nanos, backoff⟩ := tame.backoff documented (policy.maxRetries - .ofNat (left + 1))
  rw [retryAttempts, backoff]
  show (match callInner made with
    | .ok response => (pure (.ok (finish response)) : StateM Nat (Run ClientError B))
    | .error e => if e.isRetryable policy then retryAttempts T policy finish callInner left e
        else pure (fail e)) (made + 1) = _
  cases callInner made with
  | ok response => rfl
  | error e =>
    dsimp only
    split <;> rfl

theorem retryAttempts_succ (left made : Nat) (e : ClientError) :
    retryAttempts T policy finish callInner (left + 1) e made =
      (lift (policy.report finish (repeated policy.again callInner left made).1),
        (repeated policy.again callInner left made).2) := by
  induction left generalizing made e with
  | zero =>
    rw [retryAttempts_attempt documented tame, repeated_zero]
    cases callInner made with
    | ok response => rfl
    | error e =>
      dsimp only [RetryPolicy.report]
      split <;> rfl
  | succ left ih =>
    rw [retryAttempts_attempt documented tame]
    cases outcome : callInner made with
    | ok response =>
      rw [repeated_settled (by rw [outcome]; rfl), outcome]
      rfl
    | error e =>
      dsimp only
      by_cases retryable : e.isRetryable policy = true
      · rw [if_pos retryable, repeated_again (by rw [outcome]; exact retryable)]
        exact ih (made + 1) e
      · have settled : policy.report finish (.error e : Except ClientError A) = .error e :=
          if_neg retryable
        rw [if_neg retryable, repeated_settled (by rw [outcome]; exact eq_false_of_ne_true retryable),
          outcome, settled]
        rfl

theorem callWithRetryWith_eq (made : Nat) :
    callWithRetryWith T policy finish callInner made =
      (lift (policy.report finish (repeated policy.again callInner policy.maxRetries.toNat made).1),
        (repeated policy.again callInner policy.maxRetries.toNat made).2) := by
  rw [← retryAttempts_succ documented tame finish callInner _ made .timeout,
    retryAttempts_attempt documented tame]
  show (match callInner made with
    | .ok response => (pure (.ok (finish response)) : StateM Nat (Run ClientError B))
    | .error e => if e.isRetryable policy then
        retryAttempts T policy finish callInner policy.maxRetries.toNat e
        else pure (fail e)) (made + 1) = _
  cases callInner made with
  | ok response => rfl
  | error e =>
    dsimp only
    split <;> rfl

end Rest

namespace GrpcClient

variable {D V : Type} (client : GrpcClient D V)

/-- The outcome of an attempt that the client repeats. -/
def again : Except (GrpcClientError D) (List UInt8) → Bool
  | .ok _ => false
  | .error e => client.shouldRetry e

theorem sendAttempts_succ (left made : Nat) (lastErr : Option (GrpcClientError D)) :
    client.sendAttempts (left + 1) lastErr made =
      repeated client.again client.sendRequestOnce left made := by
  induction left generalizing made lastErr with
  | zero =>
    rw [repeated_zero]
    show (match client.sendRequestOnce made with
      | .ok body => (pure (.ok body) : StateM Nat (Except (GrpcClientError D) (List UInt8)))
      | .error e => if client.shouldRetry e ∧ 0 < 0 then client.sendAttempts 0 (some e)
          else pure (.error e)) (made + 1) = _
    cases client.sendRequestOnce made with
    | ok body => rfl
    | error e =>
      dsimp only
      rw [if_neg (by simp)]
      rfl
  | succ left ih =>
    show (match client.sendRequestOnce made with
      | .ok body => (pure (.ok body) : StateM Nat (Except (GrpcClientError D) (List UInt8)))
      | .error e => if client.shouldRetry e ∧ 0 < left + 1 then
          client.sendAttempts (left + 1) (some e) else pure (.error e)) (made + 1) = _
    cases outcome : client.sendRequestOnce made with
    | ok body =>
      rw [repeated_settled (by rw [outcome]; rfl), outcome]
      rfl
    | error e =>
      dsimp only
      by_cases retry : client.shouldRetry e = true
      · rw [if_pos ⟨retry, Nat.succ_pos left⟩, repeated_again (by rw [outcome]; exact retry)]
        exact ih (made + 1) (some e)
      · rw [if_neg fun h => retry h.1,
          repeated_settled (by rw [outcome]; exact eq_false_of_ne_true retry), outcome]
        rfl

/-- Without a circuit breaker the loop over plain numbers does the same. -/
theorem sendLoop_succ (allowed : ∀ n, client.allowRequest n = true) (left made : Nat) :
    client.sendLoop (left + 1) made =
      (repeated client.again client.sendRequestOnce left made).1 := by
  induction left generalizing made with
  | zero =>
    rw [sendLoop, if_neg (by rw [allowed]; decide), repeated_zero]
    cases outcome : client.sendRequestOnce made with
    | ok body => rfl
    | error e => exact if_neg (by simp)
  | succ left ih =>
    rw [sendLoop, if_neg (by rw [allowed]; decide)]
    cases outcome : client.sendRequestOnce made with
    | ok body =>
      rw [repeated_settled (by rw [outcome]; rfl), outcome]
    | error e =>
      dsimp only
      by_cases retry : client.shouldRetry e = true
      · rw [if_pos ⟨retry, Nat.succ_pos left⟩, repeated_again (by rw [outcome]; exact retry)]
        exact ih (made + 1)
      · rw [if_neg fun h => retry h.1,
          repeated_settled (by rw [outcome]; exact eq_false_of_ne_true retry), outcome]

/-- The client with a retry policy. -/
def retrying (maxRetries : UInt32) (retryOn : List GrpcCode) : GrpcClient D V :=
  { client with retry := some ⟨maxRetries, retryOn⟩ }

variable {maxRetries : UInt32} {retryOn : List GrpcCode}

theorem maxAttempts_retrying (small : maxRetries.toNat < 2 ^ 32 - 1) :
    (client.retrying maxRetries retryOn).maxAttempts = maxRetries.toNat + 1 := by
  show (maxRetries + 1).toNat = _
  rw [UInt32.toNat_add]
  show (maxRetries.toNat + 1) % 2 ^ 32 = _
  omega

theorem sendRequestU32_eq (small : maxRetries.toNat < 2 ^ 32 - 1) (made : Nat) :
    (client.retrying maxRetries retryOn).sendRequestU32 made =
      repeated (client.retrying maxRetries retryOn).again
        (client.retrying maxRetries retryOn).sendRequestOnce maxRetries.toNat made := by
  rw [sendRequestU32, maxAttempts_retrying client small]
  exact sendAttempts_succ _ _ _ _

end GrpcClient

/-! ## What the calls end with -/

section Ends

variable {B D V R : Type}

/-- Both calls of the REST client make the attempts up to `last`, and return its outcome or report
that this many attempts are exhausted. -/
structure RestEnds (T : Clock R) (policy : RetryPolicy R)
    (callInner : Nat → Except ClientError (ResponseMeta × B)) (last : Nat) : Prop where
  full : (callWithRetryFull T policy callInner 0).2 = last + 1
  query : (callWithRetryQuery T policy callInner 0).2 = last + 1
  settled : policy.again (callInner last) = false →
    (callWithRetryFull T policy callInner 0).1 = lift ((callInner last).map typedResponse) ∧
      (callWithRetryQuery T policy callInner 0).1 = lift ((callInner last).map Prod.snd)
  exhausted : ∀ e, callInner last = .error e → e.isRetryable policy = true →
    ∃ attempts : UInt32, attempts.toNat = last + 1 ∧
      (callWithRetryFull T policy callInner 0).1 = fail (.retryExhausted e attempts) ∧
      (callWithRetryQuery T policy callInner 0).1 = fail (.retryExhausted e attempts)

/-- The gRPC client makes the attempts up to `last`, and returns its outcome. -/
structure GrpcEnds (client : GrpcClient D V) (last : Nat) : Prop where
  attempts : (client.sendRequestU32 0).2 = last + 1
  outcome : (client.sendRequestU32 0).1 = client.sendRequestOnce last

theorem restEnds {T : Clock R} {NonNegative : R → Prop} (documented : T.Documented NonNegative)
    {policy : RetryPolicy R} (tame : policy.Tame NonNegative)
    (callInner : Nat → Except ClientError (ResponseMeta × B))
    (small : policy.maxRetries.toNat < 2 ^ 32 - 1) :
    ∃ last, Last policy.again callInner policy.maxRetries.toNat last ∧
      RestEnds T policy callInner last := by
  obtain ⟨last, ends, run⟩ := repeated_last policy.again callInner policy.maxRetries.toNat 0
  simp only [Nat.zero_add] at ends run
  have full : callWithRetryFull T policy callInner 0 =
      (lift (policy.report typedResponse (callInner last)), last + 1) := by
    rw [callWithRetryFull, callWithRetryWith_eq documented tame, run]
  have query : callWithRetryQuery T policy callInner 0 =
      (lift (policy.report Prod.snd (callInner last)), last + 1) := by
    rw [callWithRetryQuery, callWithRetryWith_eq documented tame, run]
  refine ⟨last, ends, ⟨by rw [full], by rw [query], ?_, ?_⟩⟩
  · intro settled
    rw [full, query]
    cases outcome : callInner last with
    | ok response => exact ⟨rfl, rfl⟩
    | error e =>
      rw [outcome] at settled
      have refused : ¬ e.isRetryable policy = true := by
        intro retryable
        exact absurd (settled.symm.trans retryable) Bool.false_ne_true
      exact ⟨congrArg lift (if_neg refused), congrArg lift (if_neg refused)⟩
  · intro e outcome retryable
    have all := ends.settled (by rw [outcome]; exact retryable)
    rw [full, query, outcome]
    refine ⟨policy.maxRetries + 1, ?_, congrArg lift (if_pos retryable),
      congrArg lift (if_pos retryable)⟩
    rw [UInt32.toNat_add, all]
    show (policy.maxRetries.toNat + 1) % 2 ^ 32 = _
    omega

theorem grpcEnds (client : GrpcClient D V) {maxRetries : UInt32} (retryOn : List GrpcCode)
    (small : maxRetries.toNat < 2 ^ 32 - 1) :
    ∃ last, Last (client.retrying maxRetries retryOn).again
        (client.retrying maxRetries retryOn).sendRequestOnce maxRetries.toNat last ∧
      GrpcEnds (client.retrying maxRetries retryOn) last := by
  obtain ⟨last, ends, run⟩ := repeated_last (client.retrying maxRetries retryOn).again
    (client.retrying maxRetries retryOn).sendRequestOnce maxRetries.toNat 0
  simp only [Nat.zero_add] at ends run
  rw [← GrpcClient.sendRequestU32_eq client small] at run
  exact ⟨last, ends, by rw [run], by rw [run]⟩

/-- Each call ends with its first attempt that is settled or with its last one, and calls whose
attempts are settled alike make the same attempts. -/
theorem retries_agree {T : Clock R} {NonNegative : R → Prop} (documented : T.Documented NonNegative)
    (policy : RetryPolicy R) (tame : policy.Tame NonNegative)
    (callInner : Nat → Except ClientError (ResponseMeta × B)) (client : GrpcClient D V)
    (retryOn : List GrpcCode) (small : policy.maxRetries.toNat < 2 ^ 32 - 1) :
    ∃ last last', Last policy.again callInner policy.maxRetries.toNat last ∧
      RestEnds T policy callInner last ∧
      Last (client.retrying policy.maxRetries retryOn).again
        (client.retrying policy.maxRetries retryOn).sendRequestOnce policy.maxRetries.toNat last' ∧
      GrpcEnds (client.retrying policy.maxRetries retryOn) last' ∧
      ((∀ n, policy.again (callInner n) = (client.retrying policy.maxRetries retryOn).again
        ((client.retrying policy.maxRetries retryOn).sendRequestOnce n)) → last = last') := by
  obtain ⟨last, ends, rest⟩ := restEnds documented tame callInner small
  obtain ⟨last', ends', grpc⟩ := grpcEnds client retryOn small
  refine ⟨last, last', ends, rest, ends', grpc, fun same => ?_⟩
  have moved : Last policy.again callInner policy.maxRetries.toNat last' := by
    refine ⟨ends'.within, fun n below => ?_, fun unsettled => ?_⟩
    · rw [same]
      exact ends'.before n below
    · rw [same] at unsettled
      exact ends'.settled unsettled
  exact ends.unique moved

end Ends

/-- A client that is never connected. -/
def offline : GrpcClient Unit Unit where
  retry := none
  allowRequest _ := true
  send _ := .error (.transport "connection reset".toList)
  parseRichStatus _ := none
  decode _ := .ok ()

/-- Exact arithmetic, as `f64` does it on the backoffs of `twoAttempts`, without any jitter. -/
def exactClock : Clock ℚ where
  asSecs nanos := nanos / 10 ^ 9
  mul x y := x * y
  powi x n := x ^ n
  min x y := Min.min x y
  withJitter _ := 1
  fromSecs x := if 0 ≤ x ∧ x < 2 ^ 64 then some (x * 10 ^ 9).floor.toNat else none

theorem exactClock_documented : exactClock.Documented (0 ≤ ·) where
  asSecs nanos := div_nonneg (Nat.cast_nonneg nanos) (by norm_num)
  mul hx hy := mul_nonneg hx hy
  powi hx n := zpow_nonneg hx n
  min hx hy := le_min hx hy
  withJitter _ := zero_le_one
  fromSecs := by
    intro x hx nanos short
    have cut : Min.min x ((nanos : ℚ) / 10 ^ 9) < 2 ^ 64 := by
      refine lt_of_le_of_lt (min_le_right _ _) ?_
      rw [div_lt_iff₀ (by norm_num)]
      exact_mod_cast short.trans (by norm_num)
    have nonneg : 0 ≤ Min.min x ((nanos : ℚ) / 10 ^ 9) :=
      le_min hx (div_nonneg (Nat.cast_nonneg nanos) (by norm_num))
    show (if 0 ≤ Min.min x ((nanos : ℚ) / 10 ^ 9) ∧ Min.min x ((nanos : ℚ) / 10 ^ 9) < 2 ^ 64 then
      some _ else none : Option Nat).isSome
    rw [if_pos ⟨nonneg, cut⟩]
    rfl

def twoAttempts : RetryPolicy ℚ where
  maxRetries := 1
  initialBackoff := 500000000
  maxBackoff := 10000000000
  backoffMultiplier := 2
  retryOnStatus := [503]
  retryOnTimeout := true

theorem twoAttempts_tame : twoAttempts.Tame (0 ≤ ·) where
  multiplier := zero_le_two
  maxBackoff := show 10000000000 < 2 ^ 63 * 10 ^ 9 by omega

def timingOut : Nat → Except ClientError (ResponseMeta × Unit) :=
  fun _ => .error .timeout

theorem retries_agree_offline :
    ∃ last, RestEnds exactClock twoAttempts timingOut last ∧
      GrpcEnds (offline.retrying 1 []) last := by
  obtain ⟨last, last', -, rest, -, grpc, agree⟩ :=
    retries_agree exactClock_documented twoAttempts twoAttempts_tame timingOut offline [] (by decide)
  obtain rfl := agree fun n => rfl
  exact ⟨last, rest, grpc⟩

/-- One exhausted attempt and two of them are reported alike, and behind the largest number of
retries there is no attempt at all. -/
theorem not_reports_attempts :
    (offline.retrying 0 []).sendRequestU32 0 =
        (.error (.transport "connection reset".toList), 1) ∧
      (offline.retrying 1 []).sendRequestU32 0 =
        (.error (.transport "connection reset".toList), 2) ∧
      (offline.retrying 4294967295 []).sendRequestU32 0 =
        (.error (.transport "all retry attempts exhausted".toList), 0) :=
  ⟨rfl, rfl, rfl⟩

end Typeway.Client
