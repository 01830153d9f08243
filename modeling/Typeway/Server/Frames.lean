import Typeway.Server.Calls

/-!
# Frames in front of a handler

What `GrpcMultiplexer::call` makes of a body that is not one complete frame. A bridged method goes
on with the raw bytes where `decode_grpc_frame` refuses them, and the path of a direct handler
drops five bytes without looking at them. `safelyFramed_iff` says which bodies this keeps from
being a call of the handler: those the message decoder or a middleware refuses.
-/

namespace Typeway.Server

open Typeway.Core Grpc Json

variable {W X R : Type}

/-- The middleware lets the request pass. -/
def Passes : List (GrpcMiddleware W X R) → HttpRequest X → W → Prop
  | [], _, _ => True
  | mw :: rpcMiddleware, request, w =>
    match mw request w with
    | (.ok next, w) => Passes rpcMiddleware next w
    | (.error _, _) => False

/-- A service calls a handler. -/
def Served.Calls (served : Served W X R) : Prop :=
  ∃ event ∈ served.events, event.IsCall

/-- The computation ends in a panic. -/
def Unwinds {ε α : Type} (x : Checked.Run ε α) : Prop :=
  ∃ stop, x = .error stop ∧ ∀ e, stop ≠ .err e

namespace GrpcHandler

/-- What an entry of the table takes for the message of a body. -/
def unframed (body : List UInt8) : GrpcHandler W X R → List UInt8
  | .standard _ _ _ => unframeOrRaw body
  | .direct _ => stripHeader body

end GrpcHandler

namespace GrpcMultiplexer

variable (mux : GrpcMultiplexer W X R) (parts : HttpParts X) (message : List UInt8) (w : W)

/-- What follows once the message of a body has been found. -/
def callMessage : GrpcHandler W X R → Served W X R
  | .standard handler methodDesc rpcMiddleware =>
    mux.callStandard handler methodDesc rpcMiddleware parts message w
  | .direct handler => callDirect handler message w

/-- The message is decoded, and passes the middleware. -/
def Reaches : GrpcHandler W X R → Prop
  | .standard _ methodDesc rpcMiddleware =>
    ∃ request, mux.syntheticRequest methodDesc parts message = .ok request ∧
      Passes rpcMiddleware request w
  | .direct handler => ∃ run, handler message = .ok run

/-- The decoder of the message panics. -/
def Panics : GrpcHandler W X R → Prop
  | .standard _ methodDesc _ => Unwinds (mux.syntheticRequest methodDesc parts message)
  | .direct handler => Unwinds (handler message)

theorem dispatch_eq (body : List UInt8) (entry : GrpcHandler W X R) :
    mux.dispatch parts body w entry = mux.callMessage parts (entry.unframed body) w entry := by
  cases entry <;> rfl

end GrpcMultiplexer

/-! ### What a call ends in -/

/-- A handler is called where it is reached, and an error is the answer where it is not, unless
the decoder panics. The answer to a call may be an error too, if its deadline passes. -/
structure Served.Accounts (served : Served W X R) (reached panicked : Prop) : Prop where
  calls : served.Calls ↔ reached
  errors : ¬ reached → (served.answer.IsError ↔ ¬ panicked)

theorem Served.not_calls {events : List (Event W X R)} {answer : Answer R} {w : W}
    (quiet : ∀ event ∈ events, ¬ event.IsCall) : ¬ (⟨events, answer, w⟩ : Served W X R).Calls := by
  rintro ⟨event, mem, isCall⟩
  exact quiet event mem isCall

theorem Served.accounts_called {served : Served W X R} {reached panicked : Prop}
    (calls : served.Calls) (yes : reached) : served.Accounts reached panicked where
  calls := iff_of_true calls yes
  errors := fun no => absurd yes no

theorem Served.accounts_refused {served : Served W X R} {reached panicked : Prop}
    (quiet : ¬ served.Calls) (error : served.answer.IsError) (no : ¬ reached) (calm : ¬ panicked) :
    served.Accounts reached panicked where
  calls := iff_of_false quiet no
  errors := fun _ => iff_of_true error calm

theorem Served.accounts_panicked {served : Served W X R} {reached panicked : Prop}
    (quiet : ¬ served.Calls) (fine : ¬ served.answer.IsError) (no : ¬ reached) (yes : panicked) :
    served.Accounts reached panicked where
  calls := iff_of_false quiet no
  errors := fun _ => iff_of_false fine (not_not_intro yes)

theorem not_unwinds_err {ε α : Type} (e : ε) : ¬ Unwinds (.error (.err e) : Checked.Run ε α) := by
  rintro ⟨stop, same, other⟩
  exact other e (Except.error.inj same).symm

theorem not_unwinds_ok {ε α : Type} (a : α) : ¬ Unwinds (.ok a : Checked.Run ε α) := by
  rintro ⟨stop, same, -⟩
  cases same

theorem callDirect_accounts (handler : DirectHandler W) (message : List UInt8) (w : W) :
    (callDirect handler message w : Served W X R).Accounts (∃ run, handler message = .ok run)
      (Unwinds (handler message)) := by
  rw [callDirect]
  cases handler message with
  | ok run =>
    apply Served.accounts_called
    · exact ⟨_, List.mem_singleton_self _, trivial⟩
    · exact ⟨run, rfl⟩
  | error stop =>
    have unreached : ¬ ∃ run, (.error stop : Checked.Run GrpcStatus (W → List UInt8 × W)) =
        .ok run := by
      rintro ⟨run, same⟩
      cases same
    cases stop with
    | err status =>
      exact Served.accounts_refused (Served.not_calls (by simp)) trivial unreached
        (not_unwinds_err status)
    | panic p =>
      exact Served.accounts_panicked (Served.not_calls (by simp)) not_false unreached
        ⟨_, rfl, fun e same => nomatch same⟩
    | unfinished =>
      exact Served.accounts_panicked (Served.not_calls (by simp)) not_false unreached
        ⟨_, rfl, fun e same => nomatch same⟩

/-- Middleware calls no handler, and hands a request on if it passes. -/
theorem runMiddleware_spec (rpcMiddleware : List (GrpcMiddleware W X R)) (request : HttpRequest X)
    (w : W) :
    (∀ event ∈ (runMiddleware rpcMiddleware request w).1, ¬ event.IsCall) ∧
      ((∃ last, (runMiddleware rpcMiddleware request w).2.1 = .ok last) ↔
        Passes rpcMiddleware request w) := by
  induction rpcMiddleware generalizing request w with
  | nil => exact ⟨by simp [runMiddleware], iff_of_true ⟨request, rfl⟩ trivial⟩
  | cons mw rpcMiddleware ih =>
    unfold runMiddleware Passes
    obtain ⟨returned, w'⟩ := mw request w
    cases returned with
    | ok next =>
      obtain ⟨quiet, passes⟩ := ih next w'
      constructor
      · intro event mem
        rcases List.mem_cons.1 mem with rfl | mem
        · exact not_false
        · exact quiet event mem
      · exact passes
    | error response =>
      constructor
      · intro event mem
        rw [List.mem_singleton] at mem
        subst mem
        exact not_false
      · apply iff_of_false
        · rintro ⟨last, passed⟩
          cases passed
        · exact not_false

namespace GrpcMultiplexer

variable (mux : GrpcMultiplexer W X R) (parts : HttpParts X) (message : List UInt8) (w : W)

theorem callStandard_accounts (handler : BoxedHandler W X R) (methodDesc : GrpcMethodDescriptor)
    (rpcMiddleware : List (GrpcMiddleware W X R)) :
    (mux.callStandard handler methodDesc rpcMiddleware parts message w).Accounts
      (mux.Reaches parts message w (.standard handler methodDesc rpcMiddleware))
      (mux.Panics parts message (.standard handler methodDesc rpcMiddleware)) := by
  rw [callStandard, Reaches, Panics]
  cases mux.syntheticRequest methodDesc parts message with
  | ok request =>
    have calm := not_unwinds_ok (ε := GrpcStatus) request
    obtain ⟨quiet, passes⟩ := runMiddleware_spec rpcMiddleware request w
    dsimp only
    generalize runMiddleware rpcMiddleware request w = outcome at quiet passes ⊢
    obtain ⟨events, returned, w'⟩ := outcome
    cases returned with
    | ok last =>
      apply Served.accounts_called
      · refine ⟨.handler handler last, ?_, trivial⟩
        exact List.mem_append_right events (List.mem_singleton_self _)
      · exact ⟨request, rfl, passes.1 ⟨last, rfl⟩⟩
    | error response =>
      refine Served.accounts_refused (Served.not_calls quiet) trivial ?_ calm
      rintro ⟨other, same, passed⟩
      obtain rfl := Except.ok.inj same
      obtain ⟨last, back⟩ := passes.2 passed
      cases back
  | error stop =>
    have unreached : ¬ ∃ request, (.error stop : Checked.Run GrpcStatus (HttpRequest X)) =
        .ok request ∧ Passes rpcMiddleware request w := by
      rintro ⟨request, same, -⟩
      cases same
    cases stop with
    | err status =>
      exact Served.accounts_refused (Served.not_calls (by simp)) trivial unreached
        (not_unwinds_err status)
    | panic p =>
      exact Served.accounts_panicked (Served.not_calls (by simp)) not_false unreached
        ⟨_, rfl, fun e same => nomatch same⟩
    | unfinished =>
      exact Served.accounts_panicked (Served.not_calls (by simp)) not_false unreached
        ⟨_, rfl, fun e same => nomatch same⟩

theorem callMessage_accounts (entry : GrpcHandler W X R) :
    (mux.callMessage parts message w entry).Accounts (mux.Reaches parts message w entry)
      (mux.Panics parts message entry) := by
  cases entry with
  | standard handler methodDesc rpcMiddleware =>
    exact callStandard_accounts mux parts message w handler methodDesc rpcMiddleware
  | direct handler => exact callDirect_accounts handler message w

/-- A path with an entry in the table, which no built-in service answers. -/
structure Known (path : Str) (entry : GrpcHandler W X R) : Prop where
  found : mux.handlers.lookup path = some entry
  health : isHealthPath path = false
  reflection : (mux.reflectionEnabled && isReflectionPath path) = false

variable {mux parts} in
theorem callGrpc_known {entry : GrpcHandler W X R} (known : mux.Known parts.path entry)
    (body : Incoming) :
    mux.callGrpc parts body w =
      mux.callMessage parts (entry.unframed body.collectOrEmpty) w entry := by
  rw [callGrpc, known.health, known.reflection, if_neg Bool.false_ne_true,
    if_neg Bool.false_ne_true, ← dispatch_eq]
  dsimp only
  rw [known.found]

/-- A handler is called only with the message of one complete frame, and a malformed body ends in
an error. So it does where a middleware answers in the place of the handler. -/
structure SafelyFramed (body : Incoming) (entry : GrpcHandler W X R) : Prop where
  called : (mux.callGrpc parts body w).Calls →
    ∃ message, IsFrame body.frames.flatten message ∧
      mux.callGrpc parts body w = mux.callMessage parts message w entry
  refused : Malformed body.frames.flatten → (mux.callGrpc parts body w).answer.IsError

end GrpcMultiplexer

theorem IsFrame.unframed {body message : List UInt8} (frame : IsFrame body message)
    (entry : GrpcHandler W X R) : entry.unframed body = message := by
  cases entry with
  | standard handler methodDesc rpcMiddleware =>
    rw [GrpcHandler.unframed, unframeOrRaw, frame.decode]
  | direct handler =>
    have long : 5 ≤ body.length := by
      rw [frame.length]
      omega
    rw [GrpcHandler.unframed, stripHeader, if_pos long, frame.drop]

/-- **Only a complete frame reaches the handler of a known path** iff the body is one, or the
bytes it is taken for are refused. -/
theorem safelyFramed_iff (mux : GrpcMultiplexer W X R) (parts : HttpParts X) (w : W)
    (body : Incoming) (entry : GrpcHandler W X R) (known : mux.Known parts.path entry)
    (whole : body.broken = false) :
    mux.SafelyFramed parts w body entry ↔
      (∃ message, IsFrame body.frames.flatten message) ∨
        (¬ mux.Reaches parts (entry.unframed body.frames.flatten) w entry ∧
          (Malformed body.frames.flatten →
            ¬ mux.Panics parts (entry.unframed body.frames.flatten) entry)) := by
  have run := GrpcMultiplexer.callGrpc_known w known body
  rw [Incoming.collectOrEmpty_whole whole] at run
  have accounts := mux.callMessage_accounts parts (entry.unframed body.frames.flatten) w entry
  rw [← run] at accounts
  constructor
  · intro safe
    by_cases framed : ∃ message, IsFrame body.frames.flatten message
    · exact .inl framed
    · right
      have unreached : ¬ mux.Reaches parts (entry.unframed body.frames.flatten) w entry := by
        intro reached
        obtain ⟨message, frame, -⟩ := safe.called (accounts.calls.2 reached)
        exact framed ⟨message, frame⟩
      exact ⟨unreached, fun malformed => (accounts.errors unreached).1 (safe.refused malformed)⟩
  · intro allowed
    constructor
    · intro calls
      rcases allowed with ⟨message, frame⟩ | ⟨unreached, -⟩
      · exact ⟨message, frame, by rw [run, IsFrame.unframed frame]⟩
      · exact absurd (accounts.calls.1 calls) unreached
    · intro malformed
      rcases allowed with ⟨message, frame⟩ | ⟨unreached, calm⟩
      · exact absurd malformed frame.not_malformed
      · exact (accounts.errors unreached).2 (calm malformed)

theorem echo_known : echoMultiplexer.Known listUser (.direct echo) where
  found := AList.lookup_insert _
  health := by decide
  reflection := rfl

/-- The frame of the empty message. -/
theorem safelyFramed_empty :
    echoMultiplexer.SafelyFramed (grpcParts listUser) ()
      { frames := [[0, 0, 0, 0, 0]], broken := false } (.direct echo) :=
  (safelyFramed_iff echoMultiplexer (grpcParts listUser) () _ _ echo_known rfl).2
    (.inl ⟨[], rfl, by simp⟩)

/-- A direct handler is called with what is behind the header of a compressed frame. -/
theorem not_safelyFramed_compressed :
    ¬ echoMultiplexer.SafelyFramed (grpcParts listUser) ()
      { frames := [[1, 0, 0, 0, 0]], broken := false } (.direct echo) := by
  intro safe
  have run := GrpcMultiplexer.callGrpc_known () (show echoMultiplexer.Known (grpcParts listUser).path _ from echo_known)
    { frames := [[1, 0, 0, 0, 0]], broken := false }
  have error := safe.refused (.compressed (by decide))
  rw [run] at error
  exact error

end Typeway.Server
