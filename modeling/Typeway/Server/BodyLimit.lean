import Typeway.Server.Frames

/-!
# The body limit

`max_body_size` is looked at in `Router::route` alone. The gRPC dispatcher and the Axum adapter
collect a body of any length, and go on with the empty one where reading fails. `limits_iff` says
for which requests the limit holds and a failure is reported all the same.
-/

namespace Typeway.Server

open Typeway.Core Grpc Json

variable {W X R : Type}

/-- The services that requests come in through. -/
inductive Service (W X R : Type) where
  | hyper (router : Router W X R)
  | multiplexer (mux : GrpcMultiplexer W X R)
  | axum (router : Router W X R)

/-- Where the body of a request is read. -/
inductive Entry (W X R : Type) where
  | route (router : Router W X R) (i : Nat)
  | axum (router : Router W X R) (i : Nat)
  | grpc (mux : GrpcMultiplexer W X R) (entry : GrpcHandler W X R)
  | reflection (mux : GrpcMultiplexer W X R)

namespace Entry

/-- What an entry does with the bytes of a body. -/
def accept (parts : HttpParts X) (body : List UInt8) (w : W) : Entry W X R → Served W X R
  | .route router i | .axum router i => router.callHandler i parts body w
  | .grpc mux entry => mux.dispatch parts body w entry
  | .reflection mux =>
    ⟨[.reflection (unframeOrRaw body)], .builtIn (mux.reflection (unframeOrRaw body)), w⟩

/-- An entry collects the body in its own way. -/
def serve (parts : HttpParts X) (body : Incoming) (w : W) : Entry W X R → Served W X R
  | .route router i =>
    match body.collectBodyLimited router.limited router.maxBodySize with
    | some bytes => (route router i).accept parts bytes w
    | none => ⟨[], .payloadTooLarge, w⟩
  | entry => entry.accept parts body.collectOrEmpty w

end Entry

def Router.hit (router : Router W X R) (parts : HttpParts X) : Option Nat :=
  match Server.route router.matchit router.inner parts.method parts.path with
  | .hit i => some i
  | _ => none

namespace GrpcMultiplexer

variable (mux : GrpcMultiplexer W X R)

/-- The specification or the page that is served instead of a route. -/
def document (parts : HttpParts X) : Option Str :=
  let spec := if parts.path = "/grpc-spec".toList then mux.grpcSpecJson else none
  let docs := if parts.path = "/grpc-docs".toList then mux.grpcDocsHtml else none
  if parts.method = .get then spec <|> docs else none

def entry (parts : HttpParts X) : Option (Entry W X R) :=
  if (mux.document parts).isSome then none
  else if isGrpcRequest parts then
    if isHealthPath parts.path then none
    else if mux.reflectionEnabled && isReflectionPath parts.path then some (.reflection mux)
    else (mux.handlers.lookup parts.path).map (.grpc mux)
  else (mux.rest.hit parts).map (.route mux.rest)

end GrpcMultiplexer

namespace Service

def maxBodySize : Service W X R → Nat
  | .hyper router | .axum router => router.maxBodySize
  | .multiplexer mux => mux.rest.maxBodySize

def call (parts : HttpParts X) (body : Incoming) (w : W) : Service W X R → Served W X R
  | .hyper router => router.route parts body w
  | .multiplexer mux => mux.call parts body w
  | .axum router => router.axumCall parts body w

/-- The entry whose handler the body of a request is for, if there is one. -/
def entry (parts : HttpParts X) : Service W X R → Option (Entry W X R)
  | .hyper router => (router.hit parts).map (.route router)
  | .multiplexer mux => mux.entry parts
  | .axum router => (router.hit parts).map (.axum router)

/-- A handler is called only with the whole body, and a body that is too long or breaks off ends
in an error. -/
structure Limits (service : Service W X R) (parts : HttpParts X) (body : Incoming) (w : W) :
    Prop where
  called : (service.call parts body w).Calls → body.Within service.maxBodySize ∧
    ∃ entry, service.entry parts = some entry ∧
      service.call parts body w = entry.accept parts body.frames.flatten w
  refused : ¬ body.Within service.maxBodySize → (service.entry parts).isSome →
    (service.call parts body w).answer.IsError

/-- An entry without a limit takes what it has collected instead of the body. -/
def TakenIn (parts : HttpParts X) (body : Incoming) (w : W) : Option (Entry W X R) → Prop
  | none | some (.route _ _) => False
  | some (.axum _ _) | some (.reflection _) => True
  | some (.grpc mux entry) =>
    mux.Reaches parts (entry.unframed body.collectOrEmpty) w entry ∨
      mux.Panics parts (entry.unframed body.collectOrEmpty) entry

end Service

/-! ### Services and their entries -/

theorem Router.callHandler_answer (router : Router W X R) (i : Nat) (parts : HttpParts X)
    (body : List UInt8) (w : W) : ¬ (router.callHandler i parts body w).answer.IsError := by
  rw [Router.callHandler]
  cases router.inner.routes[i]? with
  | none => exact not_false
  | some entry => exact not_false

/-- A request with no entry calls no handler, and one with an entry is served there. -/
def ServedBy (served : Served W X R) (parts : HttpParts X) (body : Incoming) (w : W) :
    Option (Entry W X R) → Prop
  | none => ¬ served.Calls
  | some entry => served = entry.serve parts body w

theorem Router.route_servedBy (router : Router W X R) (parts : HttpParts X) (body : Incoming)
    (w : W) :
    ServedBy (router.route parts body w) parts body w ((router.hit parts).map (.route router)) := by
  rw [Router.route, Router.hit]
  cases Server.route router.matchit router.inner parts.method parts.path with
  | hit i => rfl
  | methodNotAllowed => exact Served.not_calls (by simp)
  | notFound =>
    cases router.fallback with
    | none => exact Served.not_calls (by simp)
    | some fallback => exact Served.not_calls (by simp)

theorem Router.axumCall_servedBy (router : Router W X R) (parts : HttpParts X) (body : Incoming)
    (w : W) :
    ServedBy (router.axumCall parts body w) parts body w
      ((router.hit parts).map (.axum router)) := by
  rw [Router.axumCall, Router.routeWithBytes, Router.hit]
  cases Server.route router.matchit router.inner parts.method parts.path with
  | hit i => rfl
  | methodNotAllowed => exact Served.not_calls (by simp)
  | notFound => exact Served.not_calls (by simp)

theorem GrpcMultiplexer.call_servedBy (mux : GrpcMultiplexer W X R) (parts : HttpParts X)
    (body : Incoming) (w : W) : ServedBy (mux.call parts body w) parts body w (mux.entry parts) := by
  rw [GrpcMultiplexer.entry]
  unfold GrpcMultiplexer.call GrpcMultiplexer.document
  dsimp only
  generalize (if parts.method = .get then _ else none : Option Str) = document
  cases document with
  | some text => exact Served.not_calls (by simp)
  | none =>
    rw [Option.isSome_none, if_neg Bool.false_ne_true]
    dsimp only
    by_cases grpc : isGrpcRequest parts = true
    · rw [if_pos grpc, if_pos grpc, GrpcMultiplexer.callGrpc]
      by_cases health : isHealthPath parts.path = true
      · rw [if_pos health, if_pos health]
        exact Served.not_calls (by simp)
      rw [if_neg health, if_neg health]
      by_cases reflection : (mux.reflectionEnabled && isReflectionPath parts.path) = true
      · rw [if_pos reflection, if_pos reflection]
        rfl
      rw [if_neg reflection, if_neg reflection]
      cases mux.handlers.lookup parts.path with
      | none => exact Served.not_calls (by simp)
      | some entry => rfl
    · rw [if_neg grpc, if_neg grpc]
      exact mux.rest.route_servedBy parts body w

theorem Service.call_servedBy (service : Service W X R) (parts : HttpParts X) (body : Incoming)
    (w : W) : ServedBy (service.call parts body w) parts body w (service.entry parts) := by
  cases service with
  | hyper router => exact router.route_servedBy parts body w
  | multiplexer mux => exact mux.call_servedBy parts body w
  | axum router => exact router.axumCall_servedBy parts body w

theorem Service.entry_route {service : Service W X R} {parts : HttpParts X}
    {router : Router W X R} {i : Nat} (routed : service.entry parts = some (.route router i)) :
    router.maxBodySize = service.maxBodySize := by
  cases service with
  | hyper own =>
    obtain ⟨j, -, same⟩ := Option.map_eq_some_iff.1 routed
    cases same
    rfl
  | axum own =>
    obtain ⟨j, -, same⟩ := Option.map_eq_some_iff.1 routed
    cases same
  | multiplexer mux =>
    rw [Service.entry, GrpcMultiplexer.entry] at routed
    split at routed
    · cases routed
    split at routed
    · split at routed
      · cases routed
      split at routed
      · cases routed
      · obtain ⟨entry, -, same⟩ := Option.map_eq_some_iff.1 routed
        cases same
    · obtain ⟨j, -, same⟩ := Option.map_eq_some_iff.1 routed
      cases same
      rfl

/-- A body within the limit is taken in whole by every entry. -/
theorem Entry.serve_within (entry : Entry W X R) (parts : HttpParts X) {body : Incoming}
    {maxBytes : Nat} (w : W) (within : body.Within maxBytes)
    (limit : ∀ router i, entry = .route router i → router.maxBodySize = maxBytes) :
    entry.serve parts body w = entry.accept parts body.frames.flatten w := by
  cases entry with
  | route router i =>
    rw [Entry.serve, Incoming.collectBodyLimited_eq, limit router i rfl, if_pos within]
  | axum router i => rw [Entry.serve, Incoming.collectOrEmpty_whole within.whole]; simp
  | grpc mux entry => rw [Entry.serve, Incoming.collectOrEmpty_whole within.whole]; simp
  | reflection mux => rw [Entry.serve, Incoming.collectOrEmpty_whole within.whole]; simp

/-- What an entry makes of a body that is not within the limit. -/
theorem Entry.serve_beyond (entry : Entry W X R) (parts : HttpParts X) {body : Incoming}
    {maxBytes : Nat} (w : W) (beyond : ¬ body.Within maxBytes)
    (limit : ∀ router i, entry = .route router i → router.maxBodySize = maxBytes) :
    (¬ (entry.serve parts body w).Calls ∧ (entry.serve parts body w).answer.IsError) ↔
      ¬ Service.TakenIn parts body w (some entry) := by
  cases entry with
  | route router i =>
    apply iff_of_true
    · rw [Entry.serve, Incoming.collectBodyLimited_eq, limit router i rfl, if_neg beyond]
      exact ⟨Served.not_calls (by simp), trivial⟩
    · exact not_false
  | axum router i =>
    apply iff_of_false
    · exact fun h => router.callHandler_answer i parts _ w h.2
    · exact not_not_intro trivial
  | reflection mux =>
    apply iff_of_false
    · exact fun h => h.2
    · exact not_not_intro trivial
  | grpc mux entry =>
    have accounts := mux.callMessage_accounts parts (entry.unframed body.collectOrEmpty) w entry
    rw [← GrpcMultiplexer.dispatch_eq] at accounts
    show ¬ (mux.dispatch parts body.collectOrEmpty w entry).Calls ∧
      (mux.dispatch parts body.collectOrEmpty w entry).answer.IsError ↔ _
    rw [accounts.calls, Service.TakenIn, not_or]
    exact and_congr_right accounts.errors

/-- **A handler gets the whole body, within the limit, or an error is the answer** iff the body is
within the limit, or none of the entries that have no limit takes what it has collected. -/
theorem limits_iff (service : Service W X R) (parts : HttpParts X) (body : Incoming) (w : W) :
    service.Limits parts body w ↔
      body.Within service.maxBodySize ∨ ¬ Service.TakenIn parts body w (service.entry parts) := by
  have served := service.call_servedBy parts body w
  cases found : service.entry parts with
  | none =>
    rw [found] at served
    apply iff_of_true
    · constructor
      · exact fun calls => absurd calls served
      · intro _ some
        rw [found] at some
        cases some
    · exact .inr not_false
  | some entry =>
    rw [found] at served
    have limit : ∀ router i, entry = .route router i →
        router.maxBodySize = service.maxBodySize := by
      rintro router i rfl
      exact Service.entry_route found
    by_cases within : body.Within service.maxBodySize
    · apply iff_of_true
      · constructor
        · intro _
          exact ⟨within, entry, found, served.trans (entry.serve_within parts w within limit)⟩
        · exact fun beyond => absurd within beyond
      · exact .inl within
    · rw [or_iff_right within, ← entry.serve_beyond parts w within limit]
      have served : service.call parts body w = entry.serve parts body w := served
      rw [← served]
      constructor
      · intro limits
        constructor
        · exact fun calls => within (limits.called calls).1
        · exact limits.refused within (by rw [found]; rfl)
      · rintro ⟨quiet, error⟩
        constructor
        · exact fun calls => absurd calls quiet
        · exact fun _ _ => error

/-- A direct handler is called with the empty message where the body breaks off. -/
theorem not_limits_broken :
    ¬ (Service.multiplexer echoMultiplexer).Limits (grpcParts listUser)
      { frames := [[0, 0, 0]], broken := true } () := by
  intro limits
  have run := GrpcMultiplexer.callGrpc_known ()
    (show echoMultiplexer.Known (grpcParts listUser).path _ from echo_known)
    { frames := [[0, 0, 0]], broken := true }
  have call : (Service.multiplexer echoMultiplexer).call (grpcParts listUser)
      { frames := [[0, 0, 0]], broken := true } () = callDirect echo [] () := run
  have calls : (callDirect echo [] () : Served Unit Unit Unit).Calls :=
    ⟨.direct echo [], List.mem_singleton_self _, trivial⟩
  rw [← call] at calls
  exact absurd (limits.called calls).1.whole (by simp)

end Typeway.Server
