import Typeway.Client.BaseUrl
import Typeway.Server.Connected
import Typeway.Server.Resolve

/-!
# REST calls from end to end

The client of `client.rs` builds the path of an endpoint from its captures and joins it to the base
URL; the router picks a route by the path that arrives, and the handler of the endpoint reads the
captures back. Calls are repeated under the policy of the client.
-/

namespace Typeway.Client

open Typeway.Core Grpc Attempts Checked Segments UrlReference

/-- A response as it arrives. -/
structure HttpReply where
  status : Nat
  headers : HeaderMap
  body : List UInt8

section

variable {B R : Type} (T : Clock R) (policy : RetryPolicy R)

/-- `call_inner` from the response on. -/
def readReply (text : List UInt8 → Str) (parseResponse : List UInt8 → Except ClientError B)
    (response : HttpReply) : Except ClientError (ResponseMeta × B) :=
  if 200 ≤ response.status ∧ response.status ≤ 299 then
    (parseResponse response.body).map fun body => (⟨response.status, response.headers⟩, body)
  else .error (.status response.status (text response.body))

/-- `Client::call` -/
def call (callInner : Nat → Except ClientError (ResponseMeta × B)) :
    StateM Nat (Run ClientError B) := do
  if policy.maxRetries = 0 then pure (lift ((← attempt callInner).map Prod.snd))
  else pure ((← callWithRetryFull T policy callInner).map TypedResponse.body)

/-- What a call makes of the outcome of its last attempt. -/
def callReport (outcome : Except ClientError (ResponseMeta × B)) : Except ClientError B :=
  if policy.maxRetries = 0 then outcome.map Prod.snd
  else (policy.report typedResponse outcome).map TypedResponse.body

theorem call_last {T : Clock R} {NonNegative : R → Prop} (documented : T.Documented NonNegative)
    {policy : RetryPolicy R} (tame : policy.Tame NonNegative)
    (callInner : Nat → Except ClientError (ResponseMeta × B)) :
    ∃ last, Last policy.again callInner policy.maxRetries.toNat last ∧
      call T policy callInner 0 = (lift (callReport policy (callInner last)), last + 1) := by
  by_cases once : policy.maxRetries = 0
  · have first : call T policy callInner 0 = (lift ((callInner 0).map Prod.snd), 1) := by
      rw [call, if_pos once]
      rfl
    refine ⟨0, ⟨Nat.zero_le _, fun n below => absurd below (Nat.not_lt_zero n), fun _ => ?_⟩, ?_⟩
    · rw [once]
      rfl
    · rw [first, callReport, if_pos once]
  · obtain ⟨last, ends, run⟩ := repeated_last policy.again callInner policy.maxRetries.toNat 0
    simp only [Nat.zero_add] at ends run
    have full : callWithRetryFull T policy callInner 0 =
        (lift (policy.report typedResponse (callInner last)), last + 1) := by
      rw [callWithRetryFull, callWithRetryWith_eq documented tame, run]
    have all : call T policy callInner 0 = ((callWithRetryFull T policy callInner 0).1.map
        TypedResponse.body, (callWithRetryFull T policy callInner 0).2) := by
      rw [call, if_neg once]
      rfl
    refine ⟨last, ends, ?_⟩
    rw [all, full, callReport, if_neg once]
    cases policy.report typedResponse (callInner last) <;> rfl

end

/-! ## The path on its way -/

theorem ofNat_bytes {piece : Str} (plain : Plain piece) :
    (Utf8.bytes piece).map (fun b => Char.ofNat b.toNat) = piece := by
  have ascii : ∀ c ∈ piece, c.toNat < 128 := fun c mem => ascii_of_isPlain (plain.chars c mem)
  have each : ∀ c ∈ piece, Char.ofNat (UInt8.ofNat c.toNat).toNat = c := by
    intro c mem
    have small : c.toNat < UInt8.size := by
      have low := ascii c mem
      unfold UInt8.size
      omega
    rw [UInt8.toNat_ofNat_of_lt' small, Char.ofNat_toNat]
  rw [Utf8.bytes_ascii ascii, List.map_map]
  exact (List.map_congr_left each).trans (List.map_id _)

/-- The path that a server finds in a request for the URL. -/
def requestPath (url : Url) : Str :=
  joined '/' (url.path.map fun segment => segment.map fun b => Char.ofNat b.toNat)

namespace Callable

variable {P : PathSpec} {B : Callable P} {c : P.Captures}

theorem buildPath_eq (fits : B.Fits c) :
    buildPath (B.displays c) P.pattern = joined '/' (B.pieces c) := by
  rw [B.pattern_eq c, displays_eq]
  exact (Template.fill_eq_iff (by decide) (by decide) (whole_of_clean fits.clean)).2 fits.inOrder

/-- Captures that a URL shows as they are lead to their own path on the base URL. -/
theorem requestUrl_plain (encodePair : Str × Str → Str) (parseAuthority : Str → Option Authority)
    (base : Url) (overrides : CallOverrides) (fits : B.Fits c) (some : B.pieces c ≠ [])
    (plain : ∀ piece ∈ B.pieces c, Plain piece) :
    ∃ url, requestUrl encodePair parseAuthority base (buildPath (B.displays c) P.pattern) overrides =
        Option.some url ∧ url.scheme = base.scheme ∧ url.authority = base.authority ∧
      requestPath url = joined '/' (B.pieces c) := by
  rw [requestUrl, buildPath_eq fits, join_joined parseAuthority base some plain, Option.map_some]
  refine ⟨_, rfl, rfl, rfl, ?_⟩
  have each : ∀ piece ∈ B.pieces c, (Utf8.bytes piece).map (fun b => Char.ofNat b.toNat) = piece :=
    fun piece mem => ofNat_bytes (plain piece mem)
  rw [requestPath, List.map_map]
  exact congrArg (joined '/') ((List.map_congr_left each).trans (List.map_id _))

end Callable

end Typeway.Client

namespace Typeway.Server

open Typeway.Core Client Attempts Checked Segments UrlReference

variable {W X H : Type}

/-! ## Routes that stand alone -/

/-- A path that fits the pattern of one route of a bucket only leads there. -/
theorem resolve_alone {M : Matchit} {inner : RouterInner H} (consistent : inner.Consistent)
    {path : Str} {i : Nat} {route : RouteEntry H} (here : inner.routes[i]? = some route)
    (own : M.fits (toMatchitPattern route.pattern) path = true)
    (accepts : route.matchFn (pathSegments path) = true)
    (alone : ∀ j other, inner.routes[j]? = some other → j ≠ i →
      other.method.bucket = route.method.bucket →
        M.fits (toMatchitPattern other.pattern) path = false ∧
          other.matchFn (pathSegments path) = false) :
    resolve M inner route.method path = .hit i := by
  have own' : matches? inner.routes (pathSegments path) i = true :=
    matches?_eq_true.2 ⟨route, here, accepts⟩
  have only (j : Nat) (picked : (inner.methodIndex route.method.bucket).trie.at? M path = some j) :
      j = i := by
    obtain ⟨pattern, mem, fits⟩ := Trie.at?_some picked
    obtain ⟨other, there, bucket, rfl⟩ := consistent.trie mem
    by_contra ne
    rw [(alone j other there ne bucket).1] at fits
    cases fits
  rw [resolve_eq_hit, lookupInBucket_eq_some]
  cases at? : (inner.methodIndex route.method.bucket).trie.at? M path with
  | some j =>
    obtain rfl := only j at?
    exact .inl ⟨at?, own'⟩
  | none =>
    have beside : i ∈ (inner.methodIndex route.method.bucket).fallback := by
      rcases consistent.listed here with mem | beside
      · rw [Trie.at?_none at? mem] at own
        cases own
      · exact beside
    refine .inr ⟨?_, ?_⟩
    · rintro ⟨j, picked, -⟩
      rw [at?] at picked
      cases picked
    · obtain ⟨j, first⟩ := Option.isSome_iff_exists.1
        (List.find?_isSome.2 ⟨i, beside, own'⟩)
      obtain ⟨other, there, bucket⟩ := consistent.fallback (List.mem_of_find?_eq_some first)
      obtain ⟨other', there', accepted⟩ := matches?_eq_true.1 (List.find?_some first)
      cases there.symm.trans there'
      by_cases same : j = i
      · rw [FirstBeside, first, same]
      · rw [(alone j other there same bucket).2] at accepted
        cases accepted

/-! ## Calls -/

section

variable (router : Router W X HttpReply) (method : Method) {P : PathSpec} (B : Callable P)
  (c : P.Captures) (handler : BoxedHandler W X HttpReply) (body : Incoming)

/-- An endpoint of the router, captures that a URL shows as they are, and a body within the limit.
The path of the endpoint fits its own pattern and no other of its method. -/
structure Callee : Prop where
  calls : ∃ calls, router.inner = RouterInner.calls router.matchit calls
  unprefixed : router.inner.prefixStr = none
  registered : ∃ i : Nat, router.inner.routes[i]? = some (RouteEntry.ofPath method P handler) ∧
    ∀ (j : Nat) (other : RouteEntry (BoxedHandler W X HttpReply)),
      router.inner.routes[j]? = some other → j ≠ i → other.method.bucket = method.bucket →
        router.matchit.fits (toMatchitPattern other.pattern) (joined '/' (B.pieces c)) = false ∧
          other.matchFn (B.pieces c) = false
  own : router.matchit.fits (toMatchitPattern P.pattern) (joined '/' (B.pieces c)) = true
  fits : B.Fits c
  nonempty : B.pieces c ≠ []
  plain : ∀ piece ∈ B.pieces c, UrlReference.Plain piece
  within : body.Within router.maxBodySize

variable {router method B c handler body}

theorem Callee.segments (callee : Callee router method B c handler body) :
    pathSegments (joined '/' (B.pieces c)) = B.pieces c := by
  have split := segments_joined callee.fits.clean (.inl rfl)
  rw [List.append_nil, segments_nil, List.append_nil] at split
  exact split

/-- The router takes the path for the endpoint. -/
theorem Callee.hit (callee : Callee router method B c handler body) :
    ∃ i : Nat, router.inner.routes[i]? = some (RouteEntry.ofPath method P handler) ∧
      Server.route router.matchit router.inner method (joined '/' (B.pieces c)) = .hit i := by
  obtain ⟨calls, inner⟩ := callee.calls
  obtain ⟨i, here, alone⟩ := callee.registered
  have consistent : router.inner.Consistent := by
    rw [inner]
    exact .calls calls
  have accepts : (RouteEntry.ofPath method P handler).matchFn
      (pathSegments (joined '/' (B.pieces c))) = true := by
    rw [callee.segments]
    show (P.extract (B.pieces c)).isSome = true
    rw [B.extract_pieces]
    rfl
  refine ⟨i, here, ?_⟩
  obtain ⟨piece, others, pieces⟩ := List.exists_cons_of_ne_nil callee.nonempty
  have path : (joined '/' (B.pieces c)).isEmpty = false := by
    rw [pieces]
    rfl
  rw [Server.route, callee.unprefixed, stripPrefix, path, if_neg Bool.false_ne_true]
  refine resolve_alone consistent here callee.own accepts fun j other there ne bucket => ?_
  rw [callee.segments]
  exact alone j other there ne bucket

/-- Every request for the path calls the handler of the endpoint. -/
theorem Callee.reached (callee : Callee router method B c handler body) {parts : HttpParts X}
    (posted : parts.method = method) (path : parts.path = joined '/' (B.pieces c)) (w : W) :
    let request : HttpRequest X := ⟨router.handlerParts parts, body.frames.flatten⟩
    router.route parts body w =
      ⟨[.handler handler request], .rest (handler request w).1, (handler request w).2⟩ := by
  intro request
  obtain ⟨i, here, hit⟩ := callee.hit
  rw [Router.route, posted, path, hit]
  dsimp only
  rw [Incoming.collectBodyLimited_eq, if_pos callee.within]
  dsimp only
  rw [Router.callHandler, here]
  rfl

theorem handlerParts_path (parts : HttpParts X) : (router.handlerParts parts).path = parts.path := by
  unfold Router.handlerParts injectState
  cases router.stateInjector <;> cases router.inner.prefixStr <;> rfl

/-- **A REST call from end to end**: the request goes to the host of the base URL, every attempt
runs the handler of the endpoint once, which reads the captures of the caller, and the caller gets
what the last response is read as, or its error. -/
theorem restCall_connected {D R : Type} (callee : Callee router method B c handler body)
    {T : Clock R} {NonNegative : R → Prop} (documented : T.Documented NonNegative)
    (policy : RetryPolicy R) (tame : policy.Tame NonNegative) (text : List UInt8 → Str)
    (parseResponse : List UInt8 → Except ClientError D)
    (encodePair : Str × Str → Str) (parseAuthority : Str → Option Authority) (base : Url)
    (overrides : CallOverrides) {parts : HttpParts X} (w : W) (posted : parts.method = method)
    (arrived : ∀ url, requestUrl encodePair parseAuthority base (buildPath (B.displays c) P.pattern)
      overrides = some url → parts.path = requestPath url) :
    let request : HttpRequest X := ⟨router.handlerParts parts, body.frames.flatten⟩
    let callInner n := readReply text parseResponse
      (handler request (worldAt (router.route parts body) w n)).1
    (∃ url, requestUrl encodePair parseAuthority base (buildPath (B.displays c) P.pattern)
        overrides = some url ∧ url.scheme = base.scheme ∧ url.authority = base.authority) ∧
      P.extract (pathSegments request.parts.path) = some c ∧
      ∃ last, Last policy.again callInner policy.maxRetries.toNat last ∧
        eventsOf (router.route parts body) w (last + 1) =
          List.replicate (last + 1) (.handler handler request) ∧
        call T policy callInner 0 = (lift (callReport policy (callInner last)), last + 1) := by
  intro request callInner
  obtain ⟨url, requested, scheme, authority, own⟩ := Callable.requestUrl_plain encodePair
    parseAuthority base overrides callee.fits callee.nonempty callee.plain
  have path : parts.path = joined '/' (B.pieces c) := (arrived url requested).trans own
  obtain ⟨last, ends, run⟩ := call_last documented tame callInner
  refine ⟨⟨url, requested, scheme, authority⟩, ?_, last, ends, ?_, run⟩
  · show P.extract (pathSegments (router.handlerParts parts).path) = some c
    rw [handlerParts_path, path, callee.segments, B.extract_pieces]
  · apply eventsOf_constant
    intro w
    rw [callee.reached posted path]

end

/-! ## A server that is busy at first -/

/-- `GET /users/{}` -/
def namedUserPath : PathSpec :=
  .lit "users".toList (.capture .string .hnil)

def callUser : Callable namedUserPath :=
  .lit _ (.capture .string .hnil)

/-- Its world counts the calls. -/
def busyOnce : BoxedHandler Nat Unit HttpReply := fun _ calls =>
  (if calls = 0 then ⟨503, [], []⟩ else ⟨200, [], [42]⟩, calls + 1)

/-- Another path of the same method, and another method of the same path. -/
def usersRouter : Router Nat Unit HttpReply where
  matchit := .documented
  inner := .calls .documented
    [.addRoute (.ofPath .get (.lit "teams".toList (.capture .string .hnil)) busyOnce),
      .addRoute (.ofPath .delete namedUserPath busyOnce), .addRoute (.ofPath .get namedUserPath busyOnce)]
  insertPrefixOffset _ x := x
  stateInjector := none
  fallback := none
  maxBodySize := 16

def askUser : HttpParts Unit where
  method := .get
  path := "/users/ann".toList
  headers := []
  extensions := ()

theorem usersRouter_callee :
    Callee usersRouter .get callUser ("ann".toList, ()) busyOnce ⟨[], false⟩ where
  calls := ⟨_, rfl⟩
  unprefixed := rfl
  registered := by
    refine ⟨2, rfl, fun j other there ne bucket => ?_⟩
    match j with
    | 0 =>
      cases there
      decide
    | 1 =>
      cases there
      cases bucket
    | 2 => exact absurd rfl ne
    | j + 3 => cases there
  own := by decide
  fits := by
    constructor
    · unfold Clean
      decide
    · exact ⟨by decide, by decide, trivial⟩
  nonempty := by decide
  plain := by
    intro piece mem
    rcases List.mem_cons.1 mem with rfl | mem
    · exact ⟨by decide, List.all_eq_true.1 rfl, rfl, rfl⟩
    · rw [List.mem_singleton.1 mem]
      exact ⟨by decide, List.all_eq_true.1 rfl, rfl, rfl⟩
  within := by decide

theorem worldAt_busyOnce (n : Nat) :
    worldAt (usersRouter.route askUser ⟨[], false⟩) 0 n = n := by
  induction n with
  | zero => rfl
  | succ n ih =>
    rw [worldAt, ih, usersRouter_callee.reached rfl rfl]
    rfl

/-- The first response asks for another attempt, and the second is read. -/
theorem restCall_connected_busyOnce :
    let callInner n := readReply (fun _ => []) Except.ok
      (busyOnce ⟨askUser, []⟩ (worldAt (usersRouter.route askUser ⟨[], false⟩) 0 n)).1
    namedUserPath.extract (pathSegments askUser.path) = some ("ann".toList, ()) ∧
      eventsOf (usersRouter.route askUser ⟨[], false⟩) 0 2 =
        List.replicate 2 (.handler busyOnce ⟨askUser, []⟩) ∧
      call exactClock twoAttempts callInner 0 = (.ok [42], 2) := by
  intro callInner
  obtain ⟨-, extracted, last, ends, events, run⟩ := restCall_connected usersRouter_callee
    exactClock_documented twoAttempts twoAttempts_tame (fun _ => []) Except.ok (fun _ => [])
    (fun _ => none) apiBase {} 0
    (show askUser.method = _ from rfl) fun url requested => by cases requested; rfl
  have first : twoAttempts.again (callInner 0) = true := rfl
  obtain rfl : last = 1 := ends.second (Nat.le_refl 1) first fun _ => rfl
  have second : callInner 1 = .ok (⟨200, []⟩, [42]) := by
    show readReply _ _ (busyOnce ⟨askUser, []⟩ (worldAt _ 0 1)).1 = _
    rw [worldAt_busyOnce]
    rfl
  refine ⟨extracted, events, run.trans ?_⟩
  show (lift (callReport twoAttempts (callInner 1)), 2) = _
  rw [second]
  rfl

end Typeway.Server
