import Typeway.Server.RestCall

/-!
# REST calls of async functions

`into_boxed_handler` makes a handler of a function whose arguments are extractors, and
`CallEndpoint` writes and reads the bodies of the endpoint for the client. Between them a call of
the client is a call of the function.
-/

namespace Typeway.Server

open Typeway.Core Client Grpc Attempts Checked Segments UrlReference

variable {W X : Type}

/-! ## Responses -/

/-- `IntoResponse` of `(StatusCode, String)` -/
def textResponse (status : Nat) (text : Str) : HttpReply where
  status := status
  headers := [(contentTypeName, Utf8.bytes "text/plain; charset=utf-8".toList)]
  body := Utf8.bytes text

/-- `serde_json::to_vec` and `from_slice` for a type. -/
structure SerdeType (T : Type) where
  toVec : T → Except Str (List UInt8)
  fromSlice : List UInt8 → Except Str T

/-- What is written of a value is read as the value. -/
def SerdeType.Restores {T : Type} (J : SerdeType T) (value : T) : Prop :=
  ∀ bytes, J.toVec value = .ok bytes → J.fromSlice bytes = .ok value

def jsonHeaders : HeaderMap :=
  [(contentTypeName, Utf8.bytes "application/json".toList)]

/-- `IntoResponse` of `Json<T>` -/
def jsonResponse {T : Type} (J : SerdeType T) (value : T) : HttpReply :=
  match J.toVec value with
  | .ok bytes => ⟨200, jsonHeaders, bytes⟩
  | .error e => ⟨500, [], Utf8.bytes ("JSON serialization error: ".toList ++ e)⟩

/-- `IntoResponse` of `Result<Json<T>, E>` -/
def resultResponse {T E : Type} (J : SerdeType T) (errorResponse : E → HttpReply) :
    Except E T → HttpReply
  | .ok value => jsonResponse J value
  | .error e => errorResponse e

/-! ## Extractors -/

section

variable (X)

/-- `FromRequestParts`, with the error as the response that it is made into. -/
abbrev FromRequestParts (T : Type) := HttpParts X → Except HttpReply T

/-- `FromRequest` -/
abbrev FromRequest (T : Type) := HttpParts X → List UInt8 → Except HttpReply T

end

/-- `Path<P>` below a router without a prefix. -/
def extractPath (P : PathSpec) : FromRequestParts X P.Captures := fun parts =>
  match P.extract (pathSegments parts.path) with
  | some captures => .ok captures
  | none =>
    .error (textResponse 400 ("failed to parse path segments for pattern: ".toList ++ P.pattern))

/-- One argument and those behind it. -/
def FromRequestParts.also {T U : Type} (first : FromRequestParts X T) (others : FromRequestParts X U) :
    FromRequestParts X (T × U) := fun parts =>
  match first parts with
  | .error rejection => .error rejection
  | .ok value => (others parts).map fun values => (value, values)

/-- The body of an endpoint: none, or a `Json<T>`. -/
inductive Payload : Type → Type 1 where
  | none : Payload Unit
  | json {T : Type} (J : SerdeType T) : Payload T

namespace Payload

variable {T : Type}

/-- `CallEndpoint::request_body` -/
def requestBody : {T : Type} → Payload T → T → Option (Except ClientError (List UInt8))
  | _, none, _ => .none
  | _, json J, value => some ((J.toVec value).mapError .serialize)

/-- The body extractor of the handler. -/
def fromRequest : {T : Type} → Payload T → FromRequest X T
  | _, none => fun _ _ => .ok ()
  | _, json J => fun _ body =>
    (J.fromSlice body).mapError fun e => textResponse 400 ("invalid JSON: ".toList ++ e)

/-- What goes over the wire for a value. -/
def Written (payload : Payload T) (value : T) (bytes : List UInt8) : Prop :=
  match payload.requestBody value with
  | some written => written = .ok bytes
  | .none => bytes = []

/-- The body extractor reads what the client writes. -/
def Restores : {T : Type} → Payload T → T → Prop
  | _, none, _ => True
  | _, json J, value => J.Restores value

theorem fromRequest_written {payload : Payload T} {value : T} {bytes : List UInt8}
    (written : payload.Written value bytes) (restores : payload.Restores value)
    (parts : HttpParts X) : payload.fromRequest parts bytes = .ok value := by
  cases payload with
  | none => rfl
  | json J =>
    have vec : J.toVec value = .ok bytes := by
      have mapped : (J.toVec value).mapError ClientError.serialize = .ok bytes := written
      cases vec : J.toVec value with
      | ok bytes' =>
        rw [vec] at mapped
        cases mapped
        rfl
      | error e =>
        rw [vec] at mapped
        cases mapped
    show (J.fromSlice bytes).mapError _ = _
    rw [restores bytes vec]
    rfl

end Payload

/-- `into_boxed_handler`: the arguments are extracted in their order, and the first that is
rejected ends the request. -/
def handlerCall {A B R : Type} (args : FromRequestParts X A) (fromRequest : FromRequest X B)
    (intoResponse : R → HttpReply) (f : A → B → W → R × W) : BoxedHandler W X HttpReply :=
  fun request w =>
    match args request.parts with
    | .error rejection => (rejection, w)
    | .ok a =>
      match fromRequest request.parts request.body with
      | .error rejection => (rejection, w)
      | .ok b => (intoResponse (f a b w).1, (f a b w).2)

/-! ## The client -/

section

variable {Res E T : Type} (J : SerdeType Res) (text : List UInt8 → Str)

/-- `CallEndpoint::parse_response` -/
def parseResponse (bytes : List UInt8) : Except ClientError Res :=
  (J.fromSlice bytes).mapError .deserialize

/-- `call_inner`, for a request that is answered. -/
def callInner (urlError : Str) (payload : Payload T) (url : Option Url) (value : T)
    (send : Url → List UInt8 → HttpReply) : Except ClientError (ResponseMeta × Res) := do
  let url ← (match url with
    | some url => .ok url
    | none => .error (.url urlError) : Except ClientError Url)
  let body ← (payload.requestBody value).getD (.ok [])
  readReply text (parseResponse J) (send url body)

/-- What a call makes of the result of the function. -/
def callOutcome (errorResponse : E → HttpReply) :
    Except E Res → Except ClientError (ResponseMeta × Res)
  | .ok value =>
    match J.toVec value with
    | .ok _ => .ok (⟨200, jsonHeaders⟩, value)
    | .error e =>
      .error (.status 500 (text (Utf8.bytes ("JSON serialization error: ".toList ++ e))))
  | .error e => readReply text (parseResponse J) (errorResponse e)

variable {J}

theorem readReply_resultResponse (errorResponse : E → HttpReply) {result : Except E Res}
    (restores : ∀ value, result = .ok value → J.Restores value) :
    readReply text (parseResponse J) (resultResponse J errorResponse result) =
      callOutcome J text errorResponse result := by
  cases result with
  | error e => rfl
  | ok value =>
    rw [resultResponse, jsonResponse, callOutcome]
    cases vec : J.toVec value with
    | error e => rfl
    | ok bytes =>
      have same := restores value rfl bytes vec
      dsimp only
      rw [readReply, if_pos ⟨Nat.le_refl 200, show 200 ≤ 299 by omega⟩, parseResponse, same]
      rfl

theorem callInner_written (urlError : Str) {payload : Payload T} {value : T} {bytes : List UInt8}
    (written : payload.Written value bytes) (url : Url) (send : Url → List UInt8 → HttpReply) :
    callInner J text urlError payload (some url) value send =
      readReply text (parseResponse J) (send url bytes) := by
  have body : (payload.requestBody value).getD (.ok []) = .ok bytes := by
    unfold Payload.Written at written
    cases requested : payload.requestBody value with
    | none =>
      rw [requested] at written
      rw [written]
      rfl
    | some sent =>
      rw [requested] at written
      exact written
  rw [callInner, body]
  rfl

end

/-! ## Calls -/

section

variable {P : PathSpec} {A T E Res : Type} (J : SerdeType Res) (errorResponse : E → HttpReply)
  (others : FromRequestParts X A) (payload : Payload T)
  (f : P.Captures × A → T → W → Except E Res × W)

/-- A function of the captures, other arguments and the body, bound to an endpoint. -/
def typedHandler : BoxedHandler W X HttpReply :=
  handlerCall ((extractPath P).also others) payload.fromRequest (resultResponse J errorResponse) f

variable {J errorResponse others payload f}

theorem typedHandler_eq {request : HttpRequest X} {c : P.Captures} {rest : A} {value : T}
    (extracted : P.extract (pathSegments request.parts.path) = some c)
    (alongside : others request.parts = .ok rest)
    (read : payload.fromRequest request.parts request.body = .ok value) (w : W) :
    typedHandler J errorResponse others payload f request w =
      (resultResponse J errorResponse (f (c, rest) value w).1, (f (c, rest) value w).2) := by
  have args : (extractPath P).also others request.parts = .ok (c, rest) := by
    rw [FromRequestParts.also, extractPath, extracted]
    dsimp only
    rw [alongside]
    rfl
  rw [typedHandler, handlerCall, args]
  dsimp only
  rw [read]

/-- **A REST call is a call of the function**: every attempt calls it once, with the captures and
the body of the caller, and the caller gets what the last call of it returned, or its error. -/
theorem restCall_typed {router : Router W X HttpReply} {method : Method} {B : Callable P}
    {c : P.Captures} {body : Incoming}
    (callee : Callee router method B c (typedHandler J errorResponse others payload f) body)
    {R : Type} {T' : Clock R} {NonNegative : R → Prop} (documented : T'.Documented NonNegative)
    (policy : RetryPolicy R) (tame : policy.Tame NonNegative) (text : List UInt8 → Str) (urlError : Str)
    (encodePair : Str × Str → Str) (parseAuthority : Str → Option Authority) (base : Url)
    (overrides : CallOverrides) {parts : HttpParts X} {rest : A} {value : T} (w : W)
    (send : Nat → Url → List UInt8 → HttpReply) (posted : parts.method = method)
    (arrived : ∀ url, requestUrl encodePair parseAuthority base (buildPath (B.displays c) P.pattern)
      overrides = some url → parts.path = requestPath url)
    (sent : payload.Written value body.frames.flatten) (restores : payload.Restores value)
    (alongside : others (router.handlerParts parts) = .ok rest)
    (returns : ∀ w' result, (f (c, rest) value w').1 = .ok result → J.Restores result)
    (answered : ∀ n url response,
      (router.route parts body (worldAt (router.route parts body) w n)).answer = .rest response →
        send n url body.frames.flatten = response) :
    let run := f (c, rest) value
    let outcomes n := callOutcome J text errorResponse (run ((fun w' => (run w').2)^[n] w)).1
    let url := requestUrl encodePair parseAuthority base (buildPath (B.displays c) P.pattern) overrides
    ∃ last, Last policy.again outcomes policy.maxRetries.toNat last ∧
      worldAt (router.route parts body) w (last + 1) = (fun w' => (run w').2)^[last + 1] w ∧
      call T' policy (fun n => callInner J text urlError payload url value (send n)) 0 =
        (lift (callReport policy (outcomes last)), last + 1) := by
  intro run outcomes url
  obtain ⟨found, requested, -, -, own⟩ := Callable.requestUrl_plain encodePair parseAuthority base
    overrides callee.fits callee.nonempty callee.plain
  have path : parts.path = joined '/' (B.pieces c) := (arrived found requested).trans own
  have served (w' : W) : router.route parts body w' =
      ⟨[.handler (typedHandler J errorResponse others payload f)
          ⟨router.handlerParts parts, body.frames.flatten⟩],
        .rest (resultResponse J errorResponse (run w').1), (run w').2⟩ := by
    have extracted : P.extract (pathSegments (router.handlerParts parts).path) = some c := by
      rw [handlerParts_path, path, callee.segments, B.extract_pieces]
    rw [callee.reached posted path,
      typedHandler_eq extracted alongside (Payload.fromRequest_written sent restores _)]
  have world (n : Nat) : worldAt (router.route parts body) w n = (fun w' => (run w').2)^[n] w := by
    induction n with
    | zero => rfl
    | succ n ih => rw [worldAt, ih, served, Function.iterate_succ_apply']
  have attempts : (fun n => callInner J text urlError payload url value (send n)) = outcomes := by
    funext n
    have reply : send n found body.frames.flatten =
        resultResponse J errorResponse (run ((fun w' => (run w').2)^[n] w)).1 :=
      answered n found _ (by rw [world, served])
    show callInner J text urlError payload url value (send n) = _
    rw [show url = some found from requested, callInner_written text urlError sent, reply]
    exact readReply_resultResponse text errorResponse (returns _)
  obtain ⟨last, ends, called⟩ := call_last documented tame outcomes
  refine ⟨last, ends, world (last + 1), ?_⟩
  rw [attempts, called]

end

/-! ## A flag that is turned over -/

def flagJson : SerdeType Bool where
  toVec flag := .ok (Utf8.bytes (if flag then "true".toList else "false".toList))
  fromSlice bytes :=
    if bytes = Utf8.bytes "true".toList then .ok true
    else if bytes = Utf8.bytes "false".toList then .ok false
    else .error "expected a boolean".toList

theorem flagJson_restores (flag : Bool) : flagJson.Restores flag := by
  intro bytes written
  cases written
  cases flag <;> rfl

/-- `POST /users/{}` turns the flag of a user over, and is busy at first. -/
def turnFlag (_ : namedUserPath.Captures × Unit) (flag : Bool) (calls : Nat) : Except Unit Bool × Nat :=
  (if calls = 0 then .error () else .ok !flag, calls + 1)

def turnFlagHandler : BoxedHandler Nat Unit HttpReply :=
  typedHandler flagJson (fun _ => textResponse 503 "busy".toList) (fun _ => .ok ()) (.json flagJson)
    turnFlag

def flagsRouter : Router Nat Unit HttpReply where
  matchit := .documented
  inner := .calls .documented [.addRoute (.ofPath .post namedUserPath turnFlagHandler)]
  insertPrefixOffset _ x := x
  stateInjector := none
  fallback := none
  maxBodySize := 16

def postFlag : HttpParts Unit where
  method := .post
  path := "/users/ann".toList
  headers := jsonHeaders
  extensions := ()

def trueBody : Incoming where
  frames := [Utf8.bytes "true".toList]
  broken := false

theorem flagsRouter_callee :
    Callee flagsRouter .post callUser ("ann".toList, ()) turnFlagHandler trueBody where
  calls := ⟨_, rfl⟩
  unprefixed := rfl
  registered := by
    refine ⟨0, rfl, fun j other there ne bucket => ?_⟩
    match j with
    | 0 => exact absurd rfl ne
    | j + 1 => cases there
  own := by decide
  fits := usersRouter_callee.fits
  nonempty := usersRouter_callee.nonempty
  plain := usersRouter_callee.plain
  within := by decide

theorem turnFlagHandler_eq (calls : Nat) :
    turnFlagHandler ⟨flagsRouter.handlerParts postFlag, trueBody.frames.flatten⟩ calls =
      (resultResponse flagJson (fun _ => textResponse 503 "busy".toList)
        (turnFlag (("ann".toList, ()), ()) true calls).1, calls + 1) := rfl

theorem flagsRouter_route (calls : Nat) :
    flagsRouter.route postFlag trueBody calls =
      ⟨[.handler turnFlagHandler ⟨flagsRouter.handlerParts postFlag, trueBody.frames.flatten⟩],
        .rest (resultResponse flagJson (fun _ => textResponse 503 "busy".toList)
          (turnFlag (("ann".toList, ()), ()) true calls).1), calls + 1⟩ := by
  rw [flagsRouter_callee.reached rfl rfl, turnFlagHandler_eq]

/-- The response to the attempt of a number. -/
def flagReply (n : Nat) (_ : Url) (_ : List UInt8) : HttpReply :=
  resultResponse flagJson (fun _ => textResponse 503 "busy".toList)
    (turnFlag (("ann".toList, ()), ()) true n).1

theorem worldAt_flagsRouter (n : Nat) :
    worldAt (flagsRouter.route postFlag trueBody) 0 n = n := by
  induction n with
  | zero => rfl
  | succ n ih => rw [worldAt, ih, flagsRouter_route]

/-- The second call of the function is answered. -/
theorem restCall_typed_turnFlag :
    call exactClock twoAttempts (fun n => callInner flagJson (fun _ => []) [] (.json flagJson)
      (requestUrl (fun _ => []) (fun _ => none) apiBase
        (buildPath (callUser.displays ("ann".toList, ())) namedUserPath.pattern) {}) true
      (flagReply n)) 0 = (.ok false, 2) := by
  obtain ⟨last, ends, -, run⟩ := restCall_typed flagsRouter_callee exactClock_documented
    twoAttempts twoAttempts_tame (fun _ => []) []
    (fun _ => []) (fun _ => none) apiBase {} 0 flagReply
    (show postFlag.method = _ from rfl) (fun url requested => by cases requested; rfl)
    (show Payload.Written _ true _ from rfl) (flagJson_restores true) (show _ = Except.ok () from rfl)
    (fun _ flag _ => flagJson_restores flag) fun n url response answer => by
      rw [worldAt_flagsRouter, flagsRouter_route] at answer
      exact Answer.rest.inj answer
  obtain rfl : last = 1 := ends.second (Nat.le_refl 1) rfl fun _ => rfl
  exact run.trans rfl

end Typeway.Server
