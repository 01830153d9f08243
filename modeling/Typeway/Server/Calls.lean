import Typeway.Base.Checked
import Typeway.Grpc.Framing
import Typeway.Grpc.Timeout
import Typeway.Server.GrpcDispatch
import Typeway.Server.SyntheticRequest
import Typeway.Server.Typed

/-!
# How a request ends in a call of a handler

`router.rs`, `grpc_dispatch.rs`, `grpc_direct.rs` and `axum_interop.rs`: the services collect the
body of a request, and what is left of it after decoding and middleware is given to a handler.
A service yields the calls it makes, in order, and the response. Middleware and handlers are
functions that may also change a world of type `W`, so that the same function need not answer
twice in the same way.
-/

namespace Typeway.Server

open Typeway.Core Grpc Json

/-- A request whose body has been collected. -/
structure HttpRequest (X : Type) where
  parts : HttpParts X
  body : List UInt8

/-- A body as it comes in: frames of data, and then its end or an error. -/
structure Incoming where
  frames : List (List UInt8)
  broken : Bool

namespace Incoming

/-- `body.collect()` -/
def collect (body : Incoming) : Option (List UInt8) :=
  if body.broken then none else some body.frames.flatten

/-- `Err(_) => Bytes::new()`, or `unwrap_or_default()`. -/
def collectOrEmpty (body : Incoming) : List UInt8 :=
  body.collect.getD []

/-- The whole body arrives, and is not longer than allowed. -/
structure Within (maxBytes : Nat) (body : Incoming) : Prop where
  whole : body.broken = false
  fits : body.frames.flatten.length ≤ maxBytes

instance (maxBytes : Nat) (body : Incoming) : Decidable (body.Within maxBytes) :=
  decidable_of_iff (body.broken = false ∧ body.frames.flatten.length ≤ maxBytes)
    ⟨fun h => ⟨h.1, h.2⟩, fun h => ⟨h.whole, h.fits⟩⟩

theorem collectOrEmpty_whole {body : Incoming} (whole : body.broken = false) :
    body.collectOrEmpty = body.frames.flatten := by
  rw [collectOrEmpty, collect, whole]
  rfl

end Incoming

/-- `Limited` as it is documented: the frames of a body are let through as long as there are no more
bytes than allowed, and more of them are an error. -/
structure Limited where
  frames : Nat → List (List UInt8) → Option (List (List UInt8))
  within : ∀ {maxBytes : Nat} {body : List (List UInt8)}, body.flatten.length ≤ maxBytes →
    frames maxBytes body = some body
  beyond : ∀ {maxBytes : Nat} {body : List (List UInt8)}, maxBytes < body.flatten.length →
    frames maxBytes body = none

def Limited.documented : Limited where
  frames maxBytes body := if body.flatten.length ≤ maxBytes then some body else none
  within fits := if_pos fits
  beyond more := if_neg (Nat.not_le.2 more)

namespace Incoming

/-- `collect_body_limited` -/
def collectBodyLimited (limited : Limited) (maxBytes : Nat) (body : Incoming) : Option (List UInt8) :=
  match limited.frames maxBytes body.frames with
  | some frames => collect { body with frames }
  | none => none

/-- A body is read within the limit or not at all. -/
theorem collectBodyLimited_eq (limited : Limited) (maxBytes : Nat) (body : Incoming) :
    body.collectBodyLimited limited maxBytes =
      if body.Within maxBytes then some body.frames.flatten else none := by
  rw [collectBodyLimited]
  by_cases fits : body.frames.flatten.length ≤ maxBytes
  · rw [limited.within fits]
    cases whole : body.broken with
    | false => simp [collect, Within.mk whole fits]
    | true =>
      rw [if_neg fun within => absurd within.whole (by simp [whole])]
      simp [collect]
  · rw [limited.beyond (Nat.not_le.1 fits), if_neg fun within => fits within.fits]

end Incoming

/-- The codes the dispatcher uses. -/
inductive GrpcCode where
  | ok
  | invalidArgument
  | deadlineExceeded
  | unimplemented
  deriving DecidableEq

structure GrpcStatus where
  code : GrpcCode
  message : Str
  deriving DecidableEq

section

variable (W X R : Type)

abbrev BoxedHandler := HttpRequest X → W → R × W

/-- The request to go on with, or a response to end with. -/
abbrev GrpcMiddleware := HttpRequest X → W → Except R (HttpRequest X) × W

/-- Decodes a message, and on success calls its function, which yields the encoded response. -/
abbrev DirectHandler := List UInt8 → Checked.Run GrpcStatus (W → List UInt8 × W)

/-- The calls a service makes. -/
inductive Event where
  | middleware (run : GrpcMiddleware W X R) (arrived : HttpRequest X)
      (returned : Except R (HttpRequest X))
  | handler (run : BoxedHandler W X R) (arrived : HttpRequest X)
  | direct (run : DirectHandler W) (message : List UInt8)
  | reflection (request : List UInt8)

/-- What the response is made from. -/
inductive Answer where
  /-- The specification and the documentation page. -/
  | document (text : Str)
  /-- `grpc_json_response` of the built-in services. -/
  | builtIn (json : Str)
  /-- `grpc_error_response` -/
  | grpcError (status : GrpcStatus)
  /-- The error response of `dispatch_direct`. -/
  | directError (status : GrpcStatus)
  /-- The framed response of a direct handler. -/
  | direct (framed : List UInt8)
  /-- The response of a middleware that returned `Err`. -/
  | shortCircuit (response : R)
  /-- A handler's response, which `wrap_response_as_grpc` goes on with. -/
  | wrapped (response : R)
  /-- A handler's response, or that of the fallback service. -/
  | rest (response : R)
  | notFound
  | methodNotAllowed
  | payloadTooLarge
  /-- A decoder panicked, and the connection is closed. -/
  | panicked

structure Served where
  events : List (Event W X R)
  answer : Answer R
  world : W

end

variable {W X R : Type}

/-- A handler is called: the events of a service that are not middleware. -/
def Event.IsCall : Event W X R → Prop
  | .middleware _ _ _ => False
  | _ => True

/-- The responses that report a failure. The response a middleware ends a request with counts as a
gRPC error status, whatever it says. -/
def Answer.IsError : Answer R → Prop
  | .grpcError _ | .directError _ | .shortCircuit _ | .notFound | .methodNotAllowed
  | .payloadTooLarge => True
  | _ => False

/-! ### REST -/

/-- `Router` with the parts of its state that calls depend on. -/
structure Router (W X R : Type) where
  matchit : Matchit
  inner : RouterInner (BoxedHandler W X R)
  /-- `extensions.insert(PathPrefixOffset(_))` -/
  insertPrefixOffset : Nat → X → X
  stateInjector : Option (X → X)
  fallback : Option (HttpParts X → Incoming → W → R × W)
  limited : Limited := .documented
  maxBodySize : Nat

/-- The state is put into the extensions. -/
def injectState (stateInjector : Option (X → X)) (parts : HttpParts X) : HttpParts X :=
  match stateInjector with
  | some injector => { parts with extensions := injector parts.extensions }
  | none => parts

namespace Router

variable (router : Router W X R)

/-- The extensions that a handler of the router finds. -/
def handlerParts (parts : HttpParts X) : HttpParts X :=
  injectState router.stateInjector <|
    match router.inner.prefixStr with
    | some pre =>
      { parts with extensions := router.insertPrefixOffset (byteLen pre) parts.extensions }
    | none => parts

/-- `(inner.routes[i].handler)(parts, body_bytes)` -/
def callHandler (i : Nat) (parts : HttpParts X) (body : List UInt8) (w : W) : Served W X R :=
  match router.inner.routes[i]? with
  | some entry =>
    let request := { parts := router.handlerParts parts, body }
    let (response, w) := entry.handler request w
    ⟨[.handler entry.handler request], .rest response, w⟩
  | none => ⟨[], .panicked, w⟩

def route (parts : HttpParts X) (body : Incoming) (w : W) : Served W X R :=
  match Server.route router.matchit router.inner parts.method parts.path with
  | .hit i =>
    match body.collectBodyLimited router.limited router.maxBodySize with
    | some bytes => router.callHandler i parts bytes w
    | none => ⟨[], .payloadTooLarge, w⟩
  | .methodNotAllowed => ⟨[], .methodNotAllowed, w⟩
  | .notFound =>
    match router.fallback with
    | some fallback =>
      let (response, w) := fallback parts body w
      ⟨[], .rest response, w⟩
    | none => ⟨[], .notFound, w⟩

def routeWithBytes (parts : HttpParts X) (body : List UInt8) (w : W) : Served W X R :=
  match Server.route router.matchit router.inner parts.method parts.path with
  | .hit i => router.callHandler i parts body w
  | .methodNotAllowed => ⟨[], .methodNotAllowed, w⟩
  | .notFound => ⟨[], .notFound, w⟩

/-- `AxumAdapter::call` -/
def axumCall (parts : HttpParts X) (body : Incoming) (w : W) : Served W X R :=
  router.routeWithBytes parts body.collectOrEmpty w

end Router

/-! ### gRPC -/

/-- `GrpcRouteEntry` -/
inductive GrpcHandler (W X R : Type) where
  | standard (handler : BoxedHandler W X R) (methodDescriptor : GrpcMethodDescriptor)
      (middleware : List (GrpcMiddleware W X R))
  | direct (handler : DirectHandler W)

abbrev GrpcHandlers (W X R : Type) :=
  AList fun _ : Str => GrpcHandler W X R

/-- The calls that make up a `GrpcRouter`. -/
inductive Registration (W X R : Type) where
  | fromRouter (router : RouterInner (BoxedHandler W X R)) (descriptor : GrpcServiceDescriptor)
  | addDirectHandler (grpcPath : Str) (handler : DirectHandler W)
  | addMiddleware (grpcPath : Str) (middleware : GrpcMiddleware W X R)

namespace GrpcHandlers

variable (handlers : GrpcHandlers W X R)

def fromRouter (router : RouterInner (BoxedHandler W X R)) (descriptor : GrpcServiceDescriptor) :
    GrpcHandlers W X R :=
  descriptor.methods.foldl (fun handlers method =>
    match findHandlerByPattern router method.httpMethod method.restPath with
    | some handler => handlers.insert method.fullPath (.standard handler method [])
    | none => handlers) ∅

def addDirectHandler (grpcPath : Str) (handler : DirectHandler W) : GrpcHandlers W X R :=
  handlers.insert grpcPath (.direct handler)

def addMiddleware (grpcPath : Str) (middleware : GrpcMiddleware W X R) : GrpcHandlers W X R :=
  match handlers.lookup grpcPath with
  | some (.standard handler methodDescriptor mw) =>
    handlers.insert grpcPath (.standard handler methodDescriptor (mw ++ [middleware]))
  | _ => handlers

def register : Registration W X R → GrpcHandlers W X R
  | .fromRouter router descriptor => fromRouter router descriptor
  | .addDirectHandler grpcPath handler => handlers.addDirectHandler grpcPath handler
  | .addMiddleware grpcPath middleware => handlers.addMiddleware grpcPath middleware

/-- The table after a sequence of calls. -/
def registered (calls : List (Registration W X R)) : GrpcHandlers W X R :=
  calls.foldl register ∅

end GrpcHandlers

/-- The message behind the frame header, or the bytes themselves where the frame is refused. -/
def unframeOrRaw (body : List UInt8) : List UInt8 :=
  match decodeGrpcFrame body with
  | .ok message => message
  | .error _ => body

/-- The bytes behind a header of five, or the bytes themselves where there are fewer. -/
def stripHeader (body : List UInt8) : List UInt8 :=
  if 5 ≤ body.length then body.drop 5 else body

/-- `dispatch_direct` of the unframed bytes. -/
def callDirect (handler : DirectHandler W) (unframed : List UInt8) (w : W) : Served W X R :=
  match handler unframed with
  | .ok run =>
    let (response, w) := run w
    ⟨[.direct handler unframed], .direct (encodeGrpcFrame response), w⟩
  | .error (.err status) => ⟨[], .directError status, w⟩
  | .error _ => ⟨[], .panicked, w⟩

def dispatchDirect (handler : DirectHandler W) (body : List UInt8) (w : W) : Served W X R :=
  callDirect handler (stripHeader body) w

/-- `into_direct_handler`, of a message type and an encoder of responses. -/
def intoDirectHandler {E Req Resp : Type} (typewayDecode : List UInt8 → Checked.Run E Req)
    (display : E → Str) (encodeToVec : Resp → List UInt8) (handler : Req → W → Resp × W) :
    DirectHandler W := fun body =>
  match typewayDecode body with
  | .ok req => .ok fun w => ((handler req w).1 |> encodeToVec, (handler req w).2)
  | .error (.err e) => .error (.err ⟨.invalidArgument, "decode error: ".toList ++ display e⟩)
  | .error (.panic p) => .error (.panic p)
  | .error .unfinished => .error .unfinished

/-- `GrpcMultiplexer`, and what of other crates its calls depend on. -/
structure GrpcMultiplexer (W X R : Type) where
  rest : Router W X R
  handlers : GrpcHandlers W X R
  stateInjector : Option (X → X)
  /-- `handle_request` of the request bytes, read as text. -/
  reflection : List UInt8 → Str
  health : Str
  reflectionEnabled : Bool
  grpcSpecJson : Option Str
  grpcDocsHtml : Option Str
  /-- `ProtoTranscoder::decode_request`, with the texts of its errors. -/
  transcoder : Option (Str → List UInt8 → Checked.Run Str Value)
  /-- `serde_json::from_slice` -/
  fromSlice : List UInt8 → Except Str Value
  uri : UriSyntax
  floatText : UInt64 → Str
  /-- `tokio::time::timeout` of a call of a handler: nothing where the call ends in time, or else the
  state that is left when it is dropped. -/
  elapsed : Nat → BoxedHandler W X R → HttpRequest X → W → Option W

/-- `headers.get(name)` as text. -/
def HttpParts.header? (parts : HttpParts X) (name : Str) : Option Str :=
  (parts.headers.find? fun h => h.1 = name).bind fun h => headerToStr h.2

def contentType : Str :=
  "content-type".toList

/-- The deadline of a request, in nanoseconds. -/
def grpcTimeout (parts : HttpParts X) : Option Nat :=
  (parts.header? "grpc-timeout".toList).bind fun value => (parseGrpcTimeout value).toOption.join

/-- No header makes `parse_grpc_timeout` panic, for it is asked for as text. -/
theorem parseGrpcTimeout_header {parts : HttpParts X} {name value : Str}
    (found : parts.header? name = some value) : ∃ timeout, parseGrpcTimeout value = .ok timeout := by
  obtain ⟨header, -, text⟩ := Option.bind_eq_some_iff.1 found
  apply parseGrpcTimeout_ascii
  rw [headerToStr] at text
  split at text
  · rename_i visible
    cases text
    intro c mem
    obtain ⟨b, there, rfl⟩ := List.mem_map.1 mem
    have printed := List.all_eq_true.1 visible b there
    have small : b.toNat < 128 := by
      simp only [Bool.or_eq_true, Bool.and_eq_true, decide_eq_true_eq, beq_iff_eq] at printed
      rcases printed with ⟨-, below⟩ | rfl
      · exact Nat.lt_succ_of_lt (UInt8.lt_iff_toNat_lt.1 below)
      · decide
    rwa [Utf8.toNat_ofByte small]
  · cases text

def isGrpcRequest (parts : HttpParts X) : Bool :=
  match parts.header? contentType with
  | some ct => "application/grpc".toList.isPrefixOf ct
  | none => false

def grpcContentType (parts : HttpParts X) : Str :=
  (parts.header? contentType).getD "application/grpc".toList

def isProtoBinaryContentType (ct : Str) : Bool :=
  ct = "application/grpc".toList || ct = "application/grpc+proto".toList

def isHealthPath (path : Str) : Bool :=
  path = "/grpc.health.v1.Health/Check".toList || "/grpc.health.v1".toList.isPrefixOf path

def isReflectionPath (path : Str) : Bool :=
  path = "/grpc.reflection.v1alpha.ServerReflection/ServerReflectionInfo".toList ||
    "/grpc.reflection.v1alpha".toList.isPrefixOf path

/-- `build_synthetic_request_raw` -/
def buildSyntheticRequestRaw (originalParts : HttpParts X) (stateInjector : Option (X → X)) :
    HttpParts X :=
  injectState stateInjector originalParts

/-- The middleware in order, each on what the one before it returned. -/
def runMiddleware : List (GrpcMiddleware W X R) → HttpRequest X → W →
    List (Event W X R) × Except R (HttpRequest X) × W
  | [], request, w => ([], .ok request, w)
  | mw :: rpcMiddleware, request, w =>
    match mw request w with
    | (.ok next, w) =>
      let (events, outcome) := runMiddleware rpcMiddleware next w
      (.middleware mw request (.ok next) :: events, outcome)
    | (.error response, w) => ([.middleware mw request (.error response)], .error response, w)

namespace GrpcMultiplexer

variable (mux : GrpcMultiplexer W X R)

/-- `JsonCodec.decode` -/
def jsonDecode (bytes : List UInt8) : Except Str Value :=
  if bytes.isEmpty then .ok (.obj [])
  else (mux.fromSlice bytes).mapError ("gRPC decode error: ".toList ++ ·)

/-- The transcoder, if it is used for the request. -/
def protoBinary (parts : HttpParts X) : Option (Str → List UInt8 → Checked.Run Str Value) :=
  mux.transcoder.filter fun _ => isProtoBinaryContentType (grpcContentType parts)

/-- The JSON message of a request. -/
def decodeMessage (parts : HttpParts X) (unframed : List UInt8) : Checked.Run GrpcStatus Value :=
  match mux.protoBinary parts with
  | some decodeRequest =>
    match decodeRequest parts.path unframed with
    | .ok json => .ok json
    | .error (.err e) =>
      .error (.err ⟨.invalidArgument, "failed to decode binary protobuf: ".toList ++ e⟩)
    | .error (.panic p) => .error (.panic p)
    | .error .unfinished => .error .unfinished
  | none =>
    match mux.jsonDecode unframed with
    | .ok message => .ok message
    | .error e => .error (.err ⟨.invalidArgument, "failed to decode request: ".toList ++ e⟩)

/-- The bytes are handed on as they are. -/
def binaryFastPath (parts : HttpParts X) (methodDesc : GrpcMethodDescriptor) : Bool :=
  (mux.protoBinary parts).isSome && !Substring.contains Client.placeholder methodDesc.restPath

/-- The request that middleware and handler get. -/
def syntheticRequest (methodDesc : GrpcMethodDescriptor) (parts : HttpParts X)
    (unframed : List UInt8) : Checked.Run GrpcStatus (HttpRequest X) :=
  if mux.binaryFastPath parts methodDesc then
    let synthetic := buildSyntheticRequestRaw parts mux.stateInjector
    let headers := insertHeader contentType
      ("application/grpc+proto".toList.flatMap String.utf8EncodeChar) synthetic.headers
    .ok { parts := { synthetic with headers }, body := unframed }
  else do
    let message ← mux.decodeMessage parts unframed
    let (parts, body) :=
      buildSyntheticRequest mux.floatText mux.uri parts methodDesc message mux.stateInjector
    .ok { parts, body }

/-- The call of a handler, within a deadline if there is one. -/
def handleWithin (timeout : Option Nat) (handler : BoxedHandler W X R) (request : HttpRequest X)
    (w : W) : Answer R × W :=
  match timeout.bind fun duration => mux.elapsed duration handler request w with
  | some w => (.grpcError ⟨.deadlineExceeded, "deadline exceeded".toList⟩, w)
  | none => (.wrapped (handler request w).1, (handler request w).2)

/-- A standard handler is called with the unframed bytes. -/
def callStandard (handler : BoxedHandler W X R) (methodDesc : GrpcMethodDescriptor)
    (rpcMiddleware : List (GrpcMiddleware W X R)) (parts : HttpParts X) (unframed : List UInt8)
    (w : W) : Served W X R :=
  match mux.syntheticRequest methodDesc parts unframed with
  | .ok request =>
    match runMiddleware rpcMiddleware request w with
    | (events, .ok request, w) =>
      let (answer, w) := mux.handleWithin (grpcTimeout parts) handler request w
      ⟨events ++ [.handler handler request], answer, w⟩
    | (events, .error response, w) => ⟨events, .shortCircuit response, w⟩
  | .error (.err status) => ⟨[], .grpcError status, w⟩
  | .error _ => ⟨[], .panicked, w⟩

/-- What follows the lookup of a handler, on the collected body. -/
def dispatch (parts : HttpParts X) (body : List UInt8) (w : W) :
    GrpcHandler W X R → Served W X R
  | .standard handler methodDesc rpcMiddleware =>
    mux.callStandard handler methodDesc rpcMiddleware parts (unframeOrRaw body) w
  | .direct handler => dispatchDirect handler body w

/-- The branch of `call` for gRPC requests. -/
def callGrpc (parts : HttpParts X) (body : Incoming) (w : W) : Served W X R :=
  if isHealthPath parts.path then ⟨[], .builtIn mux.health, w⟩
  else if mux.reflectionEnabled && isReflectionPath parts.path then
    let unframed := unframeOrRaw body.collectOrEmpty
    ⟨[.reflection unframed], .builtIn (mux.reflection unframed), w⟩
  else
    match mux.handlers.lookup parts.path with
    | some entry => mux.dispatch parts body.collectOrEmpty w entry
    | none =>
      let message := "method '".toList ++ parts.path ++ "' not found in service".toList
      ⟨[], .grpcError ⟨.unimplemented, message⟩, w⟩

def call (parts : HttpParts X) (body : Incoming) (w : W) : Served W X R :=
  let spec := if parts.path = "/grpc-spec".toList then mux.grpcSpecJson else none
  let docs := if parts.path = "/grpc-docs".toList then mux.grpcDocsHtml else none
  match if parts.method = .get then spec <|> docs else none with
  | some text => ⟨[], .document text, w⟩
  | none => if isGrpcRequest parts then mux.callGrpc parts body w else mux.rest.route parts body w

end GrpcMultiplexer

/-- A server without routes of its own, with JSON messages that are never read. -/
def bareMultiplexer : GrpcMultiplexer Unit Unit Unit where
  rest :=
    { matchit := .documented
      inner := .new
      insertPrefixOffset := fun _ x => x
      stateInjector := none
      fallback := none
      maxBodySize := 2 * 1024 * 1024 }
  handlers := ∅
  stateInjector := none
  reflection := fun _ => []
  health := "SERVING".toList
  reflectionEnabled := false
  grpcSpecJson := none
  grpcDocsHtml := none
  transcoder := none
  fromSlice := fun _ => .error []
  uri := .documented
  floatText := fun _ => []
  elapsed := fun _ _ _ _ => none

/-- A gRPC call of a method. -/
def grpcParts (path : Str) : HttpParts Unit where
  method := .post
  path
  headers := [(contentType, "application/grpc".toList.flatMap String.utf8EncodeChar)]
  extensions := ()

def listUser : Str :=
  "/users.v1.UserService/ListUser".toList

/-- A direct handler that takes any message and sends it back. -/
def echo : DirectHandler Unit := fun message => .ok fun w => (message, w)

def echoMultiplexer : GrpcMultiplexer Unit Unit Unit :=
  { bareMultiplexer with handlers := (∅ : GrpcHandlers Unit Unit Unit).addDirectHandler listUser echo }

end Typeway.Server
