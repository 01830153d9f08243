import Typeway.Server.SyntheticPath
import Typeway.Server.TypedRest

/-!
# One function behind two protocols

An endpoint of the API is a route of the REST router and a method of the gRPC service. A request of
either kind is a call of the function that is bound to the endpoint, and a server that gets both
kinds makes the calls one after another, as if there were no protocols at all.
-/

namespace Typeway.Server

open Typeway.Core Client Grpc Json Attempts Segments

variable {W X : Type}

/-! ## Functions bound to endpoints -/

/-- An endpoint and the function that is bound to it. Its arguments are the captures, what other
extractors find, and the body. -/
structure BoundFunction (W X : Type) where
  method : Method
  P : PathSpec
  B : Callable P
  {A T E Res : Type}
  json : SerdeType Res
  errorResponse : E → HttpReply
  others : FromRequestParts X A
  payload : Payload T
  f : P.Captures × A → T → W → Except E Res × W

def BoundFunction.handler (e : BoundFunction W X) : BoxedHandler W X HttpReply :=
  typedHandler e.json e.errorResponse e.others e.payload e.f

/-- A function and what it is called with. -/
structure Invocation (W X : Type) where
  e : BoundFunction W X
  captures : e.P.Captures
  rest : e.A
  value : e.T

namespace Invocation

variable (call : Invocation W X)

def run (w : W) : Except call.e.E call.e.Res × W :=
  call.e.f (call.captures, call.rest) call.value w

/-- The response that is made of the result. -/
def reply (w : W) : HttpReply :=
  resultResponse call.e.json call.e.errorResponse (call.run w).1

/-- The calls one after another. -/
def runAll (w : W) : List (Invocation W X) → List HttpReply × W
  | [] => ([], w)
  | call :: calls =>
    let (replies, last) := runAll (call.run w).2 calls
    (call.reply w :: replies, last)

variable {call}

theorem handler_eq {request : HttpRequest X}
    (extracted : call.e.P.extract (pathSegments request.parts.path) = some call.captures)
    (alongside : call.e.others request.parts = .ok call.rest)
    (read : call.e.payload.fromRequest request.parts request.body = .ok call.value) (w : W) :
    call.e.handler request w = (call.reply w, (call.run w).2) :=
  typedHandler_eq extracted alongside read w

end Invocation

/-! ## Bridged requests -/

section

variable {R : Type} (mux : GrpcMultiplexer W X R) (parts : HttpParts X)
  (methodDesc : GrpcMethodDescriptor) {P : PathSpec} (B : Callable P) (c : P.Captures)

/-- The request that stands for a message with the captures and other members. -/
def bridgedRequest (members : List (Str × Value)) : HttpRequest X :=
  let (parts, body) := buildSyntheticRequest mux.floatText mux.uri parts methodDesc
    (captureMessage B c members) mux.stateInjector
  ⟨parts, body⟩

/-- A message of the method of an endpoint that brings its captures, in JSON or for the
transcoder. -/
structure Brings (message : List UInt8) (members : List (Str × Value)) : Prop where
  template : methodDesc.restPath = P.pattern
  decoded : mux.decodeMessage parts message = .ok (captureMessage B c members)
  converted : mux.binaryFastPath parts methodDesc = false
  plain : Plain mux.uri P
  carried : Carried B c mux.uri
  admissible : Admissible P members

variable {mux parts methodDesc B c} {message : List UInt8} {members : List (Str × Value)}

theorem Brings.syntheticRequest (brings : Brings mux parts methodDesc B c message members) :
    mux.syntheticRequest methodDesc parts message =
      .ok (bridgedRequest mux parts methodDesc B c members) := by
  rw [GrpcMultiplexer.syntheticRequest, brings.converted, if_neg Bool.false_ne_true, brings.decoded]
  rfl

/-- The path of the request shows the captures to its handler. -/
theorem Brings.extracted (brings : Brings mux parts methodDesc B c message members) :
    P.extract (pathSegments (bridgedRequest mux parts methodDesc B c members).parts.path) =
      some c := by
  have faithful : AlwaysFaithful B c mux.floatText mux.uri :=
    alwaysFaithful_of brings.plain (.inl brings.carried)
  have arrives := (faithful members brings.admissible).carried brings.carried.legal
  rw [Server.extracted, ← brings.template] at arrives
  exact arrives

end

/-! ## A server for both -/

section

variable (mux : GrpcMultiplexer W X HttpReply) (call : Invocation W X) (parts : HttpParts X)
  (body : Incoming)

/-- Neither the specification nor the documentation page is asked for. -/
def Undocumented (parts : HttpParts X) : Prop :=
  parts.path ≠ "/grpc-spec".toList ∧ parts.path ≠ "/grpc-docs".toList

/-- A REST request for the call. -/
structure AsksRest : Prop where
  rest : isGrpcRequest parts = false
  callee : Callee mux.rest call.e.method call.e.B call.captures call.e.handler body
  posted : parts.method = call.e.method
  path : parts.path = joined '/' (call.e.B.pieces call.captures)
  written : call.e.payload.Written call.value body.frames.flatten
  restores : call.e.payload.Restores call.value
  alongside : call.e.others (mux.rest.handlerParts parts) = .ok call.rest

/-- A gRPC request for the call. The body extractor of the function reads the message that the
captures stand in too. -/
structure AsksGrpc (methodDesc : GrpcMethodDescriptor) (message : List UInt8)
    (members : List (Str × Value)) : Prop where
  grpc : isGrpcRequest parts = true
  known : mux.Known parts.path (.standard call.e.handler methodDesc [])
  whole : body.broken = false
  frame : IsFrame body.frames.flatten message
  brings : Brings mux parts methodDesc call.e.B call.captures message members
  inTime : InTime mux parts call.e.handler
    (bridgedRequest mux parts methodDesc call.e.B call.captures members)
  read :
    let request := bridgedRequest mux parts methodDesc call.e.B call.captures members
    call.e.payload.fromRequest request.parts request.body = .ok call.value
  alongside : call.e.others (bridgedRequest mux parts methodDesc call.e.B call.captures members).parts =
    .ok call.rest

/-- A request of either kind. -/
structure Asks : Prop where
  undocumented : Undocumented parts
  either : AsksRest mux call parts body ∨
    ∃ methodDesc message members, AsksGrpc mux call parts body methodDesc message members

/-- The responses to requests that arrive one after another, the calls of handlers that they lead
to, and the world after them. -/
def GrpcMultiplexer.serveAll (w : W) :
    List (HttpParts X × Incoming) → List (Answer HttpReply) × List (Event W X HttpReply) × W
  | [] => ([], [], w)
  | (parts, body) :: requests =>
    let served := mux.call parts body w
    let (answers, events, last) := serveAll served.world requests
    (served.answer :: answers, served.events ++ events, last)

variable {mux call parts body}

theorem call_undocumented (undocumented : Undocumented parts) (w : W) :
    mux.call parts body w =
      if isGrpcRequest parts then mux.callGrpc parts body w else mux.rest.route parts body w := by
  rw [GrpcMultiplexer.call, if_neg undocumented.1, if_neg undocumented.2]
  simp

theorem AsksRest.served (asks : AsksRest mux call parts body) (undocumented : Undocumented parts)
    (w : W) : ∃ request, mux.call parts body w =
      ⟨[.handler call.e.handler request], .rest (call.reply w), (call.run w).2⟩ := by
  refine ⟨⟨mux.rest.handlerParts parts, body.frames.flatten⟩, ?_⟩
  have extracted : call.e.P.extract (pathSegments (mux.rest.handlerParts parts).path) =
      some call.captures := by
    rw [handlerParts_path, asks.path, asks.callee.segments, Callable.extract_pieces]
  have read := Payload.fromRequest_written asks.written asks.restores (mux.rest.handlerParts parts)
  rw [call_undocumented undocumented, asks.rest, if_neg Bool.false_ne_true,
    asks.callee.reached asks.posted asks.path, Invocation.handler_eq extracted asks.alongside read]

theorem AsksGrpc.served {methodDesc : GrpcMethodDescriptor} {message : List UInt8}
    {members : List (Str × Value)} (asks : AsksGrpc mux call parts body methodDesc message members)
    (undocumented : Undocumented parts) (w : W) : ∃ request, mux.call parts body w =
      ⟨[.handler call.e.handler request], .wrapped (call.reply w), (call.run w).2⟩ := by
  refine ⟨bridgedRequest mux parts methodDesc call.e.B call.captures members, ?_⟩
  rw [call_undocumented undocumented, asks.grpc, if_pos rfl,
    callGrpc_reaches asks.known asks.whole asks.frame asks.brings.syntheticRequest asks.inTime,
    Invocation.handler_eq asks.brings.extracted asks.alongside asks.read]

/-- What the response to a request is made from. -/
def Answers (answer : Answer HttpReply) (reply : HttpReply) : Prop :=
  answer = .rest reply ∨ answer = .wrapped reply

/-- The handler of the invocation is called. -/
def Invocation.CalledBy (call : Invocation W X) (event : Event W X HttpReply) : Prop :=
  ∃ request, event = .handler call.e.handler request

/-- One request. -/
theorem Asks.served (asks : Asks mux call parts body) (w : W) :
    ∃ event, (mux.call parts body w).events = [event] ∧ call.CalledBy event ∧
      Answers (mux.call parts body w).answer (call.reply w) ∧
      (mux.call parts body w).world = (call.run w).2 := by
  rcases asks.either with rest | ⟨methodDesc, message, members, grpc⟩
  · obtain ⟨request, served⟩ := rest.served asks.undocumented w
    rw [served]
    exact ⟨_, rfl, ⟨request, rfl⟩, .inl rfl, rfl⟩
  · obtain ⟨request, served⟩ := grpc.served asks.undocumented w
    rw [served]
    exact ⟨_, rfl, ⟨request, rfl⟩, .inr rfl, rfl⟩

/-- **Requests are calls of functions**: whatever kinds they are of and in whatever order they
arrive, every request calls the function of its endpoint once, with the captures, the body and the
world that the requests before it left, and its response is made of what the function returns. -/
theorem serveAll_runAll {requests : List (HttpParts X × Incoming)} {calls : List (Invocation W X)}
    (asks : List.Forall₂ (fun request call => Asks mux call request.1 request.2) requests calls)
    (w : W) :
    List.Forall₂ Answers (mux.serveAll w requests).1 (Invocation.runAll w calls).1 ∧
      List.Forall₂ Invocation.CalledBy calls (mux.serveAll w requests).2.1 ∧
      (mux.serveAll w requests).2.2 = (Invocation.runAll w calls).2 := by
  induction asks generalizing w with
  | nil => exact ⟨.nil, .nil, rfl⟩
  | cons here _ ih =>
    obtain ⟨event, events, called, answers, world⟩ := here.served w
    obtain ⟨restAnswers, restCalled, last⟩ := ih (Invocation.run _ w).2
    rw [← world] at restAnswers restCalled last
    refine ⟨?_, ?_, ?_⟩
    · refine .cons answers ?_
      rw [← world]
      exact restAnswers
    · show List.Forall₂ Invocation.CalledBy _ ((mux.call _ _ w).events ++ _)
      rw [events]
      exact .cons called restCalled
    · rw [Invocation.runAll, ← world]
      exact last

end

/-! ## Calls that are counted -/

/-- `GET /users/{}`: whether there was a call before. -/
def visited : BoundFunction Nat Unit where
  method := .get
  P := userPath
  B := user
  json := flagJson
  errorResponse := fun _ : Unit => textResponse 500 []
  others := fun _ => .ok ()
  payload := .none
  f := fun _ _ calls => (.ok (calls ≠ 0), calls + 1)

def visitedByAnn : Invocation Nat Unit where
  e := visited
  captures := ("ann".toList, ())
  rest := ()
  value := ()

def getVisited : GrpcMethodDescriptor where
  name := "GetUser".toList
  fullPath := "/users.v1.UserService/GetUser".toList
  httpMethod := .get
  restPath := userPath.pattern
  serverStreaming := false
  clientStreaming := false

def annMessage : List UInt8 :=
  Utf8.bytes "\x7b\"param1\":\"ann\"\x7d".toList

def visitsService : GrpcMultiplexer Nat Unit HttpReply :=
  { plainService ((∅ : GrpcHandlers Nat Unit HttpReply).insert getVisited.fullPath
      (.standard visited.handler getVisited [])) with
    rest :=
      { matchit := .documented
        inner := .calls .documented [.addRoute (.ofPath .get userPath visited.handler)]
        insertPrefixOffset := fun _ x => x
        stateInjector := none
        fallback := none
        maxBodySize := 16 }
    fromSlice := fun bytes =>
      if bytes = annMessage then .ok (.obj [("param1".toList, .str "ann".toList)]) else .error [] }

def visitParts : HttpParts Unit :=
  (grpcParts getVisited.fullPath).withContentType "application/grpc+json".toList

theorem visits_callee :
    Callee visitsService.rest .get user ("ann".toList, ()) visited.handler ⟨[], false⟩ where
  calls := ⟨_, rfl⟩
  unprefixed := rfl
  registered := by
    refine ⟨0, rfl, fun j other there ne bucket => ?_⟩
    match j with
    | 0 => exact absurd rfl ne
    | j + 1 => cases there
  own := by decide
  fits := usersRouter_callee.fits
  nonempty := usersRouter_callee.nonempty
  plain := usersRouter_callee.plain
  within := by decide

theorem asksRest_ann : AsksRest visitsService visitedByAnn askUser ⟨[], false⟩ where
  rest := rfl
  callee := visits_callee
  posted := rfl
  path := rfl
  written := rfl
  restores := trivial
  alongside := rfl

theorem asksGrpc_ann :
    AsksGrpc visitsService visitedByAnn visitParts (framed annMessage) getVisited annMessage [] where
  grpc := by decide
  known := ⟨AList.lookup_insert _, by decide, rfl⟩
  whole := rfl
  frame := ⟨List.flatten_singleton, by decide⟩
  brings :=
    { template := rfl
      decoded := rfl
      converted := rfl
      plain := user_plain
      carried := user_carried
      admissible := fun member mem => nomatch mem }
  inTime := fun _ _ _ => rfl
  read := rfl
  alongside := rfl

/-- Over REST first, and then over gRPC. -/
theorem serveAll_runAll_visits :
    let served := visitsService.serveAll 0 [(askUser, ⟨[], false⟩), (visitParts, framed annMessage)]
    List.Forall₂ Answers served.1 [jsonResponse flagJson false, jsonResponse flagJson true] ∧
      served.2.2 = 2 := by
  intro served
  have asks : List.Forall₂ (fun request call => Asks visitsService call request.1 request.2)
      [(askUser, ⟨[], false⟩), (visitParts, framed annMessage)] [visitedByAnn, visitedByAnn] :=
    .cons ⟨⟨by decide, by decide⟩, .inl asksRest_ann⟩
      (.cons ⟨⟨by decide, by decide⟩, .inr ⟨_, _, _, asksGrpc_ann⟩⟩ .nil)
  obtain ⟨answers, -, last⟩ := serveAll_runAll asks 0
  exact ⟨answers, last⟩

/-! ## A client of the bridge -/

section

variable {T D V : Type}

/-- A response whose body is all there. -/
def RestResponse.whole (reply : HttpReply) : RestResponse T where
  status := reply.status
  headers := reply.headers
  body := .plain (some reply.body)

/-- The handler as the dispatcher finds it. -/
def wholeHandler (handler : BoxedHandler W X HttpReply) : BoxedHandler W X (RestResponse T) :=
  fun request w => (.whole (handler request w).1, (handler request w).2)

/-- What a unary call in JSON makes of the response. -/
def bridgeOutcome (client : GrpcClient D V) (reply : HttpReply) : Except (GrpcClientError D) V :=
  if httpToGrpcCode reply.status = .ok then client.decodeWith reply.body
  else .error (.status (httpToGrpcCode reply.status) []
    (client.richDetails (encodeGrpcFrame reply.body)))

variable {S : SerdeJson} {H : HeaderParse} {toVec : T → List UInt8} {client : GrpcClient D V}
  {mux : GrpcMultiplexer W X (RestResponse T)} {transcoder : Option EncodeResponse}
  {parts : HttpParts X} {body : Incoming} {w : W} {methodDesc : GrpcMethodDescriptor}
  (call : Invocation W X) {message : List UInt8} {members : List (Str × Value)}

theorem unaryOutcome_whole (unary : methodDesc.serverStreaming = false) (grpcPath : Str)
    (reply : HttpReply) :
    unaryOutcome S toVec client methodDesc grpcPath false transcoder (.whole reply) =
      bridgeOutcome client reply := by
  have sent : payloads S toVec methodDesc grpcPath false transcoder (.whole reply) =
      [reply.body] := by
    unfold payloads expectedTexts
    rw [unary]
    rfl
  have code : (RestResponse.whole reply : RestResponse T).code = httpToGrpcCode reply.status := rfl
  unfold unaryOutcome replyOf bridgeOutcome
  rw [sent, code, List.flatMap_singleton]
  by_cases ok : httpToGrpcCode reply.status = .ok
  · rw [if_pos ok, if_pos ok]
    rfl
  · rw [if_neg ok, if_neg ok]
    rfl

/-- **A bridged call is a call of the function**: every attempt of a gRPC client calls it once, with
the captures and the body that the message brings, the world goes on from attempt to attempt, and
the client gets what the last call of the function is answered with. -/
theorem call_bridged
    (connected : Connected S H toVec client mux transcoder parts body w methodDesc
      (wholeHandler call.e.handler)
      (bridgedRequest mux parts methodDesc call.e.B call.captures members))
    (brings : Brings mux parts methodDesc call.e.B call.captures message members)
    (read :
      let request := bridgedRequest mux parts methodDesc call.e.B call.captures members
      call.e.payload.fromRequest request.parts request.body = .ok call.value)
    (alongside :
      call.e.others (bridgedRequest mux parts methodDesc call.e.B call.captures members).parts =
        .ok call.rest)
    (json : mux.protoBinary parts = none) (unary : methodDesc.serverStreaming = false) :
    let next w' := (call.run w').2
    let reply n := call.reply (next^[n] w)
    ∃ last, Last (fun reply => asksAgain client (.whole reply : RestResponse T)) reply
        (client.maxAttempts - 1) last ∧
      (client.sendRequestU32 0).2 = last + 1 ∧
      worldAt (mux.callGrpc parts body) w (last + 1) = next^[last + 1] w ∧
      client.call = bridgeOutcome client (reply last) := by
  intro next reply
  have handled (w' : W) : wholeHandler (T := T) call.e.handler
      (bridgedRequest mux parts methodDesc call.e.B call.captures members) w' =
        (.whole (call.reply w'), next w') := by
    rw [wholeHandler, Invocation.handler_eq brings.extracted alongside read]
  have world (n : Nat) : worldAt (mux.callGrpc parts body) w n = next^[n] w := by
    induction n with
    | zero => rfl
    | succ n ih => rw [worldAt, ih, connected.reaches, handled, Function.iterate_succ_apply']
  have response (n : Nat) : responseTo mux parts body w (wholeHandler call.e.handler)
      (bridgedRequest mux parts methodDesc call.e.B call.captures members) n =
        .whole (reply n) := by
    rw [responseTo, world, handled]
  obtain ⟨last, ends, attempts, sent⟩ := connected.reply
  refine ⟨last, ⟨ends.within, fun n below => ?_, fun asks => ?_⟩, attempts, world _, ?_⟩
  · have before := ends.before n below
    rw [response] at before
    exact before
  · apply ends.settled
    rw [response]
    exact asks
  · have sendable := connected.sendable (next^[last] w)
    rw [handled] at sendable
    rw [response] at sent
    rw [(call_replyOf sendable sent).1, json]
    exact unaryOutcome_whole unary parts.path (reply last)

end

/-! ## A function that is not ready at first -/

def emptyJson : SerdeType Unit where
  toVec _ := .ok emptyObject
  fromSlice bytes := if bytes = emptyObject then .ok () else .error []

/-- A message with a flag and the capture of a path. -/
def annActive : Value :=
  captureMessage user ("ann".toList, ()) [("active".toList, .bool true)]

def annActiveBytes : List UInt8 :=
  Utf8.bytes "\x7b\"active\":true,\"param1\":\"ann\"\x7d".toList

/-- `struct Activity { active: bool }`, which leaves the capture aside. -/
def activityJson : SerdeType Bool where
  toVec active := .ok (jsonBytes (.obj [("active".toList, .bool active)]))
  fromSlice bytes := if bytes = annActiveBytes then .ok true else .error "expected value".toList

/-- Sets the flag of a user, and is not ready when it is called for the first time. -/
def setFlag (captures : (Str × Unit) × Unit) (active : Bool) (calls : Nat) : Except Nat Unit × Nat :=
  (if calls = 0 then .error 503
    else if captures.1.1 = "ann".toList ∧ active = true then .ok () else .error 404, calls + 1)

/-- `PUT /users/{}` -/
def setActive : BoundFunction Nat Unit where
  method := .put
  P := userPath
  B := user
  json := emptyJson
  errorResponse := fun status : Nat => ⟨status, [], emptyObject⟩
  others := fun _ => .ok ()
  payload := .json activityJson
  f := setFlag

def setAnnActive : Invocation Nat Unit where
  e := setActive
  captures := ("ann".toList, ())
  rest := ()
  value := true

def putUser : GrpcMethodDescriptor where
  name := "UpdateUser".toList
  fullPath := "/users.v1.UserService/UpdateUser".toList
  httpMethod := .put
  restPath := userPath.pattern
  serverStreaming := false
  clientStreaming := false

def activityService : GrpcMultiplexer Nat Unit (RestResponse Unit) :=
  { plainService ((∅ : GrpcHandlers Nat Unit (RestResponse Unit)).insert putUser.fullPath
      (.standard (wholeHandler setActive.handler) putUser [])) with
    fromSlice := fun bytes => if bytes = annActiveBytes then .ok annActive else .error [] }

def putUserParts : HttpParts Unit :=
  (grpcParts putUser.fullPath).withContentType "application/grpc+json".toList

/-- The request that the function gets its arguments from. -/
def annActiveRequest : HttpRequest Unit :=
  bridgedRequest activityService putUserParts putUser user ("ann".toList, ())
    [("active".toList, .bool true)]

theorem setAnnActive_brings :
    Brings activityService putUserParts putUser user ("ann".toList, ()) annActiveBytes
      [("active".toList, .bool true)] where
  template := rfl
  decoded := rfl
  converted := rfl
  plain := user_plain
  carried := user_carried
  admissible member mem := by
    rw [List.mem_singleton.1 mem]
    decide

theorem setAnnActive_read :
    (Payload.json activityJson).fromRequest annActiveRequest.parts annActiveRequest.body = .ok true := by
  have same : annActiveRequest.body = annActiveBytes := by decide
  rw [same]
  rfl

theorem setActive_handled (calls : Nat) :
    wholeHandler (T := Unit) setActive.handler annActiveRequest calls =
      (.whole (setAnnActive.reply calls), calls + 1) := by
  have handled : setAnnActive.e.handler annActiveRequest calls = _ :=
    Invocation.handler_eq setAnnActive_brings.extracted rfl setAnnActive_read calls
  rw [wholeHandler, show setActive.handler annActiveRequest calls = _ from handled]
  rfl

theorem activityService_known :
    activityService.Known putUser.fullPath
      (.standard (wholeHandler setActive.handler) putUser []) where
  found := AList.lookup_insert _
  health := by decide
  reflection := rfl

theorem annActive_frame : IsFrame (framed annActiveBytes).frames.flatten annActiveBytes where
  eq := List.flatten_singleton
  fits := by decide

/-- The second attempt succeeds. -/
theorem call_bridged_setActive :
    let client := patientClient (wholeHandler setActive.handler) putUser annActiveRequest emptyObject
      emptyObject_fits
    (client.sendRequestU32 0).2 = 2 ∧ client.call = .ok () := by
  intro client
  have answers (calls : Nat) :
      (wholeHandler (T := Unit) setActive.handler annActiveRequest calls).1.body =
        .plain (some emptyObject) := by
    rw [setActive_handled]
    cases calls <;> rfl
  have counts (calls : Nat) :
      (wholeHandler (T := Unit) setActive.handler annActiveRequest calls).2 = calls + 1 := by
    rw [setActive_handled]
  have connected := patientClient_connected activityService_known rfl rfl annActive_frame
    setAnnActive_brings.syntheticRequest (fun _ _ _ => rfl) rfl rfl counts emptyObject_fits answers
  obtain ⟨last, ends, attempts, -, call⟩ :=
    call_bridged setAnnActive connected setAnnActive_brings setAnnActive_read rfl rfl rfl
  have world (n : Nat) : (fun calls => (setAnnActive.run calls).2)^[n] 0 = n := by
    induction n with
    | zero => rfl
    | succ n ih => rw [Function.iterate_succ_apply', ih]; rfl
  obtain rfl : last = 1 := by
    refine ends.second (by decide) rfl fun more => ?_
    rw [world] at more
    exact absurd more (by decide)
  exact ⟨attempts, call.trans rfl⟩

end Typeway.Server
