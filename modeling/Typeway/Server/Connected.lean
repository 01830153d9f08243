import Typeway.Client.Retry
import Typeway.Grpc.FrameSplit
import Typeway.Grpc.RichStatus
import Typeway.Server.BinaryPath
import Typeway.Server.GrpcWrap

/-!
# A client and its server

Calls from end to end. The client posts the same frame with every attempt, the dispatcher calls the
handler with what it makes of it, and what the handler answers is wrapped and travels back. The
world that handlers change goes on from one attempt to the next.
-/

namespace Typeway.Server

open Typeway.Core Grpc Json Client Attempts

/-! ## Attempts on a server -/

section

variable {W X R : Type} (serve : W → Served W X R) (w : W)

/-- The world that an attempt finds. -/
def worldAt : Nat → W
  | 0 => w
  | n + 1 => (serve (worldAt n)).world

/-- What so many attempts call. -/
def eventsOf (attempts : Nat) : List (Event W X R) :=
  (List.range attempts).flatMap fun n => (serve (worldAt serve w n)).events

end

/-- The calls of a handler that every attempt reaches. -/
theorem eventsOf_constant {W X R : Type} {serve : W → Served W X R} {event : Event W X R}
    (each : ∀ w, (serve w).events = [event]) (w : W) (attempts : Nat) :
    eventsOf serve w attempts = List.replicate attempts event := by
  rw [eventsOf]
  simp only [each]
  induction attempts with
  | zero => rfl
  | succ n ih =>
    rw [List.range_succ, List.flatMap_append, ih, List.replicate_succ']
    rfl

/-- The response arrives as it was sent, in frames and what is cut off behind them. -/
structure Arrives (sent : WrappedResponse) (response : HttpResponse) : Prop where
  status : response.status = 200
  headers : response.headers = sent.headers
  body : response.body = dataOf sent.body
  trailers : response.trailers = trailersOf sent.body
  whole : response.broken = false

variable {W X T D V : Type}

/-- The status that the caller is told. A stream has one in its trailers alone. -/
def RestResponse.code (response : RestResponse T) : Grpc.GrpcCode :=
  match response.body with
  | .plain _ => httpToGrpcCode response.status
  | .grpcStream _ => .ok

section

variable (S : SerdeJson) (toVec : T → List UInt8) (client : GrpcClient D V)
  (methodDesc : GrpcMethodDescriptor) (grpcPath : Str) (useProtoBinary : Bool)
  (transcoder : Option EncodeResponse)

/-- What is put into frames for a response. -/
def payloads (response : RestResponse T) : List (List UInt8) :=
  match response.body with
  | .plain _ => (expectedTexts S toVec response methodDesc).map fun text =>
      (encodeResponseBytes S text grpcPath useProtoBinary transcoder).1
  | .grpcStream rx => (StreamState.items rx).map toVec

/-- The payloads fit into frames, and a stream leaves the status to its trailers. -/
structure Sendable (response : RestResponse T) : Prop where
  fits : ∀ payload ∈ payloads S toVec methodDesc grpcPath useProtoBinary transcoder response,
    payload.length < 2 ^ 32
  silent : ∀ rx, response.body = .grpcStream rx → ∀ h ∈ response.headers, h.1 ≠ grpcStatusName

/-- The body of a response, or the status in its headers. -/
def replyOf (response : RestResponse T) : Except (GrpcClientError D) (List UInt8) :=
  let sent := (payloads S toVec methodDesc grpcPath useProtoBinary transcoder response).flatMap
    encodeGrpcFrame
  if response.code = .ok then .ok sent
  else .error (.status response.code [] (client.richDetails sent))

/-- What a unary call makes of a reply: its first message. -/
def unaryOutcome (response : RestResponse T) : Except (GrpcClientError D) V := do
  let _ ← replyOf S toVec client methodDesc grpcPath useProtoBinary transcoder response
  match payloads S toVec methodDesc grpcPath useProtoBinary transcoder response with
  | payload :: _ => client.decodeWith payload
  | [] => .error (.framing (framingText (.tooShort 0)))

/-- What a streaming call makes of a reply: all its messages. -/
def streamOutcome (response : RestResponse T) : Except (GrpcClientError D) (List V) := do
  let _ ← replyOf S toVec client methodDesc grpcPath useProtoBinary transcoder response
  (payloads S toVec methodDesc grpcPath useProtoBinary transcoder response).mapM client.decodeWith

end

/-- The client asks again. -/
def asksAgain (client : GrpcClient D V) (response : RestResponse T) : Bool :=
  match client.retry with
  | some policy => response.code ≠ .ok && response.code ∈ policy.retryOn
  | none => false

/-! ## One attempt -/

section

variable {S : SerdeJson} {H : HeaderParse} {toVec : T → List UInt8} {client : GrpcClient D V}
  {methodDesc : GrpcMethodDescriptor} {grpcPath : Str} {useProtoBinary : Bool}
  {transcoder : Option EncodeResponse} {response : RestResponse T}

/-- The body that leaves the dispatcher. -/
theorem dataOf_wrapResponseAsGrpc :
    dataOf (wrapResponseAsGrpc S H toVec response methodDesc grpcPath useProtoBinary
        transcoder).body =
      (payloads S toVec methodDesc grpcPath useProtoBinary transcoder response).flatMap
        encodeGrpcFrame := by
  rw [wrapResponseAsGrpc, payloads]
  cases body : response.body with
  | grpcStream rx => exact dataOf_stream rx
  | plain collected =>
    have framed : frameBody S methodDesc (httpToGrpcCode response.status) (collected.getD []) grpcPath
        useProtoBinary transcoder = framedTexts S grpcPath useProtoBinary transcoder
          (expectedTexts S toVec response methodDesc) :=
      frameBody_eq methodDesc response collected body
    dsimp only
    rw [framed, dataOf_withStatus, framedTexts, List.flatMap_map]

/-- The status is the first that the client looks at. -/
theorem readStatus_wrapped (ct : Str) (code : Grpc.GrpcCode) :
    readStatus [(contentTypeName, Utf8.bytes ct), statusHeader code] = code.asI32 ∧
      readMessage [(contentTypeName, Utf8.bytes ct), statusHeader code] = [] := by
  constructor
  · rw [readStatus, text?_cons_of_ne (by decide)]
    exact readStatus_cons code
  · rw [readMessage_cons_of_ne (by decide)]
    exact readMessage_cons_of_ne (by decide)

theorem readStatus_silent {headers : HeaderMap} (silent : ∀ h ∈ headers, h.1 ≠ grpcStatusName) :
    readStatus headers = 0 := by
  have absent : headers.find? (fun h => h.1 = grpcStatusName) = none := by
    rw [List.find?_eq_none]
    intro h mem
    simpa using silent h mem
  rw [readStatus, HeaderMap.text?, absent]
  rfl

/-- What the headers of the response to an attempt tell. -/
theorem readStatus_wrapResponseAsGrpc
    (sendable : Sendable S toVec methodDesc grpcPath useProtoBinary transcoder response) :
    let headers := (wrapResponseAsGrpc S H toVec response methodDesc grpcPath useProtoBinary
      transcoder).headers
    readStatus headers = response.code.asI32 ∧
      (response.code ≠ .ok → readMessage headers = []) := by
  intro headers
  cases body : response.body with
  | plain collected =>
    have code : response.code = httpToGrpcCode response.status := by rw [RestResponse.code, body]
    have eq : ∃ ct, headers = [(contentTypeName, Utf8.bytes ct), statusHeader response.code] := by
      rw [code]
      show ∃ ct, (wrapResponseAsGrpc S H toVec response methodDesc grpcPath useProtoBinary
        transcoder).headers = _
      rw [wrapResponseAsGrpc, body]
      exact ⟨_, rfl⟩
    obtain ⟨ct, eq⟩ := eq
    obtain ⟨status, message⟩ := readStatus_wrapped ct response.code
    rw [eq]
    exact ⟨status, fun _ => message⟩
  | grpcStream rx =>
    have code : response.code = .ok := by rw [RestResponse.code, body]
    have eq : headers = insertHeader contentTypeName (Utf8.bytes Encoding.json.contentType)
        response.headers := by
      show (wrapResponseAsGrpc S H toVec response methodDesc grpcPath useProtoBinary
        transcoder).headers = _
      rw [wrapResponseAsGrpc, body]
    refine ⟨?_, fun failed => absurd code failed⟩
    rw [eq, code]
    apply readStatus_silent
    intro h mem
    rw [insertHeader, List.mem_cons] at mem
    rcases mem with rfl | mem
    · show contentTypeName ≠ grpcStatusName
      decide
    · exact sendable.silent rx body h (List.mem_filter.1 mem).1

/-- What the client reads of the response to an attempt. -/
theorem readResponse_arrives
    (sendable : Sendable S toVec methodDesc grpcPath useProtoBinary transcoder response)
    {arrived : HttpResponse}
    (arrives : Arrives (wrapResponseAsGrpc S H toVec response methodDesc grpcPath useProtoBinary
      transcoder) arrived) :
    client.readResponse arrived =
      replyOf S toVec client methodDesc grpcPath useProtoBinary transcoder response := by
  obtain ⟨status, message⟩ := readStatus_wrapResponseAsGrpc (H := H) sendable
  have bytes : arrived.bytes? = some ((payloads S toVec methodDesc grpcPath useProtoBinary transcoder
      response).flatMap encodeGrpcFrame) := by
    rw [HttpResponse.bytes?, arrives.whole, if_neg Bool.false_ne_true, arrives.body,
      dataOf_wrapResponseAsGrpc]
  rw [GrpcClient.readResponse, arrives.headers, status, bytes, replyOf]
  by_cases ok : response.code = .ok
  · have zero : response.code.asI32 = 0 := GrpcCode.asI32_eq_zero.2 ok
    rw [if_neg (by rw [zero]; exact not_not.2 rfl)]
    dsimp only
    rw [if_pos ok]
  · have other : response.code.asI32 ≠ 0 := fun zero => ok (GrpcCode.asI32_eq_zero.1 zero)
    rw [if_pos other, message ok, GrpcCode.fromI32_asI32, if_neg ok]
    rfl

theorem again_replyOf :
    client.again (replyOf S toVec client methodDesc grpcPath useProtoBinary transcoder response) =
      asksAgain client response := by
  rw [replyOf, asksAgain]
  by_cases ok : response.code = .ok
  · rw [if_pos ok, GrpcClient.again]
    cases client.retry with
    | none => rfl
    | some policy => simp [ok]
  · rw [if_neg ok, GrpcClient.again, GrpcClient.shouldRetry]
    cases client.retry with
    | none => rfl
    | some policy => simp [ok]

end

/-! ## Calls -/

/-- No deadline of the request passes while the handler is at work. -/
def InTime {R : Type} (mux : GrpcMultiplexer W X R) (parts : HttpParts X)
    (handler : BoxedHandler W X R) (request : HttpRequest X) : Prop :=
  ∀ duration, grpcTimeout parts = some duration → ∀ w, mux.elapsed duration handler request w = none

theorem InTime.handleWithin {R : Type} {mux : GrpcMultiplexer W X R} {parts : HttpParts X}
    {handler : BoxedHandler W X R} {request : HttpRequest X}
    (inTime : InTime mux parts handler request) (w : W) :
    mux.handleWithin (grpcTimeout parts) handler request w =
      (.wrapped (handler request w).1, (handler request w).2) := by
  rw [GrpcMultiplexer.handleWithin]
  cases deadline : grpcTimeout parts with
  | none => rfl
  | some duration => rw [Option.bind_some, inTime duration deadline w]

/-- A message that is decoded reaches the handler. -/
theorem callGrpc_reaches {R : Type} {mux : GrpcMultiplexer W X R} {parts : HttpParts X}
    {body : Incoming} {methodDesc : GrpcMethodDescriptor} {handler : BoxedHandler W X R}
    {request : HttpRequest X} (known : mux.Known parts.path (.standard handler methodDesc []))
    (whole : body.broken = false) {message : List UInt8} (frame : IsFrame body.frames.flatten message)
    (decoded : mux.syntheticRequest methodDesc parts message = .ok request)
    (inTime : InTime mux parts handler request) (w : W) :
    mux.callGrpc parts body w =
      ⟨[.handler handler request], .wrapped (handler request w).1, (handler request w).2⟩ := by
  rw [GrpcMultiplexer.callGrpc_known w known, Incoming.collectOrEmpty_whole whole,
    IsFrame.unframed frame, GrpcMultiplexer.callMessage, GrpcMultiplexer.callStandard, decoded]
  dsimp only [runMiddleware]
  rw [inTime.handleWithin]
  rfl

section

variable (S : SerdeJson) (H : HeaderParse) (toVec : T → List UInt8) (client : GrpcClient D V)
  (mux : GrpcMultiplexer W X (RestResponse T)) (transcoder : Option EncodeResponse)
  (parts : HttpParts X) (body : Incoming) (w : W) (methodDesc : GrpcMethodDescriptor)
  (handler : BoxedHandler W X (RestResponse T)) (request : HttpRequest X)

/-- Every attempt gets what the server makes of its handler's response. -/
def Linked : Prop :=
  ∀ n rest, (mux.callGrpc parts body (worldAt (mux.callGrpc parts body) w n)).answer = .wrapped rest →
    ∃ arrived, client.send n = .ok arrived ∧
      Arrives (wrapResponseAsGrpc S H toVec rest methodDesc parts.path (mux.protoBinary parts).isSome
        transcoder) arrived

/-- A client without an open circuit breaker that is linked to a server, which knows the method and
makes a request of the client's message. -/
structure Connected : Prop where
  known : mux.Known parts.path (.standard handler methodDesc [])
  whole : body.broken = false
  decoded : ∃ message, IsFrame body.frames.flatten message ∧
    mux.syntheticRequest methodDesc parts message = .ok request
  inTime : InTime mux parts handler request
  sendable : ∀ w, Sendable S toVec methodDesc parts.path (mux.protoBinary parts).isSome transcoder
    (handler request w).1
  allowed : ∀ n, client.allowRequest n = true
  attempts : 0 < client.maxAttempts
  linked : Linked S H toVec client mux transcoder parts body w methodDesc

/-- The response of the handler to an attempt. -/
def responseTo (n : Nat) : RestResponse T :=
  (handler request (worldAt (mux.callGrpc parts body) w n)).1

variable {S H toVec client mux transcoder parts body w methodDesc handler request}

theorem Connected.reaches
    (connected : Connected S H toVec client mux transcoder parts body w methodDesc handler request)
    (w' : W) :
    mux.callGrpc parts body w' =
      ⟨[.handler handler request], .wrapped (handler request w').1, (handler request w').2⟩ := by
  obtain ⟨message, frame, decoded⟩ := connected.decoded
  exact callGrpc_reaches connected.known connected.whole frame decoded connected.inTime w'

/-- One attempt. -/
theorem Connected.sendRequestOnce
    (connected : Connected S H toVec client mux transcoder parts body w methodDesc handler request)
    (n : Nat) :
    client.sendRequestOnce n = replyOf S toVec client methodDesc parts.path
      (mux.protoBinary parts).isSome transcoder (responseTo mux parts body w handler request n) := by
  obtain ⟨arrived, sent, arrives⟩ :=
    connected.linked n (responseTo mux parts body w handler request n) (by rw [connected.reaches]; rfl)
  rw [GrpcClient.sendRequestOnce, sent]
  exact readResponse_arrives (connected.sendable _) arrives

/-- Attempts call the handler once each. -/
theorem Connected.events
    (connected : Connected S H toVec client mux transcoder parts body w methodDesc handler request)
    (attempts : Nat) :
    eventsOf (mux.callGrpc parts body) w attempts =
      List.replicate attempts (.handler handler request) := by
  apply eventsOf_constant
  intro w'
  rw [connected.reaches]

variable (client) in
theorem sendRequest_last (allowed : ∀ n, client.allowRequest n = true)
    (attempts : 0 < client.maxAttempts) :
    ∃ last, Last client.again client.sendRequestOnce (client.maxAttempts - 1) last ∧
      (client.sendRequestU32 0).2 = last + 1 ∧
      client.sendRequest = client.sendRequestOnce last := by
  have budget : client.maxAttempts = client.maxAttempts - 1 + 1 := (Nat.sub_add_cancel attempts).symm
  obtain ⟨last, ends, run⟩ :=
    repeated_last client.again client.sendRequestOnce (client.maxAttempts - 1) 0
  simp only [Nat.zero_add] at ends run
  refine ⟨last, ends, ?_, ?_⟩
  · rw [GrpcClient.sendRequestU32, budget, GrpcClient.sendAttempts_succ, run]
  · rw [GrpcClient.sendRequest, budget, GrpcClient.sendLoop_succ client allowed, run]

/-- What calls make of a reply with frames in it. -/
theorem call_replyOf {methodDesc : GrpcMethodDescriptor} {grpcPath : Str} {useProtoBinary : Bool}
    {response : RestResponse T}
    (sendable : Sendable S toVec methodDesc grpcPath useProtoBinary transcoder response)
    (sent : client.sendRequest =
      replyOf S toVec client methodDesc grpcPath useProtoBinary transcoder response) :
    client.call =
        unaryOutcome S toVec client methodDesc grpcPath useProtoBinary transcoder response ∧
      client.callServerStream =
        streamOutcome S toVec client methodDesc grpcPath useProtoBinary transcoder response := by
  have fits := sendable.fits
  rw [GrpcClient.call, GrpcClient.callServerStream, sent, unaryOutcome, streamOutcome, replyOf]
  by_cases ok : response.code = .ok
  · simp only [if_pos ok, Client.ok_bind]
    generalize payloads S toVec methodDesc grpcPath useProtoBinary transcoder response = sent at fits
    constructor
    · cases sent with
      | nil => rfl
      | cons payload rest =>
        have first : decodeGrpcFrame ((payload :: rest).flatMap encodeGrpcFrame) = .ok payload := by
          obtain ⟨frames, written, texts, plain⟩ := exists_wire_encode fits
          rw [written, decodeGrpcFrame_wire .nil]
          obtain ⟨frame, frames, rfl, first, -⟩ := List.map_eq_cons_iff.1 texts
          exact ⟨frame, frames, rfl, plain frame List.mem_cons_self, first⟩
        rw [first]
        rfl
    · have all : decodeGrpcFrames (sent.flatMap encodeGrpcFrame ++ trailersFrame none) =
          (sent, none) := decodeGrpcFrames_encode fits (by simp)
      rw [trailersFrame, List.append_nil] at all
      rw [all]
  · simp only [if_neg ok]
    exact ⟨rfl, rfl⟩

/-- What the attempts come to. -/
theorem Connected.reply
    (connected : Connected S H toVec client mux transcoder parts body w methodDesc handler request) :
    let response := responseTo mux parts body w handler request
    ∃ last, Last (asksAgain client) response (client.maxAttempts - 1) last ∧
      (client.sendRequestU32 0).2 = last + 1 ∧
      client.sendRequest = replyOf S toVec client methodDesc parts.path (mux.protoBinary parts).isSome
        transcoder (response last) := by
  intro response
  obtain ⟨last, ends, attempts, sent⟩ :=
    sendRequest_last client connected.allowed connected.attempts
  have again (n : Nat) : client.again (client.sendRequestOnce n) = asksAgain client (response n) := by
    rw [connected.sendRequestOnce]
    exact again_replyOf
  rw [connected.sendRequestOnce] at sent
  refine ⟨last, ⟨ends.within, fun n below => ?_, fun asks => ?_⟩, attempts, sent⟩
  · rw [← again]
    exact ends.before n below
  · rw [← again] at asks
    exact ends.settled asks

/-- **A call from end to end**: every attempt runs the handler once, with the request that is made
of the client's message. The client asks again as long as the status of the response is one to
retry on and its budget lasts, and what it returns is made of the last response alone. -/
theorem call_connected
    (connected : Connected S H toVec client mux transcoder parts body w methodDesc handler request) :
    let response := responseTo mux parts body w handler request
    ∃ last, Last (asksAgain client) response (client.maxAttempts - 1) last ∧
      (client.sendRequestU32 0).2 = last + 1 ∧
      eventsOf (mux.callGrpc parts body) w (last + 1) =
        List.replicate (last + 1) (.handler handler request) ∧
      client.call = unaryOutcome S toVec client methodDesc parts.path (mux.protoBinary parts).isSome
        transcoder (response last) ∧
      client.callServerStream = streamOutcome S toVec client methodDesc parts.path
        (mux.protoBinary parts).isSome transcoder (response last) := by
  intro response
  obtain ⟨last, ends, attempts, sent⟩ := connected.reply
  exact ⟨last, ends, attempts, connected.events _, call_replyOf (connected.sendable _) sent⟩

end

/-! ## Error details -/

section

variable {S : SerdeJson} {H : HeaderParse} {toVec : T → List UInt8}
  {client : GrpcClient ErrorDetail V} {mux : GrpcMultiplexer W X (RestResponse T)}
  {transcoder : Option EncodeResponse} {parts : HttpParts X} {body : Incoming} {w : W}
  {methodDesc : GrpcMethodDescriptor} {handler : BoxedHandler W X (RestResponse T)}
  {request : HttpRequest X}

/-- An error response with a status in its body, as a text that can be read. -/
structure Reports (S : SerdeJson) (response : RestResponse T) (status : RichGrpcStatus ErrorDetail) :
    Prop where
  failed : response.code ≠ .ok
  body : response.body = .plain (some (status.toJsonBytes S.toVec))
  code : -2 ^ 31 ≤ status.code ∧ status.code < 2 ^ 31
  reads : S.fromSlice (status.toJsonBytes S.toVec) = some (RichGrpcStatus.record.codec.ser status)

theorem Reports.payloads {response : RestResponse T} {status : RichGrpcStatus ErrorDetail}
    (reports : Reports S response status) (grpcPath : Str) :
    payloads S toVec methodDesc grpcPath false transcoder response =
      [status.toJsonBytes S.toVec] := by
  have code : response.code = httpToGrpcCode response.status := by
    rw [RestResponse.code, reports.body]
  have failed : ¬ (methodDesc.serverStreaming = true ∧ httpToGrpcCode response.status = .ok) :=
    fun h => reports.failed (code.trans h.2)
  rw [Server.payloads, expectedTexts, reports.body]
  dsimp only
  rw [if_neg failed]
  rfl

/-- The client finds the details in the frame. -/
theorem Reports.richDetails {response : RestResponse T} {status : RichGrpcStatus ErrorDetail}
    (reports : Reports S response status)
    (parses : client.parseRichStatus = parseRichStatus S.fromSlice)
    (fits : (status.toJsonBytes S.toVec).length < 2 ^ 32) :
    client.richDetails (encodeGrpcFrame (status.toJsonBytes S.toVec)) = status.details := by
  have frame : IsFrame (encodeGrpcFrame (status.toJsonBytes S.toVec)) (status.toJsonBytes S.toVec) :=
    ⟨rfl, fits⟩
  have some : (encodeGrpcFrame (status.toJsonBytes S.toVec)).isEmpty = false := rfl
  rw [GrpcClient.richDetails, some, if_neg Bool.false_ne_true, frame.decode, parses]
  dsimp only
  rw [parseRichStatus_toJsonBytes reports.reads reports.code]
  rfl

/-- **Error details from end to end**: when a call ends with an error response that has a status in
its body, the caller gets all the details of that status, with the code of the HTTP status. -/
theorem call_details
    (connected : Connected S H toVec client mux transcoder parts body w methodDesc handler request)
    (json : (mux.protoBinary parts).isSome = false)
    (parses : client.parseRichStatus = parseRichStatus S.fromSlice) :
    let response := responseTo mux parts body w handler request
    ∃ last, Last (asksAgain client) response (client.maxAttempts - 1) last ∧
      (client.sendRequestU32 0).2 = last + 1 ∧
      ∀ status, Reports S (response last) status →
        client.call = .error (.status (response last).code [] status.details) ∧
        client.callServerStream = .error (.status (response last).code [] status.details) := by
  intro response
  obtain ⟨last, ends, attempts, sent⟩ := connected.reply
  refine ⟨last, ends, attempts, fun status reports => ?_⟩
  have sendable : Sendable S toVec methodDesc parts.path (mux.protoBinary parts).isSome transcoder
      (response last) := connected.sendable _
  obtain ⟨call, stream⟩ := call_replyOf sendable sent
  have fits := sendable.fits
  rw [json] at sent call stream fits
  have payloads : payloads S toVec methodDesc parts.path false transcoder (response last) =
      [status.toJsonBytes S.toVec] := reports.payloads parts.path
  have reply : replyOf S toVec client methodDesc parts.path false transcoder (response last) =
      .error (.status (response last).code [] status.details) := by
    rw [payloads, List.forall_mem_singleton] at fits
    rw [replyOf, payloads, List.flatMap_singleton, if_neg reports.failed,
      reports.richDetails parses fits]
  rw [call, stream, unaryOutcome, streamOutcome, reply]
  exact ⟨rfl, rfl⟩

end

/-! ## A service that is not ready at first -/

/-- A service that reads `{}`. -/
def plainService {R : Type} (handlers : GrpcHandlers Nat Unit R) : GrpcMultiplexer Nat Unit R where
  rest :=
    { matchit := .documented
      inner := .new
      insertPrefixOffset := fun _ x => x
      stateInjector := none
      fallback := none
      maxBodySize := 2 * 1024 * 1024 }
  handlers := handlers
  stateInjector := none
  reflection := fun _ => []
  health := "SERVING".toList
  reflectionEnabled := false
  grpcSpecJson := none
  grpcDocsHtml := none
  transcoder := none
  fromSlice := fun bytes => if bytes = emptyObject then .ok (.obj []) else .error []
  uri := .documented
  floatText := fun _ => []
  elapsed := fun _ _ _ _ => none

def usersService (handler : BoxedHandler Nat Unit (RestResponse Unit)) :
    GrpcMultiplexer Nat Unit (RestResponse Unit) :=
  plainService ((∅ : GrpcHandlers Nat Unit (RestResponse Unit)).insert createUser.fullPath
    (.standard handler createUser []))

def createUserParts : HttpParts Unit :=
  (grpcParts createUser.fullPath).withContentType "application/grpc+json".toList

/-- The request that the handler gets. -/
def createUserRequest : HttpRequest Unit :=
  let rebuilt := buildSyntheticRequest (fun _ => []) .documented createUserParts createUser (.obj [])
    none
  ⟨rebuilt.1, rebuilt.2⟩

/-- Answers 503 to the first request, and a user to those behind it. -/
def warmingUp : BoxedHandler Nat Unit (RestResponse Unit) :=
  fun _ seen => (⟨if seen = 0 then 503 else 200, [], .plain (some emptyObject)⟩, seen + 1)

/-- The status of a service that asks for a second of patience. -/
def retryLater : RichGrpcStatus ErrorDetail :=
  (RichGrpcStatus.new .unavailable "warming up".toList).withDetail (.retryInfo ⟨1, 0⟩)

def jsonBytes (v : Value) : List UInt8 :=
  (v.text fun _ => []).flatMap String.utf8EncodeChar

def refusing : BoxedHandler Nat Unit (RestResponse Unit) :=
  fun _ seen => (⟨503, [], .plain (some (retryLater.toJsonBytes jsonBytes))⟩, seen + 1)

/-- The parser of texts that are `{}` or the status above. -/
def usersJson : SerdeJson where
  fromSlice bytes :=
    if bytes = emptyObject then some (.obj [])
    else if bytes = retryLater.toJsonBytes jsonBytes then
      some (RichGrpcStatus.record.codec.ser retryLater)
    else none
  toVec := jsonBytes

theorem usersJson_reads :
    usersJson.fromSlice (retryLater.toJsonBytes jsonBytes) =
      some (RichGrpcStatus.record.codec.ser retryLater) := by
  have other : retryLater.toJsonBytes jsonBytes ≠ emptyObject := by decide
  rw [usersJson]
  dsimp only
  rw [if_neg other, if_pos rfl]

theorem emptyObject_fits : emptyObject.length < 2 ^ 32 := by decide

theorem retryLater_fits : (retryLater.toJsonBytes jsonBytes).length < 2 ^ 32 := by decide +kernel

section

variable (handler : BoxedHandler Nat Unit (RestResponse Unit))

theorem usersService_known :
    (usersService handler).Known createUserParts.path (.standard handler createUser []) where
  found := AList.lookup_insert _
  health := by decide
  reflection := rfl

theorem createUser_frame : IsFrame (framed emptyObject).frames.flatten emptyObject where
  eq := List.flatten_singleton
  fits := emptyObject_fits

theorem createUser_decoded :
    (usersService handler).syntheticRequest createUser createUserParts emptyObject =
      .ok createUserRequest := rfl

theorem usersService_reaches (n : Nat) :
    (usersService handler).callGrpc createUserParts (framed emptyObject) n =
      ⟨[.handler handler createUserRequest], .wrapped (handler createUserRequest n).1,
        (handler createUserRequest n).2⟩ :=
  callGrpc_reaches (usersService_known handler) rfl createUser_frame (createUser_decoded handler)
    (fun _ _ _ => rfl) n

end

section

variable (handler : BoxedHandler Nat Unit (RestResponse Unit)) (methodDesc : GrpcMethodDescriptor)
  (request : HttpRequest Unit)

/-- What arrives of the response to an attempt. -/
def arrivedResponse (payload : List UInt8) (fits : payload.length < 2 ^ 32) (n : Nat) :
    HttpResponse :=
  let sent := wrapResponseAsGrpc usersJson .opaqueOctets (fun _ => []) (handler request n).1 methodDesc
    methodDesc.fullPath false none
  { status := 200
    headers := sent.headers
    frames := [⟨0, payload, fits⟩]
    cut := []
    cutOff := .nil
    trailers := trailersOf sent.body
    broken := false }

/-- A client that tries four times. -/
def patientClient (payload : List UInt8) (fits : payload.length < 2 ^ 32) :
    GrpcClient ErrorDetail Unit where
  retry := some ⟨3, [.unavailable]⟩
  allowRequest _ := true
  send n := .ok (arrivedResponse handler methodDesc request payload fits n)
  parseRichStatus := parseRichStatus usersJson.fromSlice
  decode bytes := if bytes = emptyObject then .ok () else .error []

variable {handler methodDesc request} {mux : GrpcMultiplexer Nat Unit (RestResponse Unit)}
  {parts : HttpParts Unit} {body : Incoming}

/-- A handler that counts its calls is called at each number once. -/
theorem worldAt_counting
    (reaches : ∀ n, mux.callGrpc parts body n =
      ⟨[.handler handler request], .wrapped (handler request n).1, (handler request n).2⟩)
    (counts : ∀ n, (handler request n).2 = n + 1) (n : Nat) :
    worldAt (mux.callGrpc parts body) 0 n = n := by
  induction n with
  | zero => rfl
  | succ n ih => rw [worldAt, ih, reaches, counts]

/-- The client is connected to a handler that answers every time with the same payload. -/
theorem patientClient_connected (known : mux.Known methodDesc.fullPath (.standard handler methodDesc []))
    (path : parts.path = methodDesc.fullPath) (whole : body.broken = false) {message : List UInt8}
    (frame : IsFrame body.frames.flatten message)
    (decoded : mux.syntheticRequest methodDesc parts message = .ok request)
    (inTime : InTime mux parts handler request) (json : mux.protoBinary parts = none)
    (unary : methodDesc.serverStreaming = false) (counts : ∀ n, (handler request n).2 = n + 1)
    {payload : List UInt8} (fits : payload.length < 2 ^ 32)
    (answers : ∀ n, (handler request n).1.body = .plain (some payload)) :
    Connected usersJson .opaqueOctets (fun _ => [])
      (patientClient handler methodDesc request payload fits) mux none parts body 0 methodDesc handler
      request := by
  rw [← path] at known
  have reaches := callGrpc_reaches known whole frame decoded inTime
  have payloads (n : Nat) : payloads usersJson (fun _ => []) methodDesc parts.path false none
      (handler request n).1 = [payload] := by
    rw [payloads, expectedTexts, answers]
    dsimp only
    rw [unary]
    rfl
  have plain : (mux.protoBinary parts).isSome = false := by rw [json]; rfl
  refine ⟨known, whole, ⟨message, frame, decoded⟩, inTime, fun n => ⟨?_, ?_⟩, fun _ => rfl,
    show 0 < 4 by omega, ?_⟩
  · intro sent mem
    rw [plain, payloads] at mem
    rw [List.mem_singleton.1 mem]
    exact fits
  · intro rx stream
    rw [answers] at stream
    cases stream
  · intro n rest wrapped
    rw [worldAt_counting reaches counts, reaches] at wrapped
    cases wrapped
    refine ⟨arrivedResponse handler methodDesc request payload fits n, rfl, rfl, ?_, ?_, ?_, rfl⟩
    · rw [plain, path]
      rfl
    · rw [plain, dataOf_wrapResponseAsGrpc, payloads]
      exact (wire_cons_data fits []).symm
    · rw [plain, path]
      rfl

end

/-- A client of the service above. -/
abbrev usersClient (handler : BoxedHandler Nat Unit (RestResponse Unit)) (payload : List UInt8)
    (fits : payload.length < 2 ^ 32) : GrpcClient ErrorDetail Unit :=
  patientClient handler createUser createUserRequest payload fits

theorem usersClient_connected (handler : BoxedHandler Nat Unit (RestResponse Unit))
    (counts : ∀ n, (handler createUserRequest n).2 = n + 1) {payload : List UInt8}
    (fits : payload.length < 2 ^ 32)
    (answers : ∀ n, (handler createUserRequest n).1.body = .plain (some payload)) :
    Connected usersJson .opaqueOctets (fun _ => []) (usersClient handler payload fits)
      (usersService handler) none createUserParts (framed emptyObject) 0 createUser handler
      createUserRequest :=
  patientClient_connected (usersService_known handler) rfl rfl createUser_frame
    (createUser_decoded handler) (fun _ _ _ => rfl) rfl rfl counts fits answers

/-- The second attempt succeeds. -/
theorem call_connected_warmingUp :
    let client := usersClient warmingUp emptyObject emptyObject_fits
    (client.sendRequestU32 0).2 = 2 ∧
      eventsOf ((usersService warmingUp).callGrpc createUserParts (framed emptyObject)) 0 2 =
        List.replicate 2 (.handler warmingUp createUserRequest) ∧
      client.call = .ok () := by
  intro client
  obtain ⟨last, ends, attempts, events, call, -⟩ := call_connected
    (usersClient_connected warmingUp (fun _ => rfl) emptyObject_fits fun _ => rfl)
  have asks (n : Nat) : asksAgain client (responseTo (usersService warmingUp) createUserParts
      (framed emptyObject) 0 warmingUp createUserRequest n) = decide (n = 0) := by
    rw [responseTo, worldAt_counting (usersService_reaches warmingUp) fun _ => rfl]
    cases n <;> rfl
  obtain rfl : last = 1 := by
    refine ends.second (by decide) (asks 0) fun more => ?_
    rw [asks] at more
    exact absurd more (by decide)
  refine ⟨attempts, events, ?_⟩
  rw [call, responseTo, worldAt_counting (usersService_reaches warmingUp) fun _ => rfl]
  rfl

/-- All attempts are refused, and the delay that is asked for arrives. -/
theorem call_details_refusing :
    let client := usersClient refusing (retryLater.toJsonBytes jsonBytes) retryLater_fits
    (client.sendRequestU32 0).2 = 4 ∧
      client.call = .error (.status .unavailable [] [.retryInfo ⟨1, 0⟩]) := by
  intro client
  obtain ⟨last, ends, attempts, report⟩ := call_details
    (usersClient_connected refusing (fun _ => rfl) retryLater_fits fun _ => rfl) rfl rfl
  have response (n : Nat) : responseTo (usersService refusing) createUserParts (framed emptyObject) 0
      refusing createUserRequest n = (refusing createUserRequest n).1 := by
    rw [responseTo, worldAt_counting (usersService_reaches refusing) fun _ => rfl]
  obtain rfl : last = 3 := by
    apply ends.settled
    rw [response]
    rfl
  obtain ⟨call, -⟩ := report retryLater ⟨by rw [response]; decide, by rw [response]; rfl, by decide,
    usersJson_reads⟩
  rw [response] at call
  exact ⟨attempts, call⟩

end Typeway.Server
