import Typeway.Grpc.Delivery
import Typeway.Grpc.Web

/-!
# What a call of the client ends with

`GrpcClient::call` and `call_server_stream`: the outcome is put together from the response headers
and from the body, which is split into frames. What the server sent is a status, in one place or
more, and a sequence of frames.
-/

namespace Typeway.Client

open Typeway.Core Grpc

/-- The texts of framing errors. -/
def framingText : FramingError → Str
  | .tooShort got =>
    "frame too short: got ".toList ++ Lines.decimal got ++ " bytes, need at least 5".toList
  | .compressedNotSupported =>
    "compressed gRPC frames are not supported — send uncompressed or use a gRPC proxy".toList
  | .incomplete expected got =>
    "incomplete frame: expected ".toList ++ Lines.decimal expected ++ " bytes, got ".toList ++
      Lines.decimal got

/-- `GrpcClientError` over the error details `D`. -/
inductive GrpcClientError (D : Type) where
  | status (code : GrpcCode) (message : Str) (details : List D)
  | transport (message : Str)
  | codec (message : Str)
  | invalidUrl (message : Str)
  | framing (message : Str)

/-- A response as it arrives: the body is a sequence of whole frames and what is cut off behind
them, unless the connection breaks before its end. -/
structure HttpResponse where
  status : Nat
  headers : HeaderMap
  frames : List WireFrame
  cut : List UInt8
  cutOff : CutOff cut
  trailers : Option HeaderMap
  broken : Bool

def HttpResponse.body (response : HttpResponse) : List UInt8 :=
  wire response.frames response.cut

/-- `response.bytes()` -/
def HttpResponse.bytes? (response : HttpResponse) : Option (List UInt8) :=
  if response.broken then none else some response.body

structure GrpcRetryPolicy where
  maxRetries : UInt32
  retryOn : List GrpcCode

/-- A client with what its collaborators do in a call: the responses to its attempts, or the errors
that keep a request from being sent, and the answers of its circuit breaker. -/
structure GrpcClient (D V : Type) where
  retry : Option GrpcRetryPolicy
  allowRequest : Nat → Bool
  send : Nat → Except (GrpcClientError D) HttpResponse
  parseRichStatus : List UInt8 → Option (RichGrpcStatus D)
  /-- `codec.decode` -/
  decode : List UInt8 → Except Str V

namespace GrpcClient

variable {D V : Type} (client : GrpcClient D V)

/-- The details in the body of an error response. -/
def richDetails (body : List UInt8) : List D :=
  if body.isEmpty then []
  else
    let unframed := match decodeGrpcFrame body with
      | .ok message => message
      | .error _ => []
    (((client.parseRichStatus unframed).or (client.parseRichStatus body)).map
      RichGrpcStatus.details).getD []

/-- `send_request_once` from the response on. -/
def readResponse (response : HttpResponse) : Except (GrpcClientError D) (List UInt8) :=
  let grpcStatus := readStatus response.headers
  let grpcMessage := readMessage response.headers
  if grpcStatus ≠ 0 then
    .error (.status (.fromI32 grpcStatus) grpcMessage
      (client.richDetails (response.bytes?.getD [])))
  else
    match response.bytes? with
    | some body => .ok body
    | none => .error (.transport "error reading a body from connection".toList)

def sendRequestOnce (attempt : Nat) : Except (GrpcClientError D) (List UInt8) := do
  let response ← client.send attempt
  client.readResponse response

def shouldRetry (e : GrpcClientError D) : Bool :=
  match client.retry with
  | some policy =>
    match e with
    | .status code _ _ => code ∈ policy.retryOn
    | .transport _ => true
    | _ => false
  | none => false

/-- `max_attempts`, a sum of `u32` that wraps around as it does in release builds. -/
def maxAttempts : Nat :=
  match client.retry with
  | some policy => (policy.maxRetries + 1).toNat
  | none => 1

/-- The loop of `send_request` with so many attempts left. -/
def sendLoop : Nat → Nat → Except (GrpcClientError D) (List UInt8)
  | 0, _ => .error (.transport "all retry attempts exhausted".toList)
  | left + 1, attempt =>
    if client.allowRequest attempt = false then
      .error (.status .unavailable "circuit breaker open".toList [])
    else
      match client.sendRequestOnce attempt with
      | .ok body => .ok body
      | .error e => if client.shouldRetry e ∧ 0 < left then sendLoop left (attempt + 1) else .error e

def sendRequest : Except (GrpcClientError D) (List UInt8) :=
  client.sendLoop client.maxAttempts 0

def decodeWith (payload : List UInt8) : Except (GrpcClientError D) V :=
  (client.decode payload).mapError .codec

def call : Except (GrpcClientError D) V := do
  let responseBytes ← client.sendRequest
  let unframed ← (decodeGrpcFrame responseBytes).mapError fun e => .framing (framingText e)
  client.decodeWith unframed

/-- The items that the `ClientStream` yields. -/
def callServerStream : Except (GrpcClientError D) (List V) := do
  let responseBytes ← client.sendRequest
  (decodeGrpcFrames responseBytes).1.mapM client.decodeWith

end GrpcClient

/-! ## What the server sent -/

def headerStatus (headers : HeaderMap) : Option Int :=
  (headers.text? grpcStatusName).bind parseI32

namespace HttpResponse

variable (response : HttpResponse)

/-- The status a call ends with: of the places that have one, the one that comes last. -/
def finalStatus : Option Int :=
  (response.trailers.bind headerStatus).or
    (((untilTrailers response.frames).2.bind frameStatus).or (headerStatus response.headers))

end HttpResponse

/-- Uncompressed messages, and at most a trailers frame behind them. -/
def WholePlain : List WireFrame → Prop
  | [] => True
  | frame :: frames => (frame.flag = 0 ∧ WholePlain frames) ∨
      (frame.flag = trailersFrameFlag ∧ frames = [])

/-- The payloads of all frames but a trailers frame. -/
def messagesOf (frames : List WireFrame) : List (List UInt8) :=
  (frames.filter fun frame => frame.flag ≠ trailersFrameFlag).map WireFrame.payload

/-- The call has ended well, with these messages and no others. -/
structure Genuine {V : Type} (decode : List UInt8 → Except Str V) (response : HttpResponse)
    (values : List V) : Prop where
  status : response.finalStatus = some 0
  whole : response.cut = []
  plain : WholePlain response.frames
  messages : (messagesOf response.frames).mapM decode = .ok values

/-! ## Which response decides -/

namespace GrpcClient

variable {D V : Type} (client : GrpcClient D V)

/-- The attempt whose result the loop returns. -/
def answering : Nat → Nat → Option Nat
  | 0, _ => none
  | left + 1, attempt =>
    if client.allowRequest attempt = false then none
    else
      match client.sendRequestOnce attempt with
      | .ok _ => some attempt
      | .error e => if client.shouldRetry e ∧ 0 < left then answering left (attempt + 1) else some attempt

/-- The last response that the client receives. -/
def lastResponse : Option HttpResponse :=
  (client.answering client.maxAttempts 0).bind fun attempt => (client.send attempt).toOption

variable {client} {body : List UInt8} {response : HttpResponse}

theorem sendLoop_eq_ok {left attempt : Nat} :
    client.sendLoop left attempt = .ok body ↔
      ∃ n, client.answering left attempt = some n ∧ client.sendRequestOnce n = .ok body := by
  induction left generalizing attempt with
  | zero => simp [sendLoop, answering]
  | succ left ih =>
    rw [sendLoop, answering]
    by_cases refused : client.allowRequest attempt = false
    · simp [refused]
    · rw [if_neg refused, if_neg refused]
      cases result : client.sendRequestOnce attempt with
      | ok body' => simp [result]
      | error e =>
        dsimp only
        by_cases again : client.shouldRetry e ∧ 0 < left
        · rw [if_pos again, if_pos again, ih]
        · rw [if_neg again, if_neg again]
          simp [result]

theorem readResponse_eq_ok :
    client.readResponse response = .ok body ↔
      readStatus response.headers = 0 ∧ response.broken = false ∧ response.body = body := by
  rw [readResponse, HttpResponse.bytes?]
  by_cases failed : readStatus response.headers ≠ 0
  · rw [if_pos failed]
    simp [failed]
  · rw [if_neg failed]
    rw [not_not] at failed
    cases response.broken with
    | false => simp [failed]
    | true => simp

theorem sendRequest_eq_ok :
    client.sendRequest = .ok body ↔ ∃ response, client.lastResponse = some response ∧
      readStatus response.headers = 0 ∧ response.broken = false ∧ response.body = body := by
  rw [sendRequest, sendLoop_eq_ok, lastResponse]
  have read (response : HttpResponse) :
      readStatus response.headers = 0 ∧ response.broken = false ∧ response.body = body ↔
        client.readResponse response = .ok body :=
    readResponse_eq_ok.symm
  simp only [read]
  constructor
  · rintro ⟨n, answers, ok⟩
    rw [answers, sendRequestOnce] at *
    cases received : client.send n with
    | error e =>
      rw [received] at ok
      cases ok
    | ok response =>
      rw [received] at ok
      refine ⟨response, ?_, ok⟩
      rw [Option.bind_some, received]
      rfl
  · rintro ⟨response, last, ok⟩
    obtain ⟨n, answers, received⟩ := Option.bind_eq_some_iff.1 last
    refine ⟨n, answers, ?_⟩
    cases sent : client.send n with
    | error e =>
      rw [sent] at received
      cases received
    | ok response' =>
      rw [sent] at received
      cases received
      rw [sendRequestOnce, sent]
      exact ok

end GrpcClient

/-! ## What the frames yield -/

section Frames

variable {V ε ε' : Type} {decode : List UInt8 → Except ε V} {frames : List WireFrame}
  {cut : List UInt8}

theorem ok_bind {α β : Type} {a : α} {f : α → Except ε β} : (Except.ok a >>= f) = f a := rfl

theorem mapError_eq_ok {α : Type} {f : ε → ε'} {x : Except ε α} {a : α} :
    x.mapError f = .ok a ↔ x = .ok a := by
  cases x with
  | ok b => simp [Except.mapError]
  | error e => simp [Except.mapError]

theorem mapM_cons_eq_ok {α : Type} {f : α → Except ε V} {a : α} {l : List α} {values : List V} :
    (a :: l).mapM f = .ok values ↔
      ∃ v rest, f a = .ok v ∧ l.mapM f = .ok rest ∧ values = v :: rest := by
  rw [List.mapM_cons]
  cases f a with
  | error e => simp [Bind.bind, Except.bind]
  | ok v =>
    cases l.mapM f with
    | error e => simp [Bind.bind, Except.bind]
    | ok rest => simp [Bind.bind, Except.bind, pure, Except.pure, eq_comm]

theorem mapM_nil_eq_ok {α : Type} {f : α → Except ε V} {values : List V} :
    [].mapM f = .ok values ↔ values = [] := by
  rw [List.mapM_nil]
  simp [pure, Except.pure, eq_comm]

/-- The kind of error does not matter for success. -/
theorem mapM_mapError {α : Type} {f : ε → ε'} {g : α → Except ε V} {l : List α} {values : List V} :
    (l.mapM fun a => (g a).mapError f) = .ok values ↔ l.mapM g = .ok values := by
  induction l generalizing values with
  | nil => rw [mapM_nil_eq_ok, mapM_nil_eq_ok]
  | cons a l ih => simp only [mapM_cons_eq_ok, mapError_eq_ok, ih]

theorem mapM_isOk_iff {α : Type} {f : α → Except ε V} {l : List α} :
    (∃ values, l.mapM f = .ok values) ↔ ∀ a ∈ l, ∃ v, f a = .ok v := by
  induction l with
  | nil => exact iff_of_true ⟨[], mapM_nil_eq_ok.2 rfl⟩ (List.forall_mem_nil _)
  | cons a l ih =>
    rw [List.forall_mem_cons, ← ih]
    simp only [mapM_cons_eq_ok]
    constructor
    · rintro ⟨values, v, rest, first, behind, -⟩
      exact ⟨⟨v, first⟩, rest, behind⟩
    · rintro ⟨⟨v, first⟩, rest, behind⟩
      exact ⟨v :: rest, v, rest, first, behind, rfl⟩

/-- The single-frame decoder reads the first frame, if it is not compressed. -/
theorem decodeGrpcFrame_wire (off : CutOff cut) {message : List UInt8} :
    decodeGrpcFrame (wire frames cut) = .ok message ↔
      ∃ frame rest, frames = frame :: rest ∧ frame.flag = 0 ∧ frame.payload = message := by
  cases frames with
  | nil =>
    have malformed : Malformed (wire [] cut) := by
      rw [wire, List.flatMap_nil, List.nil_append]
      cases off with
      | short short => exact .short short
      | incomplete beyond => exact .incomplete beyond
    obtain ⟨e, refused⟩ := malformed_iff.1 malformed
    simp [refused]
  | cons frame frames =>
    obtain ⟨a, b, c, d, eq, len⟩ := frame.bytes_append (wire frames cut)
    have unfolded : wire (frame :: frames) cut = frame.bytes ++ wire frames cut := by
      rw [wire, List.flatMap_cons, List.append_assoc]
      rfl
    rw [unfolded, eq, decodeGrpcFrame]
    by_cases plain : frame.flag = 0
    · rw [if_neg (not_not.2 plain)]
      dsimp only
      rw [len, if_neg (by rw [List.length_append]; omega), List.take_left]
      simp [plain]
    · rw [if_pos plain]
      simp [plain]

/-- Where the frames are as they should be, the splitter finds all messages. -/
theorem WholePlain.untilTrailers_eq (plain : WholePlain frames) :
    (untilTrailers frames).1 = messagesOf frames := by
  induction frames with
  | nil => rfl
  | cons frame frames ih =>
    rw [untilTrailers, messagesOf]
    obtain ⟨flag, plain⟩ | ⟨flag, rfl⟩ := plain
    · have data : frame.flag ≠ trailersFrameFlag := by
        rw [flag]
        decide
      rw [if_neg data, List.filter_cons_of_pos (by simpa using data), List.map_cons, ih plain]
      rfl
    · rw [if_pos flag, List.filter_cons_of_neg (by simpa using flag)]
      rfl

end Frames

/-! ## The outcome -/

section Outcome

variable {D V : Type} (client : GrpcClient D V)

/-- The client returns `Ok` only for calls that have ended well, and with all their messages. -/
structure Faithful : Prop where
  call : ∀ v, client.call = .ok v → ∃ response,
    client.lastResponse = some response ∧ Genuine client.decode response [v]
  stream : ∀ values, client.callServerStream = .ok values → ∃ response,
    client.lastResponse = some response ∧ Genuine client.decode response values

/-- Nothing that the client looks at in the head and in the transfer of the response is an error. -/
def Accepts (response : HttpResponse) : Prop :=
  readStatus response.headers = 0 ∧ response.broken = false

/-- The first frame is uncompressed, and the codec reads it. -/
def ReadsFirst (decode : List UInt8 → Except Str V) (response : HttpResponse) : Prop :=
  ∃ frame rest v, response.frames = frame :: rest ∧ frame.flag = 0 ∧ decode frame.payload = .ok v

/-- The codec reads the frames before the trailers frame. -/
def ReadsAll (decode : List UInt8 → Except Str V) (response : HttpResponse) : Prop :=
  ∀ payload ∈ (untilTrailers response.frames).1, ∃ v, decode payload = .ok v

/-- The final status is there and is 0, and the body ends with its last frame, without a compressed
one. -/
structure EndsWell (response : HttpResponse) : Prop where
  status : response.finalStatus = some 0
  whole : response.cut = []
  plain : WholePlain response.frames

/-- What the client does not look at is as it takes it to be. -/
structure Trusty (decode : List UInt8 → Except Str V) (response : HttpResponse) : Prop where
  call : ReadsFirst decode response → EndsWell response ∧ (messagesOf response.frames).length = 1
  stream : ReadsAll decode response → EndsWell response

variable {client} {response : HttpResponse}

theorem call_eq_ok {v : V} :
    client.call = .ok v ↔ ∃ response, client.lastResponse = some response ∧ Accepts response ∧
      ∃ frame rest, response.frames = frame :: rest ∧ frame.flag = 0 ∧
        client.decode frame.payload = .ok v := by
  rw [GrpcClient.call]
  constructor
  · intro ok
    cases sent : client.sendRequest with
    | error e =>
      rw [sent] at ok
      cases ok
    | ok body =>
      obtain ⟨response, last, status, unbroken, rfl⟩ := GrpcClient.sendRequest_eq_ok.1 sent
      rw [sent] at ok
      cases read : decodeGrpcFrame response.body with
      | error e =>
        rw [ok_bind, read] at ok
        cases ok
      | ok message =>
        rw [ok_bind, read] at ok
        obtain ⟨frame, rest, split, plain, rfl⟩ := (decodeGrpcFrame_wire response.cutOff).1 read
        exact ⟨response, last, ⟨status, unbroken⟩, frame, rest, split, plain, mapError_eq_ok.1 ok⟩
  · rintro ⟨response, last, ⟨status, unbroken⟩, frame, rest, split, plain, decoded⟩
    have sent := GrpcClient.sendRequest_eq_ok.2 ⟨response, last, status, unbroken, rfl⟩
    have read := (decodeGrpcFrame_wire response.cutOff).2 ⟨frame, rest, split, plain, rfl⟩
    have same : response.body = wire response.frames response.cut := rfl
    rw [sent, ok_bind, same, read]
    exact mapError_eq_ok.2 decoded

theorem callServerStream_eq_ok {values : List V} :
    client.callServerStream = .ok values ↔ ∃ response, client.lastResponse = some response ∧
      Accepts response ∧ (untilTrailers response.frames).1.mapM client.decode = .ok values := by
  rw [GrpcClient.callServerStream]
  constructor
  · intro ok
    cases sent : client.sendRequest with
    | error e =>
      rw [sent] at ok
      cases ok
    | ok body =>
      obtain ⟨response, last, status, unbroken, rfl⟩ := GrpcClient.sendRequest_eq_ok.1 sent
      rw [sent] at ok
      refine ⟨response, last, ⟨status, unbroken⟩, ?_⟩
      rw [← decodeGrpcFrames_wire response.cutOff]
      exact mapM_mapError.1 ok
  · rintro ⟨response, last, ⟨status, unbroken⟩, decoded⟩
    have sent := GrpcClient.sendRequest_eq_ok.2 ⟨response, last, status, unbroken, rfl⟩
    rw [← decodeGrpcFrames_wire response.cutOff] at decoded
    rw [sent]
    exact mapM_mapError.2 decoded

/-- A single message is the whole answer where the first frame is the only one. -/
theorem genuine_first_iff {decode : List UInt8 → Except Str V} {frame : WireFrame}
    {rest : List WireFrame} {v : V} (split : response.frames = frame :: rest) (plain : frame.flag = 0)
    (decoded : decode frame.payload = .ok v) :
    Genuine decode response [v] ↔ EndsWell response ∧ (messagesOf response.frames).length = 1 := by
  have first : messagesOf response.frames = frame.payload :: messagesOf rest := by
    rw [split, messagesOf, List.filter_cons_of_pos (by rw [plain]; decide)]
    rfl
  constructor
  · intro genuine
    refine ⟨⟨genuine.status, genuine.whole, genuine.plain⟩, ?_⟩
    have messages := genuine.messages
    rw [first, mapM_cons_eq_ok] at messages
    obtain ⟨v', values, -, behind, same⟩ := messages
    cases same
    rw [first]
    cases more : messagesOf rest with
    | nil => rfl
    | cons payload payloads =>
      rw [more, mapM_cons_eq_ok] at behind
      obtain ⟨v'', values', -, -, same⟩ := behind
      cases same
  · rintro ⟨ends, single⟩
    refine ⟨ends.status, ends.whole, ends.plain, ?_⟩
    rw [first, List.length_cons, Nat.add_eq_right, List.length_eq_zero_iff] at single
    rw [first, single, mapM_cons_eq_ok]
    exact ⟨v, [], decoded, mapM_nil_eq_ok.2 rfl, rfl⟩

theorem faithful_iff (client : GrpcClient D V) :
    Faithful client ↔ ∀ response, client.lastResponse = some response → Accepts response →
      Trusty client.decode response := by
  constructor
  · intro faithful response last accepts
    constructor
    · rintro ⟨frame, rest, v, split, plain, decoded⟩
      obtain ⟨response', last', genuine⟩ := faithful.call v
        (call_eq_ok.2 ⟨response, last, accepts, frame, rest, split, plain, decoded⟩)
      cases last.symm.trans last'
      exact (genuine_first_iff split plain decoded).1 genuine
    · intro reads
      obtain ⟨values, decoded⟩ := mapM_isOk_iff.2 reads
      obtain ⟨response', last', genuine⟩ := faithful.stream values
        (callServerStream_eq_ok.2 ⟨response, last, accepts, decoded⟩)
      cases last.symm.trans last'
      exact ⟨genuine.status, genuine.whole, genuine.plain⟩
  · intro trusty
    constructor
    · intro v ok
      obtain ⟨response, last, accepts, frame, rest, split, plain, decoded⟩ := call_eq_ok.1 ok
      refine ⟨response, last, (genuine_first_iff split plain decoded).2 ?_⟩
      exact (trusty response last accepts).call ⟨frame, rest, v, split, plain, decoded⟩
    · intro values ok
      obtain ⟨response, last, accepts, decoded⟩ := callServerStream_eq_ok.1 ok
      have ends := (trusty response last accepts).stream (mapM_isOk_iff.1 ⟨values, decoded⟩)
      refine ⟨response, last, ends.status, ends.whole, ends.plain, ?_⟩
      rw [← ends.plain.untilTrailers_eq]
      exact decoded

end Outcome

/-- What a `GrpcStream` answers whose handler sends an item and then an error: the status is in the
trailers, and no headers tell of it. -/
def failedStream : HttpResponse where
  status := 200
  headers := [("content-type".toList, Utf8.bytes "application/grpc+json".toList)]
  frames := [emptyFrame]
  cut := []
  cutOff := .nil
  trailers := some (buildTrailers .opaqueOctets ⟨.internal, []⟩)
  broken := false

/-- A client that gets this response to everything, and whose codec reads everything. -/
def failedStreamClient : GrpcClient Unit Unit where
  retry := none
  allowRequest _ := true
  send _ := .ok failedStream
  parseRichStatus _ := none
  decode _ := .ok ()

/-- The stream ends with `Ok` and its one item, and its status is 13. -/
theorem not_faithful_failedStream : ¬ ∀ client : GrpcClient Unit Unit, Faithful client := by
  intro all
  obtain ⟨response, last, genuine⟩ := (all failedStreamClient).stream [()] rfl
  cases last
  exact absurd genuine.status (by decide)

end Typeway.Client
