import Typeway.Base.Text
import Typeway.Grpc.FrameSequence
import Typeway.Grpc.TrailerBody
import Typeway.Server.SyntheticRequest

/-!
# gRPC-Web

`web.rs`: the bridge collects the body of a gRPC response and puts the status behind it as a
trailers frame. It takes the status from the response headers; that of the HTTP trailers, or the
failure to read the body, is not looked at.
-/

namespace Typeway.Grpc

open Typeway.Core Server Segments

/-! ## The trailers frame -/

/-- `grpc-status: 0\r\n`, and the message behind it. -/
def trailerLines (grpcStatus : List UInt8) (grpcMessage : Option (List UInt8)) : List UInt8 :=
  Utf8.bytes "grpc-status: ".toList ++ (grpcStatus ++ 13 :: 10 ::
    match grpcMessage with
    | some message => Utf8.bytes "grpc-message: ".toList ++ (message ++ [13, 10])
    | none => [])

def encodeTrailersFrame (grpcStatus : Str) (grpcMessage : Option Str) : List UInt8 :=
  let trailerBytes := trailerLines (Utf8.bytes grpcStatus) (grpcMessage.map Utf8.bytes)
  trailersFrameFlag :: (frameLength trailerBytes ++ trailerBytes)

/-- A line of a trailers frame that reads as a status. -/
def lineStatus (line : Str) : Option Int :=
  ((splitOnce ':' line).filter fun e => e.1 = grpcStatusName).bind fun e => parseI32 (Text.trim e.2)

/-- The status among the lines of a trailers frame. -/
def frameStatus (payload : List UInt8) : Option Int :=
  (Utf8.chars? payload).bind fun text => (Lines.lines text).findSome? lineStatus

/-! ## The bridge -/

/-- `headers.get(name)` -/
def HeaderMap.get? (headers : HeaderMap) (name : Str) : Option (List UInt8) :=
  (headers.find? fun h => h.1 = name).map Prod.snd

def HeaderMap.remove (headers : HeaderMap) (name : Str) : HeaderMap :=
  headers.filter fun h => h.1 ≠ name

def contentTypeName : Str :=
  "content-type".toList

def isGrpcWebRequest (headers : HeaderMap) : Bool :=
  (headers.text? contentTypeName).any fun ct => "application/grpc-web".toList.isPrefixOf ct

/-- A response whose body yields these frames, and then ends or fails. -/
structure InnerResponse where
  headers : HeaderMap
  body : List Frame
  broken : Bool

/-- The data of the frames. -/
def dataOf (frames : List Frame) : List UInt8 :=
  frames.flatMap fun frame =>
    match frame with
    | .data bytes => bytes
    | .trailers _ => []

/-- `body.collect()`, of which only the data is used. -/
def InnerResponse.collect (inner : InnerResponse) : Option (List UInt8) :=
  if inner.broken then none else some (dataOf inner.body)

/-- The response that `GrpcWebService::call` makes of the inner one. -/
def webResponse (isJson : Bool) (inner : InnerResponse) : HeaderMap × List UInt8 :=
  let grpcStatus := inner.headers.text? grpcStatusName
  let grpcMessage := inner.headers.text? grpcMessageName
  let headers := (inner.headers.remove grpcStatusName).remove grpcMessageName
  let headers := insertHeader contentTypeName
    (Utf8.bytes (if isJson then "application/grpc-web+json" else "application/grpc-web").toList) headers
  let bodyBytes := inner.collect.getD []
  (headers, bodyBytes ++ encodeTrailersFrame (grpcStatus.getD ['0']) grpcMessage)

/-- The bridge over an inner service, which sees the headers of the request. Others than gRPC-Web
requests go through. -/
def GrpcWebService (inner : HeaderMap → InnerResponse) (headers : HeaderMap) :
    InnerResponse ⊕ HeaderMap × List UInt8 :=
  if isGrpcWebRequest headers then
    let isJson := (headers.text? contentTypeName).any fun ct => decide ("grpc-web+json".toList <:+: ct)
    let ct := if isJson then "application/grpc+json" else "application/grpc"
    .inr (webResponse isJson (inner (insertHeader contentTypeName (Utf8.bytes ct.toList) headers)))
  else .inl (inner headers)

/-! ## What the inner service says -/

namespace InnerResponse

variable (inner : InnerResponse)

/-- The trailers if they have a status, or the headers. -/
def final : HeaderMap :=
  ((trailersOf inner.body).filter fun trailers => (trailers.get? grpcStatusName).isSome).getD
    inner.headers

def finalStatus : List UInt8 :=
  (inner.final.get? grpcStatusName).getD []

def finalMessage : Option (List UInt8) :=
  inner.final.get? grpcMessageName

end InnerResponse

/-- A gRPC response: no header value has a line break, and unless the body fails, its data is
messages, one whole frame each, and its headers or trailers have a status. -/
structure GrpcResponse (inner : InnerResponse) (messages : List WireFrame) : Prop where
  legal : ∀ h ∈ inner.final, (13 : UInt8) ∉ h.2
  data : ∀ frame ∈ messages, frame.flag ≠ trailersFrameFlag
  body : inner.broken = false → dataOf inner.body = wire messages []
  reported : inner.broken = false → (inner.final.get? grpcStatusName).isSome = true

/-- A trailers frame says what the inner response says, or, where that has failed on its way, does
not say that the call is OK. -/
def Tells (inner : InnerResponse) (payload : List UInt8) : Prop :=
  if inner.broken then frameStatus payload ≠ some 0
  else payload = trailerLines inner.finalStatus inner.finalMessage

/-- The gRPC-Web client reads the messages and the status of the inner response. -/
def Preserves (inner : InnerResponse) (messages : List WireFrame) (body : List UInt8) : Prop :=
  (inner.broken = false → (decodeGrpcFrames body).1 = messages.map WireFrame.payload) ∧
    ∃ payload, (decodeGrpcFrames body).2 = some payload ∧ Tells inner payload

/-- The headers have the final status, or it is 0 and they have none, and the final message; or,
where the body fails, they have a status that is not 0. -/
def InHead (inner : InnerResponse) : Prop :=
  if inner.broken then
    ∃ status, inner.headers.text? grpcStatusName = some status ∧ parseI32 (Text.trim status) ≠ some 0
  else
    Utf8.bytes ((inner.headers.text? grpcStatusName).getD ['0']) = inner.finalStatus ∧
      (inner.headers.text? grpcMessageName).map Utf8.bytes = inner.finalMessage

/-- The lines that the bridge writes. -/
def InnerResponse.written (inner : InnerResponse) : List UInt8 :=
  trailerLines (Utf8.bytes ((inner.headers.text? grpcStatusName).getD ['0']))
    ((inner.headers.text? grpcMessageName).map Utf8.bytes)

/-- The lines fit the length of a frame. -/
def InnerResponse.Short (inner : InnerResponse) : Prop :=
  inner.written.length < 2 ^ 32

/-! ## What is read -/

theorem untilTrailers_append {messages : List WireFrame} (data : ∀ frame ∈ messages,
    frame.flag ≠ trailersFrameFlag) {last : WireFrame} (flag : last.flag = trailersFrameFlag)
    (rest : List WireFrame) :
    untilTrailers (messages ++ last :: rest) =
      (messages.map WireFrame.payload, some last.payload) := by
  induction messages with
  | nil =>
    rw [List.nil_append, untilTrailers, if_pos flag]
    rfl
  | cons frame messages ih =>
    rw [List.forall_mem_cons] at data
    rw [List.cons_append, untilTrailers, if_neg data.1, ih data.2]
    rfl

/-- A frame with a length field that does not hold the length. -/
theorem frame_take (payload : List UInt8) (flag : UInt8) :
    ∃ frame : WireFrame, frame.flag = flag ∧
      frame.payload = payload.take (payload.length % 2 ^ 32) ∧
      flag :: (frameLength payload ++ payload) =
        frame.bytes ++ payload.drop (payload.length % 2 ^ 32) := by
  have small : payload.length % 2 ^ 32 < 2 ^ 32 := Nat.mod_lt _ (by decide)
  have len : (payload.take (payload.length % 2 ^ 32)).length = payload.length % 2 ^ 32 := by
    rw [List.length_take]
    have := Nat.mod_le payload.length (2 ^ 32)
    omega
  refine ⟨⟨flag, payload.take (payload.length % 2 ^ 32), by rw [len]; exact small⟩, rfl, rfl, ?_⟩
  have header : frameLength (payload.take (payload.length % 2 ^ 32)) = frameLength payload := by
    rw [frameLength, frameLength, len]
    exact congrArg List.reverse (LittleEndian.encode_mod 4 payload.length)
  rw [WireFrame.bytes, header, List.cons_append, List.append_assoc, List.take_append_drop]

/-- The reader finds the messages, and of the lines as much as the length field says. -/
theorem decodeGrpcFrames_web {messages : List WireFrame} (data : ∀ frame ∈ messages,
    frame.flag ≠ trailersFrameFlag) (payload : List UInt8) :
    decodeGrpcFrames (wire messages [] ++ trailersFrameFlag :: (frameLength payload ++ payload)) =
      (messages.map WireFrame.payload, some (payload.take (payload.length % 2 ^ 32))) := by
  obtain ⟨frame, flag, lines, eq⟩ := frame_take payload trailersFrameFlag
  obtain ⟨frames, cut, off, behind⟩ := exists_wire (payload.drop (payload.length % 2 ^ 32))
  have whole : wire messages [] ++ (frame.bytes ++ wire frames cut) =
      wire (messages ++ frame :: frames) cut := by
    simp [wire]
  rw [eq, behind, whole, decodeGrpcFrames_wire off, untilTrailers_append data flag, lines]

theorem body_webResponse (isJson : Bool) (inner : InnerResponse) :
    (webResponse isJson inner).2 = inner.collect.getD [] ++
      trailersFrameFlag :: (frameLength inner.written ++ inner.written) :=
  rfl

/-- What the client reads of the response, whatever its size. -/
theorem preserves_iff_tells {inner : InnerResponse} {messages : List WireFrame}
    (h : GrpcResponse inner messages) (isJson : Bool) :
    Preserves inner messages (webResponse isJson inner).2 ↔
      Tells inner (inner.written.take (inner.written.length % 2 ^ 32)) := by
  rw [Preserves, body_webResponse, InnerResponse.collect]
  cases unbroken : inner.broken with
  | true =>
    have none : ∀ frame ∈ ([] : List WireFrame), frame.flag ≠ trailersFrameFlag := by simp
    have read := decodeGrpcFrames_web none inner.written
    have same : wire [] [] = ([] : List UInt8) := rfl
    rw [same, List.nil_append] at read
    simp [read]
  | false =>
    rw [if_neg Bool.false_ne_true, Option.getD_some, h.body unbroken, decodeGrpcFrames_web h.data]
    simp

/-! ## What the lines say -/

/-- The lines tell the status and the message. -/
theorem trailerLines_inj {status status' : List UInt8} {message message' : Option (List UInt8)}
    (clean : (13 : UInt8) ∉ status) (clean' : (13 : UInt8) ∉ status')
    (inside : ∀ m ∈ message, (13 : UInt8) ∉ m) (inside' : ∀ m ∈ message', (13 : UInt8) ∉ m) :
    trailerLines status message = trailerLines status' message' ↔
      status = status' ∧ message = message' := by
  constructor
  · intro same
    unfold trailerLines at same
    rw [List.append_cancel_left_eq] at same
    have cut := congrArg (splitOnce 13) same
    rw [splitOnce_append clean, splitOnce_append clean', Option.some.injEq, Prod.mk.injEq,
      List.cons.injEq] at cut
    obtain ⟨rfl, -, behind⟩ := cut
    refine ⟨rfl, ?_⟩
    cases message with
    | none =>
      cases message' with
      | none => rfl
      | some m' => simp [Utf8.bytes] at behind
    | some m =>
      cases message' with
      | none => simp [Utf8.bytes] at behind
      | some m' =>
        dsimp only at behind
        rw [List.append_cancel_left_eq] at behind
        have cut := congrArg (splitOnce 13) behind
        rw [splitOnce_append (inside m rfl), splitOnce_append (inside' m' rfl)] at cut
        cases cut
        rfl
  · rintro ⟨rfl, rfl⟩
    rfl

/-- A text whose value can be a header has no line feed. -/
theorem notMem_lineFeed {headers : HeaderMap} {name text : Str} (h : headers.text? name = some text) :
    '\n' ∉ text := by
  obtain ⟨e, -, read⟩ := Option.bind_eq_some_iff.1 h
  intro mem
  have inside : (10 : UInt8) ∈ Utf8.bytes text := List.mem_flatMap.2 ⟨'\n', mem, by decide⟩
  rw [bytes_of_headerToStr read] at inside
  exact (headerToStr_clean read 10 inside).2 rfl

theorem notMem_carriageReturn {headers : HeaderMap} {name text : Str}
    (h : headers.text? name = some text) : (13 : UInt8) ∉ Utf8.bytes text := by
  obtain ⟨e, -, read⟩ := Option.bind_eq_some_iff.1 h
  rw [bytes_of_headerToStr read]
  intro mem
  exact (headerToStr_clean read 13 mem).1 rfl

theorem stripCr_append (line : Str) : Lines.stripCr (line ++ ['\r']) = line := by
  rw [Lines.stripCr, if_pos List.getLast?_concat, List.dropLast_concat]

theorem lineStatus_status (status : Str) :
    lineStatus (grpcStatusName ++ ':' :: ' ' :: status) = parseI32 (Text.trim status) := by
  rw [lineStatus, splitOnce_append (by decide), Option.filter_some, if_pos (by simp),
    Option.bind_some, Text.trim_cons (by decide)]

theorem lineStatus_message (message : Str) :
    lineStatus (grpcMessageName ++ ':' :: ' ' :: message) = none := by
  have other : grpcMessageName ≠ grpcStatusName := by decide
  rw [lineStatus, splitOnce_append (by decide), Option.filter_some, if_neg (by simpa using other)]
  rfl

/-- The lines as a text. -/
theorem trailerLines_text (status : Str) (message : Option Str) :
    trailerLines (Utf8.bytes status) (message.map Utf8.bytes) =
      Utf8.bytes (Lines.unlines ([grpcStatusName ++ ':' :: ' ' :: status ++ ['\r']] ++
        message.toList.map (fun m => grpcMessageName ++ ':' :: ' ' :: m ++ ['\r']) ++ [[]])) := by
  have front : "grpc-status: ".toList = grpcStatusName ++ [':', ' '] := by decide
  have behind : "grpc-message: ".toList = grpcMessageName ++ [':', ' '] := by decide
  have cr : String.utf8EncodeChar '\r' = [13] := by decide
  have lf : String.utf8EncodeChar '\n' = [10] := by decide
  unfold trailerLines
  cases message with
  | none =>
    simp only [Option.map_none, Option.toList_none, List.map_nil, List.append_nil]
    rw [List.singleton_append, Lines.unlines_cons _ (by simp), Lines.unlines_singleton, front]
    simp [Utf8.bytes, cr, lf]
  | some m =>
    simp only [Option.map_some, Option.toList_some, List.map_cons, List.map_nil]
    rw [List.singleton_append, List.cons_append, List.singleton_append,
      Lines.unlines_cons _ (by simp), Lines.unlines_cons _ (by simp), Lines.unlines_singleton,
      front, behind]
    simp [Utf8.bytes, cr, lf]

/-- The reader of the lines finds the status. -/
theorem frameStatus_trailerLines {status : Str} {message : Option Str} (clean : '\n' ∉ status)
    (inside : ∀ m ∈ message, '\n' ∉ m) :
    frameStatus (trailerLines (Utf8.bytes status) (message.map Utf8.bytes)) =
      parseI32 (Text.trim status) := by
  have name : '\n' ∉ grpcStatusName := by decide
  have name' : '\n' ∉ grpcMessageName := by decide
  rw [trailerLines_text, frameStatus, Utf8.chars?_bytes, Option.bind_some, Lines.lines_unlines]
  · rw [List.map_append, List.map_singleton, stripCr_append, List.isEmpty_nil, if_pos rfl,
      List.append_nil, List.singleton_append, List.findSome?_cons, lineStatus_status]
    cases read : parseI32 (Text.trim status) with
    | some n => rfl
    | none =>
      cases message with
      | none => rfl
      | some m =>
        rw [Option.toList_some, List.map_singleton, List.map_singleton, stripCr_append,
          List.findSome?_cons, lineStatus_message]
        rfl
  · intro line mem
    simp only [List.mem_append, List.mem_singleton, List.mem_map, Option.mem_toList] at mem
    obtain (rfl | ⟨m, some, rfl⟩) | rfl := mem
    · simp [name, clean]
    · have := inside m some
      simp [name', this]
    · simp

/-- Lines that fit a frame say what the headers say. -/
theorem tells_written_iff {inner : InnerResponse} {messages : List WireFrame}
    (h : GrpcResponse inner messages) : Tells inner inner.written ↔ InHead inner := by
  have zero : '\n' ∉ ['0'] := by decide
  have zero' : (13 : UInt8) ∉ Utf8.bytes ['0'] := by decide
  have legal {name : Str} {value : List UInt8} (found : inner.final.get? name = some value) :
      (13 : UInt8) ∉ value := by
    obtain ⟨e, here, rfl⟩ := Option.map_eq_some_iff.1 found
    exact h.legal e (List.mem_of_find?_eq_some here)
  rw [Tells, InHead, InnerResponse.written]
  cases broken : inner.broken with
  | true =>
    rw [if_pos rfl, if_pos rfl, frameStatus_trailerLines]
    · cases status : inner.headers.text? grpcStatusName with
      | none =>
        have ok : parseI32 (Text.trim ['0']) = some 0 := by decide
        simp [ok]
      | some status => simp
    · cases status : inner.headers.text? grpcStatusName with
      | none => exact zero
      | some status' => exact notMem_lineFeed status
    · intro m message
      exact notMem_lineFeed message
  | false =>
    rw [if_neg Bool.false_ne_true, if_neg Bool.false_ne_true]
    apply trailerLines_inj
    · cases status : inner.headers.text? grpcStatusName with
      | none => exact zero'
      | some status' => exact notMem_carriageReturn status
    · obtain ⟨value, found⟩ := Option.isSome_iff_exists.1 (h.reported broken)
      rw [InnerResponse.finalStatus, found]
      exact legal found
    · intro m message
      obtain ⟨text, found, rfl⟩ := Option.map_eq_some_iff.1 message
      exact notMem_carriageReturn found
    · intro m message
      exact legal message

/-- The bridge passes the outcome on exactly if it is in the headers, unless the lines are so long
that a frame has only a part of them: then that part has to say it. -/
theorem preserves_iff {inner : InnerResponse} {messages : List WireFrame}
    (h : GrpcResponse inner messages) (isJson : Bool) :
    Preserves inner messages (webResponse isJson inner).2 ↔
      (inner.Short ∧ InHead inner) ∨
        (¬ inner.Short ∧ Tells inner (inner.written.take (inner.written.length % 2 ^ 32))) := by
  rw [preserves_iff_tells h]
  by_cases short : inner.Short
  · rw [Nat.mod_eq_of_lt short, List.take_length, tells_written_iff h]
    simp [short]
  · simp [short]

/-- A unary response with an empty message, and the status both in the headers and in the trailers
of its `GrpcBody`. -/
def unaryOk : InnerResponse where
  headers := [statusHeader .ok]
  body := drain GrpcBody.pollFrame 3 (.ok .opaqueOctets (encodeGrpcFrame []))
  broken := false

theorem nothing_fits : ([] : List UInt8).length < 2 ^ 32 := by
  decide

def emptyFrame : WireFrame where
  flag := 0
  payload := []
  fits := nothing_fits

theorem preserves_unaryOk : Preserves unaryOk [emptyFrame] (webResponse false unaryOk).2 := by
  have response : GrpcResponse unaryOk [emptyFrame] :=
    ⟨by decide, by decide, fun _ => by decide, fun _ => by decide⟩
  have len : unaryOk.written.length = 16 := by decide
  refine (preserves_iff response false).2 (.inl ⟨?_, ?_⟩)
  · rw [InnerResponse.Short, len]
    simp
  · rw [InHead, if_neg (by decide)]
    decide

/-- A `GrpcStream` whose handler sends an error: nothing in the headers tells of its status. -/
def failedStream : InnerResponse where
  headers := []
  body := drain (StreamState.pollFrame .opaqueOctets fun _ : Unit => []) 3
    ⟨[.error ⟨.internal, []⟩], false⟩
  broken := false

/-- The client of the bridge reads 0 where the handler has sent 13. -/
theorem not_preserves_failedStream : ¬ ∀ (inner : InnerResponse) (messages : List WireFrame)
    (isJson : Bool), GrpcResponse inner messages →
    Preserves inner messages (webResponse isJson inner).2 := by
  intro all
  have response : GrpcResponse failedStream [] :=
    ⟨by decide, by decide, fun _ => by decide, fun _ => by decide⟩
  have tells := (preserves_iff_tells response false).1 (all failedStream [] false response)
  have len : failedStream.written.length = 16 := by decide
  rw [Tells, if_neg (by decide), len] at tells
  exact absurd tells (by decide)

end Typeway.Grpc
