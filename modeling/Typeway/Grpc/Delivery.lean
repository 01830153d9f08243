import Typeway.Grpc.TrailerBody

/-!
# How a status reaches the client

Every way the server reports a status builds the headers or trailers by itself. Some encode the
message and some put it in as it is; the client decodes it always.
-/

namespace Typeway.Grpc

open Typeway.Core Server

variable (H : HeaderParse)

/-- `RichGrpcStatus` over the details `D`. -/
structure RichGrpcStatus (D : Type) where
  code : Int
  message : Str
  details : List D

def GrpcStatus.intoRich {D : Type} (status : GrpcStatus) : RichGrpcStatus D where
  code := status.code.asI32
  message := status.message
  details := []

/-- The headers and the body. -/
def RichGrpcStatus.toGrpcResponseParts {D : Type} (toJsonBytes : RichGrpcStatus D → List UInt8)
    (status : RichGrpcStatus D) : List (Str × Str) × List UInt8 :=
  ([(grpcStatusName, (toString status.code).toList), (grpcMessageName, status.message)],
    if status.details.isEmpty then [] else toJsonBytes status)

/-- Pairs of texts as headers of a response, as far as they can be. -/
def insertedHeaders (pairs : List (Str × Str)) : HeaderMap :=
  pairs.filterMap fun h => (H.fromStr h.2).map (h.1, ·)

/-- The headers and the body of `grpc_error_response`. -/
def grpcErrorResponse (status : GrpcStatus) : HeaderMap × GrpcBody :=
  (("content-type".toList, Utf8.bytes "application/grpc".toList) :: statusHeader status.code ::
      (if status.message.isEmpty then [] else messageHeader H status.message),
    .error H status)

/-- The error response of `dispatch_direct`. -/
def directErrorResponse (status : GrpcStatus) : HeaderMap × GrpcBody :=
  ([("content-type".toList, Utf8.bytes "application/grpc+proto".toList), statusHeader status.code],
    .error H status)

/-- The ways a status is reported, with what is sent before it. -/
inductive Report (T D : Type) where
  /-- `GrpcStatus::to_headers` -/
  | headers
  /-- The response headers of a unary error. -/
  | errorHeaders
  /-- The response headers of a direct handler's error. -/
  | directHeaders
  /-- The trailers of the two error responses. -/
  | errorTrailers
  /-- The trailers of a `GrpcBody` with data. -/
  | body (data : List UInt8)
  /-- The trailers of a `GrpcStreamBody`. -/
  | streamBody (messages : List (List UInt8))
  /-- The trailers of a `GrpcStream`, by `send_error` behind the items. -/
  | stream (items : List T)
  /-- `RichGrpcStatus::to_grpc_response_parts` -/
  | rich (details : List D)

variable {T D : Type}

/-- The headers or trailers that the client gets. A body is polled to its end. -/
def sent (toVec : T → List UInt8) (toJsonBytes : RichGrpcStatus D → List UInt8)
    (status : GrpcStatus) : Report T D → HeaderMap
  | .headers => insertedHeaders H status.toHeaders
  | .errorHeaders => (grpcErrorResponse H status).1
  | .directHeaders => (directErrorResponse H status).1
  | .errorTrailers =>
    (trailersOf (drain GrpcBody.pollFrame 3 (grpcErrorResponse H status).2)).getD []
  | .body data => (trailersOf (drain GrpcBody.pollFrame 3 (.withStatus H data status))).getD []
  | .streamBody messages =>
    (trailersOf (drain (GrpcStreamBody.pollFrame H) (messages.length + 2)
      (.withStatus messages status))).getD []
  | .stream items =>
    (trailersOf (drain (StreamState.pollFrame H toVec) (items.length + 3)
      ⟨items.map .ok ++ [.error status], false⟩)).getD []
  | .rich details =>
    let rich : RichGrpcStatus D := { (status.intoRich : RichGrpcStatus D) with details }
    insertedHeaders H (rich.toGrpcResponseParts toJsonBytes).1

/-- The client reads the code and the message that the server reports. -/
def DeliveredAs (status : GrpcStatus) (headers : HeaderMap) : Prop :=
  GrpcCode.fromI32 (readStatus headers) = status.code ∧ readMessage headers = status.message

/-- The text can be a header value and be read again, and it reads as itself. -/
def Raw (message : Str) : Prop :=
  ((H.fromStr message).bind headerToStr).isSome = true ∧ Unescaped message

/-- What a message must be for a way that does not encode it. -/
def Legible (message : Str) : Report T D → Prop
  | .headers | .errorTrailers | .body _ | .streamBody _ => True
  | .directHeaders => message = []
  | .errorHeaders | .stream _ | .rich _ => message = [] ∨ Raw H message

/-! ## The headers of a status -/

variable {H} {message : Str} {status : GrpcStatus} {headers : HeaderMap}

theorem readStatus_cons (code : GrpcCode) :
    readStatus (statusHeader code :: headers) = code.asI32 := by
  rw [readStatus, HeaderMap.text?, List.find?_cons_of_pos (by simp [statusHeader])]
  show ((headerToStr (Utf8.bytes code.text)).bind parseI32).getD 0 = _
  rw [headerToStr_visible (text_visible code), Option.bind_some, parseI32_text]
  rfl

/-- Another header in front changes nothing. -/
theorem text?_cons_of_ne {name other : Str} {value : List UInt8} (ne : other ≠ name) :
    HeaderMap.text? ((other, value) :: headers) name = headers.text? name := by
  rw [HeaderMap.text?, List.find?_cons_of_neg (by simpa using ne), HeaderMap.text?]

theorem readMessage_cons_of_ne {other : Str} {value : List UInt8} (ne : other ≠ grpcMessageName) :
    readMessage ((other, value) :: headers) = readMessage headers := by
  rw [readMessage, text?_cons_of_ne ne, readMessage]

theorem readMessage_nil : readMessage [] = [] := rfl

theorem readMessage_messageHeader :
    readMessage (messageHeader H message) =
      (((H.fromStr message).bind headerToStr).map decodeGrpcMessage).getD [] := by
  rw [messageHeader]
  cases H.fromStr message with
  | none => rfl
  | some value =>
    dsimp only
    rw [readMessage, HeaderMap.text?, List.find?_cons_of_pos (by simp)]
    rfl

theorem readMessage_encoded :
    readMessage (messageHeader H (encodeGrpcMessage message)) = message := by
  have visible := encodeGrpcMessage_visible message
  rw [readMessage_messageHeader, H.visible _ visible, Option.bind_some, headerToStr_visible visible,
    Option.map_some, Option.getD_some, decode_encodeGrpcMessage]

/-- A message that nobody has encoded. -/
theorem readMessage_raw_iff :
    readMessage (messageHeader H message) = message ↔ message = [] ∨ Raw H message := by
  rw [readMessage_messageHeader, Raw]
  cases arrived : (H.fromStr message).bind headerToStr with
  | none => simp [eq_comm]
  | some text =>
    obtain ⟨value, parsed, read⟩ := Option.bind_eq_some_iff.1 arrived
    rw [H.same parsed] at read
    cases Utf8.bytes_injective (bytes_of_headerToStr read)
    simp only [Option.map_some, Option.getD_some, Option.isSome_some, true_and,
      decodeGrpcMessage_eq_self_iff]
    constructor
    · exact .inr
    · rintro (rfl | plain)
      · exact decodeGrpcMessage_eq_self_iff.1 rfl
      · exact plain

/-- The headers begin with the code, and the message behind it decides. -/
theorem deliveredAs_status_cons :
    DeliveredAs status (statusHeader status.code :: headers) ↔ readMessage headers = status.message := by
  rw [DeliveredAs, readStatus_cons, GrpcCode.fromI32_asI32]
  have skip : readMessage (statusHeader status.code :: headers) = readMessage headers :=
    readMessage_cons_of_ne (by decide)
  rw [skip]
  exact and_iff_right rfl

theorem deliveredAs_content_type {value : List UInt8} :
    DeliveredAs status (("content-type".toList, value) :: headers) ↔ DeliveredAs status headers := by
  rw [DeliveredAs, readMessage_cons_of_ne (by decide), readStatus, text?_cons_of_ne (by decide)]
  rfl

theorem deliveredAs_statusToTrailers : DeliveredAs status (statusToTrailers H status) := by
  rw [statusToTrailers, deliveredAs_status_cons]
  split
  · rename_i empty
    rw [List.isEmpty_iff.1 empty]
    rfl
  · exact readMessage_encoded

theorem deliveredAs_raw_iff :
    DeliveredAs status (statusHeader status.code ::
        if status.message.isEmpty then [] else messageHeader H status.message) ↔
      status.message = [] ∨ Raw H status.message := by
  rw [deliveredAs_status_cons]
  split
  · rename_i empty
    have empty := List.isEmpty_iff.1 empty
    rw [readMessage_nil, empty]
    simp
  · exact readMessage_raw_iff

theorem insertedHeaders_status (pairs : List (Str × Str)) (code : GrpcCode) :
    insertedHeaders H ((grpcStatusName, code.text) :: pairs) =
      statusHeader code :: insertedHeaders H pairs := by
  rw [insertedHeaders, List.filterMap_cons]
  dsimp only
  rw [fromStr_text]
  rfl

theorem insertedHeaders_message (text : Str) :
    insertedHeaders H [(grpcMessageName, text)] = messageHeader H text := by
  rw [insertedHeaders, messageHeader, List.filterMap_cons]
  cases H.fromStr text <;> rfl

/-! ## Every way -/

/-- The client reads the code and the message of a status, whatever it is, exactly for the ways that
encode the message, and for those that do not where the message needs no encoding. -/
theorem deliveredAs_sent_iff (H : HeaderParse) (toVec : T → List UInt8)
    (toJsonBytes : RichGrpcStatus D → List UInt8) (status : GrpcStatus) (way : Report T D) :
    DeliveredAs status (sent H toVec toJsonBytes status way) ↔ Legible H status.message way := by
  cases way with
  | headers =>
    refine iff_of_true ?_ trivial
    rw [sent, GrpcStatus.toHeaders, insertedHeaders_status, deliveredAs_status_cons]
    split
    · rename_i empty
      rw [List.isEmpty_iff.1 empty]
      rfl
    · rw [insertedHeaders_message]
      exact readMessage_encoded
  | errorHeaders =>
    rw [sent, grpcErrorResponse, deliveredAs_content_type]
    exact deliveredAs_raw_iff
  | directHeaders =>
    rw [sent, directErrorResponse, deliveredAs_content_type, deliveredAs_status_cons,
      readMessage_nil]
    exact eq_comm
  | errorTrailers =>
    refine iff_of_true ?_ trivial
    rw [sent, GrpcBody.drain_eq _ 0]
    exact deliveredAs_statusToTrailers
  | body data =>
    refine iff_of_true ?_ trivial
    rw [sent, GrpcBody.drain_eq _ 0]
    cases (GrpcBody.withStatus H data status).data.filter fun data => !data.isEmpty with
    | none => exact deliveredAs_statusToTrailers
    | some data => exact deliveredAs_statusToTrailers
  | streamBody messages =>
    refine iff_of_true ?_ trivial
    have found := trailersOf_data_append id messages (statusToTrailers H status)
    rw [sent, GrpcStreamBody.drain_eq H messages status 0]
    exact found ▸ deliveredAs_statusToTrailers
  | stream items =>
    have frames := StreamState.drain_eq H toVec (items.map .ok ++ [.error status]) 0
    rw [StreamState.items_append_error, StreamState.finalStatus_append_error, List.length_append,
      List.length_map, List.length_singleton] at frames
    rw [sent, frames, trailersOf_data_append, Option.getD_some, buildTrailers]
    exact deliveredAs_raw_iff
  | rich details =>
    rw [sent, RichGrpcStatus.toGrpcResponseParts]
    show DeliveredAs status (insertedHeaders H [(grpcStatusName, status.code.text), _]) ↔ _
    rw [insertedHeaders_status, insertedHeaders_message, deliveredAs_status_cons]
    exact readMessage_raw_iff

/-- In the response headers the message `50%25` of a unary error reads as `50%`. -/
theorem not_deliveredAs_sent : ¬ ∀ (H : HeaderParse) (toVec : Unit → List UInt8)
    (toJsonBytes : RichGrpcStatus Unit → List UInt8) (status : GrpcStatus) (way : Report Unit Unit),
    DeliveredAs status (sent H toVec toJsonBytes status way) := by
  intro all
  have delivered := all .opaqueOctets (fun _ => []) (fun _ => []) ⟨.invalidArgument, "50%25".toList⟩
    .errorHeaders
  rw [sent, grpcErrorResponse, deliveredAs_content_type] at delivered
  obtain empty | ⟨-, clean | noText⟩ := deliveredAs_raw_iff.1 delivered
  · cases empty
  · exact clean ⟨Utf8.bytes "50".toList, 50, 53, [], by decide, by decide⟩
  · have read : Percent.unescape (Utf8.bytes "50%25".toList) = Utf8.bytes "50%".toList := by decide
    rw [read, Utf8.chars?_bytes] at noText
    cases noText

end Typeway.Grpc
