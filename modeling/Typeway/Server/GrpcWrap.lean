import Mathlib.Data.List.Induction
import Typeway.Base.Json
import Typeway.Grpc.Service
import Typeway.Grpc.Web

/-!
# Responses of REST handlers as gRPC

`wrap_response_as_grpc`: the body of a handler's response becomes frames, in JSON or, for a client
of the binary format, in what the transcoder makes of them. What the transcoder refuses goes out as
JSON, and the last frame decides on the content type.
-/

namespace Typeway.Server

open Typeway.Core Grpc Json

/-- `serde_json::from_slice` and `to_vec` on values. -/
structure SerdeJson where
  fromSlice : List UInt8 → Option Value
  toVec : Value → List UInt8

/-- `ProtoTranscoder::encode_response` -/
abbrev EncodeResponse :=
  Str → Value → Except Str (List UInt8)

inductive Encoding where
  | json
  | protobuf
  deriving DecidableEq

def Encoding.contentType : Encoding → Str
  | json => "application/grpc+json".toList
  | protobuf => "application/grpc+proto".toList

variable (S : SerdeJson)

/-- `encode_response_bytes`. `unwrap_or_default` makes `null` of what is no JSON. -/
def encodeResponseBytes (jsonBytes : List UInt8) (grpcPath : Str) (useProtoBinary : Bool)
    (transcoder : Option EncodeResponse) : List UInt8 × Str :=
  match if useProtoBinary then transcoder else none with
  | some tc =>
    match tc grpcPath ((S.fromSlice jsonBytes).getD .null) with
    | .ok protoBytes => (protoBytes, Encoding.protobuf.contentType)
    | .error _ => (jsonBytes, Encoding.json.contentType)
  | none => (jsonBytes, Encoding.json.contentType)

/-- The body of a handler's response: collected, unless that fails, or the stream that the marker
tells of. -/
inductive RestBody (T : Type) where
  | plain (collected : Option (List UInt8))
  | grpcStream (rx : List (Except Grpc.GrpcStatus T))

structure RestResponse (T : Type) where
  status : Nat
  headers : HeaderMap
  body : RestBody T

/-- A response of the dispatcher, always with HTTP status 200, and the frames of its body. -/
structure WrappedResponse where
  headers : HeaderMap
  body : List Frame

/-- The loop over the items of an array: the buffer, and the content type of the last item. -/
def frameItems (grpcPath : Str) (useProtoBinary : Bool) (transcoder : Option EncodeResponse)
    (items : List Value) : List UInt8 × Str :=
  items.foldl (fun (buf, _) item =>
    let (encoded, contentType) :=
      encodeResponseBytes S (S.toVec item) grpcPath useProtoBinary transcoder
    (buf ++ encodeGrpcFrame encoded, contentType)) ([], Encoding.json.contentType)

def frameBody (methodDesc : GrpcMethodDescriptor) (grpcCode : Grpc.GrpcCode) (resBytes : List UInt8)
    (grpcPath : Str) (useProtoBinary : Bool) (transcoder : Option EncodeResponse) :
    List UInt8 × Str :=
  let whole : List UInt8 × Str :=
    let (encoded, ct) := encodeResponseBytes S resBytes grpcPath useProtoBinary transcoder
    (encodeGrpcFrame encoded, ct)
  if methodDesc.serverStreaming ∧ grpcCode = .ok then
    match S.fromSlice resBytes with
    | some (.arr items) => frameItems S grpcPath useProtoBinary transcoder items
    | _ => whole
  else whole

variable (H : HeaderParse) {T : Type} (toVec : T → List UInt8)

def wrapResponseAsGrpc (restResponse : RestResponse T) (methodDesc : GrpcMethodDescriptor)
    (grpcPath : Str) (useProtoBinary : Bool) (transcoder : Option EncodeResponse) :
    WrappedResponse :=
  match restResponse.body with
  | .grpcStream rx =>
    { headers := insertHeader contentTypeName (Utf8.bytes Encoding.json.contentType)
        restResponse.headers
      body := drain (StreamState.pollFrame H toVec) (rx.length + 2) ⟨rx, false⟩ }
  | .plain collected =>
    let grpcCode := httpToGrpcCode restResponse.status
    let (framed, ct) := frameBody S methodDesc grpcCode (collected.getD []) grpcPath useProtoBinary
      transcoder
    { headers := [(contentTypeName, Utf8.bytes ct), statusHeader grpcCode]
      body := drain GrpcBody.pollFrame 3 (.withStatus H framed ⟨grpcCode, []⟩) }

/-! ## What the client expects -/

/-- The JSON texts to be sent: those of the items of a stream or of an array that is to be
streamed, or the one of the body. -/
def expectedTexts (restResponse : RestResponse T) (methodDesc : GrpcMethodDescriptor) :
    List (List UInt8) :=
  match restResponse.body with
  | .grpcStream rx => (StreamState.items rx).map toVec
  | .plain collected =>
    let whole := [collected.getD []]
    if methodDesc.serverStreaming ∧ httpToGrpcCode restResponse.status = .ok then
      match S.fromSlice (collected.getD []) with
      | some (.arr items) => items.map S.toVec
      | _ => whole
    else whole

/-- The encoding of the client. -/
def clientEncoding (useProtoBinary : Bool) : Encoding :=
  if useProtoBinary then .protobuf else .json

/-- A payload is a text in an encoding: the text itself, if it is JSON, or the message that the
transcoder makes of its value. -/
def Encodes (grpcPath : Str) (transcoder : Option EncodeResponse) (text payload : List UInt8) :
    Encoding → Prop
  | .json => payload = text ∧ (S.fromSlice text).isSome = true
  | .protobuf => ∃ tc ∈ transcoder, tc grpcPath ((S.fromSlice text).getD .null) = .ok payload

/-- The body splits into whole frames, one for each text and in its encoding, and the content type
names the encoding of the client. -/
structure Decodable (texts : List (List UInt8)) (grpcPath : Str) (useProtoBinary : Bool)
    (transcoder : Option EncodeResponse) (response : WrappedResponse) : Prop where
  contentType : response.headers.text? contentTypeName =
    some (clientEncoding useProtoBinary).contentType
  frames : ∃ frames : List WireFrame, dataOf response.body = wire frames [] ∧
    (∀ frame ∈ frames, frame.flag = 0) ∧
    List.Forall₂ (fun text frame => Encodes S grpcPath transcoder text frame.payload
      (clientEncoding useProtoBinary)) texts frames

/-- The client's encoding has a payload for the text, and it fits a frame. -/
def Encodable (grpcPath : Str) (transcoder : Option EncodeResponse) (text : List UInt8)
    (encoding : Encoding) : Prop :=
  ∃ payload, Encodes S grpcPath transcoder text payload encoding ∧ payload.length < 2 ^ 32

/-- What can be announced and sent to the client: its encoding has all texts, and for a client of the
binary format they are no stream, and there are some. -/
structure Servable (restResponse : RestResponse T) (methodDesc : GrpcMethodDescriptor)
    (grpcPath : Str) (useProtoBinary : Bool) (transcoder : Option EncodeResponse) : Prop where
  texts : ∀ text ∈ expectedTexts S toVec restResponse methodDesc,
    Encodable S grpcPath transcoder text (clientEncoding useProtoBinary)
  binary : useProtoBinary = true → (∃ collected, restResponse.body = .plain collected) ∧
    expectedTexts S toVec restResponse methodDesc ≠ []

variable {S H toVec} {grpcPath : Str} {useProtoBinary : Bool} {transcoder : Option EncodeResponse}

/-! ## The frames of some texts -/

variable (S grpcPath useProtoBinary transcoder) in
/-- The buffer and the content type for some texts. -/
def framedTexts (texts : List (List UInt8)) : List UInt8 × Str :=
  (texts.flatMap fun text =>
      encodeGrpcFrame (encodeResponseBytes S text grpcPath useProtoBinary transcoder).1,
    (texts.getLast?.map fun text =>
      (encodeResponseBytes S text grpcPath useProtoBinary transcoder).2).getD
      Encoding.json.contentType)

theorem frameItems_eq (items : List Value) :
    frameItems S grpcPath useProtoBinary transcoder items =
      framedTexts S grpcPath useProtoBinary transcoder (items.map S.toVec) := by
  induction items using List.reverseRecOn with
  | nil => rfl
  | append_singleton items item ih =>
    have step : frameItems S grpcPath useProtoBinary transcoder (items ++ [item]) =
        ((frameItems S grpcPath useProtoBinary transcoder items).1 ++ encodeGrpcFrame
            (encodeResponseBytes S (S.toVec item) grpcPath useProtoBinary transcoder).1,
          (encodeResponseBytes S (S.toVec item) grpcPath useProtoBinary transcoder).2) := by
      rw [frameItems, List.foldl_append]
      rfl
    rw [step, ih]
    simp [framedTexts]

theorem frameBody_eq (methodDesc : GrpcMethodDescriptor) (restResponse : RestResponse T)
    (collected : Option (List UInt8)) (plain : restResponse.body = .plain collected) :
    frameBody S methodDesc (httpToGrpcCode restResponse.status) (collected.getD []) grpcPath
        useProtoBinary transcoder =
      framedTexts S grpcPath useProtoBinary transcoder (expectedTexts S toVec restResponse methodDesc) := by
  rw [frameBody, expectedTexts, plain]
  dsimp only
  split
  · cases S.fromSlice (collected.getD []) with
    | none => simp [framedTexts]
    | some value =>
      cases value with
      | arr items => exact frameItems_eq items
      | _ => simp [framedTexts]
  · simp [framedTexts]

/-- What the client's encoding has is what is sent. -/
theorem encodeResponseBytes_of_encodes {text payload : List UInt8}
    (encodes : Encodes S grpcPath transcoder text payload (clientEncoding useProtoBinary)) :
    encodeResponseBytes S text grpcPath useProtoBinary transcoder =
      (payload, (clientEncoding useProtoBinary).contentType) := by
  rw [encodeResponseBytes]
  cases useProtoBinary with
  | false =>
    obtain ⟨rfl, -⟩ := encodes
    rfl
  | true =>
    obtain ⟨tc, rfl, ok⟩ := encodes
    rw [if_pos rfl]
    dsimp only
    rw [ok]
    rfl

theorem wire_cons_data {payload : List UInt8} (fits : payload.length < 2 ^ 32)
    (frames : List WireFrame) :
    encodeGrpcFrame payload ++ wire frames [] = wire (⟨0, payload, fits⟩ :: frames) [] := by
  rw [wire, wire, List.flatMap_cons, List.append_assoc]
  rfl

/-- One frame for each text, if all can be sent. -/
theorem exists_frames {texts : List (List UInt8)} (send : List UInt8 → List UInt8)
    {encoding : Encoding} (all : ∀ text ∈ texts,
      Encodes S grpcPath transcoder text (send text) encoding ∧ (send text).length < 2 ^ 32) :
    ∃ frames : List WireFrame, texts.flatMap (fun text => encodeGrpcFrame (send text)) = wire frames [] ∧
      (∀ frame ∈ frames, frame.flag = 0) ∧
      List.Forall₂ (fun text frame => Encodes S grpcPath transcoder text frame.payload encoding)
        texts frames := by
  induction texts with
  | nil => exact ⟨[], rfl, by simp, .nil⟩
  | cons text texts ih =>
    rw [List.forall_mem_cons] at all
    obtain ⟨⟨encodes, fits⟩, rest⟩ := all
    obtain ⟨frames, eq, plain, related⟩ := ih rest
    refine ⟨⟨0, send text, fits⟩ :: frames, ?_, ?_, .cons encodes related⟩
    · rw [List.flatMap_cons, eq, wire_cons_data fits]
    · rw [List.forall_mem_cons]
      exact ⟨rfl, plain⟩

theorem encodable_of_forall₂ {texts : List (List UInt8)} {frames : List WireFrame}
    {encoding : Encoding} (related : List.Forall₂ (fun text frame =>
      Encodes S grpcPath transcoder text frame.payload encoding) texts frames) :
    ∀ text ∈ texts, Encodable S grpcPath transcoder text encoding := by
  induction related with
  | nil => simp
  | @cons text frame texts frames encodes related ih =>
    rw [List.forall_mem_cons]
    exact ⟨⟨frame.payload, encodes, frame.fits⟩, ih⟩

/-! ## The two kinds of bodies -/

theorem text?_contentType (encoding : Encoding) (headers : HeaderMap) :
    HeaderMap.text? ((contentTypeName, Utf8.bytes encoding.contentType) :: headers) contentTypeName =
      some encoding.contentType := by
  rw [HeaderMap.text?, List.find?_cons_of_pos (by simp)]
  cases encoding <;> decide

theorem contentType_inj {encoding encoding' : Encoding}
    (same : encoding.contentType = encoding'.contentType) : encoding = encoding' := by
  revert same
  cases encoding <;> cases encoding' <;> decide

theorem dataOf_withStatus (framed : List UInt8) (status : Grpc.GrpcStatus) :
    dataOf (drain GrpcBody.pollFrame 3 (.withStatus H framed status)) = framed := by
  rw [GrpcBody.drain_eq _ 0, GrpcBody.withStatus, Option.filter_some]
  cases framed with
  | nil => rfl
  | cons b framed => simp [dataOf]

theorem dataOf_stream (rx : List (Except Grpc.GrpcStatus T)) :
    dataOf (drain (StreamState.pollFrame H toVec) (rx.length + 2) ⟨rx, false⟩) =
      ((StreamState.items rx).map toVec).flatMap encodeGrpcFrame := by
  rw [StreamState.drain_eq H toVec rx 0, dataOf, List.flatMap_append, List.flatMap_map,
    List.flatMap_map]
  simp

/-- Texts that the client's encoding has are sent in it. -/
theorem framedTexts_of_encodable {texts : List (List UInt8)} (all : ∀ text ∈ texts,
    Encodable S grpcPath transcoder text (clientEncoding useProtoBinary)) :
    ∃ frames : List WireFrame,
      (framedTexts S grpcPath useProtoBinary transcoder texts).1 = wire frames [] ∧
      (∀ frame ∈ frames, frame.flag = 0) ∧
      List.Forall₂ (fun text frame => Encodes S grpcPath transcoder text frame.payload
        (clientEncoding useProtoBinary)) texts frames := by
  apply exists_frames fun text =>
    (encodeResponseBytes S text grpcPath useProtoBinary transcoder).1
  intro text mem
  obtain ⟨payload, encodes, fits⟩ := all text mem
  rw [encodeResponseBytes_of_encodes encodes]
  exact ⟨encodes, fits⟩

theorem contentType_of_encodable {texts : List (List UInt8)} (all : ∀ text ∈ texts,
    Encodable S grpcPath transcoder text (clientEncoding useProtoBinary))
    (some : useProtoBinary = true → texts ≠ []) :
    (framedTexts S grpcPath useProtoBinary transcoder texts).2 =
      (clientEncoding useProtoBinary).contentType := by
  rw [framedTexts]
  cases last : texts.getLast? with
  | none =>
    cases useProtoBinary with
    | false => rfl
    | true => exact absurd (List.getLast?_eq_none_iff.1 last) (some rfl)
  | some text =>
    obtain ⟨payload, encodes, -⟩ := all text (List.mem_of_getLast? last)
    rw [Option.map_some, Option.getD_some, encodeResponseBytes_of_encodes encodes]

variable {restResponse : RestResponse T} {methodDesc : GrpcMethodDescriptor}

/-- A collected body: the last frame tells the content type. -/
theorem decodable_plain_iff {collected : Option (List UInt8)}
    (plain : restResponse.body = .plain collected) :
    Decodable S (expectedTexts S toVec restResponse methodDesc) grpcPath useProtoBinary transcoder
        (wrapResponseAsGrpc S H toVec restResponse methodDesc grpcPath useProtoBinary transcoder) ↔
      Servable S toVec restResponse methodDesc grpcPath useProtoBinary transcoder := by
  have body : frameBody S methodDesc (httpToGrpcCode restResponse.status) (collected.getD [])
      grpcPath useProtoBinary transcoder = framedTexts S grpcPath useProtoBinary transcoder
        (expectedTexts S toVec restResponse methodDesc) :=
    frameBody_eq methodDesc restResponse collected plain
  have headers : (wrapResponseAsGrpc S H toVec restResponse methodDesc grpcPath useProtoBinary
      transcoder).headers = [(contentTypeName, Utf8.bytes (framedTexts S grpcPath useProtoBinary
        transcoder (expectedTexts S toVec restResponse methodDesc)).2),
        statusHeader (httpToGrpcCode restResponse.status)] := by
    rw [wrapResponseAsGrpc, plain]
    dsimp only
    rw [body]
  have data : dataOf (wrapResponseAsGrpc S H toVec restResponse methodDesc grpcPath useProtoBinary
      transcoder).body = (framedTexts S grpcPath useProtoBinary transcoder
        (expectedTexts S toVec restResponse methodDesc)).1 := by
    rw [wrapResponseAsGrpc, plain]
    dsimp only
    rw [body, dataOf_withStatus]
  constructor
  · intro decodable
    obtain ⟨frames, -, -, related⟩ := decodable.frames
    refine ⟨encodable_of_forall₂ related, ?_⟩
    intro binary
    refine ⟨⟨collected, plain⟩, ?_⟩
    intro none
    have announced := decodable.contentType
    rw [headers, none] at announced
    change HeaderMap.text? ((contentTypeName, Utf8.bytes Encoding.json.contentType) :: _) _ = _ at announced
    rw [text?_contentType, Option.some.injEq] at announced
    have same := contentType_inj announced
    rw [binary] at same
    cases same
  · intro servable
    constructor
    · rw [headers, contentType_of_encodable servable.texts fun binary => (servable.binary binary).2,
        text?_contentType]
    · rw [data]
      exact framedTexts_of_encodable servable.texts

/-- A stream goes out as JSON to everybody. -/
theorem decodable_stream_iff {rx : List (Except Grpc.GrpcStatus T)}
    (stream : restResponse.body = .grpcStream rx) :
    Decodable S (expectedTexts S toVec restResponse methodDesc) grpcPath useProtoBinary transcoder
        (wrapResponseAsGrpc S H toVec restResponse methodDesc grpcPath useProtoBinary transcoder) ↔
      Servable S toVec restResponse methodDesc grpcPath useProtoBinary transcoder := by
  have texts : expectedTexts S toVec restResponse methodDesc = (StreamState.items rx).map toVec := by
    rw [expectedTexts, stream]
  have announced : (wrapResponseAsGrpc S H toVec restResponse methodDesc grpcPath useProtoBinary
      transcoder).headers.text? contentTypeName = some Encoding.json.contentType := by
    rw [wrapResponseAsGrpc, stream]
    exact text?_contentType .json _
  have data : dataOf (wrapResponseAsGrpc S H toVec restResponse methodDesc grpcPath useProtoBinary
      transcoder).body = ((StreamState.items rx).map toVec).flatMap encodeGrpcFrame := by
    rw [wrapResponseAsGrpc, stream]
    exact dataOf_stream rx
  constructor
  · intro decodable
    obtain ⟨frames, -, -, related⟩ := decodable.frames
    refine ⟨encodable_of_forall₂ related, ?_⟩
    intro binary
    have same := contentType_inj (Option.some.inj (announced.symm.trans decodable.contentType))
    rw [binary] at same
    cases same
  · intro servable
    cases useProtoBinary with
    | true =>
      obtain ⟨⟨collected, plain⟩, -⟩ := servable.binary rfl
      cases stream.symm.trans plain
    | false =>
      refine ⟨announced, ?_⟩
      rw [data, texts]
      apply exists_frames id
      rw [← texts]
      intro text mem
      obtain ⟨payload, encodes, fits⟩ := servable.texts text mem
      obtain ⟨rfl, -⟩ := id encodes
      exact ⟨encodes, fits⟩

/-- The response can be decoded as announced, and in the client's encoding, exactly if that encoding
has every text, and for the binary format the response is no stream and no empty array. -/
theorem decodable_iff (S : SerdeJson) (H : HeaderParse) (toVec : T → List UInt8)
    (restResponse : RestResponse T) (methodDesc : GrpcMethodDescriptor) (grpcPath : Str)
    (useProtoBinary : Bool) (transcoder : Option EncodeResponse) :
    Decodable S (expectedTexts S toVec restResponse methodDesc) grpcPath useProtoBinary transcoder
        (wrapResponseAsGrpc S H toVec restResponse methodDesc grpcPath useProtoBinary transcoder) ↔
      Servable S toVec restResponse methodDesc grpcPath useProtoBinary transcoder := by
  cases body : restResponse.body with
  | plain collected => exact decodable_plain_iff body
  | grpcStream rx => exact decodable_stream_iff body

/-- A server-streaming method. -/
def listUsers : GrpcMethodDescriptor where
  name := "ListUser".toList
  fullPath := "/users.v1.UserService/ListUser".toList
  httpMethod := .get
  restPath := "/users".toList
  serverStreaming := true
  clientStreaming := false

/-- What `serde_json` does with an empty array. -/
def emptyArrayJson : SerdeJson where
  fromSlice text := if text = Utf8.bytes "[]".toList then some (.arr []) else none
  toVec _ := []

/-- An empty array for a client of the binary format: no frame, and JSON is announced. -/
theorem not_decodable_emptyArray : ¬ ∀ (S : SerdeJson) (H : HeaderParse) (toVec : Unit → List UInt8)
    (restResponse : RestResponse Unit) (methodDesc : GrpcMethodDescriptor) (grpcPath : Str)
    (useProtoBinary : Bool) (transcoder : Option EncodeResponse),
    Decodable S (expectedTexts S toVec restResponse methodDesc) grpcPath useProtoBinary transcoder
      (wrapResponseAsGrpc S H toVec restResponse methodDesc grpcPath useProtoBinary transcoder) := by
  intro all
  have decodable := all emptyArrayJson .opaqueOctets (fun _ => [])
    ⟨200, [], .plain (some (Utf8.bytes "[]".toList))⟩ listUsers listUsers.fullPath true
    (some fun _ _ => .ok [])
  exact absurd decodable.contentType (by decide)

end Typeway.Server
