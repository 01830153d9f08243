import Typeway.Server.Frames

/-!
# Binary and JSON messages of one method

A bridged method without captures gets a protobuf message as it is, with the parts of the gRPC
request; one with captures gets it as JSON in a request rebuilt from its REST path, as it gets a
JSON message. `agree_iff` says for which extractors and patterns the two encodings of one message
do the same.
-/

namespace Checked

variable {ε α β : Type}

/-- A computation of which only the fact of an error is kept. -/
def forget : Run ε α → Run Unit α
  | .ok a => .ok a
  | .error (.err _) => .error (.err ())
  | .error (.panic p) => .error (.panic p)
  | .error .unfinished => .error .unfinished

/-- Both computations yield the same value, or both report an error. -/
def Same (x y : Run Unit α) : Prop :=
  (∃ a, x = .ok a ∧ y = .ok a) ∨ x = .error (.err ()) ∧ y = .error (.err ())

/-- An extractor that rejects. -/
def orReject : Option α → Run Unit α
  | some a => .ok a
  | none => .error (.err ())

end Checked

namespace Typeway.Server

open Typeway.Core Grpc Json Checked

variable {W X R C S T : Type}

inductive BodyExtractor where
  | json
  | proto
  deriving DecidableEq

/-- `is_binary_protobuf` -/
def isBinaryProtobuf (ct : Str) : Bool :=
  ct = "application/grpc".toList || ct = "application/grpc+proto".toList ||
    ct = "application/protobuf".toList || ct = "application/x-protobuf".toList

/-- The extractors of a handler: of the path, of the state, and of the body as a `T`. -/
structure Extractors (X C S T : Type) where
  path : X → Str → Option C
  state : X → Option S
  body : BodyExtractor
  /-- `serde_json::from_slice` -/
  fromSlice : List UInt8 → Option T
  typewayDecode : List UInt8 → Run Unit T

namespace Extractors

variable (E : Extractors X C S T)

/-- `Json::from_request`, or `Proto::from_request`. -/
def readBody (ct : Str) (body : List UInt8) : Run Unit T :=
  if E.body = .proto ∧ isBinaryProtobuf ct then E.typewayDecode body
  else orReject (E.fromSlice body)

def extract (request : HttpRequest X) : Run Unit (C × S × T) := do
  let captures ← orReject (E.path request.parts.extensions request.parts.path)
  let state ← orReject (E.state request.parts.extensions)
  let ct := (request.parts.header? contentType).getD "application/json".toList
  let value ← E.readBody ct request.body
  .ok (captures, state, value)

/-- A protobuf message in the hands of `Json` and of `Proto`. -/
def readRaw (bytes : List UInt8) : Run Unit T :=
  match E.body with
  | .json => orReject (E.fromSlice bytes)
  | .proto => E.typewayDecode bytes

/-- What is read of the parts and the bytes of a gRPC request. -/
def fromRaw (extensions : X) (path : Str) (bytes : List UInt8) : Run Unit (C × S × T) := do
  let captures ← orReject (E.path extensions path)
  let state ← orReject (E.state extensions)
  let value ← E.readRaw bytes
  .ok (captures, state, value)

/-- What is read of a REST path with members of a message in its placeholders, and of the message
as JSON text. -/
def fromMessage (mux : GrpcMultiplexer W X R) (extensions : X) (restPath : Str) (message : Value) :
    Run Unit (C × S × T) := do
  let uri := syntheticUri mux.floatText message restPath
  let captures ← orReject (E.path extensions (syntheticPath mux.uri uri restPath))
  let state ← orReject (E.state extensions)
  let value ← orReject (E.fromSlice ((message.text mux.floatText).flatMap String.utf8EncodeChar))
  .ok (captures, state, value)

end Extractors

/-- The parts of a request with the given content type. -/
def HttpParts.withContentType (parts : HttpParts X) (ct : Str) : HttpParts X :=
  { parts with headers := insertHeader contentType (ct.flatMap String.utf8EncodeChar) parts.headers }

/-- A message in one frame. -/
def framed (message : List UInt8) : Incoming where
  frames := [encodeGrpcFrame message]
  broken := false

/-! ### What the handler is given -/

namespace GrpcMultiplexer

variable (mux : GrpcMultiplexer W X R) {decodeRequest : Str → List UInt8 → Run Str Value}

end GrpcMultiplexer

namespace Extractors

variable (E : Extractors X C S T) (mux : GrpcMultiplexer W X R)

/-- What the extractors read of a binary message. -/
def ofBinary (extensions : X) (path restPath : Str)
    (decodeRequest : Str → List UInt8 → Run Str Value) (message : List UInt8) :
    Run Unit (C × S × T) :=
  if Substring.contains Client.placeholder restPath then
    forget (decodeRequest path message) >>= E.fromMessage mux extensions restPath
  else E.fromRaw extensions path message

/-- What the extractors read of a JSON message. -/
def ofJson (extensions : X) (restPath : Str) (message : List UInt8) : Run Unit (C × S × T) :=
  forget (lift (mux.jsonDecode message)) >>= E.fromMessage mux extensions restPath

end Extractors

/-! ### Two encodings of one message -/

section

variable (E : Extractors X C S T) (mux : GrpcMultiplexer W X R) (extensions : X)
  (path restPath : Str) (decodeRequest : Str → List UInt8 → Run Str Value)

/-- A message as protobuf and as JSON: `T` is read from either. -/
structure Encodings (value : T) (binary json : List UInt8) (message : Value) : Prop where
  parsed : mux.jsonDecode json = .ok message
  fromJson : E.fromSlice ((message.text mux.floatText).flatMap String.utf8EncodeChar) = some value
  fromBinary : E.typewayDecode binary = .ok value

/-- The REST path with members of a message in its placeholders, as the path extractor reads it. -/
def Extractors.restCaptures (message : Value) : Option C :=
  E.path extensions (syntheticPath mux.uri (syntheticUri mux.floatText message restPath) restPath)

/-- Value of the body extractor on the JSON text of a message. -/
def Extractors.valueOf (message : Value) : Option T :=
  E.fromSlice ((message.text mux.floatText).flatMap String.utf8EncodeChar)

/-- The path extractor or the state extractor refuses the JSON message. -/
def JsonRefused (message : Value) : Prop :=
  E.restCaptures mux extensions restPath message = none ∨ E.state extensions = none

/-- Without captures the bytes go to the handler: `Proto` decodes them, and `Path` must read the
same of both paths. With captures the transcoder must lose nothing that the extractors read. -/
def Transcribes (value : T) (binary : List UInt8) (message : Value) : Prop :=
  if Substring.contains Client.placeholder restPath then
    ∃ transcoded, decodeRequest path binary = .ok transcoded ∧
      E.restCaptures mux extensions restPath transcoded =
        E.restCaptures mux extensions restPath message ∧
      E.valueOf mux transcoded = some value
  else
    E.path extensions path = E.restCaptures mux extensions restPath message ∧
      (E.body = .proto ∨ E.fromSlice binary = some value)

/-- The transcoder or an extractor refuses the protobuf message. -/
def BinaryRefused (binary : List UInt8) : Prop :=
  if Substring.contains Client.placeholder restPath then
    (∃ error, decodeRequest path binary = .error (.err error)) ∨
      ∃ transcoded, decodeRequest path binary = .ok transcoded ∧
        (JsonRefused E mux extensions restPath transcoded ∨ E.valueOf mux transcoded = none)
  else
    E.path extensions path = none ∨ E.state extensions = none ∨
      (E.body = .json ∧ E.fromSlice binary = none)

variable {E mux extensions path restPath decodeRequest}

/-- Captures, state and value, of which each can be refused. -/
theorem extracted_ok_iff {captures : Option C} {state : Option S} {body : Run Unit T}
    {args : C × S × T} :
    (do
      let captures ← orReject captures
      let state ← orReject state
      let value ← body
      .ok (captures, state, value) : Run Unit (C × S × T)) = .ok args ↔
      captures = some args.1 ∧ state = some args.2.1 ∧ body = .ok args.2.2 := by
  obtain ⟨c, s, t⟩ := args
  cases captures with
  | none => exact iff_of_false nofun nofun
  | some c' =>
    cases state with
    | none => exact iff_of_false nofun nofun
    | some s' =>
      cases body with
      | error stop => exact iff_of_false nofun nofun
      | ok t' =>
        show Except.ok (c', s', t') = Except.ok (c, s, t) ↔ _
        simp

theorem extracted_err_iff {captures : Option C} {state : Option S} {body : Run Unit T} :
    (do
      let captures ← orReject captures
      let state ← orReject state
      let value ← body
      .ok (captures, state, value) : Run Unit (C × S × T)) = .error (.err ()) ↔
      captures = none ∨ state = none ∨ body = .error (.err ()) := by
  cases captures with
  | none => exact iff_of_true rfl (.inl rfl)
  | some c =>
    cases state with
    | none => exact iff_of_true rfl (.inr (.inl rfl))
    | some s =>
      cases body with
      | error stop =>
        show Except.error stop = _ ↔ _
        simp
      | ok t => exact iff_of_false nofun nofun

theorem orReject_ok_iff {α : Type} (read : Option α) {a : α} : orReject read = .ok a ↔ read = some a := by
  cases read with
  | none => exact iff_of_false nofun nofun
  | some b =>
    show Except.ok b = _ ↔ _
    simp

theorem orReject_err_iff {α : Type} (read : Option α) :
    orReject read = .error (.err ()) ↔ read = none := by
  cases read with
  | none => exact iff_of_true rfl rfl
  | some b => exact iff_of_false nofun nofun

theorem fromMessage_ok_iff {message : Value} {args : C × S × T} :
    E.fromMessage mux extensions restPath message = .ok args ↔
      E.restCaptures mux extensions restPath message = some args.1 ∧
        E.state extensions = some args.2.1 ∧ E.valueOf mux message = some args.2.2 := by
  rw [← orReject_ok_iff (E.valueOf mux message)]
  exact extracted_ok_iff

theorem fromMessage_err_iff {message : Value} :
    E.fromMessage mux extensions restPath message = .error (.err ()) ↔
      JsonRefused E mux extensions restPath message ∨ E.valueOf mux message = none := by
  rw [← orReject_err_iff (E.valueOf mux message), JsonRefused, or_assoc]
  exact extracted_err_iff

theorem readRaw_ok_iff {value : T} {binary : List UInt8} (decoded : E.typewayDecode binary = .ok value) :
    E.readRaw binary = .ok value ↔ E.body = .proto ∨ E.fromSlice binary = some value := by
  rw [Extractors.readRaw]
  cases E.body with
  | proto => exact iff_of_true decoded (.inl rfl)
  | json =>
    dsimp only
    rw [orReject_ok_iff]
    exact ⟨.inr, fun h => h.resolve_left nofun⟩

theorem readRaw_err_iff {value : T} {binary : List UInt8} (decoded : E.typewayDecode binary = .ok value) :
    E.readRaw binary = .error (.err ()) ↔ E.body = .json ∧ E.fromSlice binary = none := by
  rw [Extractors.readRaw]
  cases E.body with
  | proto =>
    dsimp only
    rw [decoded]
    exact iff_of_false nofun nofun
  | json =>
    dsimp only
    rw [orReject_err_iff]
    exact (and_iff_right rfl).symm

variable {value : T} {binary json : List UInt8} {message : Value}

theorem ofJson_eq (encodings : Encodings E mux value binary json message) :
    E.ofJson mux extensions restPath json = E.fromMessage mux extensions restPath message := by
  rw [Extractors.ofJson, encodings.parsed]
  rfl

theorem ofBinary_err_iff (encodings : Encodings E mux value binary json message) :
    E.ofBinary mux extensions path restPath decodeRequest binary = .error (.err ()) ↔
      BinaryRefused E mux extensions path restPath decodeRequest binary := by
  rw [Extractors.ofBinary, BinaryRefused]
  split
  · cases decodeRequest path binary with
    | ok transcoded =>
      show E.fromMessage mux extensions restPath transcoded = _ ↔ _
      rw [fromMessage_err_iff]
      simp
    | error stop =>
      cases stop with
      | err error => exact iff_of_true rfl (.inl ⟨error, rfl⟩)
      | panic p => exact iff_of_false (fun run => by cases run) (by simp)
      | unfinished => exact iff_of_false (fun run => by cases run) (by simp)
  · rw [← readRaw_err_iff encodings.fromBinary]
    exact extracted_err_iff

/-- Where the JSON message is taken, the protobuf message must be read as it. -/
theorem ofBinary_ok_iff (encodings : Encodings E mux value binary json message) {captures : C}
    {state : S} (there : E.restCaptures mux extensions restPath message = some captures)
    (stateThere : E.state extensions = some state) :
    E.ofBinary mux extensions path restPath decodeRequest binary = .ok (captures, state, value) ↔
      Transcribes E mux extensions path restPath decodeRequest value binary message := by
  rw [Extractors.ofBinary, Transcribes, there]
  split
  · cases decodeRequest path binary with
    | ok transcoded =>
      show E.fromMessage mux extensions restPath transcoded = _ ↔ _
      rw [fromMessage_ok_iff]
      simp [stateThere]
    | error stop => exact iff_of_false (fun run => by cases stop <;> cases run) (by simp)
  · rw [← readRaw_ok_iff encodings.fromBinary]
    refine extracted_ok_iff.trans ?_
    rw [stateThere]
    simp

theorem same_iff (encodings : Encodings E mux value binary json message) :
    Same (E.ofBinary mux extensions path restPath decodeRequest binary)
        (E.ofJson mux extensions restPath json) ↔
      (¬ JsonRefused E mux extensions restPath message ∧
          Transcribes E mux extensions path restPath decodeRequest value binary message) ∨
        (JsonRefused E mux extensions restPath message ∧
          BinaryRefused E mux extensions path restPath decodeRequest binary) := by
  have valueOf : E.valueOf mux message = some value := encodings.fromJson
  rw [Same, ofJson_eq encodings, fromMessage_err_iff, ofBinary_err_iff encodings, valueOf]
  apply or_congr
  · constructor
    · rintro ⟨⟨captures, state, value'⟩, fromBinary, fromJson⟩
      obtain ⟨there, stateThere, same⟩ := fromMessage_ok_iff.1 fromJson
      cases valueOf.symm.trans same
      refine ⟨?_, (ofBinary_ok_iff encodings there stateThere).1 fromBinary⟩
      rintro (none | none)
      · cases there.symm.trans none
      · cases stateThere.symm.trans none
    · rintro ⟨taken, carries⟩
      obtain ⟨captures, there⟩ := Option.ne_none_iff_exists'.1 fun none => taken (.inl none)
      obtain ⟨state, stateThere⟩ := Option.ne_none_iff_exists'.1 fun none => taken (.inr none)
      exact ⟨_, (ofBinary_ok_iff encodings there stateThere).2 carries,
        fromMessage_ok_iff.2 ⟨there, stateThere, valueOf⟩⟩
  · rw [and_comm]
    exact and_congr_left fun _ => ⟨fun h => h.resolve_right nofun, .inl⟩

end

theorem framed_whole (message : List UInt8) : (framed message).collectOrEmpty = encodeGrpcFrame message := by
  rw [Incoming.collectOrEmpty_whole rfl, framed, List.flatten_singleton]

section

variable {mux : GrpcMultiplexer W X R} {handler : BoxedHandler W X R}
  {methodDesc : GrpcMethodDescriptor} {base : HttpParts X}
  (known : mux.Known base.path (.standard handler methodDesc []))

include known

end

/-- `{}`, which is all that the functions below read. -/
def emptyObject : List UInt8 :=
  ['{', '}'].flatMap String.utf8EncodeChar

def createUser : GrpcMethodDescriptor where
  name := "CreateUser".toList
  fullPath := "/users.v1.UserService/CreateUser".toList
  httpMethod := .post
  restPath := "/users".toList
  serverStreaming := false
  clientStreaming := false

end Typeway.Server
