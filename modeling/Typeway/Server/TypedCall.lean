import Typeway.Macros.RoundTrip
import Typeway.Macros.ZeroCopy
import Typeway.Server.Connected

/-!
# Calls with derived messages

A client with a `TypewayCodecAdapter` calls a method that `into_direct_handler` serves: the bytes
of the derived codec go out, and those of the response come back. What comes out of it is the
function of the handler, called once.
-/

namespace Typeway.Client

open Typeway.Core Protobuf Checked Json

/-- `decode_error_to_string` -/
def decodeErrorToString : TypewayDecodeError → Str
  | .unexpectedEof => "unexpected end of input".toList
  | .varintTooLong => "varint exceeds 10 bytes".toList
  | .unknownWireType wt => "unknown wire type: ".toList ++ Lines.decimal wt.toNat
  | .invalidFieldValue field message =>
    "invalid value for field '".toList ++ field.toList ++ "': ".toList ++ message.toList
  | .missingField field => "missing required field: ".toList ++ field.toList
  | .invalidUtf8 field => "invalid UTF-8 in field: ".toList ++ field.toList

/-- `TypewayCodecAdapter<T>`, with what `T` implements. -/
structure TypewayCodecAdapter (T : Type) where
  encodeToVec : T → List UInt8
  typewayDecode : List UInt8 → Run TypewayDecodeError T
  /-- `serde_json::from_value` -/
  fromValue : Value → Except Str T
  /-- `serde_json::to_value` -/
  toValue : T → Except Str Value

namespace TypewayCodecAdapter

variable {T : Type} (adapter : TypewayCodecAdapter T)

def encode (value : Value) : Except Str (List UInt8) :=
  match adapter.fromValue value with
  | .ok msg => .ok (adapter.encodeToVec msg)
  | .error e => .error ("failed to deserialize JSON to struct: ".toList ++ e)

/-- The value of a message. -/
def written (msg : T) : Except Str Value :=
  (adapter.toValue msg).mapError ("failed to serialize struct to JSON: ".toList ++ ·)

/-- An empty message is taken for one without members. -/
def decode (bytes : List UInt8) : Run Str Value :=
  if bytes.isEmpty then .ok (.obj [])
  else
    match adapter.typewayDecode bytes with
    | .ok msg => lift (adapter.written msg)
    | .error (.err e) => .error (.err (decodeErrorToString e))
    | .error (.panic p) => .error (.panic p)
    | .error .unfinished => .error .unfinished

end TypewayCodecAdapter

/-- The client decodes with the adapter, as far as that does not panic. -/
def GrpcClient.DecodesWith {D T : Type} (client : GrpcClient D Value)
    (adapter : TypewayCodecAdapter T) : Prop :=
  ∀ bytes result, adapter.decode bytes = lift result → client.decode bytes = result

end Typeway.Client

namespace Typeway.Server

open Typeway.Core Grpc Json Client Attempts Macros Protobuf Checked

variable {ι W X R D : Type}

section

variable (H : HeaderParse)

/-- The response of `dispatch_direct` to framed bytes. -/
def directResponse (framed : List UInt8) : WrappedResponse where
  headers := [(contentTypeName, Utf8.bytes Encoding.protobuf.contentType), statusHeader .ok]
  body := drain GrpcBody.pollFrame 3 (.ok H framed)

theorem dataOf_directResponse (framed : List UInt8) : dataOf (directResponse H framed).body = framed :=
  dataOf_withStatus framed ⟨.ok, []⟩

variable {H}

theorem readResponse_directResponse {client : GrpcClient D Value} {framed : List UInt8}
    {arrived : HttpResponse} (arrives : Arrives (directResponse H framed) arrived) :
    client.readResponse arrived = .ok framed := by
  obtain ⟨status, -⟩ := readStatus_wrapped Encoding.protobuf.contentType .ok
  have body : arrived.bytes? = some framed := by
    rw [HttpResponse.bytes?, arrives.whole, if_neg Bool.false_ne_true, arrives.body,
      dataOf_directResponse]
  rw [GrpcClient.readResponse, arrives.headers, directResponse, status, body]
  rfl

end

/-! ## Derived messages -/

section

variable (S : Schema ι) (n : ι)

/-- The derived codec of a struct in an adapter. -/
def derivedAdapter (fromValue : Value → Except Str (S.Msg n)) (toValue : S.Msg n → Except Str Value) :
    TypewayCodecAdapter (S.Msg n) where
  encodeToVec := encodeToVec
  typewayDecode := typewayDecode S n
  fromValue := fromValue
  toValue := toValue

/-- The direct handler of a function on a struct. -/
def derivedHandler (display : TypewayDecodeError → Str) (handler : S.Msg n → W → S.Msg n × W) :
    DirectHandler W :=
  intoDirectHandler (fun body => typewayDecodeBytes S n (.ofList body)) display encodeToVec handler

variable {S n} {display : TypewayDecodeError → Str} {handler : S.Msg n → W → S.Msg n × W}

theorem typewayDecodeBytes_ofList (bytes : List UInt8) :
    typewayDecodeBytes S n (.ofList bytes) = typewayDecode S n bytes := by
  have whole : (Bytes.ofList bytes).asSlice = bytes := by
    rw [Bytes.asSlice, Bytes.ofList]
    exact List.take_length
  cases hidden : S.shadowed n with
  | true =>
    rw [typewayDecode_shadowed S hidden, typewayDecodeBytes, S.visible_of_shadowed hidden]
    rfl
  | false =>
    rw [typewayDecodeBytes, S.visible_of_not hidden, decodeBytesStep_eq, ← decodeLoop,
      typewayDecode_eq, S.visible_of_not hidden, whole]

/-- Without a field that is lost the message is received. -/
theorem exists_received (faithful : AllFaithful S) {msg : S.Msg n}
    (fits : (encodeToVec msg).length < 2 ^ 32) :
    ∃ received, typewayDecode S n (encodeToVec msg) = .ok received ∧ SameMessage received msg := by
  have short : (encodeToVec msg).length ≤ isizeMax := by
    unfold isizeMax
    omega
  exact (roundTrips_iff_restorable S (legibleMessage_of_faithful S faithful msg) short).2
    (restorableMessage_of_faithful S faithful msg)

theorem callDirect_derived {msg received : S.Msg n}
    (decoded : typewayDecode S n (encodeToVec msg) = .ok received) (w : W) :
    callDirect (derivedHandler S n display handler) (encodeToVec msg) w =
      (⟨[.direct (derivedHandler S n display handler) (encodeToVec msg)],
        .direct (encodeGrpcFrame (encodeToVec (handler received w).1)), (handler received w).2⟩ :
        Served W X R) := by
  have run : derivedHandler S n display handler (encodeToVec msg) =
      .ok fun w => (encodeToVec (handler received w).1, (handler received w).2) := by
    rw [derivedHandler, intoDirectHandler, typewayDecodeBytes_ofList, decoded]
  rw [callDirect, run]

end

/-! ## Calls -/

section

variable (H : HeaderParse) (S : Schema ι) (n : ι) (display : TypewayDecodeError → Str)
  (handler : S.Msg n → W → S.Msg n × W) (mux : GrpcMultiplexer W X R) (parts : HttpParts X)
  (body : Incoming) (w : W) (client : GrpcClient D Value) (adapter : TypewayCodecAdapter (S.Msg n))
  (value : Value)

/-- A client with an adapter that posts a value to a direct handler, and gets its response. -/
structure TypedConnected : Prop where
  known : mux.Known parts.path (.direct (derivedHandler S n display handler))
  whole : body.broken = false
  posted : ∃ bytes, adapter.encode value = .ok bytes ∧ body.frames.flatten = encodeGrpcFrame bytes
  answered : ∀ framed, (mux.callGrpc parts body w).answer = .direct framed →
    ∃ arrived, client.send 0 = .ok arrived ∧ Arrives (directResponse H framed) arrived
  decodes : client.DecodesWith adapter
  allowed : ∀ attempt, client.allowRequest attempt = true
  attempts : 0 < client.maxAttempts

variable {H S n display handler mux parts body w client value}

/-- A first attempt that succeeds is the only one. -/
theorem sendRequest_first {responseBytes : List UInt8} (allowed : ∀ n, client.allowRequest n = true)
    (budget : 0 < client.maxAttempts) (sent : client.sendRequestOnce 0 = .ok responseBytes) :
    client.sendRequest = .ok responseBytes ∧ (client.sendRequestU32 0).2 = 1 := by
  obtain ⟨last, ends, attempts, final⟩ := sendRequest_last client allowed budget
  obtain rfl : last = 0 := by
    by_contra later
    have again := ends.before 0 (by omega)
    rw [sent] at again
    cases again
  exact ⟨final.trans sent, attempts⟩

/-- A remote call is a call of the function, made once: the function is called with the message
of the caller, and the caller gets the value of what it returns. Only a response that is written as
no bytes at all is read as a value without members. -/
theorem call_typed {fromValue : Value → Except Str (S.Msg n)}
    {toValue : S.Msg n → Except Str Value} (faithful : AllFaithful S)
    (connected : TypedConnected H S n display handler mux parts body w client
      (derivedAdapter S n fromValue toValue) value)
    {msg : S.Msg n} (accepted : fromValue value = .ok msg)
    (fits : (encodeToVec msg).length < 2 ^ 32)
    (fit : ∀ received, SameMessage received msg →
      (encodeToVec (handler received w).1).length < 2 ^ 32) :
    ∃ received returned, SameMessage received msg ∧ SameMessage returned (handler received w).1 ∧
      mux.callGrpc parts body w =
        ⟨[.direct (derivedHandler S n display handler) (encodeToVec msg)],
          .direct (encodeGrpcFrame (encodeToVec (handler received w).1)), (handler received w).2⟩ ∧
      (client.sendRequestU32 0).2 = 1 ∧
      client.call =
        if encodeToVec (handler received w).1 = [] then .ok (.obj [])
        else ((derivedAdapter S n fromValue toValue).written returned).mapError .codec := by
  obtain ⟨bytes, encoded, flat⟩ := connected.posted
  have written : bytes = encodeToVec msg := by
    rw [TypewayCodecAdapter.encode, derivedAdapter] at encoded
    dsimp only at encoded
    rw [accepted] at encoded
    exact (Except.ok.inj encoded).symm
  rw [written] at flat
  obtain ⟨received, decoded, same⟩ := exists_received faithful fits
  obtain ⟨returned, decoded', same'⟩ := exists_received faithful (fit received same)
  have frame : IsFrame body.frames.flatten (encodeToVec msg) := ⟨flat, fits⟩
  have served : mux.callGrpc parts body w =
      ⟨[.direct (derivedHandler S n display handler) (encodeToVec msg)],
        .direct (encodeGrpcFrame (encodeToVec (handler received w).1)), (handler received w).2⟩ := by
    rw [GrpcMultiplexer.callGrpc_known w connected.known,
      Incoming.collectOrEmpty_whole connected.whole, IsFrame.unframed frame]
    exact callDirect_derived decoded w
  obtain ⟨arrived, sent, arrives⟩ := connected.answered _ (congrArg Served.answer served)
  have once : client.sendRequestOnce 0 =
      .ok (encodeGrpcFrame (encodeToVec (handler received w).1)) := by
    rw [GrpcClient.sendRequestOnce, sent]
    exact readResponse_directResponse arrives
  obtain ⟨final, attempts⟩ := sendRequest_first connected.allowed connected.attempts once
  refine ⟨received, returned, same, same', served, attempts, ?_⟩
  have reply : IsFrame (encodeGrpcFrame (encodeToVec (handler received w).1))
      (encodeToVec (handler received w).1) := ⟨rfl, fit received same⟩
  rw [GrpcClient.call, final, Client.ok_bind, reply.decode]
  show client.decodeWith (encodeToVec (handler received w).1) = _
  rw [GrpcClient.decodeWith]
  by_cases blank : encodeToVec (handler received w).1 = []
  · rw [if_pos blank, connected.decodes _ (.ok (.obj [])) (by rw [TypewayCodecAdapter.decode, blank]; rfl)]
    rfl
  · have read : (derivedAdapter S n fromValue toValue).decode (encodeToVec (handler received w).1) =
        lift ((derivedAdapter S n fromValue toValue).written returned) := by
      have some : (encodeToVec (handler received w).1).isEmpty = false := by
        rw [List.isEmpty_eq_false_iff]
        exact blank
      have decode : (derivedAdapter S n fromValue toValue).typewayDecode
          (encodeToVec (handler received w).1) = .ok returned := decoded'
      rw [TypewayCodecAdapter.decode, some, if_neg Bool.false_ne_true, decode]
    rw [if_neg blank, connected.decodes _ _ read]

end

/-! ## An echo -/

/-- `struct Counter { count: u32 }`. -/
def counterSchema : Schema Unit where
  fields _ := [⟨"count", .int .u32, 1⟩]
  accepted _ := ⟨[⟨"count", .int .u32, none⟩], rfl⟩
  compiles _ := rfl
  default _ := .mk fun
    | ⟨0, _⟩ => .varint 0

def counter (count : BitVec 32) : counterSchema.Msg () :=
  .mk fun
    | ⟨0, _⟩ => .varint count

def wordOf (v : counterSchema.Value (.varint .u32)) : BitVec 32 :=
  match v with
  | .varint word => word

def countOf : counterSchema.Msg () → BitVec 32
  | .mk fields => wordOf (fields ⟨0, Nat.zero_lt_one⟩)

theorem varint_wordOf (v : counterSchema.Value (.varint .u32)) : .varint (wordOf v) = v := by
  cases v
  rfl

theorem wordOf_canon (v : counterSchema.Value (.varint .u32)) : wordOf (canon v) = wordOf v := by
  cases v
  rfl

theorem counter_countOf (msg : counterSchema.Msg ()) : counter (countOf msg) = msg := by
  obtain ⟨fields⟩ := msg
  rw [counter, countOf]
  congr 1
  funext i
  match i with
  | ⟨0, _⟩ => exact varint_wordOf _

theorem countOf_canonMessage (msg : counterSchema.Msg ()) :
    countOf (canonMessage msg) = countOf msg := by
  obtain ⟨fields⟩ := msg
  rw [canonMessage]
  exact wordOf_canon _

/-- There are no floats in it. -/
theorem eq_of_sameMessage {msg other : counterSchema.Msg ()} (same : SameMessage msg other) :
    msg = other := by
  rw [← counter_countOf msg, ← counter_countOf other, ← countOf_canonMessage msg,
    ← countOf_canonMessage other, same]

def countRecord : Serde.Record UInt32 :=
  .ofField (Serde.always "count" Serde.u32)

def counterFrom (value : Value) : Except Str (counterSchema.Msg ()) :=
  match countRecord.codec.de value with
  | some count => .ok (counter count.toBitVec)
  | none => .error "missing field `count`".toList

def counterValue (msg : counterSchema.Msg ()) : Except Str Value :=
  .ok (countRecord.codec.ser (.ofBitVec (countOf msg)))

/-- Answers with the message it gets, and counts its calls. -/
def echoCounter (msg : counterSchema.Msg ()) (served : Nat) : counterSchema.Msg () × Nat :=
  (msg, served + 1)

def echoService : GrpcMultiplexer Nat Unit Unit :=
  plainService ((∅ : GrpcHandlers Nat Unit Unit).addDirectHandler listUser
    (derivedHandler counterSchema () (fun _ => []) echoCounter))

def five : Value :=
  .obj [("count".toList, .ofU64 5)]

theorem five_fits : (encodeToVec (counter 5)).length < 2 ^ 32 := by decide

def echoClient : GrpcClient Unit Value where
  retry := none
  allowRequest _ := true
  send _ :=
    let sent := directResponse .opaqueOctets (encodeGrpcFrame (encodeToVec (counter 5)))
    .ok { status := 200
          headers := sent.headers
          frames := [⟨0, encodeToVec (counter 5), five_fits⟩]
          cut := []
          cutOff := .nil
          trailers := trailersOf sent.body
          broken := false }
  parseRichStatus _ := none
  decode bytes :=
    match (derivedAdapter counterSchema () counterFrom counterValue).decode bytes with
    | .ok value => .ok value
    | .error (.err e) => .error e
    | .error _ => .error []

theorem echoService_known : echoService.Known (grpcParts listUser).path
    (.direct (derivedHandler counterSchema () (fun _ => []) echoCounter)) where
  found := AList.lookup_insert _
  health := by decide
  reflection := rfl

theorem echoClient_connected :
    TypedConnected .opaqueOctets counterSchema () (fun _ => []) echoCounter echoService
      (grpcParts listUser) (framed (encodeToVec (counter 5))) 0 echoClient
      (derivedAdapter counterSchema () counterFrom counterValue) five where
  known := echoService_known
  whole := rfl
  posted := ⟨encodeToVec (counter 5), rfl, List.flatten_singleton⟩
  answered framed' answer := by
    have same : framed' = encodeGrpcFrame (encodeToVec (counter 5)) := by
      have served : (echoService.callGrpc (grpcParts listUser) (framed (encodeToVec (counter 5)))
          0).answer = .direct (encodeGrpcFrame (encodeToVec (counter 5))) := by
        rw [GrpcMultiplexer.callGrpc_known 0 echoService_known, framed_whole,
          IsFrame.unframed ⟨rfl, five_fits⟩]
        rfl
      exact Answer.direct.inj (answer.symm.trans served)
    rw [same]
    exact ⟨_, rfl, rfl, rfl, (wire_cons_data five_fits []).symm, rfl, rfl⟩
  decodes bytes result decoded := by
    show (match (derivedAdapter counterSchema () counterFrom counterValue).decode bytes with
      | .ok value => Except.ok value
      | .error (.err e) => .error e
      | .error _ => .error []) = result
    rw [decoded]
    cases result <;> rfl
  allowed _ := rfl
  attempts := by decide

theorem counterSchema_faithful : AllFaithful counterSchema where
  clear _ := rfl
  faithful n i := by
    match i with
    | ⟨0, _⟩ => trivial

/-- Five comes back, from one call. -/
theorem call_typed_echo :
    echoClient.call.toOption = some five ∧
      (echoService.callGrpc (grpcParts listUser) (framed (encodeToVec (counter 5))) 0).world = 1 := by
  have accepted : counterFrom five = .ok (counter 5) := rfl
  have fit : ∀ received, SameMessage received (counter 5) →
      (encodeToVec (echoCounter received 0).1).length < 2 ^ 32 := by
    intro received same
    rw [echoCounter, eq_of_sameMessage same]
    exact five_fits
  obtain ⟨received, returned, same, same', served, -, call⟩ :=
    call_typed counterSchema_faithful echoClient_connected accepted five_fits fit
  obtain rfl := eq_of_sameMessage same
  obtain rfl := eq_of_sameMessage same'
  rw [call, served]
  exact ⟨rfl, rfl⟩

end Typeway.Server
