import Typeway.Base.Base64
import Typeway.Base.Json
import Typeway.Base.Utf8
import Typeway.Core.Path
import Typeway.Protobuf.Codec

/-!
# The codec driven by field definitions

`proto_codec.rs` goes between JSON objects and protobuf bytes by a list of `ProtoFieldDef`, which
a transcoder makes from the service's description at run time. The decoder walks over the bytes
and collects repeated members apart from the others; the encoder walks over the definitions.
-/

namespace Typeway.Grpc

open Checked Typeway.Core Json

/-! ## Field definitions -/

inductive Scalar where
  | int32 | int64 | uint32 | uint64 | sint32 | sint64 | bool | enum
  | double | fixed64 | sfixed64 | string | bytes | float | fixed32 | sfixed32
  deriving DecidableEq, Repr

def Scalar.all : List Scalar :=
  [int32, int64, uint32, uint64, sint32, sint64, bool, enum, double, fixed64, sfixed64, string,
    bytes, float, fixed32, sfixed32]

def Scalar.name : Scalar → Str
  | int32 => "int32".toList
  | int64 => "int64".toList
  | uint32 => "uint32".toList
  | uint64 => "uint64".toList
  | sint32 => "sint32".toList
  | sint64 => "sint64".toList
  | bool => "bool".toList
  | enum => "enum".toList
  | double => "double".toList
  | fixed64 => "fixed64".toList
  | sfixed64 => "sfixed64".toList
  | string => "string".toList
  | bytes => "bytes".toList
  | float => "float".toList
  | fixed32 => "fixed32".toList
  | sfixed32 => "sfixed32".toList

/-- A protobuf type name, the names the codec knows told apart from the others. -/
inductive ProtoType where
  | scalar (s : Scalar)
  | other (name : Str)
  deriving DecidableEq

namespace ProtoType

def ofName (name : Str) : ProtoType :=
  match Scalar.all.find? (·.name = name) with
  | some s => .scalar s
  | none => .other name

def name : ProtoType → Str
  | scalar s => s.name
  | other name => name

end ProtoType

structure ProtoFieldDef where
  name : Str
  protoType : ProtoType
  tag : UInt32
  repeated : Bool
  isMap : Bool
  mapKeyType : Option ProtoType
  mapValueType : Option ProtoType
  nestedFields : Option (List ProtoFieldDef)

inductive CodecError where
  | varintTooLong
  | unexpectedEof
  | unknownWireType (wireType : UInt8)
  | valueConversion (msg : String)
  | encodingFailed (msg : String)
  deriving DecidableEq, Repr

/-- What the codec calls: the text of a `Utf8Error`, and `to_vec` and `from_slice` of the JSON
library. A control character that is no white space stands in no JSON text. -/
structure Externals where
  utf8Error : List UInt8 → String
  toVec : Value → List UInt8
  fromSlice : List UInt8 → Option Value
  controls : ∀ bytes, ∀ b ∈ bytes, b < 0x20 → b ≠ 9 → b ≠ 10 → b ≠ 13 → fromSlice bytes = none

/-- A JSON library that reads nothing. -/
def readsNothing : Externals where
  utf8Error _ := ""
  toVec _ := []
  fromSlice _ := none
  controls _ _ _ _ _ _ _ := rfl

/-! ## Varints -/

def encodeVarint (value : UInt64) : List UInt8 :=
  let byte := (value &&& 0x7F).toUInt8
  if value >>> 7 = 0 then [byte] else (byte ||| 0x80) :: encodeVarint (value >>> 7)
termination_by value.toNat
decreasing_by
  rename_i more
  have ne : (value >>> 7).toNat ≠ 0 := fun e => more (UInt64.toNat_inj.mp e)
  rw [Protobuf.word_shift] at ne ⊢
  omega

/-- The loop over the bytes, `shift` being seven for each byte read. -/
def decodeVarintLoop : List UInt8 → Nat → UInt64 → Nat → Except CodecError (UInt64 × Nat)
  | [], _, _, _ => .error .unexpectedEof
  | byte :: rest, i, result, shift =>
    if shift ≥ 70 then .error .varintTooLong
    else
      let result := result ||| ((byte &&& 0x7F).toUInt64 <<< UInt64.ofNat shift)
      if byte &&& 0x80 = 0 then .ok (result, i + 1)
      else decodeVarintLoop rest (i + 1) result (shift + 7)

def decodeVarint (bytes : List UInt8) : Except CodecError (UInt64 × Nat) :=
  decodeVarintLoop bytes 0 0 0

def zigzagDecode (v : UInt64) : BitVec 64 :=
  (v.toBitVec >>> 1) ^^^ -(v.toBitVec &&& 1)

def zigzagEncode (v : BitVec 64) : UInt64 :=
  .ofBitVec ((v <<< 1) ^^^ v.sshiftRight 63)

/-! ## Types -/

def wireTypeFor : ProtoType → UInt8
  | .scalar .int32 | .scalar .int64 | .scalar .uint32 | .scalar .uint64 | .scalar .sint32
  | .scalar .sint64 | .scalar .bool | .scalar .enum => 0
  | .scalar .double | .scalar .fixed64 | .scalar .sfixed64 => 1
  | .scalar .string | .scalar .bytes => 2
  | .scalar .float | .scalar .fixed32 | .scalar .sfixed32 => 5
  | .other _ => 2

/-- `value.as_f64() == Some(0.0)`. -/
def isZeroF64 (value : Value) : Bool :=
  value.asF64.any Ieee.isZero

def isProto3Default (value : Value) : ProtoType → Bool
  | .scalar .int32 | .scalar .int64 | .scalar .uint32 | .scalar .uint64 | .scalar .sint32
  | .scalar .sint64 | .scalar .fixed32 | .scalar .fixed64 | .scalar .sfixed32 | .scalar .sfixed64
  | .scalar .enum => value.asI64 == some 0 || value.asU64 == some 0 || isZeroF64 value
  | .scalar .float | .scalar .double => isZeroF64 value
  | .scalar .bool => value.asBool == some false
  | .scalar .string | .scalar .bytes => value.asStr == some []
  | .other _ => false

def isPackableType : ProtoType → Bool
  | .scalar .string | .scalar .bytes | .other _ => false
  | .scalar _ => true

/-! ## Wire values -/

inductive WireValue where
  | varint (v : UInt64)
  | fixed64 (bytes : List UInt8)
  | lengthDelimited (data : List UInt8)
  | fixed32 (bytes : List UInt8)

/-- A wire value of the given type at the start of the bytes, and its length. -/
def decodeWireValue (bytes : List UInt8) (wireType : UInt8) : Run CodecError (WireValue × Nat) :=
  match wireType with
  | 0 => do
    let (val, consumed) ← lift (decodeVarint bytes)
    pure (.varint val, consumed)
  | 1 => if bytes.length < 8 then fail .unexpectedEof else pure (.fixed64 (bytes.take 8), 8)
  | 2 => do
    let (len, hdrConsumed) ← lift (decodeVarint bytes)
    let stop ← add hdrConsumed len.toNat
    if bytes.length < stop then fail .unexpectedEof
    else
      let data ← slice bytes hdrConsumed stop
      pure (.lengthDelimited data, stop)
  | 5 => if bytes.length < 4 then fail .unexpectedEof else pure (.fixed32 (bytes.take 4), 4)
  | wt => fail (.unknownWireType wt)

/-- The JSON value of a wire value, `nested` being the decoder of the nested definitions if there
are any. -/
def wireValueToJson (E : Externals) (wv : WireValue) (protoType : ProtoType)
    (nested : Option (List UInt8 → Run CodecError Value)) : Run CodecError Value :=
  match wv, protoType with
  | .varint v, .scalar .uint32 | .varint v, .scalar .uint64 => pure (.ofU64 v)
  | .varint v, .scalar .int32 => pure (.ofSigned (by decide) (v.toBitVec.setWidth 32))
  | .varint v, .scalar .int64 => pure (.ofSigned (by decide) v.toBitVec)
  | .varint v, .scalar .sint32 => pure (.ofSigned (by decide) ((zigzagDecode v).setWidth 32))
  | .varint v, .scalar .sint64 => pure (.ofSigned (by decide) (zigzagDecode v))
  | .varint v, .scalar .bool => pure (.bool (v != 0))
  | .varint v, .scalar .enum => pure (.ofU64 v)
  | .fixed64 bytes, .scalar .double => pure (.ofF64 (Ieee.fromLeBytes 8 bytes))
  | .fixed64 bytes, .scalar .fixed64 => pure (.ofU64 (.ofBitVec (Ieee.fromLeBytes 8 bytes)))
  | .fixed64 bytes, .scalar .sfixed64 =>
    pure (.ofSigned (by decide) (Ieee.fromLeBytes 8 bytes))
  | .fixed32 bytes, .scalar .float => pure (.ofF32 (Ieee.fromLeBytes 4 bytes))
  | .fixed32 bytes, .scalar .fixed32 =>
    pure (.ofU64 (.ofBitVec ((Ieee.fromLeBytes 4 bytes).setWidth 64)))
  | .fixed32 bytes, .scalar .sfixed32 =>
    pure (.ofSigned (by decide) (Ieee.fromLeBytes 4 bytes))
  | .lengthDelimited data, .scalar .string =>
    match Utf8.decode data with
    | some s => pure (.str s.toList)
    | none => fail (.valueConversion ("invalid UTF-8 in string field: " ++ E.utf8Error data))
  | .lengthDelimited data, .scalar .bytes => pure (.str (Base64.encode data))
  | .lengthDelimited data, _ =>
    match nested with
    | some decode => decode data
    | none =>
      match E.fromSlice data with
      | some val => pure val
      | none => pure (.str (Base64.encode data))
  | _, protoType =>
    fail (.valueConversion ("cannot convert wire value to JSON for proto type '" ++
      String.ofList protoType.name ++ "'"))

/-! ## From JSON to protobuf -/

/-- `v as u64` and `v as i64` of an `f64`. -/
def u64OfF64 (x : BitVec (8 * 8)) : UInt64 :=
  .ofNat (Ieee.toInt 0 (2 ^ 64 - 1) x).toNat

def i64OfF64 (x : BitVec (8 * 8)) : BitVec 64 :=
  .ofInt 64 (Ieee.toInt (-2 ^ 63) (2 ^ 63 - 1) x)

def jsonAsU64 (value : Value) : Except CodecError UInt64 :=
  match value.asU64 <|> value.asI64.map .ofBitVec <|> value.asF64.map u64OfF64 with
  | some v => .ok v
  | none => .error (.encodingFailed "expected numeric value")

def jsonAsI64 (value : Value) : Except CodecError (BitVec 64) :=
  match value.asI64 <|> value.asU64.map UInt64.toBitVec <|> value.asF64.map i64OfF64 with
  | some v => .ok v
  | none => .error (.encodingFailed "expected numeric value")

def jsonToVarint (value : Value) (protoType : ProtoType) : Except CodecError UInt64 :=
  match protoType with
  | .scalar .bool => .ok (if value.asBool.getD false then 1 else 0)
  | .scalar .sint32 => do
    let n ← jsonAsI64 value
    pure (zigzagEncode ((n.setWidth 32).signExtend 64))
  | .scalar .sint64 => do
    let n ← jsonAsI64 value
    pure (zigzagEncode n)
  | .scalar .int32 | .scalar .int64 => do
    let n ← jsonAsI64 value
    pure (.ofBitVec n)
  | _ => jsonAsU64 value

/-- Bytes behind their length. -/
def withLength (data : List UInt8) : List UInt8 :=
  encodeVarint (.ofNat data.length) ++ data

/-- `encode_field`: the tag and the value, `nested` being the encoder of the nested definitions if
there are any. -/
def encodeFieldWith (E : Externals) (nested : Option (Value → Except CodecError (List UInt8)))
    (field : ProtoFieldDef) (value : Value) : Except CodecError (List UInt8) := do
  let wt := wireTypeFor field.protoType
  let tag := encodeVarint ((field.tag.toUInt64 <<< 3) ||| wt.toUInt64)
  match wt with
  | 0 =>
    let v ← jsonToVarint value field.protoType
    pure (tag ++ encodeVarint v)
  | 1 =>
    match field.protoType with
    | .scalar .double =>
      match value.asF64 with
      | some n => pure (tag ++ Ieee.toLeBytes n)
      | none => .error (.encodingFailed "expected number for double")
    | .scalar .fixed64 =>
      let n ← jsonAsU64 value
      pure (tag ++ Ieee.toLeBytes (n := 8) n.toBitVec)
    | .scalar .sfixed64 =>
      let n ← jsonAsI64 value
      pure (tag ++ Ieee.toLeBytes (n := 8) n)
    | protoType =>
      .error (.encodingFailed ("unhandled 64-bit type: " ++ String.ofList protoType.name))
  | 2 =>
    match field.protoType with
    | .scalar .string =>
      match value.asStr with
      | some s => pure (tag ++ withLength (Utf8.encode (String.ofList s)))
      | none => .error (.encodingFailed "expected string for string field")
    | .scalar .bytes =>
      match value.asStr with
      | some s =>
        -- a text that is no base 64 is taken as it is
        let data := (Base64.decode s).getD (Utf8.encode (String.ofList s))
        pure (tag ++ withLength data)
      | none => .error (.encodingFailed "expected string (base64) for bytes field")
    | _ =>
      match nested with
      | some encode =>
        let nestedBytes ← encode value
        pure (tag ++ withLength nestedBytes)
      | none => pure (tag ++ withLength (E.toVec value))
  | 5 =>
    match field.protoType with
    | .scalar .float =>
      match value.asF64 with
      | some n => pure (tag ++ Ieee.toLeBytes (Ieee.narrow n))
      | none => .error (.encodingFailed "expected number for float")
    | .scalar .fixed32 =>
      let n ← jsonAsU64 value
      pure (tag ++ Ieee.toLeBytes (n := 4) (n.toBitVec.setWidth 32))
    | .scalar .sfixed32 =>
      let n ← jsonAsI64 value
      pure (tag ++ Ieee.toLeBytes (n := 4) (n.setWidth 32))
    | protoType =>
      .error (.encodingFailed ("unhandled 32-bit type: " ++ String.ofList protoType.name))
  | wt =>
    .error (.encodingFailed ("unknown wire type " ++ toString wt ++ " for field '" ++
      String.ofList field.name ++ "'"))

/-- A loop that appends to the buffer and stops at an error. -/
def concatM {α : Type} (f : α → Except CodecError (List UInt8)) :
    List α → Except CodecError (List UInt8)
  | [] => .ok []
  | a :: rest => do
    let here ← f a
    let more ← concatM f rest
    pure (here ++ more)

/-- The definition of the key or the value of a map entry. -/
def entryField (name : Str) (protoType : ProtoType) (tag : UInt32) : ProtoFieldDef where
  name := name
  protoType := protoType
  tag := tag
  repeated := false
  isMap := false
  mapKeyType := none
  mapValueType := none
  nestedFields := none

/-- A map entry as a submessage with the fields 1 and 2. -/
def entryBytes (E : Externals) (field : ProtoFieldDef) (entry : Str × Value) :
    Except CodecError (List UInt8) := do
  let keyType := field.mapKeyType.getD (.scalar .string)
  let valType := field.mapValueType.getD (.scalar .string)
  let key ← encodeFieldWith E none (entryField "key".toList keyType 1) (.str entry.1)
  let val ← encodeFieldWith E none (entryField "value".toList valType 2) entry.2
  pure (encodeVarint ((field.tag.toUInt64 <<< 3) ||| 2) ++ withLength (key ++ val))

/-- The body of the loop over the definitions. -/
def memberBytes (E : Externals) (nested : Option (Value → Except CodecError (List UInt8)))
    (field : ProtoFieldDef) (map : List (Str × Value)) : Except CodecError (List UInt8) :=
  match SortedMap.lookup field.name map with
  | none => .ok []
  | some value =>
    if value.isNull then .ok []
    else if !field.repeated && !field.isMap && isProto3Default value field.protoType then .ok []
    else if field.isMap then
      match value.asObject with
      | some obj => concatM (entryBytes E field) obj
      | none => .ok []
    else if field.repeated then
      match value.asArray with
      | some arr => concatM (encodeFieldWith E nested field) arr
      | none => .ok []
    else encodeFieldWith E nested field value

mutual

/-- The recursive call on the nested definitions. -/
def nestedEncoder (E : Externals) :
    Option (List ProtoFieldDef) → Option (Value → Except CodecError (List UInt8))
  | none => none
  | some fields => some fun json =>
    match json.asObject with
    | some map => membersBytes E fields map
    | none => .ok []

/-- The loop over the definitions. -/
def membersBytes (E : Externals) :
    List ProtoFieldDef → List (Str × Value) → Except CodecError (List UInt8)
  | [], _ => .ok []
  | ⟨name, protoType, tag, repeated, isMap, keyType, valueType, nested⟩ :: fields, map => do
    let here ← memberBytes E (nestedEncoder E nested)
      ⟨name, protoType, tag, repeated, isMap, keyType, valueType, nested⟩ map
    let more ← membersBytes E fields map
    pure (here ++ more)

end

/-- A JSON value that is no object is an empty message. -/
def jsonToProtoBinary (E : Externals) (json : Value) (fields : List ProtoFieldDef) :
    Except CodecError (List UInt8) :=
  match json.asObject with
  | some map => membersBytes E fields map
  | none => .ok []

def encodeField (E : Externals) (field : ProtoFieldDef) (value : Value) :
    Except CodecError (List UInt8) :=
  encodeFieldWith E (nestedEncoder E field.nestedFields) field value

/-! ## From protobuf to JSON -/

/-- The turn of the loop of `unpack_scalars`. -/
def unpackStep (E : Externals) (protoType : ProtoType) (data : List UInt8) :
    Nat × List Value → Run CodecError (Nat × List Value)
  | (offset, results) =>
    match wireTypeFor protoType with
    | 0 => do
      let rest ← sliceFrom data offset
      let (val, consumed) ← lift (decodeVarint rest)
      let offset ← add offset consumed
      let value ← wireValueToJson E (.varint val) protoType none
      pure (offset, results ++ [value])
    | 5 => do
      let stop ← add offset 4
      if stop > data.length then fail .unexpectedEof
      else
        let arr ← slice data offset stop
        let value ← wireValueToJson E (.fixed32 arr) protoType none
        pure (stop, results ++ [value])
    | 1 => do
      let stop ← add offset 8
      if stop > data.length then fail .unexpectedEof
      else
        let arr ← slice data offset stop
        let value ← wireValueToJson E (.fixed64 arr) protoType none
        pure (stop, results ++ [value])
    | _ => fail (.encodingFailed ("cannot unpack type: " ++ String.ofList protoType.name))

/-- The elements of a packed field. -/
def unpackScalars (E : Externals) (data : List UInt8) (protoType : ProtoType) :
    Run CodecError (List Value) := do
  let s ← runLoop (fun s => decide (s.1 < data.length)) (unpackStep E protoType data)
    (fun s => data.length - s.1) (0, [])
  pure s.2

/-- The variables of `proto_binary_to_json`. The repeated members are kept by their names; the
order in which a hash map gives them back does not matter, the names being those of the map they
are put into. -/
structure JsonState where
  offset : Nat
  map : List (Str × Value)
  repeatedFields : List (Str × List Value)

namespace JsonState

/-- `repeated_fields.entry(name).or_default().extend(values)`. -/
def extend (s : JsonState) (name : Str) (values : List Value) : JsonState :=
  { s with
    repeatedFields := SortedMap.insert name
      ((SortedMap.lookup name s.repeatedFields).getD [] ++ values) s.repeatedFields }

def insert (s : JsonState) (name : Str) (value : Value) : JsonState :=
  { s with map := SortedMap.insert name value s.map }

/-- The members with the repeated ones as arrays. -/
def finish (s : JsonState) : Value :=
  .obj (s.repeatedFields.foldl (fun map e => SortedMap.insert e.1 (.arr e.2) map) s.map)

end JsonState

abbrev NestedDecoder := Option (List UInt8 → Run CodecError Value)

/-- What a field does with a wire value. -/
def storeWireValue (E : Externals) (field : ProtoFieldDef) (nested : NestedDecoder) (wv : WireValue)
    (s : JsonState) : Run CodecError JsonState :=
  match field.repeated && isPackableType field.protoType, wv with
  | true, .lengthDelimited data => do
    let unpacked ← unpackScalars E data field.protoType
    pure (s.extend field.name unpacked)
  | _, wv => do
    let jsonValue ← wireValueToJson E wv field.protoType nested
    if field.repeated then pure (s.extend field.name [jsonValue])
    else pure (s.insert field.name jsonValue)

/-- The body of the loop over the input. The definitions come with their nested decoders. -/
def jsonStep (E : Externals) (fields : List (ProtoFieldDef × NestedDecoder)) (bytes : List UInt8)
    (s : JsonState) : Run CodecError JsonState := do
  let rest ← sliceFrom bytes s.offset
  let (tagAndWire, consumed) ← lift (decodeVarint rest)
  let offset ← add s.offset consumed
  let fieldNumber := (tagAndWire >>> 3).toUInt32
  let wireType := (tagAndWire &&& 7).toUInt8
  let rest ← sliceFrom bytes offset
  let (wireVal, consumed) ← decodeWireValue rest wireType
  let offset ← add offset consumed
  match fields.find? fun f => f.1.tag == fieldNumber with
  | some (field, nested) => storeWireValue E field nested wireVal { s with offset := offset }
  | none => pure { s with offset := offset }

def jsonLoop (E : Externals) (fields : List (ProtoFieldDef × NestedDecoder)) (bytes : List UInt8) :
    JsonState → Run CodecError JsonState :=
  runLoop (fun s => decide (s.offset < bytes.length)) (jsonStep E fields bytes)
    (fun s => bytes.length - s.offset)

def decodeMembers (E : Externals) (fields : List (ProtoFieldDef × NestedDecoder))
    (bytes : List UInt8) : Run CodecError Value := do
  let s ← jsonLoop E fields bytes ⟨0, [], []⟩
  pure s.finish

mutual

/-- The recursive call on the nested definitions. -/
def nestedDecoder (E : Externals) : Option (List ProtoFieldDef) → NestedDecoder
  | none => none
  | some fields => some (decodeMembers E (withDecoders E fields))

/-- The definitions with their nested decoders. -/
def withDecoders (E : Externals) : List ProtoFieldDef → List (ProtoFieldDef × NestedDecoder)
  | [] => []
  | ⟨name, protoType, tag, repeated, isMap, keyType, valueType, nested⟩ :: fields =>
    (⟨name, protoType, tag, repeated, isMap, keyType, valueType, nested⟩, nestedDecoder E nested) ::
      withDecoders E fields

end

def protoBinaryToJson (E : Externals) (bytes : List UInt8) (fields : List ProtoFieldDef) :
    Run CodecError Value :=
  decodeMembers E (withDecoders E fields) bytes

/-! ## The recursion over the definitions -/

theorem withDecoders_eq (E : Externals) (fields : List ProtoFieldDef) :
    withDecoders E fields = fields.map fun f => (f, nestedDecoder E f.nestedFields) := by
  induction fields with
  | nil => rw [withDecoders, List.map_nil]
  | cons f fields ih =>
    cases f
    rw [withDecoders, ih, List.map_cons]

theorem nestedDecoder_some (E : Externals) (fields : List ProtoFieldDef) :
    nestedDecoder E (some fields) = some fun data => protoBinaryToJson E data fields := by
  rw [nestedDecoder]
  rfl

theorem nestedEncoder_some (E : Externals) (fields : List ProtoFieldDef) :
    nestedEncoder E (some fields) = some fun json => jsonToProtoBinary E json fields := by
  rw [nestedEncoder]
  rfl

theorem membersBytes_eq (E : Externals) (fields : List ProtoFieldDef) (map : List (Str × Value)) :
    membersBytes E fields map =
      concatM (fun f => memberBytes E (nestedEncoder E f.nestedFields) f map) fields := by
  induction fields with
  | nil => rw [membersBytes, concatM]
  | cons f fields ih =>
    cases f
    rw [membersBytes, concatM, ih]

/-! ## Messages and flags -/

theorem encodeFieldWith_nested (E : Externals) {encode : Value → Except CodecError (List UInt8)}
    {field : ProtoFieldDef} {name : Str} (type : field.protoType = .other name) (v : Value) :
    encodeFieldWith E (some encode) field v = (encode v).map fun data =>
      encodeVarint ((field.tag.toUInt64 <<< 3) ||| (2 : UInt8).toUInt64) ++ withLength data := by
  unfold encodeFieldWith
  rw [type]
  show (do
    let nestedBytes ← encode v
    pure (encodeVarint ((field.tag.toUInt64 <<< 3) ||| (2 : UInt8).toUInt64) ++
      withLength nestedBytes)) = _
  cases encode v with
  | error e => rfl
  | ok data => rfl

theorem jsonToVarint_bool (b : Bool) :
    jsonToVarint (.bool b) (.scalar .bool) = .ok (if b then 1 else 0) := by
  rw [jsonToVarint]
  rfl

theorem wireValueToJson_bool (E : Externals) (b : Bool) (nested : NestedDecoder) :
    wireValueToJson E (.varint (if b then 1 else 0)) (.scalar .bool) nested = .ok (.bool b) := by
  rw [wireValueToJson]
  cases b <;> rfl

end Typeway.Grpc
