import Typeway.Grpc.JsonRecords

/-!
# Values of the scalar types

What the JSON values of each scalar type are, the record the encoder makes of one, and the value
the decoder makes of that record.
-/

namespace Typeway.Grpc

open Checked Typeway.Core Json Protobuf

/-- The JSON values of a scalar type. -/
def Scalar.Holds : Scalar → Value → Prop
  | int32, v | sint32, v | sfixed32, v | enum, v => ∃ x : BitVec 32, v = .ofSigned Value.short32 x
  | int64, v | sint64, v | sfixed64, v => ∃ x : BitVec 64, v = .ofSigned Value.short64 x
  | uint32, v | fixed32, v => ∃ x : UInt32, v = .ofU64 x.toUInt64
  | uint64, v | fixed64, v => ∃ x : UInt64, v = .ofU64 x
  | bool, v => ∃ b, v = .bool b
  | double, v => ∃ x, Ieee.isFinite64 x = true ∧ v = .number (.float (.ofBitVec x))
  | float, v => ∃ x, Ieee.isFinite32 x = true ∧ v = .number (.float (.ofBitVec (Ieee.widen x)))
  | string, v => ∃ s, v = .str s
  | bytes, v => ∃ data, v = .str (Base64.encode data)

/-- The value proto3 does not write. -/
def holdsDefault : Value → Bool
  | .number (.int i _ _) => i == 0
  | .number (.float bits) => Ieee.isZero bits.toBitVec
  | .bool b => !b
  | .str s => s.isEmpty
  | _ => false

theorem encodeTag_eq {wt : UInt8} (hwt : wt.toNat < 8) (tag : UInt32) :
    encodeVarint ((tag.toUInt64 <<< 3) ||| wt.toUInt64) = tagBytes tag wt := by
  rw [encodeVarint_eq, tag_shift_or hwt, tagBytes]

theorem encodeFieldWith_message (E : Externals) {encode : Value → Except CodecError (List UInt8)}
    {field : ProtoFieldDef} {name : Str} (type : field.protoType = .other name) (v : Value) :
    encodeFieldWith E (some encode) field v =
      (encode v).map fun data => (WireValue.lengthDelimited data).record field.tag := by
  rw [encodeFieldWith_nested E type, encodeTag_eq (by decide)]
  cases encode v with
  | error e => rfl
  | ok data =>
    show Except.ok (tagBytes field.tag 2 ++ withLength data) = _
    rw [withLength_eq]
    rfl

/-! ## Numbers -/

theorem jsonAsI64_ofSigned {w : Nat} (short : w ≤ 64) (x : BitVec w) :
    jsonAsI64 (.ofSigned short x) = .ok (x.signExtend 64) := by
  rw [jsonAsI64, Value.asI64_ofSigned]
  rfl

theorem jsonAsU64_ofU64 (x : UInt64) : jsonAsU64 (.ofU64 x) = .ok x := by
  rw [jsonAsU64, Value.asU64_ofU64]
  rfl

theorem jsonAsU64_ofSigned {w : Nat} (short : w ≤ 64) (x : BitVec w) :
    jsonAsU64 (.ofSigned short x) = .ok (.ofBitVec (x.signExtend 64)) := by
  by_cases pos : 0 ≤ x.toInt
  · rw [← (Value.ofSigned_eq_ofU64 short).2 pos, jsonAsU64_ofU64]
  · have none : (Value.ofSigned short x).asU64 = none := if_neg pos
    rw [jsonAsU64, none, Value.asI64_ofSigned]
    rfl

/-! ## Records -/

/-- A value of a scalar type goes over the wire as `wv` and comes out as `u`. -/
structure Carries (s : Scalar) (v : Value) (wv : WireValue) (u : Value) : Prop where
  fits : wv.Fits
  wireType : wv.wireType = wireTypeFor (.scalar s)
  encoded : ∀ (E : Externals) (nested : Option (Value → Except CodecError (List UInt8)))
    (field : ProtoFieldDef), field.protoType = .scalar s →
      encodeFieldWith E nested field v = .ok (wv.record field.tag)
  decoded : ∀ (E : Externals) (nested : NestedDecoder), wireValueToJson E wv (.scalar s) nested = .ok u

theorem encodeFieldWith_varint (E : Externals)
    (nested : Option (Value → Except CodecError (List UInt8))) {field : ProtoFieldDef} {v : Value}
    {n : UInt64} (wire : wireTypeFor field.protoType = 0)
    (varint : jsonToVarint v field.protoType = .ok n) :
    encodeFieldWith E nested field v = .ok ((WireValue.varint n).record field.tag) := by
  unfold encodeFieldWith
  dsimp only
  rw [wire, encodeTag_eq (by decide), varint]
  show Except.ok (tagBytes field.tag 0 ++ encodeVarint n) = _
  rw [encodeVarint_eq]
  rfl

theorem carries_varint {s : Scalar} {v u : Value} {n : UInt64}
    (wire : wireTypeFor (.scalar s) = 0) (varint : jsonToVarint v (.scalar s) = .ok n)
    (decoded : ∀ (E : Externals) (nested : NestedDecoder),
      wireValueToJson E (.varint n) (.scalar s) nested = .ok u) : Carries s v (.varint n) u where
  fits := trivial
  wireType := wire.symm
  encoded E nested field type :=
    encodeFieldWith_varint E nested (by rw [type, wire]) (by rw [type, varint])
  decoded := decoded

/-- The fixed and the delimited types have a branch of their own each. -/
theorem carries_of_branch {s : Scalar} {v u : Value} {wv : WireValue} (fits : wv.Fits)
    (wireType : wv.wireType = wireTypeFor (.scalar s))
    (branch : ∀ (E : Externals) (nested : Option (Value → Except CodecError (List UInt8)))
      (field : ProtoFieldDef), field.protoType = .scalar s →
        encodeFieldWith E nested field v =
          .ok (encodeVarint ((field.tag.toUInt64 <<< 3) ||| wv.wireType.toUInt64) ++ wv.bytes))
    (decoded : ∀ (E : Externals) (nested : NestedDecoder),
      wireValueToJson E wv (.scalar s) nested = .ok u) : Carries s v wv u where
  fits := fits
  wireType := wireType
  encoded E nested field type := by
    rw [branch E nested field type, encodeTag_eq wv.wireType_lt]
    rfl
  decoded := decoded

theorem carries_int32 (x : BitVec 32) :
    Carries .int32 (.ofSigned (by decide) x) (.varint (.ofBitVec (x.signExtend 64)))
      (.ofSigned (by decide) x) := by
  refine carries_varint rfl ?_ ?_
  · rw [jsonToVarint, jsonAsI64_ofSigned]
    rfl
  · intro E nested
    rw [wireValueToJson, Value.setWidth_signExtend (by decide)]
    rfl

theorem carries_int64 (x : BitVec 64) :
    Carries .int64 (.ofSigned (by decide) x) (.varint (.ofBitVec x)) (.ofSigned (by decide) x) := by
  refine carries_varint rfl ?_ fun E nested => rfl
  rw [jsonToVarint, jsonAsI64_ofSigned, BitVec.signExtend_eq]
  rfl

theorem carries_sint32 (x : BitVec 32) :
    Carries .sint32 (.ofSigned (by decide) x) (.varint (zigzagEncode (x.signExtend 64)))
      (.ofSigned (by decide) x) := by
  refine carries_varint rfl ?_ ?_
  · rw [jsonToVarint, jsonAsI64_ofSigned]
    show Except.ok (zigzagEncode (((x.signExtend 64).setWidth 32).signExtend 64)) = _
    rw [Value.setWidth_signExtend (by decide)]
  · intro E nested
    rw [wireValueToJson, zigzagDecode_zigzagEncode, Value.setWidth_signExtend (by decide)]
    rfl

theorem carries_sint64 (x : BitVec 64) :
    Carries .sint64 (.ofSigned (by decide) x) (.varint (zigzagEncode x))
      (.ofSigned (by decide) x) := by
  refine carries_varint rfl ?_ ?_
  · rw [jsonToVarint, jsonAsI64_ofSigned, BitVec.signExtend_eq]
    rfl
  · intro E nested
    rw [wireValueToJson, zigzagDecode_zigzagEncode]
    rfl

theorem carries_uint32 (x : UInt32) :
    Carries .uint32 (.ofU64 x.toUInt64) (.varint x.toUInt64) (.ofU64 x.toUInt64) :=
  carries_varint rfl (jsonAsU64_ofU64 _) fun _ _ => rfl

theorem carries_uint64 (x : UInt64) : Carries .uint64 (.ofU64 x) (.varint x) (.ofU64 x) :=
  carries_varint rfl (jsonAsU64_ofU64 x) fun _ _ => rfl

theorem carries_bool (b : Bool) :
    Carries .bool (.bool b) (.varint (if b then 1 else 0)) (.bool b) :=
  carries_varint rfl (jsonToVarint_bool b) fun E nested => wireValueToJson_bool E b nested

/-- The enumerations are read as unsigned words, whatever their sign. -/
theorem carries_enum (x : BitVec 32) :
    Carries .enum (.ofSigned (by decide) x) (.varint (.ofBitVec (x.signExtend 64)))
      (.ofU64 (.ofBitVec (x.signExtend 64))) :=
  carries_varint rfl (jsonAsU64_ofSigned (by decide) x) fun _ _ => rfl

theorem carries_double {x : BitVec (8 * 8)} (finite : Ieee.isFinite64 x = true) :
    Carries .double (.number (.float (.ofBitVec x))) (.fixed64 (Ieee.toLeBytes x))
      (.number (.float (.ofBitVec x))) := by
  refine carries_of_branch (Ieee.toLeBytes_length x) rfl ?_ ?_
  · intro E nested field type
    unfold encodeFieldWith
    rw [type]
    rfl
  · intro E nested
    rw [wireValueToJson, Ieee.fromLeBytes_toLeBytes, Value.ofF64, if_pos finite]
    rfl

theorem carries_float {x : BitVec (8 * 4)} (finite : Ieee.isFinite32 x = true) :
    Carries .float (.number (.float (.ofBitVec (Ieee.widen x)))) (.fixed32 (Ieee.toLeBytes x))
      (.number (.float (.ofBitVec (Ieee.widen x)))) := by
  refine carries_of_branch (Ieee.toLeBytes_length x) rfl ?_ ?_
  · intro E nested field type
    unfold encodeFieldWith
    rw [type]
    show Except.ok (_ ++ Ieee.toLeBytes (Ieee.narrow (Ieee.widen x))) = _
    rw [Ieee.narrow_widen finite]
    rfl
  · intro E nested
    rw [wireValueToJson, Ieee.fromLeBytes_toLeBytes, Value.ofF32, if_pos finite]
    rfl

theorem carries_fixed64 (x : UInt64) :
    Carries .fixed64 (.ofU64 x) (.fixed64 (Ieee.toLeBytes (n := 8) x.toBitVec)) (.ofU64 x) := by
  refine carries_of_branch (Ieee.toLeBytes_length (n := 8) x.toBitVec) rfl ?_ ?_
  · intro E nested field type
    unfold encodeFieldWith
    rw [type]
    show (do
      let n ← jsonAsU64 (.ofU64 x)
      pure (_ ++ Ieee.toLeBytes (n := 8) n.toBitVec)) = _
    rw [jsonAsU64_ofU64]
    rfl
  · intro E nested
    rw [wireValueToJson, Ieee.fromLeBytes_toLeBytes]
    rfl

theorem carries_sfixed64 (x : BitVec 64) :
    Carries .sfixed64 (.ofSigned (by decide) x) (.fixed64 (Ieee.toLeBytes (n := 8) x))
      (.ofSigned (by decide) x) := by
  refine carries_of_branch (Ieee.toLeBytes_length (n := 8) x) rfl ?_ ?_
  · intro E nested field type
    unfold encodeFieldWith
    rw [type]
    show (do
      let n ← jsonAsI64 (.ofSigned (by decide) x)
      pure (_ ++ Ieee.toLeBytes (n := 8) n)) = _
    rw [jsonAsI64_ofSigned, BitVec.signExtend_eq]
    rfl
  · intro E nested
    rw [wireValueToJson, Ieee.fromLeBytes_toLeBytes]
    rfl

theorem carries_fixed32 (x : UInt32) :
    Carries .fixed32 (.ofU64 x.toUInt64) (.fixed32 (Ieee.toLeBytes (n := 4) x.toBitVec))
      (.ofU64 x.toUInt64) := by
  have low : x.toUInt64.toBitVec.setWidth 32 = x.toBitVec := by
    apply BitVec.eq_of_toNat_eq
    simp
  refine carries_of_branch (Ieee.toLeBytes_length (n := 4) x.toBitVec) rfl ?_ ?_
  · intro E nested field type
    unfold encodeFieldWith
    rw [type]
    show (do
      let n ← jsonAsU64 (.ofU64 x.toUInt64)
      pure (_ ++ Ieee.toLeBytes (n := 4) (n.toBitVec.setWidth 32))) = _
    rw [jsonAsU64_ofU64]
    show Except.ok _ = _
    rw [low]
    rfl
  · intro E nested
    rw [wireValueToJson, Ieee.fromLeBytes_toLeBytes]
    rfl

theorem carries_sfixed32 (x : BitVec 32) :
    Carries .sfixed32 (.ofSigned (by decide) x) (.fixed32 (Ieee.toLeBytes (n := 4) x))
      (.ofSigned (by decide) x) := by
  refine carries_of_branch (Ieee.toLeBytes_length (n := 4) x) rfl ?_ ?_
  · intro E nested field type
    unfold encodeFieldWith
    rw [type]
    show (do
      let n ← jsonAsI64 (.ofSigned (by decide) x)
      pure (_ ++ Ieee.toLeBytes (n := 4) (n.setWidth 32))) = _
    rw [jsonAsI64_ofSigned]
    show Except.ok _ = _
    rw [Value.setWidth_signExtend (by decide)]
    rfl
  · intro E nested
    rw [wireValueToJson, Ieee.fromLeBytes_toLeBytes]
    rfl

theorem carries_string (s : Str) :
    Carries .string (.str s) (.lengthDelimited (Utf8.encode (String.ofList s))) (.str s) := by
  refine carries_of_branch trivial rfl ?_ ?_
  · intro E nested field type
    unfold encodeFieldWith
    rw [type]
    show Except.ok (_ ++ withLength (Utf8.encode (String.ofList s))) = _
    rw [withLength_eq]
    rfl
  · intro E nested
    rw [wireValueToJson, Utf8.decode_encode]
    exact congrArg (fun t => Except.ok (Value.str t)) String.toList_ofList

theorem carries_bytes (data : List UInt8) :
    Carries .bytes (.str (Base64.encode data)) (.lengthDelimited data)
      (.str (Base64.encode data)) := by
  refine carries_of_branch trivial rfl ?_ fun E nested => rfl
  intro E nested field type
  unfold encodeFieldWith
  rw [type]
  show Except.ok (_ ++ withLength ((Base64.decode (Base64.encode data)).getD _)) = _
  rw [Base64.decode_encode, Option.getD_some, withLength_eq]
  rfl

/-! ## All scalar types -/

def isNegative : Value → Bool
  | .number (.int i _ _) => i < 0
  | _ => false

/-- Every value but a negative enumerator comes out of its record. -/
def Scalar.comesBack (s : Scalar) (v : Value) : Prop :=
  s = .enum → isNegative v = false

theorem Scalar.Holds.carries {s : Scalar} {v : Value} (h : s.Holds v) :
    ∃ wv u, Carries s v wv u ∧ (u = v ↔ s.comesBack v) := by
  have exact {s : Scalar} {v : Value} {wv : WireValue} (other : s ≠ .enum)
      (carries : Carries s v wv v) : ∃ wv u, Carries s v wv u ∧ (u = v ↔ s.comesBack v) :=
    ⟨wv, v, carries, iff_of_true rfl fun same => absurd same other⟩
  cases s with
  | int32 =>
    obtain ⟨x, rfl⟩ := h
    exact exact (by decide) (carries_int32 x)
  | int64 =>
    obtain ⟨x, rfl⟩ := h
    exact exact (by decide) (carries_int64 x)
  | uint32 =>
    obtain ⟨x, rfl⟩ := h
    exact exact (by decide) (carries_uint32 x)
  | uint64 =>
    obtain ⟨x, rfl⟩ := h
    exact exact (by decide) (carries_uint64 x)
  | sint32 =>
    obtain ⟨x, rfl⟩ := h
    exact exact (by decide) (carries_sint32 x)
  | sint64 =>
    obtain ⟨x, rfl⟩ := h
    exact exact (by decide) (carries_sint64 x)
  | bool =>
    obtain ⟨b, rfl⟩ := h
    exact exact (by decide) (carries_bool b)
  | enum =>
    obtain ⟨x, rfl⟩ := h
    refine ⟨_, _, carries_enum x, (Value.ofSigned_eq_ofU64 (by decide)).trans ?_⟩
    simp [comesBack, isNegative, Value.ofSigned]
  | double =>
    obtain ⟨x, finite, rfl⟩ := h
    exact exact (by decide) (carries_double finite)
  | fixed64 =>
    obtain ⟨x, rfl⟩ := h
    exact exact (by decide) (carries_fixed64 x)
  | sfixed64 =>
    obtain ⟨x, rfl⟩ := h
    exact exact (by decide) (carries_sfixed64 x)
  | string =>
    obtain ⟨s, rfl⟩ := h
    exact exact (by decide) (carries_string s)
  | bytes =>
    obtain ⟨data, rfl⟩ := h
    exact exact (by decide) (carries_bytes data)
  | float =>
    obtain ⟨x, finite, rfl⟩ := h
    exact exact (by decide) (carries_float finite)
  | fixed32 =>
    obtain ⟨x, rfl⟩ := h
    exact exact (by decide) (carries_fixed32 x)
  | sfixed32 =>
    obtain ⟨x, rfl⟩ := h
    exact exact (by decide) (carries_sfixed32 x)

/-! ## Defaults -/

theorem isZeroF64_int {i : Int} {lower : -2 ^ 63 ≤ i} {upper : i < 2 ^ 64} :
    isZeroF64 (.number (.int i lower upper)) = (i == 0) := by
  rw [isZeroF64, Value.asF64, Option.any_some, Bool.eq_iff_iff, beq_iff_eq]
  exact Ieee.isZero_ofInt lower upper

/-- An integer is a default when one of its three readings is zero, which is when it is zero. -/
theorem integer_default {v : Value} {i : Int} {lower : -2 ^ 63 ≤ i} {upper : i < 2 ^ 64}
    (same : v = .number (.int i lower upper)) :
    (v.asI64 == some 0 || v.asU64 == some 0 || isZeroF64 v) = holdsDefault v := by
  subst same
  rw [isZeroF64_int, holdsDefault]
  by_cases zero : i = 0
  · rw [beq_iff_eq.2 zero, Bool.or_true]
  · have signed : ((Value.number (.int i lower upper)).asI64 == some 0) = false := by
      rw [Value.asI64]
      split
      · have apart : BitVec.ofInt 64 i ≠ 0 := by
          intro same
          have := congrArg BitVec.toInt same
          rw [BitVec.toInt_ofInt_eq_self (by omega) (by omega) (by omega)] at this
          exact zero this
        simpa using apart
      · rfl
    have unsigned : ((Value.number (.int i lower upper)).asU64 == some 0) = false := by
      rw [Value.asU64]
      split
      · have apart : UInt64.ofNat i.toNat ≠ 0 := by
          intro same
          have := congrArg UInt64.toNat same
          rw [UInt64.toNat_ofNat', UInt64.toNat_zero] at this
          omega
        simpa using apart
      · rfl
    rw [signed, unsigned, Bool.false_or, Bool.false_or]

theorem isProto3Default_eq {s : Scalar} {v : Value} (h : s.Holds v) :
    isProto3Default v (.scalar s) = holdsDefault v := by
  cases s with
  | int32 | int64 | uint32 | uint64 | sint32 | sint64 | fixed32 | fixed64 | sfixed32 | sfixed64
  | enum =>
    obtain ⟨x, rfl⟩ := h
    rw [isProto3Default]
    exact integer_default rfl
  | bool =>
    obtain ⟨b, rfl⟩ := h
    cases b <;> rfl
  | double | float =>
    obtain ⟨x, -, rfl⟩ := h
    rw [isProto3Default, isZeroF64, Value.asF64, Option.any_some, holdsDefault]
  | string | bytes =>
    obtain ⟨x, rfl⟩ := h
    rw [isProto3Default, Value.asStr, holdsDefault, Bool.eq_iff_iff]
    simp

theorem holdsDefault_ofU64 (n : UInt64) : holdsDefault (.ofU64 n) = (n == 0) := by
  rw [Bool.eq_iff_iff, beq_iff_eq, ← UInt64.toNat_inj, UInt64.toNat_zero]
  exact beq_iff_eq.trans Int.natCast_eq_zero

theorem holdsDefault_ofSigned {w : Nat} (short : w ≤ 64) (x : BitVec w) :
    holdsDefault (.ofSigned short x) = (x == 0) := by
  rw [Bool.eq_iff_iff, beq_iff_eq]
  refine beq_iff_eq.trans ?_
  rw [← BitVec.toInt_inj]
  exact Iff.of_eq (congrArg (x.toInt = ·) BitVec.toInt_zero.symm)

end Typeway.Grpc
