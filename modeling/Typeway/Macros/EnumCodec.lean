import Typeway.Macros.FieldLoop
import Typeway.Macros.Length

/-!
# The codec of an enum

`#[derive(TypewayCodec)]` makes a varint of an enum without fields, and a message with a single
field, a oneof, of an enum whose variants have one field each. The generated functions find a
variant by its tag: the arms of two variants with one tag are those of the first.

A payload that is no scalar is a type with the two traits. Nothing else is known of it, so it may
be a derived struct, another enum, or the enum itself behind a `Vec`.
-/

namespace Typeway.Macros

open Checked Protobuf

/-- A type with `TypewayEncode`, `TypewayDecode` and `Default`. -/
structure TypewayCodec where
  Val : Type
  default : Val
  encodedLen : Val → Nat
  encodeToVec : Val → List UInt8
  typewayDecode : List UInt8 → Run TypewayDecodeError Val

namespace TypewayCodec

variable (C : TypewayCodec)

def ComesBack (v : C.Val) : Prop :=
  C.typewayDecode (C.encodeToVec v) = .ok v

def Counted (v : C.Val) : Prop :=
  C.encodedLen v = (C.encodeToVec v).length

/-- The laws of the two traits for one value. -/
def Lawful (v : C.Val) : Prop :=
  C.ComesBack v ∧ C.Counted v

end TypewayCodec

/-- A derived struct. -/
def Schema.codec {ι : Type} (S : Schema ι) (n : ι) : TypewayCodec where
  Val := S.Msg n
  default := S.default n
  encodedLen := encodedLen
  encodeToVec := encodeToVec
  typewayDecode := typewayDecode S n

/-! ## The enums that the macro accepts -/

/-- The type of a payload, as `classify_scalar` sorts it. -/
inductive PayloadTy : Type 1 where
  | int (ty : IntTy)
  | bool
  | f32
  | f64
  | string
  | bytesStr
  | message (C : TypewayCodec)

namespace PayloadTy

abbrev Val : PayloadTy → Type
  | int ty => ty.Val
  | bool => Bool
  | f32 => BitVec (8 * 4)
  | f64 => BitVec (8 * 8)
  | string | bytesStr => String
  | message C => C.Val

/-- `Default::default()`. -/
def default : (ty : PayloadTy) → ty.Val
  | int _ => (0 : BitVec _)
  | bool => false
  | f32 | f64 => (0 : BitVec _)
  | string | bytesStr => ""
  | message C => C.default

def wireType : PayloadTy → UInt8
  | int _ | bool => 0
  | f64 => 1
  | string | bytesStr | message _ => 2
  | f32 => 5

theorem wireType_lt (ty : PayloadTy) : ty.wireType.toNat < 8 := by
  cases ty with
  | int _ | bool => exact varint_lt
  | f32 => exact fixed32_lt
  | f64 => exact fixed64_lt
  | string | bytesStr | message _ => exact len_lt

end PayloadTy

inductive VariantFields : Type 1 where
  | unit
  | unnamed (tys : List PayloadTy)
  | named (fields : List (String × PayloadTy))

def VariantFields.isEmpty : VariantFields → Bool
  | unit => true
  | unnamed tys => tys.isEmpty
  | named fields => fields.isEmpty

/-- A variant as the macro finds it, with the tag of its `#[proto(tag = N)]` if it has one. -/
structure Variant where
  ident : String
  protoTag : Option UInt32
  fields : VariantFields

inductive OneofError where
  | severalFields (ident : String)
  | namedFields (ident : String)
  | noField (ident : String)

def OneofError.message : OneofError → String
  | severalFields _ => "TypewayCodec oneof variants must have exactly one field"
  | namedFields _ => "TypewayCodec oneof variants must use tuple syntax, e.g., Variant(Type)"
  | noField _ => "oneof variants must have a field; use a simple enum for fieldless variants"

/-- An enum without fields: the tags of its variants. The tag of a variant is no discriminant. -/
structure SimpleEnum where
  tags : List UInt32
  nonempty : 0 < tags.length
  default : Fin tags.length

structure OneofVariant where
  tag : UInt32
  ty : PayloadTy

/-- The payload of a variant. -/
structure OneofValue (variants : List OneofVariant) where
  variant : Fin variants.length
  payload : (variants.get variant).ty.Val

structure OneofEnum where
  variants : List OneofVariant
  nonempty : 0 < variants.length
  default : OneofValue variants

inductive EnumTy where
  | simple (E : SimpleEnum)
  | oneof (E : OneofEnum)

def simpleTags (variants : List Variant) : List UInt32 :=
  variants.mapIdx fun i variant => variant.protoTag.getD (.ofNat i)

/-- The loop of `derive_typeway_codec_oneof_enum` over the variants from position `i` on. -/
def oneofVariantsFrom (i : Nat) : List Variant → Except OneofError (List OneofVariant)
  | [] => .ok []
  | variant :: variants =>
    let tag := variant.protoTag.getD (.ofNat (i + 1))
    match variant.fields with
    | .unnamed [ty] => do
      let rest ← oneofVariantsFrom (i + 1) variants
      pure (⟨tag, ty⟩ :: rest)
    | .unnamed _ => .error (.severalFields variant.ident)
    | .named _ => .error (.namedFields variant.ident)
    | .unit => .error (.noField variant.ident)

/-- What the macro makes of the variants of an enum: the tags of one without fields, or the
variants of a oneof. -/
def deriveTypewayCodecEnum (variants : List Variant) :
    Except OneofError (List UInt32 ⊕ List OneofVariant) :=
  if variants.all (·.fields.isEmpty) then .ok (.inl (simpleTags variants))
  else (oneofVariantsFrom 0 variants).map .inr

theorem oneofVariantsFrom_declared (i : Nat) (variants : List OneofVariant) :
    oneofVariantsFrom i (variants.map fun v => ⟨"", some v.tag, .unnamed [v.ty]⟩) =
      .ok variants := by
  induction variants generalizing i with
  | nil => rfl
  | cons v variants ih =>
    rw [List.map_cons, oneofVariantsFrom]
    dsimp only
    rw [ih]
    rfl

/-- The macro checks no tag: every list of tags and payload types is one of an accepted enum. -/
theorem deriveTypewayCodecEnum_declared (v : OneofVariant) (variants : List OneofVariant) :
    deriveTypewayCodecEnum ((v :: variants).map fun v => ⟨"", some v.tag, .unnamed [v.ty]⟩) =
      .ok (.inr (v :: variants)) := by
  rw [deriveTypewayCodecEnum, oneofVariantsFrom_declared]
  rfl

/-- Nor of an enum without fields. -/
theorem deriveTypewayCodecEnum_simple (tags : List UInt32) :
    deriveTypewayCodecEnum (tags.map fun tag => ⟨"", some tag, .unit⟩) = .ok (.inl tags) := by
  have unit : (tags.map fun tag => (⟨"", some tag, .unit⟩ : Variant)).all (·.fields.isEmpty) = true := by
    rw [List.all_map, List.all_eq_true]
    exact fun _ _ => rfl
  have same : simpleTags (tags.map fun tag => ⟨"", some tag, .unit⟩) = tags := by
    apply List.ext_getElem
    · simp [simpleTags]
    · intro i _ _
      simp [simpleTags]
  rw [deriveTypewayCodecEnum, if_pos unit, same]

/-! ## The generated functions of an enum without fields -/

namespace SimpleEnum

variable (E : SimpleEnum)

abbrev tag (v : Fin E.tags.length) : UInt32 :=
  E.tags.get v

def firstVariant : Fin E.tags.length :=
  ⟨0, E.nonempty⟩

/-- The arm of the `match` that a number selects. -/
def findVariant (val : UInt32) : Option (Fin E.tags.length) :=
  (List.finRange E.tags.length).find? fun v => E.tag v == val

def typewayDecode (bytes : List UInt8) : Run TypewayDecodeError (Fin E.tags.length) :=
  if bytes.isEmpty then .ok E.firstVariant
  else do
    let (val, _) ← lift (twDecodeVarint bytes)
    let val := val.toUInt32
    pure ((E.findVariant val).getD E.firstVariant)

def codec : TypewayCodec where
  Val := Fin E.tags.length
  default := E.default
  encodedLen v := twVarintLen (E.tag v).toUInt64
  encodeToVec v := twEncodeVarint [] (E.tag v).toUInt64
  typewayDecode := E.typewayDecode

end SimpleEnum

/-! ## The generated functions of a oneof -/

/-- The length table of the oneof generator, whose last entry is the one of three bytes. -/
def oneofTagLen (tag : UInt32) : Nat :=
  if tag < 16 then 1 else if tag < 2048 then 2 else 3

def oneofEncodeArm (tag : UInt32) : (ty : PayloadTy) → ty.Val → List UInt8 → List UInt8
  | .int ty, val, buf => twEncodeVarint (emitTagPush tag 0 buf) (ty.asU64 val)
  | .bool, val, buf => emitTagPush tag 0 buf ++ [if val then 1 else 0]
  | .f32, val, buf => emitTagPush tag 5 buf ++ Ieee.toLeBytes (n := 4) val
  | .f64, val, buf => emitTagPush tag 1 buf ++ Ieee.toLeBytes (n := 8) val
  | .string, val, buf | .bytesStr, val, buf => pushLen (Utf8.encode val) (emitTagPush tag 2 buf)
  | .message C, val, buf => pushLen (C.encodeToVec val) (emitTagPush tag 2 buf)

def oneofLenArm (tag : UInt32) : (ty : PayloadTy) → ty.Val → Nat
  | .int ty, val => oneofTagLen tag + twVarintLen (ty.asU64 val)
  | .bool, _ => oneofTagLen tag + 1
  | .f32, _ => oneofTagLen tag + 4
  | .f64, _ => oneofTagLen tag + 8
  | .string, val | .bytesStr, val =>
    oneofTagLen tag + twVarintLen (.ofNat (Utf8.encode val).length) + (Utf8.encode val).length
  | .message C, val =>
    let nestedLen := C.encodedLen val
    oneofTagLen tag + twVarintLen (.ofNat nestedLen) + nestedLen

/-- What a decode arm reads behind the tag, whatever the wire type. -/
def oneofRead (bytes : List UInt8) (offset : Nat) :
    (ty : PayloadTy) → Run TypewayDecodeError (ty.Val × Nat)
  | .int ty => do
    let (val, offset) ← readVarint bytes offset
    pure (ty.ofU64 val, offset)
  | .bool => do
    let (val, offset) ← readVarint bytes offset
    pure (val != 0, offset)
  | .f32 => do
    let (word, offset) ← readFixed 4 bytes offset
    pure (Ieee.fromLeBytes 4 word, offset)
  | .f64 => do
    let (word, offset) ← readFixed 8 bytes offset
    pure (Ieee.fromLeBytes 8 word, offset)
  | .string | .bytesStr => readString "oneof" bytes offset
  | .message C => readMessage C.typewayDecode bytes offset

namespace OneofEnum

variable (E : OneofEnum)

abbrev variantOf (i : Fin E.variants.length) : OneofVariant :=
  E.variants.get i

def firstVariant : Fin E.variants.length :=
  ⟨0, E.nonempty⟩

def findVariant (fieldNumber : UInt32) : Option (Fin E.variants.length) :=
  (List.finRange E.variants.length).find? fun i => (E.variantOf i).tag == fieldNumber

def decodeArms (fieldNumber : UInt32) : Option (Arm (OneofValue E.variants)) :=
  (E.findVariant fieldNumber).map fun i _ bytes offset _ =>
    store (oneofRead bytes offset (E.variantOf i).ty) fun val => ⟨i, val⟩

def typewayDecode (bytes : List UInt8) : Run TypewayDecodeError (OneofValue E.variants) :=
  decodeFields E.decodeArms ⟨E.firstVariant, (E.variantOf E.firstVariant).ty.default⟩ bytes

def codec : TypewayCodec where
  Val := OneofValue E.variants
  default := E.default
  encodedLen v := oneofLenArm (E.variantOf v.variant).tag (E.variantOf v.variant).ty v.payload
  encodeToVec v :=
    oneofEncodeArm (E.variantOf v.variant).tag (E.variantOf v.variant).ty v.payload []
  typewayDecode := E.typewayDecode

end OneofEnum

def EnumTy.codec : EnumTy → TypewayCodec
  | .simple E => E.codec
  | .oneof E => E.codec

/-! ## The variant of a tag -/

section

variable {n : Nat} (tags : Fin n → UInt32)

/-- No earlier variant has the tag of this one. -/
def Unshadowed (i : Fin n) : Prop :=
  ∀ j < i, tags j ≠ tags i

instance (i : Fin n) : Decidable (Unshadowed tags i) :=
  inferInstanceAs (Decidable (∀ j < i, tags j ≠ tags i))

theorem unshadowed_first (pos : 0 < n) : Unshadowed tags ⟨0, pos⟩ :=
  fun _ less => absurd less (Nat.not_lt_zero _)

theorem find_tag_iff {number : UInt32} {i : Fin n} :
    (List.finRange n).find? (fun j => tags j == number) = some i ↔
      tags i = number ∧ Unshadowed tags i := by
  rw [List.find?_eq_some_iff_getElem]
  constructor
  · rintro ⟨here, k, bound, rfl, before⟩
    have same : tags ((List.finRange n)[k]) = number := by simpa using here
    refine ⟨same, fun j less => ?_⟩
    have less : j.val < k := by simpa [Fin.lt_def] using less
    have other := before j.val less
    rw [same]
    simpa using other
  · rintro ⟨rfl, first⟩
    refine ⟨by simp, i.val, by simp, by simp, fun j less => ?_⟩
    have other := first ⟨j, by omega⟩ less
    simpa using other

end

/-! ## The laws of an enum without fields -/

namespace SimpleEnum

variable (E : SimpleEnum)

theorem encodeToVec_eq (v : E.codec.Val) :
    E.codec.encodeToVec v = Base128.encode (E.tag v).toUInt64.toNat :=
  (twEncodeVarint_eq _ _).trans (List.nil_append _)

theorem counted (v : E.codec.Val) : E.codec.Counted v := by
  rw [TypewayCodec.Counted, encodeToVec_eq]
  exact twVarintLen_eq _

theorem typewayDecode_encoded (v : E.codec.Val) :
    E.codec.typewayDecode (E.codec.encodeToVec v) =
      .ok ((E.findVariant (E.tag v)).getD E.firstVariant) := by
  have spells := spells_encode (E.tag v).toUInt64
  have read := spells.decode []
  have some := List.length_pos_iff.1 spells.length_pos
  rw [List.append_nil] at read
  show E.typewayDecode _ = _
  rw [encodeToVec_eq, typewayDecode, if_neg (by simpa using some), read, lift_ok, ok_bind]
  dsimp only
  rw [UInt32.toUInt32_toUInt64]
  rfl

/-- A value comes back if no earlier variant has its tag. -/
theorem comesBack_iff (v : E.codec.Val) : E.codec.ComesBack v ↔ Unshadowed E.tag v := by
  rw [TypewayCodec.ComesBack, typewayDecode_encoded]
  constructor
  · intro same
    cases found : E.findVariant (E.tag v) with
    | none =>
      rw [found] at same
      cases same
      exact unshadowed_first E.tag E.nonempty
    | some w =>
      rw [found] at same
      cases same
      exact ((find_tag_iff E.tag).1 found).2
  · intro first
    rw [findVariant, (find_tag_iff E.tag).2 ⟨rfl, first⟩]
    rfl

end SimpleEnum

/-! ## The bytes of a payload -/

/-- What follows the tag. -/
def payloadBytes : (ty : PayloadTy) → ty.Val → List UInt8
  | .int ty, val => Base128.encode (ty.asU64 val).toNat
  | .bool, val => [if val then 1 else 0]
  | .f32, val => Ieee.toLeBytes (n := 4) val
  | .f64, val => Ieee.toLeBytes (n := 8) val
  | .string, val | .bytesStr, val => delimited (Utf8.encode val)
  | .message C, val => delimited (C.encodeToVec val)

/-- What the decoder makes of the bytes of a payload: a scalar is read as it is, a message by its
own decoder. -/
def payloadRead : (ty : PayloadTy) → ty.Val → Run TypewayDecodeError ty.Val
  | .message C, val => C.typewayDecode (C.encodeToVec val)
  | _, val => .ok val

theorem oneofEncodeArm_eq (tag : UInt32) (ty : PayloadTy) (val : ty.Val) (buf : List UInt8) :
    oneofEncodeArm tag ty val buf = buf ++ (tagBytes tag ty.wireType ++ payloadBytes ty val) := by
  cases ty with
  | int ty =>
    rw [oneofEncodeArm, twEncodeVarint_eq, emitTagPush_eq varint_lt, List.append_assoc]
    rfl
  | bool =>
    rw [oneofEncodeArm, emitTagPush_eq varint_lt, List.append_assoc]
    rfl
  | f32 =>
    rw [oneofEncodeArm, emitTagPush_eq fixed32_lt, List.append_assoc]
    rfl
  | f64 =>
    rw [oneofEncodeArm, emitTagPush_eq fixed64_lt, List.append_assoc]
    rfl
  | string | bytesStr =>
    rw [oneofEncodeArm, pushLen_eq, emitTagPush_eq len_lt, List.append_assoc]
    rfl
  | message C =>
    rw [oneofEncodeArm, pushLen_eq, emitTagPush_eq len_lt, List.append_assoc]
    rfl

theorem oneofRead_at {ty : PayloadTy} {val : ty.Val} {bytes : List UInt8} {offset : Nat}
    (small : bytes.length ≤ isizeMax) (h : At bytes offset (payloadBytes ty val)) :
    oneofRead bytes offset ty =
      payloadRead ty val >>= fun w => .ok (w, offset + (payloadBytes ty val).length) := by
  cases ty with
  | int ty =>
    rw [oneofRead, payloadBytes, readVarint_at small h, ok_bind]
    dsimp only
    rw [IntTy.ofU64_asU64]
    rfl
  | bool =>
    have bit : Base128.encode (if val then 1 else 0 : UInt64).toNat = payloadBytes .bool val := by
      rw [payloadBytes]
      cases val with
      | false => exact Base128.encode_of_lt (by decide)
      | true => exact Base128.encode_of_lt (by decide)
    rw [← bit] at h
    rw [oneofRead, readVarint_at small h, ok_bind, bit]
    dsimp only
    rw [bit_ne_zero]
    rfl
  | f32 =>
    rw [oneofRead, payloadBytes, readWord_at (n := 4) small h, ok_bind]
    dsimp only
    rw [Ieee.fromLeBytes_toLeBytes]
    rfl
  | f64 =>
    rw [oneofRead, payloadBytes, readWord_at (n := 8) small h, ok_bind]
    dsimp only
    rw [Ieee.fromLeBytes_toLeBytes]
    rfl
  | string | bytesStr =>
    rw [oneofRead, payloadBytes, readString_framed small (framed_delimited _) h]
    rfl
  | message C => exact readMessage_framed C.typewayDecode small (framed_delimited _) h

theorem oneofRead_ensures (bytes : List UInt8) (offset : Nat) (ty : PayloadTy) :
    Ensures (oneofRead bytes offset ty) fun r => offset < r.2 ∧ r.2 ≤ bytes.length := by
  cases ty with
  | int ty => exact (readVarint_ensures bytes offset).bind fun _ h => .ok h
  | bool => exact (readVarint_ensures bytes offset).bind fun _ h => .ok h
  | f32 =>
    refine (readFixed_ensures 4 bytes offset).bind fun _ h => .ok ?_
    omega
  | f64 =>
    refine (readFixed_ensures 8 bytes offset).bind fun _ h => .ok ?_
    omega
  | string | bytesStr => exact readString_ensures _ _ _
  | message C => exact readMessage_ensures _

/-! ## The laws of a oneof -/

/-- The payload comes back through its own codec. -/
def PayloadComesBack (ty : PayloadTy) (val : ty.Val) : Prop :=
  payloadRead ty val = .ok val

/-- A message of a payload is counted right by its own `encoded_len`. -/
def PayloadCounted : (ty : PayloadTy) → ty.Val → Prop
  | .message C, val => C.Counted val
  | _, _ => True

/-- For a derived struct these are the laws of the struct. -/
example {ι : Type} (S : Schema ι) (n : ι) (m : S.Msg n) :
    PayloadComesBack (.message (S.codec n)) m ↔ typewayDecode S n (encodeToVec m) = .ok m :=
  Iff.rfl

theorem oneofLenArm_eq (tag : UInt32) {ty : PayloadTy} {val : ty.Val}
    (counted : PayloadCounted ty val) :
    oneofLenArm tag ty val = oneofTagLen tag + (payloadBytes ty val).length := by
  cases ty with
  | int ty =>
    rw [oneofLenArm, twVarintLen_eq]
    rfl
  | bool => rfl
  | f32 =>
    rw [oneofLenArm, payloadBytes, Ieee.toLeBytes_length]
  | f64 =>
    rw [oneofLenArm, payloadBytes, Ieee.toLeBytes_length]
  | string | bytesStr =>
    rw [oneofLenArm, payloadBytes, delimited_length, Nat.add_assoc]
  | message C =>
    have exact : C.encodedLen val = (C.encodeToVec val).length := counted
    rw [oneofLenArm, payloadBytes, delimited_length, exact, Nat.add_assoc]

namespace OneofEnum

variable (E : OneofEnum)

abbrev tagOf (i : Fin E.variants.length) : UInt32 :=
  (E.variantOf i).tag

theorem decodeArms_eq_some {number : UInt32} {arm : Arm (OneofValue E.variants)}
    (found : E.decodeArms number = some arm) :
    ∃ i, Unshadowed E.tagOf i ∧ ∀ wireType bytes offset vars,
      arm wireType bytes offset vars =
        store (oneofRead bytes offset (E.variantOf i).ty) fun val => ⟨i, val⟩ := by
  obtain ⟨i, here, rfl⟩ := Option.map_eq_some_iff.1 found
  exact ⟨i, ((find_tag_iff E.tagOf).1 here).2, fun _ _ _ _ => rfl⟩

theorem decodeArms_advancing : Advancing E.decodeArms := by
  intro number arm found wireType bytes offset vars
  obtain ⟨i, -, same⟩ := E.decodeArms_eq_some found
  rw [same]
  exact store_advances (oneofRead_ensures bytes offset _) _

/-- Whatever the input, the variant that is returned is the first one with its tag. -/
theorem typewayDecode_unshadowed (bytes : List UInt8) :
    Ensures (E.typewayDecode bytes) fun v => Unshadowed E.tagOf v.variant := by
  refine decodeFields_ensures E.decodeArms_advancing (unshadowed_first E.tagOf E.nonempty) ?_ bytes
  intro number arm found wireType bytes offset vars _
  obtain ⟨i, first, same⟩ := E.decodeArms_eq_some found
  rw [same]
  exact Ensures.any.bind fun _ _ => .ok first

theorem encodeToVec_eq (v : OneofValue E.variants) :
    E.codec.encodeToVec v =
      tagBytes (E.tagOf v.variant) (E.variantOf v.variant).ty.wireType ++
        payloadBytes (E.variantOf v.variant).ty v.payload :=
  (oneofEncodeArm_eq _ _ _ _).trans (List.nil_append _)

/-- The decoder gives the first variant of a tag what its own codec makes of the payload. -/
theorem typewayDecode_encoded {v : OneofValue E.variants} (first : Unshadowed E.tagOf v.variant)
    (small : (E.codec.encodeToVec v).length ≤ isizeMax) :
    E.typewayDecode (E.codec.encodeToVec v) =
      payloadRead (E.variantOf v.variant).ty v.payload >>= fun w => .ok ⟨v.variant, w⟩ := by
  apply Lands.decodeFields small
  rw [encodeToVec_eq]
  apply Lands.record E.decodeArms_advancing (PayloadTy.wireType_lt _)
  · rw [decodeArms, findVariant, (find_tag_iff E.tagOf).2 ⟨rfl, first⟩]
    rfl
  · intro bytes offset fits h
    show store (oneofRead bytes offset _) _ = _
    rw [store, oneofRead_at fits h]
    cases payloadRead (E.variantOf v.variant).ty v.payload <;> rfl

/-- A value comes back if no earlier variant has its tag and its payload comes back. -/
theorem comesBack_iff (v : OneofValue E.variants)
    (small : (E.codec.encodeToVec v).length ≤ isizeMax) :
    E.codec.ComesBack v ↔
      Unshadowed E.tagOf v.variant ∧ PayloadComesBack (E.variantOf v.variant).ty v.payload := by
  obtain ⟨i, payload⟩ := v
  constructor
  · intro back
    have first : Unshadowed E.tagOf i := E.typewayDecode_unshadowed _ _ back
    refine ⟨first, ?_⟩
    obtain ⟨w, read, same⟩ := bind_eq_ok.1 ((E.typewayDecode_encoded first small).symm.trans back)
    cases same
    exact read
  · intro ⟨first, read⟩
    refine (E.typewayDecode_encoded first small).trans ?_
    rw [show payloadRead _ payload = .ok payload from read]
    rfl

/-- A value whose payload is counted right is counted right if its tag fits in three bytes. -/
theorem counted_iff (v : OneofValue E.variants)
    (counted : PayloadCounted (E.variantOf v.variant).ty v.payload) :
    E.codec.Counted v ↔ (E.tagOf v.variant).toNat < wideTag := by
  have count : E.codec.encodedLen v =
      tagByteCount (E.tagOf v.variant) + (payloadBytes _ v.payload).length :=
    oneofLenArm_eq _ counted
  show E.codec.encodedLen v = (E.codec.encodeToVec v).length ↔ _
  rw [encodeToVec_eq, count, List.length_append, Nat.add_right_cancel_iff]
  exact count_eq_iff (PayloadTy.wireType_lt _) _

end OneofEnum

/-! ## The laws of an enum -/

namespace EnumTy

/-- No earlier variant has the tag of the value's variant. -/
def Selected : (E : EnumTy) → E.codec.Val → Prop
  | simple E, v => Unshadowed E.tag v
  | oneof E, v => Unshadowed E.tagOf v.variant

/-- The tag of a oneof's variant fits in three bytes. -/
def Narrow : (E : EnumTy) → E.codec.Val → Prop
  | simple _, _ => True
  | oneof E, v => (E.tagOf v.variant).toNat < wideTag

/-- What a message in the payload owes to its own codec. -/
def CarriedBack : (E : EnumTy) → E.codec.Val → Prop
  | simple _, _ => True
  | oneof E, v => PayloadComesBack (E.variantOf v.variant).ty v.payload

def CarriedCounted : (E : EnumTy) → E.codec.Val → Prop
  | simple _, _ => True
  | oneof E, v => PayloadCounted (E.variantOf v.variant).ty v.payload

variable {E : EnumTy} {v : E.codec.Val}

theorem comesBack_iff (small : (E.codec.encodeToVec v).length ≤ isizeMax) :
    E.codec.ComesBack v ↔ E.Selected v ∧ E.CarriedBack v := by
  cases E with
  | simple E =>
    exact (E.comesBack_iff v).trans (and_iff_left trivial).symm
  | oneof E => exact E.comesBack_iff v small

theorem counted_iff (carried : E.CarriedCounted v) : E.codec.Counted v ↔ E.Narrow v := by
  cases E with
  | simple E => exact iff_of_true (E.counted v) trivial
  | oneof E => exact E.counted_iff v carried

end EnumTy

end Typeway.Macros
