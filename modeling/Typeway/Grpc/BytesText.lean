import Typeway.Base.Base64Number
import Typeway.Grpc.JsonTyped

/-!
# Texts of bytes fields

What `encode_field` makes of the JSON text of a bytes field. A text of base 64 digits, padded or
not, is decoded; any other text is taken as it is.
-/

namespace Typeway.Grpc

open Typeway.Core Json Protobuf

/-- A text without its padding. -/
def unpadded (text : Str) : Str :=
  text.rdropWhile (· = '=')

/-- The text is base 64, but for its padding. -/
def IsBase64 (text : Str) : Prop :=
  (unpadded text).all (fun c => (Base64.digitValue c).isSome) = true

/-- Base 64 as the standard has it: no digit stands alone, and no bit is left over. -/
structure Canonical (text : Str) : Prop where
  digits : IsBase64 text
  whole : (unpadded text).length % 4 ≠ 1
  bits : Base64.leftOver (unpadded text) = 0

/-- The bytes that a text stands for. -/
structure StandsFor (text : Str) (data : List UInt8) : Prop where
  /-- The bits of the digits make the bytes, up to the last whole one. -/
  digits : IsBase64 text → data.length = 6 * (unpadded text).length / 8 ∧
    Base64.byteNumber data =
      Base64.digitNumber (unpadded text) / 2 ^ (6 * (unpadded text).length % 8)
  /-- Other texts are taken as they are. -/
  raw : ¬ IsBase64 text → data = Utf8.encode (String.ofList text)

/-- The field, holding bytes. -/
def ProtoFieldDef.ofBytes (field : ProtoFieldDef) : ProtoFieldDef :=
  { field with protoType := .scalar .bytes }

section

variable (E : Externals) (nested : Option (Value → Except CodecError (List UInt8)))
  (field : ProtoFieldDef)

theorem encodeFieldWith_bytes (text : Str) :
    encodeFieldWith E nested field.ofBytes (.str text) =
      .ok (tagBytes field.tag 2 ++
        delimited ((Base64.decode text).getD (Utf8.encode (String.ofList text)))) := by
  unfold encodeFieldWith
  show Except.ok (_ ++ withLength _) = _
  rw [withLength_eq]
  exact congrArg (fun tag => Except.ok (tag ++ _))
    (encodeTag_eq (show (2 : UInt8).toNat < 8 by decide) field.tag)

theorem delimited_injective {data data' : List UInt8} (same : delimited data = delimited data') :
    data = data' :=
  ((Base128.encode_terminated _).append_inj (Base128.encode_terminated _) same).2

theorem standsFor (text : Str) :
    StandsFor text ((Base64.decode text).getD (Utf8.encode (String.ofList text))) := by
  have decoded := Base64.isSome_decodeLoop (unpadded text) 0 0
  have decode : Base64.decode text = Base64.decodeLoop (unpadded text) 0 0 := rfl
  rw [decode]
  cases here : Base64.decodeLoop (unpadded text) 0 0 with
  | none =>
    have other : ¬ IsBase64 text := by
      intro written
      rw [here, written] at decoded
      cases decoded
    exact ⟨fun h => absurd h other, fun _ => rfl⟩
  | some data =>
    have written : IsBase64 text := by
      rw [here] at decoded
      exact decoded.symm
    obtain ⟨length, number⟩ := Base64.decodeLoop_number (by omega) (by decide) here
    refine ⟨fun _ => ⟨?_, ?_⟩, fun h => absurd written h⟩
    · rw [Nat.zero_add] at length
      exact length
    · rw [Nat.zero_mul, Nat.zero_add, Nat.zero_add] at number
      exact number

theorem isBase64_digits (data : List UInt8) :
    (Base64.digits data).all (fun c => (Base64.digitValue c).isSome) = true := by
  rw [← Base64.isSome_decodeLoop (Base64.digits data) 0 0, Base64.decodeLoop_digits]
  rfl

/-- The bytes of a text have it for their base 64 form when it is canonical. -/
theorem digits_decode_iff (text : Str) :
    Base64.digits ((Base64.decode text).getD (Utf8.encode (String.ofList text))) = unpadded text ↔
      Canonical text := by
  have decoded := Base64.isSome_decodeLoop (unpadded text) 0 0
  have decode : Base64.decode text = Base64.decodeLoop (unpadded text) 0 0 := rfl
  rw [decode]
  cases here : Base64.decodeLoop (unpadded text) 0 0 with
  | none =>
    rw [here] at decoded
    constructor
    · intro form
      -- the digits of any bytes are base 64, and this text is not
      have written := isBase64_digits (Utf8.encode (String.ofList text))
      rw [Option.getD_none] at form
      rw [form, ← decoded] at written
      cases written
    · intro canonical
      have written := canonical.digits
      rw [IsBase64, ← decoded] at written
      cases written
  | some data =>
    rw [here] at decoded
    rw [Option.getD_some, Base64.digits_eq_iff here]
    exact ⟨fun ⟨whole, bits⟩ => ⟨decoded.symm, whole, bits⟩,
      fun canonical => ⟨canonical.whole, canonical.bits⟩⟩

/-- An error, or bytes with the text for their base 64 form. -/
def Exact (tag : UInt32) (text : Str) (result : Except CodecError (List UInt8)) : Prop :=
  (∃ error, result = .error error) ∨
    ∃ data, result = .ok (tagBytes tag 2 ++ delimited data) ∧ Base64.digits data = unpadded text

theorem exact_iff (text : Str) :
    Exact field.tag text (encodeFieldWith E nested field.ofBytes (.str text)) ↔
      Canonical text := by
  rw [← digits_decode_iff, encodeFieldWith_bytes]
  constructor
  · rintro (⟨error, failed⟩ | ⟨data, written, form⟩)
    · cases failed
    · rw [Except.ok.injEq] at written
      rwa [delimited_injective (List.append_cancel_left written)]
  · intro form
    exact .inr ⟨_, rfl, form⟩

theorem Canonical.unpadded_eq {text other : Str} (canonical : Canonical text)
    (canonical' : Canonical other)
    (same : encodeFieldWith E nested field.ofBytes (.str text) =
      encodeFieldWith E nested field.ofBytes (.str other)) :
    unpadded text = unpadded other := by
  rw [encodeFieldWith_bytes, encodeFieldWith_bytes, Except.ok.injEq] at same
  rw [← (digits_decode_iff text).2 canonical, ← (digits_decode_iff other).2 canonical',
    delimited_injective (List.append_cancel_left same)]

/-- Bytes come back from their base 64 form, a text stands for the bytes that are written, the
canonical texts are those that are written exactly, and no two of them have the same record. -/
theorem transportedExactly_iff (b : List UInt8) (text other : Str) :
    Base64.decode (Base64.encode b) = some b ∧
      (∃ data, StandsFor text data ∧
        encodeFieldWith E nested field.ofBytes (.str text) =
          .ok (tagBytes field.tag 2 ++ delimited data)) ∧
      (Exact field.tag text (encodeFieldWith E nested field.ofBytes (.str text)) ↔
        Canonical text) ∧
      (Canonical text → Canonical other →
        encodeFieldWith E nested field.ofBytes (.str text) =
          encodeFieldWith E nested field.ofBytes (.str other) →
        unpadded text = unpadded other) :=
  ⟨Base64.decode_encode b, ⟨_, standsFor text, encodeFieldWith_bytes E nested field text⟩,
    exact_iff E nested field text,
    fun canonical canonical' same => canonical.unpadded_eq E nested field canonical' same⟩

end

def avatar : ProtoFieldDef where
  name := "avatar".toList
  protoType := .scalar .bytes
  tag := 1
  repeated := false
  isMap := false
  mapKeyType := none
  mapValueType := none
  nestedFields := none

/-- Five digits hold thirty bits, and the last six are dropped. -/
theorem not_exact :
    encodeFieldWith readsNothing none avatar (.str "hello".toList) =
        .ok (tagBytes 1 2 ++ delimited [133, 233, 101]) ∧
      ¬ Exact 1 "hello".toList
        (encodeFieldWith readsNothing none avatar (.str "hello".toList)) := by
  have written : encodeFieldWith readsNothing none avatar (.str "hello".toList) =
      .ok (tagBytes 1 2 ++ delimited [133, 233, 101]) :=
    encodeFieldWith_bytes readsNothing none avatar "hello".toList
  refine ⟨written, ?_⟩
  intro exact
  have canonical := (exact_iff readsNothing none avatar _).1 exact
  exact canonical.whole (by decide)

end Typeway.Grpc
