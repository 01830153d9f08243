import Typeway.Macros.Decode
import Typeway.Protobuf.BytesStr

/-!
# The decoder that shares its input

`typeway_decode_bytes` is generated a second time from the fields. A plain `BytesStr` becomes a
range of the input there; every other arm is that of `typeway_decode`, and nested messages are
decoded by `typeway_decode`.
-/

namespace Typeway.Macros

open Checked Protobuf

variable {ι : Type} {Γ : ι → List (CodecField ι)}

/-- The arm of a field in `typeway_decode_bytes`, where `bytes` is the slice of the `input`. -/
def genDecodeBytesArm (decode : (n : ι) → List UInt8 → Run TypewayDecodeError (Message Γ n))
    (ident : String) (wireType : UInt8) (input : Bytes) (bytes : List UInt8) (offset : Nat) :
    (k : CodecKind ι) → FieldValue Γ k → Run TypewayDecodeError (Nat × FieldValue Γ k)
  | .lenBytesStr, _ => do
    let (strLen, offset) ← readVarint bytes offset
    let stop ← add offset strLen.toNat
    if stop > bytes.length then fail .unexpectedEof
    else
      let checked ← slice bytes offset stop
      match Utf8.decode checked with
      | none => fail (.invalidUtf8 ident)
      | some _ =>
        let inner ← input.slice offset stop
        pure (stop, .lenBytesStr (BytesStr.mk inner).deref)
  | k, value => genDecodeArm decode ident wireType bytes offset k value

/-- The arm of a `BytesStr` stores the text that was checked. -/
theorem genDecodeBytesArm_eq
    (decode : (n : ι) → List UInt8 → Run TypewayDecodeError (Message Γ n)) (ident : String)
    (wireType : UInt8) (input : Bytes) (offset : Nat) (k : CodecKind ι) (value : FieldValue Γ k) :
    genDecodeBytesArm decode ident wireType input input.asSlice offset k value =
      genDecodeArm decode ident wireType input.asSlice offset k value := by
  cases k with
  | lenBytesStr =>
    rw [genDecodeBytesArm, genDecodeArm, readString, readLen, store]
    cases readVarint input.asSlice offset with
    | error st => rfl
    | ok r =>
      obtain ⟨strLen, start⟩ := r
      simp only [ok_bind]
      cases add start strLen.toNat with
      | error st => rfl
      | ok stop =>
        simp only [ok_bind]
        split
        · rfl
        · have cut := input.slice_asSlice (ε := TypewayDecodeError) start stop
          rw [← cut]
          cases input.slice start stop with
          | error st => rfl
          | ok inner =>
            simp only [Except.map, ok_bind, pure, Except.pure]
            cases text : Utf8.decode inner.asSlice with
            | none => rfl
            | some s =>
              have deref : (BytesStr.mk inner).deref = s := by
                rw [BytesStr.deref, text]
                rfl
              rw [ok_bind, deref]
  | _ => rfl

section

variable (S : Schema ι)

/-- The body of the loop of `typeway_decode_bytes`. -/
def decodeBytesStep (n : ι) (input : Bytes) (bytes : List UInt8) (s : DecodeState S n) :
    Run TypewayDecodeError (DecodeState S n) := do
  let (tagWire, offset) ← readVarint bytes s.offset
  let fieldNumber := (tagWire >>> 3).toUInt32
  let wireType := (tagWire &&& 7).toUInt8
  match findField S n fieldNumber with
  | some i =>
    let (offset, value) ← genDecodeBytesArm (typewayDecode S) (S.field i).ident wireType input
      bytes offset (S.field i).kind (s.fields i)
    pure ⟨offset, Function.update s.fields i value⟩
  | none =>
    let (_, offset) ← skipValue wireType bytes offset
    pure ⟨offset, s.fields⟩

def typewayDecodeBytes (n : ι) (input : Bytes) : Run TypewayDecodeError (S.Msg n) := do
  let bytes := S.visible n input.asSlice
  let s ← runLoop (fun s : DecodeState S n => decide (s.offset < bytes.length))
    (decodeBytesStep S n input bytes) (fun s => bytes.length - s.offset) (.start S n)
  pure (.mk s.fields)

theorem decodeBytesStep_eq (n : ι) (input : Bytes) :
    decodeBytesStep S n input input.asSlice = decodeStep S (typewayDecode S) n input.asSlice := by
  funext s
  rw [decodeBytesStep, decodeStep]
  apply bind_congr
  intro r
  dsimp only
  cases findField S n (r.1 >>> 3).toUInt32 with
  | none => rfl
  | some i =>
    dsimp only
    rw [genDecodeBytesArm_eq]

/-- **Zero-copy decoding.** The two decoders have the same outcome on every input. -/
theorem typewayDecodeBytes_eq (n : ι) (input : Bytes) :
    typewayDecodeBytes S n input = typewayDecode S n input.asSlice := by
  cases hidden : S.shadowed n with
  | true =>
    rw [typewayDecode_shadowed S hidden, typewayDecodeBytes, S.visible_of_shadowed hidden]
    rfl
  | false =>
    rw [typewayDecodeBytes, typewayDecode_eq, S.visible_of_not hidden, decodeBytesStep_eq,
      decodeLoop]

end

end Typeway.Macros
