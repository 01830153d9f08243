import Typeway.Grpc.Status

/-!
# Messages in headers

The text of a status survives its header, and what nobody has escaped is read as it stands: all of
it, or the escapes that are none.
-/

namespace Typeway.Grpc

open Typeway.Core

theorem bytes_percent (front back : Str) :
    Utf8.bytes (front ++ '%' :: back) =
      Utf8.bytes front ++ Percent.percent :: Utf8.bytes back := by
  rw [Utf8.bytes_append]
  rfl

/-- The escapes make a text together, and then on both sides of a `%` that is none. -/
theorem decodeGrpcMessage_append {front back : Str} (lone : Percent.Lone (Utf8.bytes back)) :
    decodeGrpcMessage (front ++ '%' :: back) =
        decodeGrpcMessage front ++ '%' :: decodeGrpcMessage back ∨
      decodeGrpcMessage (front ++ '%' :: back) = front ++ '%' :: back := by
  have bytes := Percent.unescape_append_percent lone (Utf8.bytes front)
  rw [← bytes_percent] at bytes
  unfold decodeGrpcMessage
  rw [bytes]
  cases whole : Utf8.chars? (Percent.unescape (Utf8.bytes front) ++
      Percent.percent :: Percent.unescape (Utf8.bytes back)) with
  | none => exact .inr rfl
  | some text =>
    have ascii : ('%').toNat < 128 := by decide
    obtain ⟨before, behind, rfl, first, second⟩ := Utf8.cut_ascii ascii (Utf8.bytes_of_chars? whole)
    rw [← first, ← second, Utf8.chars?_bytes, Utf8.chars?_bytes]
    exact .inl rfl

/-- Every text comes back out of visible characters, and a text comes through the decoder as it is
if it has no escape, as does every `%` without two digits behind it. -/
theorem grpcMessage_coding (s t front back : Str) :
    (Visible (encodeGrpcMessage s) ∧ decodeGrpcMessage (encodeGrpcMessage s) = s) ∧
      (¬ Percent.HasEscape (Utf8.bytes t) → decodeGrpcMessage t = t) ∧
      (Percent.Lone (Utf8.bytes back) →
        decodeGrpcMessage (front ++ '%' :: back) =
            decodeGrpcMessage front ++ '%' :: decodeGrpcMessage back ∨
          decodeGrpcMessage (front ++ '%' :: back) = front ++ '%' :: back) := by
  refine ⟨⟨encodeGrpcMessage_visible s, decode_encodeGrpcMessage s⟩, ?_, decodeGrpcMessage_append⟩
  intro clean
  exact decodeGrpcMessage_eq_self_iff.2 (.inl clean)

end Typeway.Grpc
