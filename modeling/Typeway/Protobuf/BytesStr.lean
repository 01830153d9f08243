import Typeway.Base.Checked
import Typeway.Base.Utf8

/-!
# Strings that share a buffer

A `Bytes` is a range of a buffer that other values share. Cutting it moves the ends of the range
and copies nothing.
-/

namespace Typeway.Protobuf

open Checked

/-- `bytes::Bytes`. -/
structure Bytes where
  buffer : List UInt8
  start : Nat
  stop : Nat
  order : start ≤ stop
  inside : stop ≤ buffer.length

namespace Bytes

/-- The range of a whole buffer. -/
def ofList (buffer : List UInt8) : Bytes where
  buffer := buffer
  start := 0
  stop := buffer.length
  order := Nat.zero_le _
  inside := Nat.le_refl _

/-- `&b[..]`. -/
def asSlice (b : Bytes) : List UInt8 :=
  (b.buffer.drop b.start).take (b.stop - b.start)

theorem asSlice_length (b : Bytes) : b.asSlice.length = b.stop - b.start := by
  have := b.inside
  rw [asSlice, List.length_take, List.length_drop]
  omega

@[simp] theorem asSlice_ofList (buffer : List UInt8) : (ofList buffer).asSlice = buffer := by
  simp [asSlice, ofList]

/-- `b.slice(lo..hi)`. -/
def slice {ε : Type} (b : Bytes) (lo hi : Nat) : Run ε Bytes :=
  if h : lo ≤ hi ∧ hi ≤ b.stop - b.start then
    .ok {
      buffer := b.buffer
      start := b.start + lo
      stop := b.start + hi
      order := Nat.add_le_add_left h.1 _
      inside := by
        have := b.order
        have := b.inside
        omega }
  else .error (.panic .sliceOutOfRange)

/-- Cutting the range is cutting the bytes. -/
theorem slice_asSlice {ε : Type} (b : Bytes) (lo hi : Nat) :
    (b.slice lo hi : Run ε Bytes).map asSlice = Checked.slice b.asSlice lo hi := by
  rw [slice, Checked.slice, asSlice_length]
  split
  · rename_i fits
    rw [Except.map, asSlice, asSlice, List.drop_take, List.take_take, List.drop_drop,
      Nat.add_sub_add_left, Nat.min_eq_left (by omega)]
  · rfl

end Bytes

/-- A string in a shared buffer. -/
structure BytesStr where
  inner : Bytes

/-- The text of the string, whose bytes were checked when it was made. -/
def BytesStr.deref (s : BytesStr) : String :=
  (Utf8.decode s.inner.asSlice).getD ""

end Typeway.Protobuf
