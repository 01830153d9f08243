import Typeway.Base.Utf8
import Typeway.Macros.Schema
import Typeway.Protobuf.Codec

/-!
# The generated decoder

`typeway_decode` walks over the input with an `offset`. Every addition to it and every slice
is one of `usize`, so it can panic. A field's match arm reads the input and sets that field's
variable.
-/

namespace Typeway.Macros

open Checked Protobuf

variable {ι : Type} {Γ : ι → List (CodecField ι)}

/-- `tw_decode_varint(&bytes[offset..])?` and `offset += consumed`. -/
def readVarint (bytes : List UInt8) (offset : Nat) : Run TypewayDecodeError (UInt64 × Nat) := do
  let rest ← sliceFrom bytes offset
  let (val, consumed) ← lift (twDecodeVarint rest)
  let offset ← add offset consumed
  pure (val, offset)

/-- The length, the test `offset + len > bytes.len()` and the slice of a delimited value. -/
def readLen (bytes : List UInt8) (offset : Nat) : Run TypewayDecodeError (List UInt8 × Nat) := do
  let (len, offset) ← readVarint bytes offset
  let stop ← add offset len.toNat
  if stop > bytes.length then fail .unexpectedEof
  else
    let payload ← slice bytes offset stop
    pure (payload, stop)

/-- The test `offset + width > bytes.len()` and the bytes of a fixed-size value. -/
def readFixed (width : Nat) (bytes : List UInt8) (offset : Nat) :
    Run TypewayDecodeError (List UInt8 × Nat) := do
  let stop ← add offset width
  if stop > bytes.length then fail .unexpectedEof
  else
    let word ← slice bytes offset stop
    pure (word, stop)

def readString (ident : String) (bytes : List UInt8) (offset : Nat) :
    Run TypewayDecodeError (String × Nat) := do
  let (payload, offset) ← readLen bytes offset
  match Utf8.decode payload with
  | some s => pure (s, offset)
  | none => fail (.invalidUtf8 ident)

/-- `tw_skip_wire_value(&bytes[offset..], wire_type)?` and `offset += skipped`. -/
def skipValue (wireType : UInt8) (bytes : List UInt8) (offset : Nat) :
    Run TypewayDecodeError (Unit × Nat) := do
  let rest ← sliceFrom bytes offset
  let skipped ← twSkipWireValue rest wireType
  let offset ← add offset skipped
  pure ((), offset)

/-- `BytesStr::typeway_decode`, written by hand. -/
def bytesStrDecode (bytes : List UInt8) : Run TypewayDecodeError String :=
  match Utf8.decode bytes with
  | some s => .ok s
  | none => fail (.invalidUtf8 "BytesStr")

/-- A nested `typeway_decode` on the slice of a delimited value. -/
def readMessage {α : Type} (decode : List UInt8 → Run TypewayDecodeError α) (bytes : List UInt8)
    (offset : Nat) : Run TypewayDecodeError (α × Nat) := do
  let (payload, offset) ← readLen bytes offset
  let m ← decode payload
  pure (m, offset)

/-- The end of an arm: the offset behind what was read, and the new value of the variable. -/
def store {α β : Type} (read : Run TypewayDecodeError (α × Nat)) (f : α → β) :
    Run TypewayDecodeError (Nat × β) := do
  let (a, offset) ← read
  pure (offset, f a)

/-- The header of a packed field: where its elements start and its declared end. -/
def readPackedLen (bytes : List UInt8) (offset : Nat) : Run TypewayDecodeError (Nat × Nat) := do
  let (packedLen, offset) ← readVarint bytes offset
  let packedEnd ← add offset packedLen.toNat
  if packedEnd > bytes.length then fail .unexpectedEof else pure (offset, packedEnd)

/-- The position in the input and the elements pushed so far. -/
abbrev PackedState (Γ : ι → List (CodecField ι)) (k : CodecKind ι) :=
  Nat × FieldValue Γ (.repeated k)

def packedLoop {k : CodecKind ι} (step : PackedState Γ k → Run TypewayDecodeError (PackedState Γ k))
    (packedEnd : Nat) : PackedState Γ k → Run TypewayDecodeError (PackedState Γ k) :=
  runLoop (fun s => decide (s.1 < packedEnd)) step (fun s => packedEnd - s.1)

/-- One turn of the packed varint loop, with its one-byte fast path. -/
def packedVarintStep {k : CodecKind ι} (ofVal : UInt64 → FieldValue Γ k) (bytes : List UInt8) :
    PackedState Γ k → Run TypewayDecodeError (PackedState Γ k)
  | (offset, items) => do
    let b ← index bytes offset
    if b < 0x80 then
      let offset ← add offset 1
      pure (offset, items.push (ofVal b.toUInt64))
    else
      store (readVarint bytes offset) fun val => items.push (ofVal val)

def packedFixedStep {k : CodecKind ι} (width : Nat) (ofWord : List UInt8 → FieldValue Γ k)
    (bytes : List UInt8) : PackedState Γ k → Run TypewayDecodeError (PackedState Γ k)
  | (offset, items) => store (readFixed width bytes offset) fun word => items.push (ofWord word)

/-- The arm of a packed field. Under another wire type than 2 it takes one varint, cast by
`ofVal`. -/
def decodePacked {k : CodecKind ι}
    (step : List UInt8 → PackedState Γ k → Run TypewayDecodeError (PackedState Γ k))
    (ofVal : UInt64 → FieldValue Γ k) (wireType : UInt8) (bytes : List UInt8) (offset : Nat)
    (items : FieldValue Γ (.repeated k)) : Run TypewayDecodeError (PackedState Γ k) :=
  if wireType = 2 then do
    let (offset, packedEnd) ← readPackedLen bytes offset
    packedLoop (step bytes) packedEnd (offset, items)
  else
    store (readVarint bytes offset) fun val => items.push (ofVal val)

/-- `val as f32` and `val as f64`, to the nearest number. -/
def f32OfU64 (val : UInt64) : BitVec (8 * 4) := .ofNat _ (Ieee.ofNat 23 127 val.toNat)

def f64OfU64 (val : UInt64) : BitVec (8 * 8) := .ofNat _ (Ieee.ofNat 52 1023 val.toNat)

def genDecodeOptionalInner (ident : String) (wireType : UInt8) (bytes : List UInt8) (offset : Nat) :
    (k : CodecKind ι) → FieldValue Γ (.optional k) →
      Run TypewayDecodeError (Nat × FieldValue Γ (.optional k))
  | .varint ty, _ =>
    store (readVarint bytes offset) fun val => .some (.varint (ty.ofU64 val))
  | .bool, _ =>
    store (readVarint bytes offset) fun val => .some (.bool (val != 0))
  | .fixed32, _ =>
    store (readFixed 4 bytes offset) fun word => .some (.fixed32 (Ieee.fromLeBytes 4 word))
  | .fixed64, _ =>
    store (readFixed 8 bytes offset) fun word => .some (.fixed64 (Ieee.fromLeBytes 8 word))
  | .lenString, _ =>
    store (readString ident bytes offset) fun s => .some (.lenString s)
  | .lenBytesStr, _ =>
    store (readString ident bytes offset) fun s => .some (.lenBytesStr s)
  -- the arm of `OptionalMessage`
  | .messageStr, _ =>
    store (readMessage bytesStrDecode bytes offset) fun s => .some (.messageStr s)
  -- every other kind is passed over
  | _, value => store (skipValue wireType bytes offset) fun _ => value

def genDecodeRepeatedItem (ident : String) (wireType : UInt8) (bytes : List UInt8) (offset : Nat) :
    (k : CodecKind ι) → FieldValue Γ (.repeated k) → Run TypewayDecodeError (PackedState Γ k)
  | .varint ty, items =>
    store (readVarint bytes offset) fun val => items.push (.varint (ty.ofU64 val))
  | .fixed32, items =>
    store (readFixed 4 bytes offset) fun word => items.push (.fixed32 (Ieee.fromLeBytes 4 word))
  | .fixed64, items =>
    store (readFixed 8 bytes offset) fun word => items.push (.fixed64 (Ieee.fromLeBytes 8 word))
  | .lenString, items =>
    store (readString ident bytes offset) fun s => items.push (.lenString s)
  | .lenBytesStr, items =>
    store (readString ident bytes offset) fun s => items.push (.lenBytesStr s)
  -- the arm of `RepeatedMessage`
  | .messageStr, items =>
    store (readMessage bytesStrDecode bytes offset) fun s => items.push (.messageStr s)
  | _, items => store (skipValue wireType bytes offset) fun _ => items

/-- The arm of a `Vec` field that is no `Vec` of messages. -/
def genDecodeRepeated (ident : String) (wireType : UInt8) (bytes : List UInt8) (offset : Nat) :
    (k : CodecKind ι) → FieldValue Γ (.repeated k) → Run TypewayDecodeError (PackedState Γ k)
  | .varint ty, items =>
    decodePacked (packedVarintStep fun val => .varint (ty.ofU64 val))
      (fun val => .varint (ty.ofU64 val)) wireType bytes offset items
  | .bool, items =>
    decodePacked (packedVarintStep fun val => .bool (val != 0)) (fun val => .bool (val != 0))
      wireType bytes offset items
  | .fixed32, items =>
    decodePacked (packedFixedStep 4 fun word => .fixed32 (Ieee.fromLeBytes 4 word))
      (fun val => .fixed32 (f32OfU64 val)) wireType bytes offset items
  | .fixed64, items =>
    decodePacked (packedFixedStep 8 fun word => .fixed64 (Ieee.fromLeBytes 8 word))
      (fun val => .fixed64 (f64OfU64 val)) wireType bytes offset items
  | k, items => genDecodeRepeatedItem ident wireType bytes offset k items

/-- The match arm of a field: the new offset and the new value of the field's variable. -/
def genDecodeArm (decode : (n : ι) → List UInt8 → Run TypewayDecodeError (Message Γ n))
    (ident : String) (wireType : UInt8) (bytes : List UInt8) (offset : Nat) :
    (k : CodecKind ι) → FieldValue Γ k → Run TypewayDecodeError (Nat × FieldValue Γ k)
  | .varint ty, _ =>
    store (readVarint bytes offset) fun val => .varint (ty.ofU64 val)
  | .bool, _ =>
    store (readVarint bytes offset) fun val => .bool (val != 0)
  | .fixed32, _ =>
    store (readFixed 4 bytes offset) fun word => .fixed32 (Ieee.fromLeBytes 4 word)
  | .fixed64, _ =>
    store (readFixed 8 bytes offset) fun word => .fixed64 (Ieee.fromLeBytes 8 word)
  | .lenString, _ =>
    store (readString ident bytes offset) fun s => .lenString s
  | .lenBytesStr, _ =>
    store (readString ident bytes offset) fun s => .lenBytesStr s
  | .messageStr, _ =>
    store (readMessage bytesStrDecode bytes offset) fun s => .messageStr s
  | .lenBytes, _ =>
    store (readLen bytes offset) fun payload => .lenBytes payload
  | .message n, _ =>
    store (readMessage (decode n) bytes offset) fun m => .message m
  | .optional k, value => genDecodeOptionalInner ident wireType bytes offset k value
  | .optionalMessage n, _ =>
    store (readMessage (decode n) bytes offset) fun m => .someMessage m
  | .repeated k, items => genDecodeRepeated ident wireType bytes offset k items
  | .repeatedMessage n, items =>
    store (readMessage (decode n) bytes offset) fun m => items.pushMessage m

section

variable (S : Schema ι)

/-- The variables of `typeway_decode`. -/
structure DecodeState (n : ι) where
  offset : Nat
  fields : S.Fields n

def DecodeState.start (n : ι) : DecodeState S n :=
  ⟨0, S.fieldDefaults n⟩

/-- The arm of the `match` a field number selects. -/
def findField (n : ι) (fieldNumber : UInt32) : Option (S.Pos n) :=
  (List.finRange (S.fields n).length).find? fun i => (S.field i).tag == fieldNumber

theorem findField_some {n : ι} {number : UInt32} {i : S.Pos n}
    (h : findField S n number = some i) : (S.field i).tag = number := by
  rw [findField] at h
  simpa using List.find?_some h

/-- The body of the `while offset < bytes.len()` loop. -/
def decodeStep (decode : (n : ι) → List UInt8 → Run TypewayDecodeError (S.Msg n)) (n : ι)
    (bytes : List UInt8) (s : DecodeState S n) : Run TypewayDecodeError (DecodeState S n) := do
  let (tagWire, offset) ← readVarint bytes s.offset
  let fieldNumber := (tagWire >>> 3).toUInt32
  let wireType := (tagWire &&& 7).toUInt8
  match findField S n fieldNumber with
  | some i =>
    let (offset, value) ← genDecodeArm decode (S.field i).ident wireType bytes offset
      (S.field i).kind (s.fields i)
    pure ⟨offset, Function.update s.fields i value⟩
  | none =>
    let (_, offset) ← skipValue wireType bytes offset
    pure ⟨offset, s.fields⟩

def decodeLoop (decode : (n : ι) → List UInt8 → Run TypewayDecodeError (S.Msg n)) (n : ι)
    (bytes : List UInt8) : DecodeState S n → Run TypewayDecodeError (DecodeState S n) :=
  runLoop (fun s => decide (s.offset < bytes.length)) (decodeStep S decode n bytes)
    (fun s => bytes.length - s.offset)

/-- `typeway_decode` with nested calls to a depth. -/
def decodeDepth : Nat → (n : ι) → List UInt8 → Run TypewayDecodeError (S.Msg n)
  | 0, _, _ => .error .unfinished
  | depth + 1, n, bytes => do
    let s ← decodeLoop S (decodeDepth depth) n (S.visible n bytes) (.start S n)
    pure (.mk s.fields)

/-- A nested call gets a shorter slice, so the length of the input bounds the depth. -/
def typewayDecode (n : ι) (bytes : List UInt8) : Run TypewayDecodeError (S.Msg n) :=
  decodeDepth S (bytes.length + 1) n bytes

end

/-! ## Where the offset goes -/

theorem readVarint_ensures (bytes : List UInt8) (offset : Nat) :
    Ensures (readVarint bytes offset) fun r => offset < r.2 ∧ r.2 ≤ bytes.length := by
  refine .bind (.sliceFrom bytes offset) ?_
  rintro rest ⟨-, rfl⟩
  refine .bind (.lift fun r h => twDecodeVarint_bounds h) ?_
  rintro ⟨val, consumed⟩ ⟨pos, -, most⟩
  rw [List.length_drop] at most
  refine .bind (.add _ _) ?_
  rintro _ rfl
  exact .ok ⟨by omega, by omega⟩

theorem readLen_ensures (bytes : List UInt8) (offset : Nat) :
    Ensures (readLen bytes offset) fun r =>
      offset < r.2 ∧ r.2 ≤ bytes.length ∧ r.1.length < bytes.length := by
  refine .bind (readVarint_ensures bytes offset) ?_
  rintro ⟨len, start⟩ ⟨low, -⟩
  refine .bind (.add _ _) ?_
  rintro stop rfl
  split
  · exact .fail _
  · refine .bind (.slice _ _ _) ?_
    rintro payload ⟨-, -, rfl⟩
    refine .ok ⟨by omega, by omega, ?_⟩
    rw [List.length_take]
    omega

theorem readFixed_ensures (width : Nat) (bytes : List UInt8) (offset : Nat) :
    Ensures (readFixed width bytes offset) fun r =>
      r.2 = offset + width ∧ r.2 ≤ bytes.length := by
  refine .bind (.add _ _) ?_
  rintro stop rfl
  split
  · exact .fail _
  · refine .bind .any fun word _ => .ok ⟨rfl, by omega⟩

theorem readString_ensures (ident : String) (bytes : List UInt8) (offset : Nat) :
    Ensures (readString ident bytes offset) fun r => offset < r.2 ∧ r.2 ≤ bytes.length := by
  refine .bind (readLen_ensures bytes offset) ?_
  rintro ⟨payload, stop⟩ ⟨low, high, -⟩
  dsimp only
  split
  · exact .ok ⟨low, high⟩
  · exact .fail _

theorem twSkipWireValue_ensures (rest : List UInt8) (wireType : UInt8) :
    Ensures (twSkipWireValue rest wireType) fun skipped => 0 < skipped ∧ skipped ≤ rest.length := by
  unfold twSkipWireValue
  split
  · refine .bind (.lift fun r h => twDecodeVarint_bounds h) ?_
    rintro ⟨val, consumed⟩ ⟨pos, -, most⟩
    exact .ok ⟨pos, most⟩
  · split
    · exact .fail _
    · exact .ok ⟨by omega, by omega⟩
  · refine .bind (.lift fun r h => twDecodeVarint_bounds h) ?_
    rintro ⟨len, hdr⟩ ⟨pos, -, -⟩
    refine .bind (.add _ _) ?_
    rintro total rfl
    split
    · exact .fail _
    · exact .ok ⟨by omega, by omega⟩
  · split
    · exact .fail _
    · exact .ok ⟨by omega, by omega⟩
  · exact .fail _

theorem skipValue_ensures (wireType : UInt8) (bytes : List UInt8) (offset : Nat) :
    Ensures (skipValue wireType bytes offset) fun r => offset < r.2 ∧ r.2 ≤ bytes.length := by
  refine .bind (.sliceFrom bytes offset) ?_
  rintro rest ⟨fits, rfl⟩
  refine .bind (twSkipWireValue_ensures _ _) ?_
  rintro skipped ⟨pos, most⟩
  rw [List.length_drop] at most
  refine .bind (.add _ _) ?_
  rintro _ rfl
  exact .ok ⟨by omega, by omega⟩

theorem readPackedLen_ensures (bytes : List UInt8) (offset : Nat) :
    Ensures (readPackedLen bytes offset) fun r =>
      offset < r.1 ∧ r.1 ≤ r.2 ∧ r.2 ≤ bytes.length := by
  refine .bind (readVarint_ensures bytes offset) ?_
  rintro ⟨len, start⟩ ⟨low, -⟩
  refine .bind (.add _ _) ?_
  rintro stop rfl
  split
  · exact .fail _
  · exact .ok ⟨low, by omega, by omega⟩

/-- An arm reads at least one byte, and none past the input. -/
def Advances {α : Type} (bytes : List UInt8) (offset : Nat)
    (arm : Run TypewayDecodeError (Nat × α)) : Prop :=
  Ensures arm fun r => offset < r.1 ∧ r.1 ≤ bytes.length

/-- A packed element moves the offset, and not past the input. -/
def PackedAdvances {k : CodecKind ι} (bytes : List UInt8)
    (step : PackedState Γ k → Run TypewayDecodeError (PackedState Γ k)) : Prop :=
  ∀ s, Advances bytes s.1 (step s)

theorem store_advances {α β : Type} {offset : Nat} {bytes : List UInt8}
    {read : Run TypewayDecodeError (α × Nat)}
    (h : Ensures read fun r => offset < r.2 ∧ r.2 ≤ bytes.length) (f : α → β) :
    Advances bytes offset (store read f) :=
  .bind h fun _ h => .ok h

theorem packedVarintStep_advances {k : CodecKind ι} (ofVal : UInt64 → FieldValue Γ k)
    (bytes : List UInt8) : PackedAdvances bytes (packedVarintStep ofVal bytes) := by
  rintro ⟨offset, items⟩
  refine .bind (.index bytes offset) ?_
  intro b some
  have fits := (List.getElem?_eq_some_iff.1 some).1
  dsimp only
  split
  · refine .bind (.add _ _) ?_
    rintro _ rfl
    exact .ok ⟨by omega, by omega⟩
  · exact store_advances (readVarint_ensures bytes offset) _

theorem readFixed_advances {width : Nat} (pos : 0 < width) (bytes : List UInt8) (offset : Nat) :
    Ensures (readFixed width bytes offset) fun r => offset < r.2 ∧ r.2 ≤ bytes.length :=
  (readFixed_ensures width bytes offset).mono fun _ h => ⟨by omega, h.2⟩

theorem packedFixedStep_advances {k : CodecKind ι} {width : Nat} (pos : 0 < width)
    (ofWord : List UInt8 → FieldValue Γ k) (bytes : List UInt8) :
    PackedAdvances bytes (packedFixedStep width ofWord bytes) := by
  rintro ⟨offset, items⟩
  rw [packedFixedStep]
  exact store_advances (readFixed_advances pos bytes offset) _

theorem packedLoop_lowers {k : CodecKind ι} {bytes : List UInt8}
    {step : PackedState Γ k → Run TypewayDecodeError (PackedState Γ k)}
    (advances : PackedAdvances bytes step) (packedEnd : Nat) :
    Lowers (fun s : PackedState Γ k => decide (s.1 < packedEnd)) step (fun s => packedEnd - s.1) where
  pos s go := by
    have := of_decide_eq_true go
    omega
  less s s' go run := by
    have := of_decide_eq_true go
    have := (advances s s' run).1
    omega

theorem decodePacked_advances {k : CodecKind ι}
    {step : List UInt8 → PackedState Γ k → Run TypewayDecodeError (PackedState Γ k)}
    (bytes : List UInt8) (advances : PackedAdvances bytes (step bytes))
    (ofVal : UInt64 → FieldValue Γ k) (wireType : UInt8) (offset : Nat)
    (items : FieldValue Γ (.repeated k)) :
    Advances bytes offset (decodePacked step ofVal wireType bytes offset items) := by
  rw [decodePacked]
  split
  · refine .bind (readPackedLen_ensures bytes offset) ?_
    rintro ⟨start, packedEnd⟩ ⟨low, order, high⟩
    refine (Ensures.runLoop (packedLoop_lowers advances packedEnd)
      (I := fun s => offset < s.1 ∧ s.1 ≤ bytes.length) ?_ ⟨low, by omega⟩).mono fun _ h => h.1
    rintro s ⟨past, -⟩ -
    exact (advances s).mono fun s' h => ⟨by omega, h.2⟩
  · exact store_advances (readVarint_ensures bytes offset) _

section Arms

variable {bytes : List UInt8} {offset : Nat}

theorem readMessage_ensures {α : Type} (decode : List UInt8 → Run TypewayDecodeError α) :
    Ensures (readMessage decode bytes offset) fun r => offset < r.2 ∧ r.2 ≤ bytes.length :=
  .bind (readLen_ensures bytes offset) fun _ h => .bind .any fun _ _ => .ok ⟨h.1, h.2.1⟩

theorem genDecodeOptionalInner_advances (ident : String) (wireType : UInt8) (k : CodecKind ι)
    (value : FieldValue Γ (.optional k)) :
    Advances bytes offset (genDecodeOptionalInner ident wireType bytes offset k value) := by
  unfold genDecodeOptionalInner
  split
  · exact store_advances (readVarint_ensures _ _) _
  · exact store_advances (readVarint_ensures _ _) _
  · exact store_advances (readFixed_advances (by decide) _ _) _
  · exact store_advances (readFixed_advances (by decide) _ _) _
  · exact store_advances (readString_ensures _ _ _) _
  · exact store_advances (readString_ensures _ _ _) _
  · exact store_advances (readMessage_ensures _) _
  · exact store_advances (skipValue_ensures _ _ _) _

theorem genDecodeRepeatedItem_advances (ident : String) (wireType : UInt8) (k : CodecKind ι)
    (items : FieldValue Γ (.repeated k)) :
    Advances bytes offset (genDecodeRepeatedItem ident wireType bytes offset k items) := by
  unfold genDecodeRepeatedItem
  split
  · exact store_advances (readVarint_ensures _ _) _
  · exact store_advances (readFixed_advances (by decide) _ _) _
  · exact store_advances (readFixed_advances (by decide) _ _) _
  · exact store_advances (readString_ensures _ _ _) _
  · exact store_advances (readString_ensures _ _ _) _
  · exact store_advances (readMessage_ensures _) _
  · exact store_advances (skipValue_ensures _ _ _) _

theorem genDecodeRepeated_advances (ident : String) (wireType : UInt8) (k : CodecKind ι)
    (items : FieldValue Γ (.repeated k)) :
    Advances bytes offset (genDecodeRepeated ident wireType bytes offset k items) := by
  unfold genDecodeRepeated
  split
  · exact decodePacked_advances bytes (packedVarintStep_advances _ _) _ _ _ _
  · exact decodePacked_advances bytes (packedVarintStep_advances _ _) _ _ _ _
  · exact decodePacked_advances bytes (packedFixedStep_advances (by decide) _ _) _ _ _ _
  · exact decodePacked_advances bytes (packedFixedStep_advances (by decide) _ _) _ _ _ _
  · exact genDecodeRepeatedItem_advances ident wireType _ _

theorem genDecodeArm_advances
    (decode : (n : ι) → List UInt8 → Run TypewayDecodeError (Message Γ n)) (ident : String)
    (wireType : UInt8) (k : CodecKind ι) (value : FieldValue Γ k) :
    Advances bytes offset (genDecodeArm decode ident wireType bytes offset k value) := by
  unfold genDecodeArm
  split
  · exact store_advances (readVarint_ensures _ _) _
  · exact store_advances (readVarint_ensures _ _) _
  · exact store_advances (readFixed_advances (by decide) _ _) _
  · exact store_advances (readFixed_advances (by decide) _ _) _
  · exact store_advances (readString_ensures _ _ _) _
  · exact store_advances (readString_ensures _ _ _) _
  · exact store_advances (readMessage_ensures _) _
  · exact store_advances ((readLen_ensures _ _).mono fun _ h => ⟨h.1, h.2.1⟩) _
  · exact store_advances (readMessage_ensures _) _
  · exact genDecodeOptionalInner_advances ident wireType _ _
  · exact store_advances (readMessage_ensures _) _
  · exact genDecodeRepeated_advances ident wireType _ _
  · exact store_advances (readMessage_ensures _) _

/-- An arm calls the nested decoder on slices shorter than the input only. -/
theorem genDecodeArm_congr
    {decode decode' : (n : ι) → List UInt8 → Run TypewayDecodeError (Message Γ n)}
    (same : ∀ n payload, payload.length < bytes.length → decode n payload = decode' n payload)
    (ident : String) (wireType : UInt8) (k : CodecKind ι) (value : FieldValue Γ k) :
    genDecodeArm decode ident wireType bytes offset k value =
      genDecodeArm decode' ident wireType bytes offset k value := by
  have nested : ∀ n, readMessage (decode n) bytes offset = readMessage (decode' n) bytes offset := by
    intro n
    have short := readLen_ensures bytes offset
    rw [readMessage, readMessage]
    cases read : readLen bytes offset with
    | error s => rfl
    | ok r =>
      obtain ⟨payload, stop⟩ := r
      simp only [ok_bind, same n payload (short _ read).2.2]
  cases k with
  | message n => rw [genDecodeArm, genDecodeArm, nested]
  | optionalMessage n => rw [genDecodeArm, genDecodeArm, nested]
  | repeatedMessage n => rw [genDecodeArm, genDecodeArm, nested]
  | _ => rfl

end Arms

section

variable (S : Schema ι) {n : ι} {bytes : List UInt8}

/-- What a turn of the loop does: it reads a tag, moves on from there, and changes no field but
the one with that number. -/
structure Turn (bytes : List UInt8) (s s' : DecodeState S n) (tagWire : UInt64) (start : Nat) :
    Prop where
  tag : readVarint bytes s.offset = .ok (tagWire, start)
  low : s.offset < start
  past : start < s'.offset
  bound : s'.offset ≤ bytes.length
  frame : ∀ i : S.Pos n, (S.field i).tag ≠ (tagWire >>> 3).toUInt32 → s'.fields i = s.fields i

theorem decodeStep_turn {decode : (n : ι) → List UInt8 → Run TypewayDecodeError (S.Msg n)}
    {s s' : DecodeState S n} (run : decodeStep S decode n bytes s = .ok s') :
    ∃ tagWire start, Turn S bytes s s' tagWire start := by
  obtain ⟨⟨tagWire, start⟩, tag, run⟩ := bind_eq_ok.1 run
  have low := (readVarint_ensures bytes s.offset _ tag).1
  refine ⟨tagWire, start, ?_⟩
  dsimp only at run
  split at run
  · rename_i i found
    obtain ⟨⟨stop, value⟩, arm, run⟩ := bind_eq_ok.1 run
    obtain ⟨past, bound⟩ := genDecodeArm_advances decode _ _ _ _ _ arm
    cases run
    refine ⟨tag, low, past, bound, fun j ne => ?_⟩
    have other : j ≠ i := by
      rintro rfl
      exact ne (findField_some S found)
    exact Function.update_of_ne other _ _
  · obtain ⟨⟨⟨⟩, stop⟩, skip, run⟩ := bind_eq_ok.1 run
    obtain ⟨past, bound⟩ := skipValue_ensures _ bytes start _ skip
    cases run
    exact ⟨tag, low, past, bound, fun _ _ => rfl⟩

theorem decodeLoop_lowers (decode : (n : ι) → List UInt8 → Run TypewayDecodeError (S.Msg n)) :
    Lowers (fun s : DecodeState S n => decide (s.offset < bytes.length))
      (decodeStep S decode n bytes) (fun s => bytes.length - s.offset) where
  pos s go := by
    have := of_decide_eq_true go
    omega
  less s s' go run := by
    have := of_decide_eq_true go
    obtain ⟨tagWire, start, turn⟩ := decodeStep_turn S run
    have := turn.low
    have := turn.past
    omega

theorem decodeStep_congr
    {decode decode' : (n : ι) → List UInt8 → Run TypewayDecodeError (S.Msg n)}
    (same : ∀ n payload, payload.length < bytes.length → decode n payload = decode' n payload)
    (s : DecodeState S n) : decodeStep S decode n bytes s = decodeStep S decode' n bytes s := by
  simp only [decodeStep, genDecodeArm_congr same]

/-- A depth above the length of the input is never used up. -/
theorem decodeDepth_eq {depth : Nat} :
    ∀ {n : ι} {bytes : List UInt8}, bytes.length < depth →
      decodeDepth S depth n bytes = typewayDecode S n bytes := by
  suffices ∀ {depth' : Nat} {n : ι} {bytes : List UInt8}, bytes.length < depth →
      bytes.length < depth' → decodeDepth S depth n bytes = decodeDepth S depth' n bytes from
    fun {_ _} h => this h (Nat.lt_succ_self _)
  induction depth with
  | zero => intro _ _ _ h; omega
  | succ depth ih =>
    intro depth' n bytes h h'
    obtain ⟨depth', rfl⟩ : ∃ d, depth' = d + 1 := ⟨depth' - 1, by omega⟩
    have most := S.visible_length_le n bytes
    have same : ∀ k payload, payload.length < (S.visible n bytes).length →
        decodeDepth S depth k payload = decodeDepth S depth' k payload :=
      fun k payload short => ih (by omega) (by omega)
    have loops : decodeLoop S (decodeDepth S depth) n (S.visible n bytes) (.start S n) =
        decodeLoop S (decodeDepth S depth') n (S.visible n bytes) (.start S n) :=
      runLoop_congr (decodeLoop_lowers S _) (decodeLoop_lowers S _)
        (fun s _ => decodeStep_congr S same s) _
    rw [decodeDepth, decodeDepth, loops]

/-- `typeway_decode`, its nested calls being calls of itself. -/
theorem typewayDecode_eq (n : ι) (bytes : List UInt8) :
    typewayDecode S n bytes =
      decodeLoop S (typewayDecode S) n (S.visible n bytes) (.start S n) >>= fun s =>
        pure (.mk s.fields) := by
  have most := S.visible_length_le n bytes
  have loops : decodeLoop S (decodeDepth S bytes.length) n (S.visible n bytes) (.start S n) =
      decodeLoop S (typewayDecode S) n (S.visible n bytes) (.start S n) :=
    runLoop_congr (decodeLoop_lowers S _) (decodeLoop_lowers S _)
      (fun s _ => decodeStep_congr S (fun k payload short =>
        decodeDepth_eq S (Nat.lt_of_lt_of_le short most)) s) _
  rw [typewayDecode, decodeDepth, loops]

/-- A struct whose parameter is hidden is decoded to its defaults, whatever the input. -/
theorem typewayDecode_shadowed (hidden : S.shadowed n = true) (bytes : List UInt8) :
    typewayDecode S n bytes = .ok (.mk (S.fieldDefaults n)) := by
  rw [typewayDecode_eq, S.visible_of_shadowed hidden]
  rfl

end

end Typeway.Macros
