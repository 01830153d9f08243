import Typeway.Base.Window
import Typeway.Macros.Encode
import Typeway.Macros.Decode

/-!
# Reading a record back

Each reader of the decoder against the bytes the encoder writes, wherever they stand in the
input: if the input goes on with these bytes, the reader returns their value and ends behind
them.
-/

namespace Typeway.Macros

open Checked Protobuf

variable {ι : Type} {Γ : ι → List (CodecField ι)}

section Readers

variable {bytes : List UInt8} {offset : Nat}

theorem readVarint_spelled {l : List UInt8} {v : UInt64} (small : bytes.length ≤ isizeMax)
    (spells : Spells l v) (h : At bytes offset l) :
    readVarint bytes offset = .ok (v, offset + l.length) := by
  obtain ⟨rest, tail⟩ := h.drop
  have := h.bound
  unfold isizeMax at small
  rw [readVarint, sliceFrom_eq_ok (by omega), ok_bind, tail, spells.decode, lift_ok, ok_bind]
  dsimp only
  rw [add_eq_ok (by unfold usizeBound; omega)]
  rfl

theorem readVarint_at {v : UInt64} (small : bytes.length ≤ isizeMax)
    (h : At bytes offset (Base128.encode v.toNat)) :
    readVarint bytes offset = .ok (v, offset + (Base128.encode v.toNat).length) :=
  readVarint_spelled small (spells_encode v) h

/-- Reading the length of a delimited value leaves its payload ahead. -/
theorem readPrefix_at {payload l : List UInt8} (small : bytes.length ≤ isizeMax)
    (framed : Framed payload l) (h : At bytes offset l) :
    ∃ len : UInt64, ∃ start, readVarint bytes offset = .ok (len, start) ∧
      len.toNat = payload.length ∧ At bytes start payload ∧
      start + payload.length = offset + l.length := by
  obtain ⟨header, rfl, spells⟩ := framed
  have exact : (UInt64.ofNat payload.length).toNat = payload.length := by
    have bound := h.bound
    rw [List.length_append] at bound
    unfold isizeMax at small
    rw [UInt64.toNat_ofNat']
    exact Nat.mod_eq_of_lt (by omega)
  exact ⟨_, _, readVarint_spelled small spells h.left, exact, h.right,
    by rw [List.length_append, Nat.add_assoc]⟩

theorem readLen_framed {payload l : List UInt8} (small : bytes.length ≤ isizeMax)
    (framed : Framed payload l) (h : At bytes offset l) :
    readLen bytes offset = .ok (payload, offset + l.length) := by
  obtain ⟨len, start, read, exact, rest, stop⟩ := readPrefix_at small framed h
  have bound := rest.bound
  unfold isizeMax at small
  rw [readLen, read, ok_bind]
  dsimp only
  rw [exact, add_eq_ok (by unfold usizeBound; omega), ok_bind, if_neg (by omega), rest.slice, stop]
  rfl

theorem readLen_at {payload : List UInt8} (small : bytes.length ≤ isizeMax)
    (h : At bytes offset (delimited payload)) :
    readLen bytes offset = .ok (payload, offset + (delimited payload).length) :=
  readLen_framed small (framed_delimited payload) h

theorem readFixed_at {word : List UInt8} (small : bytes.length ≤ isizeMax)
    (h : At bytes offset word) :
    readFixed word.length bytes offset = .ok (word, offset + word.length) := by
  have bound := h.bound
  unfold isizeMax at small
  rw [readFixed, add_eq_ok (by unfold usizeBound; omega), ok_bind, if_neg (by omega), h.slice]
  rfl

theorem readWord_at {n : Nat} {x : BitVec (8 * n)} (small : bytes.length ≤ isizeMax)
    (h : At bytes offset (Ieee.toLeBytes x)) :
    readFixed n bytes offset = .ok (Ieee.toLeBytes x, offset + (Ieee.toLeBytes x).length) := by
  have := readFixed_at small h
  rwa [Ieee.toLeBytes_length] at this ⊢

theorem readString_framed {s : String} {l : List UInt8} (small : bytes.length ≤ isizeMax)
    (framed : Framed (Utf8.encode s) l) (h : At bytes offset l) (ident : String) :
    readString ident bytes offset = .ok (s, offset + l.length) := by
  rw [readString, readLen_framed small framed h, ok_bind]
  dsimp only
  rw [Utf8.decode_encode]
  rfl

/-- A delimited message is decoded from its own bytes. -/
theorem readMessage_framed {α : Type} (decode : List UInt8 → Run TypewayDecodeError α)
    {payload l : List UInt8} (small : bytes.length ≤ isizeMax) (framed : Framed payload l)
    (h : At bytes offset l) :
    readMessage decode bytes offset =
      decode payload >>= fun w => pure (w, offset + l.length) := by
  rw [readMessage, readLen_framed small framed h]
  rfl

/-- `BytesStr::typeway_decode` on the bytes of a text. -/
theorem readMessage_text {s : String} {l : List UInt8} (small : bytes.length ≤ isizeMax)
    (framed : Framed (Utf8.encode s) l) (h : At bytes offset l) :
    readMessage bytesStrDecode bytes offset = .ok (s, offset + l.length) := by
  rw [readMessage_framed _ small framed h, bytesStrDecode, Utf8.decode_encode]
  rfl

/-- A delimited value nobody reads. -/
theorem skipValue_framed {payload l : List UInt8} (small : bytes.length ≤ isizeMax)
    (framed : Framed payload l) (h : At bytes offset l) :
    skipValue 2 bytes offset = .ok ((), offset + l.length) := by
  obtain ⟨len, start, read, exact, ahead, stop⟩ := readPrefix_at small framed h
  have bound := ahead.bound
  unfold isizeMax at small
  -- the varint behind `skipValue`'s slice is the one `readVarint` reads
  have low : offset ≤ bytes.length := by
    have := h.bound
    omega
  rw [readVarint, sliceFrom_eq_ok low, ok_bind] at read
  obtain ⟨⟨len', hdr⟩, word, read⟩ := bind_eq_ok.1 read
  obtain ⟨start', sum, read⟩ := bind_eq_ok.1 read
  cases read
  have sum := (Ensures.add _ _) _ sum
  have skipped : twSkipWireValue (bytes.drop offset) 2 = .ok (hdr + payload.length) := by
    rw [twSkipWireValue, word, ok_bind]
    dsimp only
    rw [exact, add_eq_ok (by unfold usizeBound; omega), ok_bind,
      if_neg (by rw [List.length_drop]; omega)]
    rfl
  rw [skipValue, sliceFrom_eq_ok low, ok_bind, skipped, ok_bind,
    add_eq_ok (by unfold usizeBound; omega), ok_bind, ← stop, sum, Nat.add_assoc]
  rfl

theorem readPackedLen_framed {payload l : List UInt8} (small : bytes.length ≤ isizeMax)
    (framed : Framed payload l) (h : At bytes offset l) :
    ∃ start, readPackedLen bytes offset = .ok (start, start + payload.length) ∧
      At bytes start payload ∧ start + payload.length = offset + l.length := by
  obtain ⟨len, start, read, exact, rest, stop⟩ := readPrefix_at small framed h
  have bound := rest.bound
  unfold isizeMax at small
  refine ⟨start, ?_, rest, stop⟩
  rw [readPackedLen, read, ok_bind]
  dsimp only
  rw [exact, add_eq_ok (by unfold usizeBound; omega), ok_bind, if_neg (by omega)]
  rfl

theorem index_at {b : UInt8} {l : List UInt8} (h : At bytes offset (b :: l)) :
    (index bytes offset : Run TypewayDecodeError UInt8) = .ok b := by
  obtain ⟨rest, tail⟩ := h.drop
  have head : bytes[offset]? = some b := by
    have := congrArg (·[0]?) tail
    simpa using this
  rw [index, head]

/-! ## Packed elements -/

/-- Both paths of the packed varint loop read one varint. -/
theorem packedVarintStep_spelled {k : CodecKind ι} (small : bytes.length ≤ isizeMax)
    {l : List UInt8} {v : UInt64} (spells : Spells l v) (h : At bytes offset l)
    (ofVal : UInt64 → FieldValue Γ k) (items : FieldValue Γ (.repeated k)) :
    packedVarintStep ofVal bytes (offset, items) =
      .ok (offset + l.length, items.push (ofVal v)) := by
  have read := readVarint_spelled small spells h
  have whole := spells.decode []
  have bound := h.bound
  unfold isizeMax at small
  cases spells.terminated with
  | @last b low =>
    rw [List.append_nil, twDecodeVarint_one low] at whole
    cases whole
    rw [List.length_singleton] at bound
    rw [packedVarintStep, index_at h, ok_bind, if_pos (byte_below.2 low),
      add_eq_ok (by unfold usizeBound; omega)]
    rfl
  | @more b rest high tail =>
    have above : ¬ b < 0x80 := by
      rw [byte_below]
      omega
    rw [packedVarintStep, index_at h, ok_bind, if_neg above, read]
    rfl

end Readers

/-- The bytes of a scalar as the wire format has them: a varint of its word in any spelling, the
word of a float, or a text or bytes behind their length. -/
inductive Spelled : {k : CodecKind ι} → FieldValue Γ k → List UInt8 → Prop where
  | varint {ty : IntTy} {x : ty.Val} {l : List UInt8} (spells : Spells l (ty.asU64 x)) :
      Spelled (.varint x) l
  | bool {b : Bool} {l : List UInt8} (spells : Spells l (if b then 1 else 0)) :
      Spelled (.bool b) l
  | fixed32 {x : BitVec (8 * 4)} : Spelled (.fixed32 x) (Ieee.toLeBytes x)
  | fixed64 {x : BitVec (8 * 8)} : Spelled (.fixed64 x) (Ieee.toLeBytes x)
  | lenString {s : String} {l : List UInt8} (framed : Framed (Utf8.encode s) l) :
      Spelled (.lenString s) l
  | lenBytesStr {s : String} {l : List UInt8} (framed : Framed (Utf8.encode s) l) :
      Spelled (.lenBytesStr s) l
  | messageStr {s : String} {l : List UInt8} (framed : Framed (Utf8.encode s) l) :
      Spelled (.messageStr s) l
  | lenBytes {bytes l : List UInt8} (framed : Framed bytes l) : Spelled (.lenBytes bytes) l

/-- Elements pushed one after the other. -/
def pushAll {k : CodecKind ι} (items : FieldValue Γ (.repeated k)) (l : List (FieldValue Γ k)) :
    FieldValue Γ (.repeated k) :=
  l.foldl FieldValue.push items

/-- The packed loop over elements that stand one after the other, each with its bytes. -/
theorem packedLoop_at {k : CodecKind ι} {bytes : List UInt8}
    {step : PackedState Γ k → Run TypewayDecodeError (PackedState Γ k)}
    (advances : PackedAdvances bytes step) {l : List (FieldValue Γ k × List UInt8)}
    (each : ∀ e ∈ l, ∀ offset items, At bytes offset e.2 →
      step (offset, items) = .ok (offset + e.2.length, items.push e.1)) :
    ∀ offset items, At bytes offset (l.flatMap Prod.snd) →
      packedLoop step (offset + (l.flatMap Prod.snd).length) (offset, items) =
        .ok (offset + (l.flatMap Prod.snd).length, pushAll items (l.map Prod.fst)) := by
  induction l with
  | nil =>
    intro offset items _
    exact runLoop_done (by simp)
  | cons e l ih =>
    intro offset items h
    rw [List.flatMap_cons] at h
    have run := each e (.head _) offset items h.left
    have moved := (advances _ _ run).1
    dsimp only at moved
    have rest := ih (fun e mem => each e (.tail _ mem)) _ (items.push e.1) h.right
    rw [List.flatMap_cons, List.length_append, ← Nat.add_assoc, packedLoop,
      runLoop_step (packedLoop_lowers advances _) (by simp; omega) run]
    exact rest

/-- The packed arm reads a packed payload. -/
theorem decodePacked_at {k : CodecKind ι} {bytes frame : List UInt8} {offset : Nat}
    {step : List UInt8 → PackedState Γ k → Run TypewayDecodeError (PackedState Γ k)}
    (small : bytes.length ≤ isizeMax) (advances : PackedAdvances bytes (step bytes))
    {l : List (FieldValue Γ k × List UInt8)}
    (each : ∀ e ∈ l, ∀ offset items, At bytes offset e.2 →
      step bytes (offset, items) = .ok (offset + e.2.length, items.push e.1))
    (framed : Framed (l.flatMap Prod.snd) frame) (h : At bytes offset frame)
    (ofVal : UInt64 → FieldValue Γ k) (items : FieldValue Γ (.repeated k)) :
    decodePacked step ofVal 2 bytes offset items =
      .ok (offset + frame.length, pushAll items (l.map Prod.fst)) := by
  obtain ⟨start, read, ahead, stop⟩ := readPackedLen_framed small framed h
  rw [decodePacked, if_pos rfl, read, ok_bind]
  dsimp only
  rw [packedLoop_at advances each _ _ ahead, stop]

/-! ## Arms -/

section

variable (S : Schema ι)

/-- The arm of a field of kind `k` reads the bytes `l` and turns the value `cur` into `new`. -/
def ArmReads (k : CodecKind ι) (wireType : UInt8) (l : List UInt8) (cur new : S.Value k) : Prop :=
  ∀ ident bytes offset, bytes.length ≤ isizeMax → At bytes offset l →
    genDecodeArm (typewayDecode S) ident wireType bytes offset k cur =
      .ok (offset + l.length, new)

/-! The arms of plain, `Option` and `Vec` fields read a scalar alike. -/

/-- A boolean is the varint of its bit. -/
theorem content_bool (b : Bool) :
    content (.bool b : FieldValue Γ .bool) =
      Base128.encode (if b then 1 else 0 : UInt64).toNat := by
  cases b with
  | false => exact (Base128.encode_of_lt (by decide)).symm
  | true => exact (Base128.encode_of_lt (by decide)).symm

theorem bit_ne_zero (b : Bool) : ((if b then 1 else 0 : UInt64) != 0) = b := by
  cases b <;> rfl

/-- The value is no text of a `BytesStr` that is taken for a message. The encoder writes the length
of such a text twice. -/
def textless {k : CodecKind ι} : FieldValue Γ k → Bool
  | .messageStr s => s.isEmpty
  | _ => true

/-- The writer's bytes of a scalar. -/
theorem spelled_content {k : CodecKind ι} (scalar : k.writesOptional = true) {v : FieldValue Γ k}
    (empty : textless v = true) : Spelled v (content v) := by
  cases v with
  | varint x => exact .varint (spells_encode _)
  | bool b => exact .bool (content_bool b ▸ spells_encode _)
  | fixed32 x => exact .fixed32
  | fixed64 x => exact .fixed64
  | lenString s => exact .lenString (framed_delimited _)
  | lenBytesStr s => exact .lenBytesStr (framed_delimited _)
  | messageStr s =>
    rw [textless, String.isEmpty_iff] at empty
    subst empty
    rw [content, bytesStrEncodeTo_eq_nil.2 rfl]
    exact .messageStr (framed_delimited _)
  | lenBytes payload => exact .lenBytes (framed_delimited _)
  | _ => cases scalar

theorem armReads_scalar {k : CodecKind ι} (wireType : UInt8) {v : S.Value k} {l : List UInt8}
    (spelled : Spelled v l) (cur : S.Value k) : ArmReads S k wireType l cur v := by
  intro ident bytes offset small h
  cases spelled with
  | varint spells =>
    rw [genDecodeArm, readVarint_spelled small spells h, store, ok_bind]
    simp only [IntTy.ofU64_asU64]
    rfl
  | bool spells =>
    rw [genDecodeArm, readVarint_spelled small spells h, store, ok_bind]
    simp only [bit_ne_zero]
    rfl
  | fixed32 =>
    rw [genDecodeArm, readWord_at small h, store, ok_bind]
    simp only [Ieee.fromLeBytes_toLeBytes]
    rfl
  | fixed64 =>
    rw [genDecodeArm, readWord_at small h, store, ok_bind]
    simp only [Ieee.fromLeBytes_toLeBytes]
    rfl
  | lenString framed =>
    rw [genDecodeArm, readString_framed small framed h]
    rfl
  | lenBytesStr framed =>
    rw [genDecodeArm, readString_framed small framed h]
    rfl
  | messageStr framed =>
    rw [genDecodeArm, readMessage_text small framed h]
    rfl
  | lenBytes framed =>
    rw [genDecodeArm, readLen_framed small framed h]
    rfl

/-- The kinds an `Option` arm stores. It passes over the value of any other. -/
def CodecKind.readsOptional : CodecKind ι → Bool
  | .varint _ | .bool | .fixed32 | .fixed64 | .lenString | .lenBytesStr | .messageStr => true
  | _ => false

theorem armReads_optional {k : CodecKind ι} {v : S.Value k} {l : List UInt8}
    (spelled : Spelled v l) (cur : S.Value (.optional k)) :
    ArmReads S (.optional k) (wireTypeForKind k) l cur
      (if k.readsOptional then .some v else cur) := by
  intro ident bytes offset small h
  rw [genDecodeArm]
  cases spelled with
  | varint spells =>
    rw [genDecodeOptionalInner, readVarint_spelled small spells h, store, ok_bind]
    simp only [IntTy.ofU64_asU64]
    rfl
  | bool spells =>
    rw [genDecodeOptionalInner, readVarint_spelled small spells h, store, ok_bind]
    simp only [bit_ne_zero]
    rfl
  | fixed32 =>
    rw [genDecodeOptionalInner, readWord_at small h, store, ok_bind]
    simp only [Ieee.fromLeBytes_toLeBytes]
    rfl
  | fixed64 =>
    rw [genDecodeOptionalInner, readWord_at small h, store, ok_bind]
    simp only [Ieee.fromLeBytes_toLeBytes]
    rfl
  | lenString framed =>
    rw [genDecodeOptionalInner, readString_framed small framed h]
    rfl
  | lenBytesStr framed =>
    rw [genDecodeOptionalInner, readString_framed small framed h]
    rfl
  | messageStr framed =>
    rw [genDecodeOptionalInner, readMessage_text small framed h]
    rfl
  | lenBytes framed =>
    -- no arm reads the bytes of an `Option<Vec<u8>>`
    simp only [genDecodeOptionalInner, wireTypeForKind, skipValue_framed small framed h]
    rfl

theorem armReads_elements {k : CodecKind ι} (packable : isPackable k = true)
    {l : List (S.Value k × List UInt8)} (each : ∀ e ∈ l, Spelled e.1 e.2) {frame : List UInt8}
    (framed : Framed (l.flatMap Prod.snd) frame) (cur : S.Value (.repeated k)) :
    ArmReads S (.repeated k) 2 frame cur (pushAll cur (l.map Prod.fst)) := by
  intro ident bytes offset small h
  rw [genDecodeArm]
  cases k with
  | varint ty =>
    rw [genDecodeRepeated]
    refine decodePacked_at small (packedVarintStep_advances _ _) ?_ framed h _ cur
    rintro ⟨v, l⟩ mem offset items here
    cases (each _ mem : Spelled v l) with
    | varint spells => rw [packedVarintStep_spelled small spells here, IntTy.ofU64_asU64]
  | bool =>
    rw [genDecodeRepeated]
    refine decodePacked_at small (packedVarintStep_advances _ _) ?_ framed h _ cur
    rintro ⟨v, l⟩ mem offset items here
    cases (each _ mem : Spelled v l) with
    | bool spells => rw [packedVarintStep_spelled small spells here, bit_ne_zero]
  | fixed32 =>
    rw [genDecodeRepeated]
    refine decodePacked_at small (packedFixedStep_advances (by decide) _ _) ?_ framed h _ cur
    rintro ⟨v, l⟩ mem offset items here
    cases (each _ mem : Spelled v l) with
    | fixed32 =>
      rw [packedFixedStep, readWord_at small here, store, ok_bind]
      simp only [Ieee.fromLeBytes_toLeBytes]
      rfl
  | fixed64 =>
    rw [genDecodeRepeated]
    refine decodePacked_at small (packedFixedStep_advances (by decide) _ _) ?_ framed h _ cur
    rintro ⟨v, l⟩ mem offset items here
    cases (each _ mem : Spelled v l) with
    | fixed64 =>
      rw [packedFixedStep, readWord_at small here, store, ok_bind]
      simp only [Ieee.fromLeBytes_toLeBytes]
      rfl
  | _ => cases packable

theorem writesOptional_of_packable {k : CodecKind ι} (packable : isPackable k = true) :
    k.writesOptional = true := by
  cases k <;> first | rfl | cases packable

theorem textless_of_packable {k : CodecKind ι} (packable : isPackable k = true) (v : S.Value k) :
    textless v = true := by
  cases v <;> first | rfl | cases packable

theorem armReads_packed {k : CodecKind ι} (packable : isPackable k = true)
    (l : List (S.Value k)) (cur : S.Value (.repeated k)) :
    ArmReads S (.repeated k) 2 (delimited (packedPayload l)) cur (pushAll cur l) := by
  have spelled : packedPayload l = (l.map fun v => (v, content v)).flatMap Prod.snd := by
    rw [List.flatMap_map]
    rfl
  have read := armReads_elements S packable (l := l.map fun v => (v, content v)) (by
    intro e mem
    obtain ⟨v, -, rfl⟩ := List.mem_map.1 mem
    exact spelled_content (writesOptional_of_packable packable)
      (textless_of_packable S packable v)) (framed_delimited _) cur
  rwa [← spelled, List.map_map, show Prod.fst ∘ (fun v => (v, content v)) = id from rfl,
    List.map_id] at read

theorem writesOptional_of_writesItem {k : CodecKind ι} (writes : k.writesItem = true) :
    k.writesOptional = true := by
  cases k <;> first | rfl | cases writes

/-- A `Vec` of strings takes one record an element. -/
theorem armReads_item {k : CodecKind ι} (single : isPackable k = false)
    (writes : k.writesItem = true) (wireType : UInt8) {item : S.Value k} {l : List UInt8}
    (spelled : Spelled item l) (cur : S.Value (.repeated k)) :
    ArmReads S (.repeated k) wireType l cur (cur.push item) := by
  intro ident bytes offset small h
  rw [genDecodeArm]
  cases spelled with
  | lenString framed =>
    rw [genDecodeRepeated, genDecodeRepeatedItem, readString_framed small framed h]
    · rfl
    all_goals simp
  | lenBytesStr framed =>
    rw [genDecodeRepeated, genDecodeRepeatedItem, readString_framed small framed h]
    · rfl
    all_goals simp
  | messageStr framed =>
    rw [genDecodeRepeated, genDecodeRepeatedItem, readMessage_text small framed h]
    · rfl
    all_goals simp
  | varint spells => cases single
  | bool spells => cases single
  | fixed32 => cases single
  | fixed64 => cases single
  | lenBytes framed => cases writes

theorem readMessage_nested {bytes payload l : List UInt8} {offset : Nat} (n : ι)
    (small : bytes.length ≤ isizeMax) (framed : Framed payload l) (h : At bytes offset l) :
    payload.length ≤ isizeMax ∧
      readMessage (typewayDecode S n) bytes offset =
        typewayDecode S n payload >>= fun w => pure (w, offset + l.length) := by
  have bound := h.bound
  refine ⟨?_, readMessage_framed _ small framed h⟩
  obtain ⟨header, rfl, -⟩ := framed
  rw [List.length_append] at bound
  omega

/-- The three arms of a nested message, once its own bytes are known to decode. -/
theorem armReads_message {n : ι} {payload l : List UInt8} (framed : Framed payload l) {w : S.Msg n}
    (nested : payload.length ≤ isizeMax → typewayDecode S n payload = .ok w) (wireType : UInt8) :
    (∀ cur, ArmReads S (.message n) wireType l cur (.message w)) ∧
      (∀ cur, ArmReads S (.optionalMessage n) wireType l cur (.someMessage w)) ∧
      ∀ cur : S.Value (.repeatedMessage n),
        ArmReads S (.repeatedMessage n) wireType l cur (cur.pushMessage w) := by
  refine ⟨?_, ?_, ?_⟩
  all_goals
    intro cur ident bytes offset small h
    obtain ⟨fits, read⟩ := readMessage_nested S n small framed h
    rw [genDecodeArm, read, nested fits]
    rfl

/-! ## The loop over the fields -/

/-- The loop of struct `n` goes over the bytes `l` and turns the variables `F` into `F'`. -/
def Reads (n : ι) (l : List UInt8) (F F' : S.Fields n) : Prop :=
  ∀ bytes offset, bytes.length ≤ isizeMax → At bytes offset l →
    Passes (fun s : DecodeState S n => decide (s.offset < bytes.length))
      (decodeStep S (typewayDecode S) n bytes) ⟨offset, F⟩ ⟨offset + l.length, F'⟩

theorem Reads.nil {n : ι} (F : S.Fields n) : Reads S n [] F F :=
  fun _ _ _ _ => .start

variable {S}

theorem Reads.append {n : ι} {l l' : List UInt8} {F F' F'' : S.Fields n} (h : Reads S n l F F')
    (h' : Reads S n l' F' F'') : Reads S n (l ++ l') F F'' := by
  intro bytes offset small here
  have first := h bytes offset small here.left
  have second := h' bytes _ small here.right
  rw [List.length_append, ← Nat.add_assoc]
  exact first.trans second

theorem findField_tag {n : ι} (i : S.Pos n) : findField S n (S.field i).tag = some i := by
  cases found : findField S n (S.field i).tag with
  | none =>
    rw [findField, List.find?_eq_none] at found
    exact (found i (List.mem_finRange i) (beq_self_eq_true _)).elim
  | some j => rw [S.tag_inj (findField_some S found)]

/-- The step on a tag, in any spelling, and what follows it. -/
theorem decodeStep_tagged {n : ι} {bytes t : List UInt8} {s : DecodeState S n} {tag : UInt32}
    {wireType : UInt8} (hwt : wireType.toNat < 8) (spells : Spells t (tagWord tag wireType))
    (small : bytes.length ≤ isizeMax) (h : At bytes s.offset t) :
    decodeStep S (typewayDecode S) n bytes s =
      match findField S n tag with
      | some i =>
        genDecodeArm (typewayDecode S) (S.field i).ident wireType bytes (s.offset + t.length)
          (S.field i).kind (s.fields i) >>= fun r => pure ⟨r.1, Function.update s.fields i r.2⟩
      | none =>
        skipValue wireType bytes (s.offset + t.length) >>= fun r => pure ⟨r.2, s.fields⟩ := by
  have number : (tagWord tag wireType >>> 3).toUInt32 = tag := tagWord_number hwt tag
  have wire : (tagWord tag wireType &&& 7).toUInt8 = wireType := tagWord_wire hwt tag
  rw [decodeStep, readVarint_spelled small spells h, ok_bind]
  dsimp only
  generalize (tagWord tag wireType >>> 3).toUInt32 = fieldNumber at number ⊢
  generalize (tagWord tag wireType &&& 7).toUInt8 = found at wire ⊢
  subst number wire
  rfl

/-- A turn that reads a tag and what the arm of its field reads. -/
theorem decodeStep_known {n : ι} {bytes t l : List UInt8} (i : S.Pos n) {wireType : UInt8}
    (hwt : wireType.toNat < 8) (spells : Spells t (tagWord (S.field i).tag wireType))
    {s : DecodeState S n} {new : S.Value (S.field i).kind}
    (arm : ArmReads S (S.field i).kind wireType l (s.fields i) new)
    (small : bytes.length ≤ isizeMax) (h : At bytes s.offset (t ++ l)) :
    decodeStep S (typewayDecode S) n bytes s =
      .ok ⟨s.offset + (t ++ l).length, Function.update s.fields i new⟩ := by
  rw [decodeStep_tagged hwt spells small h.left, findField_tag]
  dsimp only
  rw [arm _ _ _ small h.right, ok_bind, List.length_append, ← Nat.add_assoc]
  rfl

theorem Reads.tagged {n : ι} (i : S.Pos n) {wireType : UInt8} (hwt : wireType.toNat < 8)
    {t l : List UInt8} (spells : Spells t (tagWord (S.field i).tag wireType)) {F : S.Fields n}
    {new : S.Value (S.field i).kind} (arm : ArmReads S (S.field i).kind wireType l (F i) new) :
    Reads S n (t ++ l) F (Function.update F i new) :=
  fun _ _ small h => .next .start (h.goes_on spells.length_pos) (decodeStep_known i hwt spells arm small h)

theorem Reads.record {n : ι} (i : S.Pos n) {wireType : UInt8} (hwt : wireType.toNat < 8)
    {l : List UInt8} {F : S.Fields n} {new : S.Value (S.field i).kind}
    (arm : ArmReads S (S.field i).kind wireType l (F i) new) :
    Reads S n (tagBytes (S.field i).tag wireType ++ l) F (Function.update F i new) :=
  .tagged i hwt (spells_tagBytes hwt _) arm

end

end Typeway.Macros
