import Typeway.Base.Window
import Typeway.Grpc.ProtoCodec
import Typeway.Protobuf.Wire

/-!
# The dynamic codec, record by record

Everything the encoder writes is a list of records, a tag and a wire value each. The decoder's
loop over bytes made of records is a fold over them, and a record of a field touches nothing but
the member of that field, so the members of the result can be computed one field at a time.
-/

namespace Typeway.Grpc

open Checked Typeway.Core Json Protobuf

/-! ## Varints -/

theorem encodeVarint_eq (v : UInt64) : encodeVarint v = Base128.encode v.toNat := by
  induction v using encodeVarint.induct with
  | case1 v last =>
    have small : v.toNat < 128 := by
      have := word_shift v
      rw [last, UInt64.toNat_zero] at this
      omega
    rw [encodeVarint, if_pos last, Base128.encode_of_lt small]
    congr 1
    apply UInt8.toNat_inj.mp
    rw [UInt64.toNat_toUInt8, UInt64.toNat_and, UInt8.toNat_ofNat',
      show (0x7F : UInt64).toNat = 2 ^ 7 - 1 from rfl, Nat.and_two_pow_sub_one_eq_mod]
    omega
  | case2 v more ih =>
    have large : 128 ≤ v.toNat := by
      have ne : (v >>> 7).toNat ≠ 0 := fun e => more (UInt64.toNat_inj.mp e)
      rw [word_shift] at ne
      omega
    rw [encodeVarint, if_neg more, ih, Base128.encode_of_ge large, word_shift]
    congr 1
    apply UInt8.toNat_inj.mp
    rw [UInt8.toNat_or, Base128.toNat_more, UInt64.toNat_toUInt8, UInt64.toNat_and,
      show (0x7F : UInt64).toNat = 2 ^ 7 - 1 from rfl, Nat.and_two_pow_sub_one_eq_mod,
      Nat.mod_eq_of_lt (by omega : v.toNat % 2 ^ 7 < 2 ^ 8), Nat.or_comm,
      show (0x80 : UInt8).toNat = 2 ^ 7 * 1 from rfl,
      ← Nat.two_pow_add_eq_or_of_lt (Nat.mod_lt _ (by omega))]
    omega

theorem byte_last {b : UInt8} : b &&& 0x80 = 0 ↔ b.toNat < 128 := by
  have bound := b.toNat_lt
  rw [← UInt8.toNat_inj, UInt8.toNat_and, show (0x80 : UInt8).toNat = 2 ^ 7 from rfl,
    Nat.and_two_pow, Nat.testBit_eq_decide_div_mod_eq]
  by_cases low : b.toNat < 128
  · simp [low, Nat.div_eq_of_lt low]
  · have : b.toNat / 128 = 1 := by omega
    simp [low, this]

theorem decodeVarintLoop_terminated {l : List UInt8} (h : Base128.Terminated l) :
    ∀ (rest : List UInt8) (i N : Nat), i + l.length ≤ 10 → N < 2 ^ (7 * i) →
      decodeVarintLoop (l ++ rest) i (UInt64.ofNat N) (7 * i) =
        .ok (UInt64.ofNat (N + 2 ^ (7 * i) * Base128.value l), i + l.length) := by
  induction h with
  | @last b low =>
    intro rest i N len hN
    rw [List.length_singleton] at len
    rw [List.singleton_append, decodeVarintLoop, if_neg (by omega)]
    dsimp only
    rw [if_pos (byte_last.2 low), word_group hN (by omega)]
    rfl
  | @more b tail high term ih =>
    intro rest i N len hN
    rw [List.length_cons] at len ⊢
    have := term.length_pos
    have grows : 2 ^ (7 * (i + 1)) = 128 * 2 ^ (7 * i) := by
      rw [Nat.mul_succ, Nat.add_comm, Nat.pow_add]
    have bound : N + 2 ^ (7 * i) * (b.toNat % 128) < 2 ^ (7 * (i + 1)) := by
      have : 2 ^ (7 * i) * (b.toNat % 128) ≤ 2 ^ (7 * i) * 127 :=
        Nat.mul_le_mul_left _ (by omega)
      omega
    have total : N + 2 ^ (7 * i) * (b.toNat % 128) + 2 ^ (7 * (i + 1)) * Base128.value tail =
        N + 2 ^ (7 * i) * (b.toNat % 128 + 128 * Base128.value tail) := by
      rw [grows]
      ring
    rw [List.cons_append, decodeVarintLoop, if_neg (by omega)]
    dsimp only
    rw [if_neg (by rw [byte_last]; omega), word_group hN (by omega), ← Nat.mul_succ,
      ih rest (i + 1) _ (by omega) bound, total, Base128.value,
      show i + 1 + tail.length = i + (tail.length + 1) by omega]

theorem decodeVarint_spelled {l : List UInt8} {v : UInt64} (h : Spells l v) (rest : List UInt8) :
    decodeVarint (l ++ rest) = .ok (v, l.length) := by
  have := decodeVarintLoop_terminated h.terminated rest 0 0 (by have := h.short; omega) (by simp)
  rw [Nat.zero_add, Nat.zero_add, Nat.mul_zero, Nat.pow_zero, Nat.one_mul, h.value] at this
  exact this

theorem msb_eq_last (v : BitVec 64) : v.msb = v[63] := by
  rw [BitVec.msb_eq_getLsbD_last]
  rfl

theorem sshiftRight_sign (v : BitVec 64) :
    v.sshiftRight 63 = if v.msb then BitVec.allOnes 64 else 0#64 := by
  ext i hi
  rw [BitVec.getElem_sshiftRight]
  by_cases first : i = 0
  · subst first
    cases h : v.msb <;> simp [h, ← msb_eq_last]
  · rw [dif_neg (by omega)]
    cases v.msb with
    | true => exact (BitVec.getElem_allOnes i hi).symm
    | false => simp

theorem zigzagDecode_zigzagEncode (v : BitVec 64) : zigzagDecode (zigzagEncode v) = v := by
  rw [zigzagDecode, zigzagEncode, sshiftRight_sign]
  dsimp only
  cases sign : v.msb with
  | true =>
    rw [msb_eq_last] at sign
    have odd : ~~~(v <<< 1) &&& 1 = 1#64 := by
      ext i hi
      by_cases first : i = 0
      · simp [first]
      · simp [first]
    rw [if_pos rfl, BitVec.xor_allOnes, odd, show -1#64 = BitVec.allOnes 64 from rfl,
      BitVec.xor_allOnes]
    ext i hi
    rcases Nat.lt_or_ge i 63 with low | high
    · have inside : 1 + i < 64 := by omega
      simp [inside]
    · obtain rfl : i = 63 := by omega
      simp [sign]
  | false =>
    rw [msb_eq_last] at sign
    have even : v <<< 1 &&& 1 = 0#64 := by
      ext i hi
      by_cases first : i = 0
      · simp [first]
      · simp [first]
    rw [if_neg (by simp), BitVec.xor_zero, even, BitVec.neg_zero, BitVec.xor_zero]
    ext i hi
    rcases Nat.lt_or_ge i 63 with low | high
    · have inside : 1 + i < 64 := by omega
      simp [inside]
    · obtain rfl : i = 63 := by omega
      simp [sign]
/-! ## Records -/

namespace WireValue

def wireType : WireValue → UInt8
  | varint _ => 0
  | fixed64 _ => 1
  | lengthDelimited _ => 2
  | fixed32 _ => 5

/-- The bytes behind the tag. -/
def bytes : WireValue → List UInt8
  | varint v => Base128.encode v.toNat
  | fixed64 bytes => bytes
  | lengthDelimited data => delimited data
  | fixed32 bytes => bytes

/-- Fixed values have their width. -/
def Fits : WireValue → Prop
  | fixed64 bytes => bytes.length = 8
  | fixed32 bytes => bytes.length = 4
  | _ => True

theorem wireType_lt (wv : WireValue) : wv.wireType.toNat < 8 := by
  cases wv <;> simp [wireType]

/-- The record of a field with the given tag. -/
def record (tag : UInt32) (wv : WireValue) : List UInt8 :=
  tagBytes tag wv.wireType ++ wv.bytes

theorem record_pos (tag : UInt32) (wv : WireValue) : 0 < (wv.record tag).length := by
  have := (spells_tagBytes wv.wireType_lt tag).length_pos
  rw [record, List.length_append]
  omega

end WireValue

section Read

variable {bytes : List UInt8} {offset : Nat}

theorem decodeVarint_at {l : List UInt8} {v : UInt64} (h : At bytes offset l) (spells : Spells l v) :
    decodeVarint (bytes.drop offset) = .ok (v, l.length) := by
  obtain ⟨rest, drop⟩ := h.drop
  rw [drop, decodeVarint_spelled spells]

/-- A length and what it is the length of. -/
theorem decodeLengthDelimited_at {data l : List UInt8} (small : bytes.length ≤ isizeMax)
    (framed : Framed data l) (h : At bytes offset l) :
    decodeWireValue (bytes.drop offset) 2 = .ok (.lengthDelimited data, l.length) := by
  obtain ⟨len, rfl, spells⟩ := framed
  have bound := h.bound
  rw [List.length_append] at bound
  unfold isizeMax at small
  have word : (UInt64.ofNat data.length).toNat = data.length := by
    rw [UInt64.toNat_ofNat', Nat.mod_eq_of_lt (by omega)]
  have inside : At (bytes.drop offset) len.length data := by
    obtain ⟨rest, drop⟩ := h.drop
    rw [drop]
    exact .middle len data rest
  rw [decodeWireValue, decodeVarint_at h.left spells, lift_ok, ok_bind]
  dsimp only
  rw [word, add_eq_ok (by unfold usizeBound; omega), ok_bind, if_neg (by rw [List.length_drop]; omega),
    inside.slice, ok_bind, List.length_append]
  rfl

theorem decodeWireValue_at {wv : WireValue} (small : bytes.length ≤ isizeMax) (fits : wv.Fits)
    (h : At bytes offset wv.bytes) :
    decodeWireValue (bytes.drop offset) wv.wireType = .ok (wv, wv.bytes.length) := by
  have bound := h.bound
  cases wv with
  | varint v =>
    rw [WireValue.wireType, decodeWireValue, decodeVarint_at h (spells_encode v), lift_ok, ok_bind]
    rfl
  | fixed64 word =>
    have width : word.length = 8 := fits
    have enough : ¬ (bytes.drop offset).length < 8 := by
      rw [List.length_drop]
      have : offset + word.length ≤ bytes.length := bound
      omega
    have here : (bytes.drop offset).take 8 = word := width ▸ h.here
    rw [WireValue.wireType, decodeWireValue, if_neg enough, here, WireValue.bytes, width]
    rfl
  | lengthDelimited data => exact decodeLengthDelimited_at small (framed_delimited data) h
  | fixed32 word =>
    have width : word.length = 4 := fits
    have enough : ¬ (bytes.drop offset).length < 4 := by
      rw [List.length_drop]
      have : offset + word.length ≤ bytes.length := bound
      omega
    have here : (bytes.drop offset).take 4 = word := width ▸ h.here
    rw [WireValue.wireType, decodeWireValue, if_neg enough, here, WireValue.bytes, width]
    rfl

end Read

/-! ## Members -/

/-- The values a wire value adds to its field. -/
def wireValues (E : Externals) (field : ProtoFieldDef) (nested : NestedDecoder) (wv : WireValue) :
    Run CodecError (List Value) :=
  match field.repeated && isPackableType field.protoType, wv with
  | true, .lengthDelimited data => unpackScalars E data field.protoType
  | _, wv => (wireValueToJson E wv field.protoType nested).map ([·])

/-- The state with values added to a field. -/
def JsonState.put (s : JsonState) (field : ProtoFieldDef) (values : List Value) : JsonState :=
  if field.repeated then s.extend field.name values
  else values.foldl (fun s value => s.insert field.name value) s

theorem storeWireValue_eq (E : Externals) (field : ProtoFieldDef) (nested : NestedDecoder)
    (wv : WireValue) (s : JsonState) :
    storeWireValue E field nested wv s =
      wireValues E field nested wv >>= fun values => pure (s.put field values) := by
  have single : (do
      let jsonValue ← wireValueToJson E wv field.protoType nested
      if field.repeated then pure (s.extend field.name [jsonValue])
      else pure (s.insert field.name jsonValue)) =
      (wireValueToJson E wv field.protoType nested).map ([·]) >>= fun values =>
        pure (s.put field values) := by
    cases wireValueToJson E wv field.protoType nested with
    | error e => rfl
    | ok value =>
      simp only [Except.map, ok_bind, JsonState.put]
      split <;> rfl
  unfold storeWireValue wireValues
  cases packed : field.repeated && isPackableType field.protoType with
  | false => exact single
  | true =>
    cases wv with
    | lengthDelimited data =>
      rw [Bool.and_eq_true] at packed
      simp only [JsonState.put, packed.1, if_true]
    | _ => exact single

@[simp] theorem JsonState.put_offset (s : JsonState) (field : ProtoFieldDef) (values : List Value) :
    (s.put field values).offset = s.offset := by
  rw [put]
  split
  · rfl
  · induction values generalizing s with
    | nil => rfl
    | cons value values ih => exact ih (s.insert field.name value)

theorem JsonState.put_at (s : JsonState) (offset : Nat) (field : ProtoFieldDef)
    (values : List Value) :
    { s with offset := offset }.put field values = { s.put field values with offset := offset } := by
  rw [put, put]
  split
  · rfl
  · induction values generalizing s with
    | nil => rfl
    | cons value values ih => exact ih (s.insert field.name value)

/-- What the decoder does with a record. -/
def storeRecord (E : Externals) (fields : List (ProtoFieldDef × NestedDecoder)) (tag : UInt32)
    (wv : WireValue) (s : JsonState) : Run CodecError JsonState :=
  match fields.find? fun f => f.1.tag == tag with
  | some (field, nested) => storeWireValue E field nested wv s
  | none => pure s

theorem storeRecord_at (E : Externals) (fields : List (ProtoFieldDef × NestedDecoder))
    (tag : UInt32) (wv : WireValue) (s : JsonState) (offset : Nat) :
    storeRecord E fields tag wv { s with offset := offset } =
      (storeRecord E fields tag wv s).map fun t => { t with offset := offset } := by
  rw [storeRecord, storeRecord]
  split
  · rename_i field nested _
    rw [storeWireValue_eq, storeWireValue_eq]
    cases wireValues E field nested wv with
    | error e => rfl
    | ok values =>
      rw [ok_bind, ok_bind, JsonState.put_at]
      rfl
  · rfl

/-! ## The loop over the input -/

theorem decodeVarintLoop_advances {bytes : List UInt8} {i shift c : Nat} {result v : UInt64}
    (h : decodeVarintLoop bytes i result shift = .ok (v, c)) : i < c := by
  induction bytes generalizing i result shift with
  | nil => cases h
  | cons byte rest ih =>
    rw [decodeVarintLoop] at h
    dsimp only at h
    split at h
    · cases h
    · split at h
      · cases h
        omega
      · have := ih h
        omega

theorem storeRecord_offset (E : Externals) (fields : List (ProtoFieldDef × NestedDecoder))
    (tag : UInt32) (wv : WireValue) (s : JsonState) :
    Ensures (storeRecord E fields tag wv s) fun t => t.offset = s.offset := by
  rw [storeRecord]
  split
  · rw [storeWireValue_eq]
    exact Ensures.any.bind fun values _ => .ok (s.put_offset _ values)
  · exact .ok rfl

/-- A step reads at least a tag. -/
theorem jsonStep_advances (E : Externals) (fields : List (ProtoFieldDef × NestedDecoder))
    (bytes : List UInt8) (s : JsonState) :
    Ensures (jsonStep E fields bytes s) fun t => s.offset < t.offset := by
  rw [jsonStep]
  refine Ensures.any.bind fun rest _ => ?_
  refine (Ensures.lift (P := fun r : UInt64 × Nat => 0 < r.2) ?_).bind ?_
  · intro r read
    exact decodeVarintLoop_advances read
  intro r pos
  refine (Ensures.add _ _).bind fun offset behind => ?_
  refine Ensures.any.bind fun rest _ => ?_
  refine Ensures.any.bind fun w _ => ?_
  refine (Ensures.add _ _).bind fun stop last => ?_
  refine (storeRecord_offset E fields _ w.1 { s with offset := stop }).mono fun t same => ?_
  dsimp only at same
  omega

/-- A step on a record. -/
theorem jsonStep_record (E : Externals) (fields : List (ProtoFieldDef × NestedDecoder))
    {bytes : List UInt8} {s : JsonState} {tag : UInt32} {wv : WireValue}
    (small : bytes.length ≤ isizeMax) (fits : wv.Fits) (h : At bytes s.offset (wv.record tag)) :
    jsonStep E fields bytes s =
      storeRecord E fields tag wv { s with offset := s.offset + (wv.record tag).length } := by
  have lt := wv.wireType_lt
  have first := h.left
  have second := h.right
  have bound := second.bound
  unfold isizeMax at small
  rw [jsonStep, sliceFrom_eq_ok (by omega), ok_bind, decodeVarint_at first (spells_tagBytes lt tag),
    lift_ok, ok_bind]
  dsimp only
  rw [add_eq_ok (by unfold usizeBound; omega), ok_bind, sliceFrom_eq_ok (by omega), ok_bind,
    tagWord_wire lt, decodeWireValue_at small fits second, ok_bind]
  dsimp only
  rw [add_eq_ok (by unfold usizeBound; omega), ok_bind, tagWord_number lt, WireValue.record,
    List.length_append, Nat.add_assoc]
  rfl

theorem jsonLoop_lowers (E : Externals) (fields : List (ProtoFieldDef × NestedDecoder))
    (bytes : List UInt8) :
    Lowers (fun s : JsonState => decide (s.offset < bytes.length)) (jsonStep E fields bytes)
      (fun s => bytes.length - s.offset) where
  pos s go := by
    rw [decide_eq_true_eq] at go
    omega
  less s t go run := by
    have := jsonStep_advances E fields bytes s t run
    rw [decide_eq_true_eq] at go
    omega

/-- The fold over records. -/
def storeRecords (E : Externals) (fields : List (ProtoFieldDef × NestedDecoder)) :
    List (UInt32 × WireValue) → JsonState → Run CodecError JsonState
  | [], s => pure s
  | r :: records, s => storeRecord E fields r.1 r.2 s >>= storeRecords E fields records

theorem storeRecords_at (E : Externals) (fields : List (ProtoFieldDef × NestedDecoder))
    (records : List (UInt32 × WireValue)) (s : JsonState) (offset : Nat) :
    storeRecords E fields records { s with offset := offset } =
      (storeRecords E fields records s).map fun t => { t with offset := offset } := by
  induction records generalizing s with
  | nil => rfl
  | cons r records ih =>
    rw [storeRecords, storeRecords, storeRecord_at]
    cases storeRecord E fields r.1 r.2 s with
    | error e => rfl
    | ok t => exact ih t

/-- The loop over bytes made of records is the fold over the records. -/
theorem jsonLoop_records (E : Externals) (fields : List (ProtoFieldDef × NestedDecoder))
    {bytes : List UInt8} (small : bytes.length ≤ isizeMax) {records : List (UInt32 × WireValue)}
    (fits : ∀ r ∈ records, r.2.Fits) {s : JsonState}
    (h : At bytes s.offset (records.flatMap fun r => r.2.record r.1))
    (stop : s.offset + (records.flatMap fun r => r.2.record r.1).length = bytes.length) :
    jsonLoop E fields bytes s =
      (storeRecords E fields records s).map fun t => { t with offset := bytes.length } := by
  induction records generalizing s with
  | nil =>
    have here : s.offset = bytes.length := stop
    rw [jsonLoop, runLoop_done (by simp [here]), storeRecords]
    simp only [← here]
    rfl
  | cons r records ih =>
    rw [List.flatMap_cons] at h stop
    rw [jsonLoop, runLoop_next (jsonLoop_lowers E fields bytes) (h.goes_on (r.2.record_pos r.1)),
      jsonStep_record E fields small (fits r List.mem_cons_self) h.left, storeRecord_at,
      storeRecords]
    cases storeRecord E fields r.1 r.2 s with
    | error e => rfl
    | ok t =>
      have rest := ih (fun r mem => fits r (List.mem_cons_of_mem _ mem))
        (s := { t with offset := s.offset + (r.2.record r.1).length }) h.right
        (by rw [List.length_append] at stop; dsimp only; omega)
      rw [storeRecords_at] at rest
      refine rest.trans ?_
      rw [ok_bind]
      cases storeRecords E fields records t <;> rfl

theorem storeRecords_append (E : Externals) (fields : List (ProtoFieldDef × NestedDecoder))
    (front back : List (UInt32 × WireValue)) (s : JsonState) :
    storeRecords E fields (front ++ back) s =
      storeRecords E fields front s >>= storeRecords E fields back := by
  induction front generalizing s with
  | nil => rfl
  | cons r front ih =>
    rw [List.cons_append, storeRecords, storeRecords]
    cases storeRecord E fields r.1 r.2 s with
    | error e => rfl
    | ok t => exact ih t

/-! ## One field at a time -/

/-- A member of the result. -/
def JsonState.member (s : JsonState) (name : Str) : Option Value :=
  ((SortedMap.lookup name s.repeatedFields).map .arr).or (SortedMap.lookup name s.map)

structure JsonState.Ordered (s : JsonState) : Prop where
  map : SortedMap.Sorted s.map
  repeatedFields : SortedMap.Sorted s.repeatedFields

/-- What the values of a field's records make of its member. -/
def joined (field : ProtoFieldDef) : List (List Value) → Option Value
  | [] => none
  | values :: more =>
    if field.repeated then some (.arr (values ++ more.flatten))
    else (values ++ more.flatten).getLast?

/-- The member of a field that has the given records. -/
def fieldMember (E : Externals) (field : ProtoFieldDef) (records : List WireValue) :
    Run CodecError (Option Value) :=
  records.mapM (wireValues E field (nestedDecoder E field.nestedFields)) >>= fun values =>
    pure (joined field values)

theorem lookup_foldl_arr {entries : List (Str × List Value)} (sorted : SortedMap.Sorted entries)
    (map : List (Str × Value)) (name : Str) :
    SortedMap.lookup name
        (entries.foldl (fun map e => SortedMap.insert e.1 (.arr e.2) map) map) =
      ((SortedMap.lookup name entries).map Value.arr).or (SortedMap.lookup name map) := by
  induction entries generalizing map with
  | nil => rfl
  | cons e entries ih =>
    obtain ⟨key, items⟩ := e
    obtain ⟨above, sorted⟩ := SortedMap.sorted_cons.1 sorted
    rw [List.foldl_cons, ih sorted, SortedMap.lookup_insert, SortedMap.lookup_cons]
    by_cases same : name = key
    · subst same
      have gone : SortedMap.lookup name entries = none :=
        SortedMap.lookup_eq_none.2 fun e mem => ne_of_lt (above e mem)
      rw [if_pos rfl, if_pos rfl, gone]
      rfl
    · rw [if_neg same, if_neg same]

theorem sorted_foldl_arr {entries : List (Str × List Value)} {map : List (Str × Value)}
    (sorted : SortedMap.Sorted map) :
    SortedMap.Sorted (entries.foldl (fun map e => SortedMap.insert e.1 (.arr e.2) map) map) := by
  induction entries generalizing map with
  | nil => exact sorted
  | cons e entries ih => exact ih (SortedMap.sorted_insert sorted)

namespace JsonState

theorem finish_eq {s : JsonState} (ordered : s.Ordered) :
    ∃ m, s.finish = .obj m ∧ SortedMap.Sorted m ∧
      ∀ name, SortedMap.lookup name m = s.member name :=
  ⟨_, rfl, sorted_foldl_arr ordered.map, lookup_foldl_arr ordered.repeatedFields s.map⟩

theorem Ordered.insert {s : JsonState} (ordered : s.Ordered) (name : Str) (value : Value) :
    (s.insert name value).Ordered :=
  ⟨SortedMap.sorted_insert ordered.map, ordered.repeatedFields⟩

theorem Ordered.put {s : JsonState} (ordered : s.Ordered) (field : ProtoFieldDef)
    (values : List Value) : (s.put field values).Ordered := by
  rw [JsonState.put]
  split
  · exact ⟨ordered.map, SortedMap.sorted_insert ordered.repeatedFields⟩
  · induction values generalizing s with
    | nil => exact ordered
    | cons value values ih => exact ih (ordered.insert field.name value)

theorem member_insert (s : JsonState) (name other : Str) (value : Value) :
    (s.insert name value).member other =
      ((SortedMap.lookup other s.repeatedFields).map .arr).or
        (if other = name then some value else SortedMap.lookup other s.map) := by
  rw [member, JsonState.insert, SortedMap.lookup_insert]
  by_cases same : other = name
  · rw [if_pos same, if_pos same]
  · rw [if_neg same, if_neg same]

/-- The frame of a field: no member but its own changes. -/
theorem member_put_of_ne (s : JsonState) {field : ProtoFieldDef} {name : Str}
    (other : name ≠ field.name) (values : List Value) :
    (s.put field values).member name = s.member name := by
  rw [put]
  split
  · rw [member, extend, SortedMap.lookup_insert, if_neg other]
    rfl
  · induction values generalizing s with
    | nil => rfl
    | cons value values ih =>
      rw [List.foldl_cons, ih, member_insert, if_neg other]
      rfl

theorem member_foldl_put_of_ne (s : JsonState) {field : ProtoFieldDef} {name : Str}
    (other : name ≠ field.name) (values : List (List Value)) :
    (values.foldl (·.put field ·) s).member name = s.member name := by
  induction values generalizing s with
  | nil => rfl
  | cons here values ih => rw [List.foldl_cons, ih, member_put_of_ne s other]

theorem Ordered.foldl_put {s : JsonState} (ordered : s.Ordered) (field : ProtoFieldDef)
    (values : List (List Value)) : (values.foldl (·.put field ·) s).Ordered := by
  induction values generalizing s with
  | nil => exact ordered
  | cons here values ih => exact ih (ordered.put field here)

/-- A repeated field collects its values. -/
theorem lookup_foldl_extend {s : JsonState} {field : ProtoFieldDef} (many : field.repeated = true)
    {items : List Value} (here : SortedMap.lookup field.name s.repeatedFields = some items)
    (values : List (List Value)) :
    SortedMap.lookup field.name (values.foldl (·.put field ·) s).repeatedFields =
      some (items ++ values.flatten) := by
  induction values generalizing s items with
  | nil => simpa using here
  | cons more values ih =>
    rw [List.foldl_cons, List.flatten_cons, ← List.append_assoc]
    apply ih
    rw [put, if_pos many, extend, SortedMap.lookup_insert, if_pos rfl, here]
    rfl

/-- A single field keeps its last value. -/
theorem member_foldl_insert {s : JsonState} {name : Str}
    (single : SortedMap.lookup name s.repeatedFields = none) (values : List Value) :
    (values.foldl (fun s value => s.insert name value) s).member name =
      values.getLast?.or (s.member name) := by
  induction values generalizing s with
  | nil => rfl
  | cons value values ih =>
    rw [List.foldl_cons, ih (s := s.insert name value) single, member_insert, single, if_pos rfl]
    cases values with
    | nil => rfl
    | cons next values => simp [List.getLast?_cons]

theorem foldl_put_single {s : JsonState} {field : ProtoFieldDef} (single : field.repeated = false)
    (values : List (List Value)) :
    values.foldl (·.put field ·) s =
      values.flatten.foldl (fun s value => s.insert field.name value) s := by
  induction values generalizing s with
  | nil => rfl
  | cons here values ih =>
    rw [List.foldl_cons, ih, List.flatten_cons, List.foldl_append, put, if_neg (by simp [single])]

/-- A field without a member gets the one its records make. -/
theorem member_foldl_put {s : JsonState} {field : ProtoFieldDef} (fresh : s.member field.name = none)
    (values : List (List Value)) :
    (values.foldl (·.put field ·) s).member field.name = joined field values := by
  obtain ⟨noList, noValue⟩ := Option.or_eq_none_iff.1 fresh
  rw [Option.map_eq_none_iff] at noList
  cases values with
  | nil => exact fresh
  | cons here values =>
    rw [joined]
    cases many : field.repeated with
    | true =>
      have first : SortedMap.lookup field.name (s.put field here).repeatedFields = some here := by
        rw [put, if_pos many, extend, SortedMap.lookup_insert, if_pos rfl, noList]
        rfl
      rw [List.foldl_cons, member, lookup_foldl_extend many first, if_pos rfl]
      rfl
    | false =>
      rw [foldl_put_single many, member_foldl_insert noList, fresh, Option.or_none,
        List.flatten_cons, if_neg (by simp)]

end JsonState

/-- The records of one field. -/
theorem storeRecords_field (E : Externals) {fields : List (ProtoFieldDef × NestedDecoder)}
    {field : ProtoFieldDef} {nested : NestedDecoder}
    (found : fields.find? (fun f => f.1.tag == field.tag) = some (field, nested))
    (records : List WireValue) (s : JsonState) :
    storeRecords E fields (records.map fun wv => (field.tag, wv)) s =
      records.mapM (wireValues E field nested) >>= fun values =>
        pure (values.foldl (·.put field ·) s) := by
  induction records generalizing s with
  | nil => rfl
  | cons wv records ih =>
    rw [List.map_cons, storeRecords, storeRecord, found]
    dsimp only
    rw [storeWireValue_eq, List.mapM_cons]
    cases wireValues E field nested wv with
    | error e => rfl
    | ok here =>
      refine (ih (s.put field here)).trans ?_
      rw [ok_bind]
      cases records.mapM (wireValues E field nested) <;> rfl

/-- The records of all fields, in the order of the definitions. -/
def fieldRecords (fields : List ProtoFieldDef) (records : ProtoFieldDef → List WireValue) :
    List (UInt32 × WireValue) :=
  fields.flatMap fun f => (records f).map fun wv => (f.tag, wv)

section Fields

variable {E : Externals} {all : List (ProtoFieldDef × NestedDecoder)} {fields : List ProtoFieldDef}
  {records : ProtoFieldDef → List WireValue}

theorem fieldMember_ok {field : ProtoFieldDef} {member : Option Value} {wvs : List WireValue} :
    fieldMember E field wvs = .ok member ↔
      ∃ values, wvs.mapM (wireValues E field (nestedDecoder E field.nestedFields)) = .ok values ∧
        joined field values = member := by
  rw [fieldMember, bind_eq_ok]
  constructor
  · intro h
    obtain ⟨values, read, same⟩ := h
    exact ⟨values, read, Except.ok.inj same⟩
  · intro h
    obtain ⟨values, read, same⟩ := h
    exact ⟨values, read, congrArg Except.ok same⟩

theorem storeRecords_cons {field : ProtoFieldDef}
    (found : all.find? (fun f => f.1.tag == field.tag) =
      some (field, nestedDecoder E field.nestedFields)) (s : JsonState) :
    storeRecords E all (fieldRecords (field :: fields) records) s =
      (records field).mapM (wireValues E field (nestedDecoder E field.nestedFields)) >>=
        fun values => storeRecords E all (fieldRecords fields records)
          (values.foldl (·.put field ·) s) := by
  rw [fieldRecords, List.flatMap_cons, storeRecords_append, storeRecords_field E found]
  cases (records field).mapM (wireValues E field (nestedDecoder E field.nestedFields)) <;> rfl

/-- The fold ends when each field's values are read. -/
theorem storeRecords_ok
    (found : ∀ f ∈ fields, all.find? (fun g => g.1.tag == f.tag) =
      some (f, nestedDecoder E f.nestedFields))
    (read : ∀ f ∈ fields, ∃ member, fieldMember E f (records f) = .ok member) (s : JsonState) :
    ∃ t, storeRecords E all (fieldRecords fields records) s = .ok t := by
  induction fields generalizing s with
  | nil => exact ⟨s, rfl⟩
  | cons f fields ih =>
    obtain ⟨member, here⟩ := read f List.mem_cons_self
    obtain ⟨values, run, -⟩ := fieldMember_ok.1 here
    rw [storeRecords_cons (found f List.mem_cons_self), run, ok_bind]
    exact ih (fun g mem => found g (List.mem_cons_of_mem _ mem))
      (fun g mem => read g (List.mem_cons_of_mem _ mem)) _

/-- The members a fold over the records of all fields leaves. -/
theorem storeRecords_members
    (found : ∀ f ∈ fields, all.find? (fun g => g.1.tag == f.tag) =
      some (f, nestedDecoder E f.nestedFields))
    (names : fields.Pairwise fun f g => f.name ≠ g.name) {s t : JsonState} (ordered : s.Ordered)
    (fresh : ∀ f ∈ fields, s.member f.name = none)
    (run : storeRecords E all (fieldRecords fields records) s = .ok t) :
    t.Ordered ∧ (∀ f ∈ fields, fieldMember E f (records f) = .ok (t.member f.name)) ∧
      ∀ name, (∀ f ∈ fields, f.name ≠ name) → t.member name = s.member name := by
  induction fields generalizing s with
  | nil =>
    cases run
    exact ⟨ordered, fun f mem => absurd mem List.not_mem_nil, fun name _ => rfl⟩
  | cons f fields ih =>
    obtain ⟨apart, names⟩ := List.pairwise_cons.1 names
    rw [storeRecords_cons (found f List.mem_cons_self)] at run
    obtain ⟨values, read, rest⟩ := bind_eq_ok.1 run
    have untouched : ∀ g ∈ fields, (values.foldl (·.put f ·) s).member g.name = none := by
      intro g mem
      rw [s.member_foldl_put_of_ne (apart g mem).symm]
      exact fresh g (List.mem_cons_of_mem _ mem)
    obtain ⟨ordered, members, others⟩ := ih (fun g mem => found g (List.mem_cons_of_mem _ mem)) names
      (ordered.foldl_put f values) untouched rest
    refine ⟨ordered, ?_, ?_⟩
    · intro g mem
      rcases List.mem_cons.1 mem with rfl | mem
      · rw [others g.name fun h mem => (apart h mem).symm,
          JsonState.member_foldl_put (fresh g List.mem_cons_self)]
        exact fieldMember_ok.2 ⟨values, read, rfl⟩
      · exact members g mem
    · intro name other
      rw [others name fun g mem => other g (List.mem_cons_of_mem _ mem),
        s.member_foldl_put_of_ne (other f List.mem_cons_self).symm]

end Fields

/-! ## Members from single values -/

theorem record_length_le (tag : UInt32) (data : List UInt8) :
    data.length ≤ ((WireValue.lengthDelimited data).record tag).length := by
  rw [WireValue.record, WireValue.bytes, delimited, List.length_append, List.length_append]
  omega

theorem wireValues_single (E : Externals) {field : ProtoFieldDef} (nested : NestedDecoder)
    {wv : WireValue} (unpacked : isPackableType field.protoType = true → wv.wireType ≠ 2) :
    wireValues E field nested wv = (wireValueToJson E wv field.protoType nested).map ([·]) := by
  unfold wireValues
  cases packed : field.repeated && isPackableType field.protoType with
  | false => rfl
  | true =>
    rw [Bool.and_eq_true] at packed
    cases wv with
    | lengthDelimited data => exact absurd rfl (unpacked packed.2)
    | _ => rfl

theorem flatten_map_singleton {us : List Value} : (us.map fun u => [u]).flatten = us := by
  rw [← List.flatMap_def, List.flatMap_singleton']

/-- A list that is no default comes back when its items do. -/
theorem fieldMember_items (E : Externals) {field : ProtoFieldDef} (many : field.repeated = true)
    {wvs : List WireValue} {items : List Value} (some : items ≠ [])
    (single : ∀ values, wvs.mapM (wireValues E field (nestedDecoder E field.nestedFields)) =
      .ok values → ∃ us : List Value, values = us.map ([·])) :
    fieldMember E field wvs = .ok (.some (.arr items)) ↔
      wvs.mapM (wireValues E field (nestedDecoder E field.nestedFields)) =
        .ok (items.map ([·])) := by
  rw [fieldMember_ok]
  constructor
  · intro h
    obtain ⟨values, read, joins⟩ := h
    obtain ⟨us, rfl⟩ := single values read
    cases us with
    | nil => cases joins
    | cons u us =>
      rw [List.map_cons, joined, if_pos many, flatten_map_singleton] at joins
      rw [read, ← Value.arr.inj (Option.some.inj joins)]
      rfl
  · intro read
    refine ⟨_, read, ?_⟩
    cases items with
    | nil => exact absurd rfl some
    | cons u us =>
      rw [List.map_cons, joined, if_pos many, flatten_map_singleton]
      rfl

theorem fieldMember_single (E : Externals) {field : ProtoFieldDef} (one : field.repeated = false)
    {wv : WireValue} {v : Value}
    (alone : wireValues E field (nestedDecoder E field.nestedFields) wv =
      (wireValueToJson E wv field.protoType (nestedDecoder E field.nestedFields)).map ([·])) :
    fieldMember E field [wv] = .ok (some v) ↔
      wireValueToJson E wv field.protoType (nestedDecoder E field.nestedFields) = .ok v := by
  rw [fieldMember, List.mapM_cons, List.mapM_nil, alone]
  cases wireValueToJson E wv field.protoType (nestedDecoder E field.nestedFields) with
  | error e =>
    constructor
    · intro h
      cases h
    · intro h
      cases h
  | ok u =>
    show Except.ok (joined field [[u]]) = _ ↔ _
    rw [joined, if_neg (by simp [one])]
    exact ⟨fun h => congrArg _ (Option.some.inj (Except.ok.inj h)),
      fun h => congrArg (fun u => Except.ok (some u)) (Except.ok.inj h)⟩

/-- The definitions of a message, as the decoder needs them: a tag and a name belong to one
definition. -/
structure Distinct (fields : List ProtoFieldDef) : Prop where
  tags : fields.Pairwise fun f g => f.tag ≠ g.tag
  names : fields.Pairwise fun f g => f.name ≠ g.name

theorem find_withDecoders (E : Externals) {fields : List ProtoFieldDef}
    (tags : fields.Pairwise fun f g => f.tag ≠ g.tag) {field : ProtoFieldDef}
    (mem : field ∈ fields) :
    (withDecoders E fields).find? (fun f => f.1.tag == field.tag) =
      some (field, nestedDecoder E field.nestedFields) := by
  rw [withDecoders_eq]
  induction fields with
  | nil => cases mem
  | cons f fields ih =>
    obtain ⟨apart, tags⟩ := List.pairwise_cons.1 tags
    rw [List.map_cons]
    rcases List.mem_cons.1 mem with rfl | mem
    · rw [List.find?_cons_of_pos (by simp)]
    · rw [List.find?_cons_of_neg (by simpa using apart field mem), ih tags mem]

/-- **Decoding the records of all fields**: each member is what its own records make. -/
theorem protoBinaryToJson_records (E : Externals) {fields : List ProtoFieldDef}
    (distinct : Distinct fields) {records : ProtoFieldDef → List WireValue}
    (fits : ∀ f ∈ fields, ∀ wv ∈ records f, wv.Fits) {bytes : List UInt8}
    (spelled : bytes = fields.flatMap fun f => (records f).flatMap fun wv => wv.record f.tag)
    (small : bytes.length ≤ isizeMax) {v : Value} :
    protoBinaryToJson E bytes fields = .ok v ↔
      ∃ m, v = .obj m ∧ SortedMap.Sorted m ∧
        (∀ name, (∀ f ∈ fields, f.name ≠ name) → SortedMap.lookup name m = none) ∧
        ∀ f ∈ fields, fieldMember E f (records f) = .ok (SortedMap.lookup f.name m) := by
  have whole : bytes = (fieldRecords fields records).flatMap fun r => r.2.record r.1 := by
    rw [spelled, fieldRecords, List.flatMap_assoc]
    simp only [List.flatMap_map]
  have allFit : ∀ r ∈ fieldRecords fields records, r.2.Fits := by
    intro r mem
    obtain ⟨f, memF, mem⟩ := List.mem_flatMap.1 mem
    obtain ⟨wv, memW, rfl⟩ := List.mem_map.1 mem
    exact fits f memF wv memW
  have loop := jsonLoop_records E (withDecoders E fields) small allFit (s := ⟨0, [], []⟩)
    (whole ▸ At.whole bytes) (by rw [← whole]; exact Nat.zero_add _)
  have found : ∀ f ∈ fields, (withDecoders E fields).find? (fun g => g.1.tag == f.tag) =
      some (f, nestedDecoder E f.nestedFields) := fun f => find_withDecoders E distinct.tags
  have members {t : JsonState}
      (run : storeRecords E (withDecoders E fields) (fieldRecords fields records) ⟨0, [], []⟩ = .ok t) :=
    storeRecords_members found distinct.names ⟨SortedMap.sorted_nil, SortedMap.sorted_nil⟩
      (fun f _ => rfl) run
  rw [protoBinaryToJson, decodeMembers, loop]
  constructor
  · intro run
    cases stored : storeRecords E (withDecoders E fields) (fieldRecords fields records) ⟨0, [], []⟩ with
    | error e =>
      rw [stored] at run
      cases run
    | ok t =>
      rw [stored] at run
      obtain ⟨ordered, mine, others⟩ := members stored
      obtain ⟨m, finish, sorted, lookup⟩ := JsonState.finish_eq ordered
      refine ⟨m, ?_, sorted, ?_, ?_⟩
      · exact (Except.ok.inj run).symm.trans finish
      · intro name other
        rw [lookup, others name other]
        rfl
      · intro f mem
        rw [lookup, mine f mem]
  · intro h
    obtain ⟨m, rfl, sorted, none, read⟩ := h
    obtain ⟨t, stored⟩ := storeRecords_ok found (fun f mem => ⟨_, read f mem⟩) ⟨0, [], []⟩
    obtain ⟨ordered, mine, others⟩ := members stored
    obtain ⟨m', finish, sorted', lookup⟩ := JsonState.finish_eq ordered
    have same : m' = m := by
      apply SortedMap.ext sorted' sorted
      intro name
      by_cases own : ∃ f ∈ fields, f.name = name
      · obtain ⟨f, mem, rfl⟩ := own
        rw [lookup]
        exact Except.ok.inj ((mine f mem).symm.trans (read f mem))
      · have other : ∀ f ∈ fields, f.name ≠ name := fun f mem e => own ⟨f, mem, e⟩
        rw [lookup, others name other, none name other]
        rfl
    rw [stored, ← same, ← finish]
    rfl

/-! ## Packed fields -/

/-- An element of a packed field is read where it stands. -/
theorem unpackStep_at (E : Externals) {protoType : ProtoType} {wv : WireValue} {data : List UInt8}
    {offset : Nat} {results : List Value} {u : Value} (small : data.length ≤ isizeMax)
    (fits : wv.Fits) (wire : wireTypeFor protoType = wv.wireType) (short : wv.wireType ≠ 2)
    (h : At data offset wv.bytes) (read : wireValueToJson E wv protoType none = .ok u) :
    unpackStep E protoType data (offset, results) =
      .ok (offset + wv.bytes.length, results ++ [u]) := by
  have bound := h.bound
  unfold isizeMax at small
  unfold unpackStep
  dsimp only
  rw [wire]
  cases wv with
  | varint v =>
    show (do
      let rest ← sliceFrom data offset
      let read ← lift (decodeVarint rest)
      let offset ← add offset read.2
      let value ← wireValueToJson E (.varint read.1) protoType none
      pure (offset, results ++ [value])) = _
    rw [sliceFrom_eq_ok (by omega), ok_bind, decodeVarint_at h (spells_encode v), lift_ok, ok_bind]
    dsimp only
    rw [add_eq_ok (by unfold usizeBound; omega), ok_bind, read]
    rfl
  | fixed64 word =>
    have width : word.length = 8 := fits
    rw [WireValue.bytes] at bound h ⊢
    show (do
      let stop ← add offset 8
      if stop > data.length then fail CodecError.unexpectedEof
      else
        let arr ← slice data offset stop
        let value ← wireValueToJson E (.fixed64 arr) protoType none
        pure (stop, results ++ [value])) = _
    rw [← width, add_eq_ok (by unfold usizeBound; omega), ok_bind, if_neg (by omega), h.slice,
      ok_bind, read]
    rfl
  | lengthDelimited payload => exact absurd rfl short
  | fixed32 word =>
    have width : word.length = 4 := fits
    rw [WireValue.bytes] at bound h ⊢
    show (do
      let stop ← add offset 4
      if stop > data.length then fail CodecError.unexpectedEof
      else
        let arr ← slice data offset stop
        let value ← wireValueToJson E (.fixed32 arr) protoType none
        pure (stop, results ++ [value])) = _
    rw [← width, add_eq_ok (by unfold usizeBound; omega), ok_bind, if_neg (by omega), h.slice,
      ok_bind, read]
    rfl

theorem unpackStep_advances (E : Externals) (protoType : ProtoType) (data : List UInt8)
    (s : Nat × List Value) : Ensures (unpackStep E protoType data s) fun t => s.1 < t.1 := by
  obtain ⟨offset, results⟩ := s
  unfold unpackStep
  dsimp only
  split
  · refine Ensures.any.bind fun rest _ => ?_
    refine (Ensures.lift (P := fun r : UInt64 × Nat => 0 < r.2) ?_).bind ?_
    · intro r read
      exact decodeVarintLoop_advances read
    intro r pos
    refine (Ensures.add _ _).bind fun next behind => ?_
    refine Ensures.any.bind fun value _ => .ok ?_
    dsimp only
    omega
  · refine (Ensures.add _ _).bind fun stop behind => ?_
    split
    · exact .fail _
    · refine Ensures.any.bind fun word _ => Ensures.any.bind fun value _ => .ok ?_
      dsimp only
      omega
  · refine (Ensures.add _ _).bind fun stop behind => ?_
    split
    · exact .fail _
    · refine Ensures.any.bind fun word _ => Ensures.any.bind fun value _ => .ok ?_
      dsimp only
      omega
  · exact .fail _

theorem unpackLoop_lowers (E : Externals) (protoType : ProtoType) (data : List UInt8) :
    Lowers (fun s : Nat × List Value => decide (s.1 < data.length)) (unpackStep E protoType data)
      (fun s => data.length - s.1) where
  pos s go := by
    rw [decide_eq_true_eq] at go
    omega
  less s t go run := by
    have := unpackStep_advances E protoType data s t run
    rw [decide_eq_true_eq] at go
    omega

theorem WireValue.bytes_pos {wv : WireValue} (fits : wv.Fits) : 0 < wv.bytes.length := by
  cases wv with
  | varint v => exact Base128.encode_length_pos _
  | fixed64 word =>
    have width : word.length = 8 := fits
    exact width ▸ by decide
  | lengthDelimited data =>
    rw [bytes, delimited, List.length_append]
    have := Base128.encode_length_pos (data.length % 2 ^ 64)
    omega
  | fixed32 word =>
    have width : word.length = 4 := fits
    exact width ▸ by decide

/-- The elements of a packed field, one after the other. -/
theorem unpackLoop_at (E : Externals) {protoType : ProtoType} {data : List UInt8}
    (small : data.length ≤ isizeMax) (packable : wireTypeFor protoType ≠ 2) {wvs : List WireValue}
    {us : List Value} (each : List.Forall₂ (fun wv u => wv.Fits ∧
      wv.wireType = wireTypeFor protoType ∧ wireValueToJson E wv protoType none = .ok u) wvs us)
    {offset : Nat} {results : List Value} (h : At data offset (wvs.flatMap WireValue.bytes))
    (stop : offset + (wvs.flatMap WireValue.bytes).length = data.length) :
    runLoop (fun s => decide (s.1 < data.length)) (unpackStep E protoType data)
      (fun s => data.length - s.1) (offset, results) = .ok (data.length, results ++ us) := by
  induction each generalizing offset results with
  | nil =>
    have here : offset = data.length := stop
    rw [runLoop_done (by simp [here]), here, List.append_nil]
  | @cons wv u wvs us one each ih =>
    obtain ⟨fits, wire, read⟩ := one
    rw [List.flatMap_cons] at h stop
    rw [List.length_append] at stop
    rw [runLoop_step (unpackLoop_lowers E protoType data) (h.goes_on (WireValue.bytes_pos fits))
      (unpackStep_at E small fits wire.symm (wire ▸ packable) h.left read),
      ih h.right (by omega), List.append_assoc]
    rfl

theorem unpackScalars_elements (E : Externals) {protoType : ProtoType}
    (packable : wireTypeFor protoType ≠ 2) {wvs : List WireValue} {us : List Value}
    (each : List.Forall₂ (fun wv u => wv.Fits ∧ wv.wireType = wireTypeFor protoType ∧
      wireValueToJson E wv protoType none = .ok u) wvs us)
    (small : (wvs.flatMap WireValue.bytes).length ≤ isizeMax) :
    unpackScalars E (wvs.flatMap WireValue.bytes) protoType = .ok us := by
  rw [unpackScalars, unpackLoop_at E small packable each (At.whole _) (Nat.zero_add _)]
  rfl

/-! ## The encoder's loops -/

theorem concatM_eq_ok {α : Type} {f : α → Except CodecError (List UInt8)} {l : List α}
    {bytes : List UInt8} :
    concatM f l = .ok bytes ↔
      ∃ parts : List (List UInt8), List.Forall₂ (fun a part => f a = .ok part) l parts ∧
        bytes = parts.flatten := by
  induction l generalizing bytes with
  | nil =>
    rw [concatM]
    constructor
    · intro h
      cases h
      exact ⟨[], .nil, rfl⟩
    · intro h
      obtain ⟨parts, all, rfl⟩ := h
      cases all
      rfl
  | cons a l ih =>
    rw [concatM]
    constructor
    · intro h
      cases here : f a with
      | error e =>
        rw [here] at h
        cases h
      | ok part =>
        cases rest : concatM f l with
        | error e =>
          rw [here, rest] at h
          cases h
        | ok more =>
          rw [here, rest] at h
          cases h
          obtain ⟨parts, all, rfl⟩ := ih.1 rest
          exact ⟨part :: parts, .cons here all, rfl⟩
    · intro h
      obtain ⟨parts, all, rfl⟩ := h
      cases all with
      | cons here all =>
        rw [here, ih.2 ⟨_, all, rfl⟩]
        rfl

theorem concatM_parts {α : Type} {f : α → Except CodecError (List UInt8)} {l : List α}
    {bytes : List UInt8} (h : concatM f l = .ok bytes) :
    ∃ part : α → List UInt8, (∀ a ∈ l, f a = .ok (part a)) ∧ bytes = l.flatMap part := by
  obtain ⟨parts, all, rfl⟩ := concatM_eq_ok.1 h
  refine ⟨fun a => (f a).toOption.getD [], ?_⟩
  clear h
  induction all with
  | nil => exact ⟨fun a mem => absurd mem List.not_mem_nil, rfl⟩
  | cons here all ih =>
    obtain ⟨each, flat⟩ := ih
    constructor
    · refine List.forall_mem_cons.2 ⟨?_, each⟩
      simp only [here, Except.toOption, Option.getD_some]
    · rw [List.flatten_cons, List.flatMap_cons, flat]
      simp only [here, Except.toOption, Option.getD_some]

theorem jsonToProtoBinary_obj (E : Externals) (map : List (Str × Value))
    (fields : List ProtoFieldDef) :
    jsonToProtoBinary E (.obj map) fields =
      concatM (fun f => memberBytes E (nestedEncoder E f.nestedFields) f map) fields :=
  membersBytes_eq E fields map

theorem withLength_eq (data : List UInt8) : withLength data = delimited data := by
  rw [withLength, encodeVarint_eq, UInt64.toNat_ofNat', delimited]

end Typeway.Grpc
