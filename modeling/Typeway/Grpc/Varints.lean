import Typeway.Grpc.JsonRecords

/-!
# The varint primitives

There are four writers and three readers of varints: those of `codec.rs`, which write to reserved
memory or into an array and read small values on fast paths, and those of `proto_codec.rs`.
-/

namespace Typeway.Protobuf

open Checked

/-! ## The writers -/

/-- The loop of `tw_encode_varint_array`; `i` is an index into the array. -/
def varintArrayLoop (arr : List UInt8) (i : Nat) (v : UInt64) :
    Run TypewayDecodeError (List UInt8 × Nat) :=
  if i < arr.length then
    if v < 0x80 then .ok (arr.set i v.toUInt8, i + 1)
    else varintArrayLoop (arr.set i ((v.toUInt8 &&& 0x7F) ||| 0x80)) (i + 1) (v >>> 7)
  else .error (.panic .sliceOutOfRange)
termination_by arr.length - i
decreasing_by
  rw [List.length_set]
  omega

def twEncodeVarintArray (value : UInt64) : Run TypewayDecodeError (List UInt8 × Nat) :=
  varintArrayLoop (List.replicate 10 0) 0 value

/-- The spare capacity of the buffer is the first argument. -/
def twEncodeVarintUnchecked (spare : Nat) (buf : List UInt8) (value : UInt64) : List UInt8 :=
  encodeVarintLoop spare value buf

/-- The loop of `tw_encode_packed_u32`, each value taking from the spare capacity what it writes. -/
def encodePackedLoop : Nat → List UInt8 → List UInt32 → List UInt8
  | _, buf, [] => buf
  | spare, buf, val :: values =>
    let next := encodeVarintLoop spare val.toUInt64 buf
    encodePackedLoop (spare - (next.length - buf.length)) next values

def twEncodePackedU32 (buf : List UInt8) (values : List UInt32) : List UInt8 :=
  encodePackedLoop (values.length * 5) buf values

/-- `buf.extend_from_slice(&bytes[..len])` for each value. -/
def extendVarints (buf : List UInt8) : List UInt64 → Run TypewayDecodeError (List UInt8)
  | [] => .ok buf
  | v :: values => do
    let (bytes, len) ← twEncodeVarintArray v
    let written ← slice bytes 0 len
    extendVarints (buf ++ written) values

/-! ## The packed reader -/

/-- `result` and `offset`. -/
structure PackedVarints where
  offset : Nat
  result : List UInt64

def PackedVarints.push (s : PackedVarints) (val : UInt64) (consumed : Nat) : PackedVarints where
  offset := s.offset + consumed
  result := s.result ++ [val]

/-- The second byte is there and ends the varint. -/
def twoBytes (packed : List UInt8) (offset : Nat) : Bool :=
  match packed[offset + 1]? with
  | some b1 => b1 < 0x80
  | none => false

def packedVarintsStep (packed : List UInt8) (s : PackedVarints) :
    Run TypewayDecodeError PackedVarints := do
  let b ← index packed s.offset
  if b < 0x80 then pure (s.push b.toUInt64 1)
  else if twoBytes packed s.offset then do
    let b1 ← index packed (s.offset + 1)
    pure (s.push ((b &&& 0x7F).toUInt64 ||| (b1.toUInt64 <<< 7)) 2)
  else do
    let bytes ← sliceFrom packed s.offset
    let (val, consumed) ← lift (twDecodeVarint bytes)
    pure (s.push val consumed)

def packedLoop (packed : List UInt8)
    (step : PackedVarints → Run TypewayDecodeError PackedVarints) :
    Run TypewayDecodeError (List UInt64) := do
  let s ← runLoop (fun s => decide (s.offset < packed.length)) step
    (fun s => packed.length - s.offset) { offset := 0, result := [] }
  pure s.result

def twDecodePackedVarints (packed : List UInt8) : Run TypewayDecodeError (List UInt64) :=
  packedLoop packed (packedVarintsStep packed)

/-- One call of `tw_decode_varint` on the rest of the bytes. -/
def varintStep (packed : List UInt8) (s : PackedVarints) :
    Run TypewayDecodeError PackedVarints := do
  let bytes ← sliceFrom packed s.offset
  let (val, consumed) ← lift (twDecodeVarint bytes)
  pure (s.push val consumed)

/-- `tw_decode_varint` again and again up to the end. -/
def iterateVarints (packed : List UInt8) : Run TypewayDecodeError (List UInt64) :=
  packedLoop packed (varintStep packed)

/-! ## What the writers write -/

theorem varintArrayLoop_eq (v : UInt64) (arr : List UInt8) (i : Nat)
    (fits : i + (Base128.encode v.toNat).length ≤ arr.length) :
    varintArrayLoop arr i v = .ok (arr.take i ++ Base128.encode v.toNat ++
      arr.drop (i + (Base128.encode v.toNat).length), i + (Base128.encode v.toNat).length) := by
  have pos := Base128.encode_length_pos v.toNat
  rw [varintArrayLoop, if_pos (by omega)]
  by_cases small : v.toNat < 128
  · rw [if_pos (by rw [UInt64.lt_iff_toNat_lt]; simpa using small), word_last,
      Base128.encode_of_lt small, List.length_singleton]
    rw [List.set_eq_take_append_cons_drop, if_pos (by omega), List.append_assoc]
    rfl
  · have large : 128 ≤ v.toNat := by omega
    rw [Base128.encode_of_ge large, List.length_cons] at fits
    have smaller : (v >>> 7).toNat < v.toNat := by
      rw [word_shift]
      omega
    rw [if_neg (by rw [UInt64.lt_iff_toNat_lt]; simpa using small), word_more,
      varintArrayLoop_eq (v >>> 7) _ (i + 1) (by rw [List.length_set, word_shift]; omega),
      word_shift, Base128.encode_of_ge large, List.length_cons, List.drop_set_of_lt (by omega)]
    have front : (arr.set i (UInt8.ofNat (v.toNat % 128 + 128))).take (i + 1) =
        arr.take i ++ [UInt8.ofNat (v.toNat % 128 + 128)] := by
      rw [List.set_eq_take_append_cons_drop, if_pos (by omega), List.append_cons]
      apply List.take_left'
      rw [List.length_append, List.length_take, List.length_singleton]
      omega
    rw [front, Nat.add_right_comm, Nat.add_assoc i, List.append_assoc (arr.take i)]
    rfl
termination_by v.toNat

theorem twEncodeVarintArray_eq (v : UInt64) : ∃ rest, twEncodeVarintArray v =
    .ok (Base128.encode v.toNat ++ rest, (Base128.encode v.toNat).length) := by
  have short := (spells_encode v).short
  have written := varintArrayLoop_eq v (List.replicate 10 0) 0 (by
    rw [List.length_replicate]
    omega)
  rw [List.take_zero, List.nil_append, Nat.zero_add] at written
  exact ⟨_, written⟩

theorem extendVarints_eq (buf : List UInt8) (values : List UInt64) :
    extendVarints buf values = .ok (buf ++ values.flatMap fun v => Base128.encode v.toNat) := by
  induction values generalizing buf with
  | nil => rw [extendVarints, List.flatMap_nil, List.append_nil]
  | cons v values ih =>
    obtain ⟨rest, written⟩ := twEncodeVarintArray_eq v
    rw [extendVarints, written, ok_bind]
    dsimp only
    rw [slice_eq_ok (Nat.zero_le _) (by rw [List.length_append]; omega), ok_bind, List.drop_zero,
      Nat.sub_zero, List.take_left, ih, List.flatMap_cons, List.append_assoc]

theorem twEncodeVarintUnchecked_eq {spare : Nat} (enough : 10 ≤ spare) (buf : List UInt8)
    (v : UInt64) : twEncodeVarintUnchecked spare buf v = buf ++ Base128.encode v.toNat := by
  apply encodeVarintLoop_eq (by omega)
  calc v.toNat < 128 ^ 10 := by
        have := v.toNat_lt
        omega
    _ ≤ 128 ^ spare := Nat.pow_le_pow_right (by omega) enough

theorem encodePackedLoop_eq {spare : Nat} (buf : List UInt8) (values : List UInt32)
    (enough : values.length * 5 ≤ spare) :
    encodePackedLoop spare buf values =
      buf ++ values.flatMap fun v => Base128.encode v.toUInt64.toNat := by
  induction values generalizing spare buf with
  | nil => rw [encodePackedLoop, List.flatMap_nil, List.append_nil]
  | cons v values ih =>
    rw [List.length_cons] at enough
    have small : v.toUInt64.toNat < 128 ^ 5 := by
      have := v.toNat_lt
      rw [UInt32.toNat_toUInt64]
      omega
    have five := Base128.encode_length_le (by omega) small
    have room : v.toUInt64.toNat < 128 ^ spare :=
      Nat.lt_of_lt_of_le small (Nat.pow_le_pow_right (by omega) (by omega))
    rw [encodePackedLoop, encodeVarintLoop_eq (by omega) room, ih, List.flatMap_cons,
      List.append_assoc]
    rw [List.length_append]
    omega

/-! ## The packed reader and the single one -/

theorem packedVarints_lowers {packed : List UInt8}
    {step : PackedVarints → Run TypewayDecodeError PackedVarints}
    (advances : ∀ s s', s.offset < packed.length → step s = .ok s' → s.offset < s'.offset) :
    Lowers (fun s : PackedVarints => decide (s.offset < packed.length)) step
      (fun s => packed.length - s.offset) where
  pos s more := by
    have := of_decide_eq_true more
    omega
  less s s' more run := by
    have := of_decide_eq_true more
    have := advances s s' this run
    omega

theorem varintStep_advances {packed : List UInt8} {s s' : PackedVarints}
    (run : varintStep packed s = .ok s') : s.offset < s'.offset := by
  obtain ⟨bytes, -, run⟩ := bind_eq_ok.1 run
  obtain ⟨⟨val, consumed⟩, decoded, run⟩ := bind_eq_ok.1 run
  cases run
  have := (twDecodeVarint_bounds (lift_eq_ok.1 decoded)).1
  exact Nat.lt_add_of_pos_right this

/-- The fast paths read what the single reader reads. -/
theorem packedVarintsStep_eq {packed : List UInt8} {s : PackedVarints}
    (more : s.offset < packed.length) : packedVarintsStep packed s = varintStep packed s := by
  obtain ⟨b, rest, split⟩ : ∃ b rest, packed.drop s.offset = b :: rest :=
    ⟨_, _, List.drop_eq_getElem_cons more⟩
  have first : packed[s.offset]? = some b := by
    rw [← Nat.add_zero s.offset, ← List.getElem?_drop, split]
    rfl
  have second : packed[s.offset + 1]? = rest.head? := by
    rw [← List.getElem?_drop, split, List.getElem?_cons_succ, List.head?_eq_getElem?]
  rw [packedVarintsStep, varintStep, index, first, sliceFrom_eq_ok (Nat.le_of_lt more), split]
  simp only [ok_bind]
  by_cases low : b < 0x80
  · rw [if_pos low, twDecodeVarint_one (byte_below.1 low)]
    rfl
  · have high : 128 ≤ b.toNat := by
      rw [byte_below] at low
      omega
    rw [if_neg low, twoBytes, index, second]
    cases rest with
    | nil => rfl
    | cons b1 rest =>
      by_cases low1 : b1 < 0x80
      · rw [twDecodeVarint_two high (byte_below.1 low1)]
        simp [low1]
      · simp [low1]

theorem twDecodePackedVarints_eq (packed : List UInt8) :
    twDecodePackedVarints packed = iterateVarints packed := by
  have agree (s : PackedVarints) (more : decide (s.offset < packed.length) = true) :
      packedVarintsStep packed s = varintStep packed s :=
    packedVarintsStep_eq (of_decide_eq_true more)
  have advances (s s' : PackedVarints) (more : s.offset < packed.length)
      (run : packedVarintsStep packed s = .ok s') : s.offset < s'.offset := by
    rw [packedVarintsStep_eq more] at run
    exact varintStep_advances run
  rw [twDecodePackedVarints, iterateVarints, packedLoop, packedLoop,
    runLoop_congr (packedVarints_lowers advances)
      (packedVarints_lowers fun s s' _ run => varintStep_advances run) agree]

end Typeway.Protobuf

namespace Typeway.Grpc

open Checked Protobuf

/-- **The primitives agree.** -/
theorem varints_agree (v : UInt64) (buf : List UInt8) (values : List UInt32)
    (words : List UInt64) (packed : List UInt8) :
    (∃ bytes, twEncodeVarint buf v = buf ++ bytes ∧
      (∀ spare, 10 ≤ spare → twEncodeVarintUnchecked spare buf v = buf ++ bytes) ∧
      encodeVarint v = bytes ∧ twVarintLen v = bytes.length ∧
      ∀ rest, twDecodeVarint (bytes ++ rest) = .ok (v, bytes.length) ∧
        decodeVarint (bytes ++ rest) = .ok (v, bytes.length)) ∧
    twEncodePackedU32 buf values = buf ++ values.flatMap (fun v => twEncodeVarint [] v.toUInt64) ∧
    extendVarints buf words = .ok (buf ++ words.flatMap (twEncodeVarint [])) ∧
    twDecodePackedVarints packed = iterateVarints packed := by
  have spelled := spells_encode v
  refine ⟨⟨Base128.encode v.toNat, twEncodeVarint_eq buf v,
    fun spare enough => twEncodeVarintUnchecked_eq enough buf v, encodeVarint_eq v,
    twVarintLen_eq v, fun rest => ⟨spelled.decode rest, decodeVarint_spelled spelled rest⟩⟩,
    ?_, ?_, twDecodePackedVarints_eq packed⟩
  · simp only [twEncodeVarint_eq, List.nil_append]
    exact encodePackedLoop_eq buf values (Nat.le_refl _)
  · have single : twEncodeVarint [] = fun v => Base128.encode v.toNat :=
      funext fun v => twEncodeVarint_eq [] v
    rw [extendVarints_eq, single]

end Typeway.Grpc
