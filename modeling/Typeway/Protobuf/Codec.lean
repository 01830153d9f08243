import Typeway.Base.Base128
import Typeway.Base.Checked
import Mathlib.Tactic.Ring

/-!
# The byte-level helpers of `typeway-protobuf`

`codec.rs`: varints, tags and the skipping of the value of an unknown field. Encoders append
to the buffer they are given. Their specifications are in terms of base-128 groups.
-/

namespace Typeway.Protobuf

open Checked

/-- The ways a decoder returns `Err`. -/
inductive TypewayDecodeError where
  | unexpectedEof
  | varintTooLong
  | unknownWireType (wireType : UInt8)
  | invalidFieldValue (field message : String)
  | missingField (field : String)
  | invalidUtf8 (field : String)
  deriving DecidableEq, Repr

/-- The multi-byte loop of `tw_encode_varint`, also written out in the packed encoder. The
first argument is the spare capacity the caller has reserved. -/
def encodeVarintLoop : Nat → UInt64 → List UInt8 → List UInt8
  | 0, _, buf => buf
  | spare + 1, v, buf =>
    if v ≥ 0x80 then encodeVarintLoop spare (v >>> 7) (buf ++ [(v.toUInt8 &&& 0x7F) ||| 0x80])
    else buf ++ [v.toUInt8]

def twEncodeVarint (buf : List UInt8) (value : UInt64) : List UInt8 :=
  if value < 0x80 then buf ++ [value.toUInt8] else encodeVarintLoop 10 value buf

def twVarintLen (value : UInt64) : Nat :=
  let log2 := (value ||| 1).toNat.log2
  (log2 * 9 + (64 + 9)) / 64

def twEncodeTag (buf : List UInt8) (fieldNumber : UInt32) (wireType : UInt8) : List UInt8 :=
  twEncodeVarint buf ((fieldNumber.toUInt64 <<< 3) ||| wireType.toUInt64)

/-- The loop over `bytes[2..]`; `i` counts from zero. -/
def decodeVarintLoop : List UInt8 → Nat → UInt64 → UInt64 →
    Except TypewayDecodeError (UInt64 × Nat)
  | [], _, _, _ => .error .unexpectedEof
  | byte :: rest, i, value, shift =>
    if i + 2 ≥ 10 then .error .varintTooLong
    else
      let value := value ||| ((byte &&& 0x7F).toUInt64 <<< shift)
      if byte < 0x80 then .ok (value, i + 3) else decodeVarintLoop rest (i + 1) value (shift + 7)

def twDecodeVarint : List UInt8 → Except TypewayDecodeError (UInt64 × Nat)
  | [] => .error .unexpectedEof
  | b0 :: rest =>
    if b0 < 0x80 then .ok (b0.toUInt64, 1)
    else
      match rest with
      | [] => .error .unexpectedEof
      | b1 :: rest =>
        if b1 < 0x80 then .ok ((b0 &&& 0x7F).toUInt64 ||| (b1.toUInt64 <<< 7), 2)
        else
          decodeVarintLoop rest 0
            ((b0 &&& 0x7F).toUInt64 ||| ((b1 &&& 0x7F).toUInt64 <<< 7)) 14

/-- The number of bytes of a value nobody reads. The sum `hdr + len` is on `usize`. -/
def twSkipWireValue (bytes : List UInt8) (wireType : UInt8) : Run TypewayDecodeError Nat :=
  match wireType with
  | 0 => do
    let (_, consumed) ← lift (twDecodeVarint bytes)
    pure consumed
  | 1 => if bytes.length < 8 then fail .unexpectedEof else pure 8
  | 2 => do
    let (len, hdr) ← lift (twDecodeVarint bytes)
    let total ← add hdr len.toNat
    if bytes.length < total then fail .unexpectedEof else pure total
  | 5 => if bytes.length < 4 then fail .unexpectedEof else pure 4
  | wt => fail (.unknownWireType wt)

/-! ## Writers -/

theorem word_more (v : UInt64) :
    (v.toUInt8 &&& 0x7F) ||| 0x80 = UInt8.ofNat (v.toNat % 128 + 128) := by
  apply UInt8.toNat_inj.mp
  have low : v.toNat % 256 &&& 127 = v.toNat % 128 := by
    rw [Nat.and_two_pow_sub_one_eq_mod (v.toNat % 256) 7]
    omega
  have high := Nat.two_pow_add_eq_or_of_lt (i := 7) (b := v.toNat % 128) (by omega) 1
  rw [UInt8.toNat_or, UInt8.toNat_and, UInt64.toNat_toUInt8, Base128.toNat_more]
  simp only [UInt8.toNat_ofNat, Nat.reducePow, Nat.reduceMod, Nat.mul_one] at high ⊢
  rw [low, Nat.or_comm, ← high]
  omega

theorem word_last (v : UInt64) : v.toUInt8 = UInt8.ofNat v.toNat := by
  apply UInt8.toNat_inj.mp
  rw [UInt64.toNat_toUInt8, UInt8.toNat_ofNat']

theorem word_shift (v : UInt64) : (v >>> 7).toNat = v.toNat / 128 := by
  rw [UInt64.toNat_shiftRight]
  exact Nat.shiftRight_eq_div_pow v.toNat 7

theorem encodeVarintLoop_eq {spare : Nat} (hs : 0 < spare) {v : UInt64}
    (h : v.toNat < 128 ^ spare) (buf : List UInt8) :
    encodeVarintLoop spare v buf = buf ++ Base128.encode v.toNat := by
  induction spare generalizing v buf with
  | zero => omega
  | succ spare ih =>
    rw [encodeVarintLoop]
    by_cases small : v.toNat < 128
    · rw [if_neg (by rw [ge_iff_le, UInt64.le_iff_toNat_le]; simpa using small), word_last,
        Base128.encode_of_lt small]
    · have spare_pos : 0 < spare := by
        rcases Nat.eq_zero_or_pos spare with rfl | pos
        · simp only [Nat.zero_add, Nat.pow_one] at h
          omega
        · exact pos
      have next : (v >>> 7).toNat < 128 ^ spare := by
        rw [word_shift]
        exact Nat.div_lt_of_lt_mul (by rwa [Nat.pow_succ, Nat.mul_comm] at h)
      rw [if_pos (by rw [ge_iff_le, UInt64.le_iff_toNat_le]; simpa using Nat.le_of_not_lt small),
        ih spare_pos next, word_shift, word_more, Base128.encode_of_ge (n := v.toNat) (by omega)]
      simp

/-- Ten groups hold any `u64`. -/
theorem encodeVarintLoop_ten (v : UInt64) (buf : List UInt8) :
    encodeVarintLoop 10 v buf = buf ++ Base128.encode v.toNat := by
  have := v.toNat_lt
  exact encodeVarintLoop_eq (by omega) (by omega) buf

@[simp] theorem twEncodeVarint_eq (buf : List UInt8) (v : UInt64) :
    twEncodeVarint buf v = buf ++ Base128.encode v.toNat := by
  rw [twEncodeVarint]
  by_cases small : v.toNat < 128
  · rw [if_pos (by rw [UInt64.lt_iff_toNat_lt]; simpa using small), word_last,
      Base128.encode_of_lt small]
  · rw [if_neg (by rw [UInt64.lt_iff_toNat_lt]; simpa using small), encodeVarintLoop_ten]

/-- The rounded-up multiple `(9 * l + 73) / 64` counts the groups of a 64-bit word. -/
theorem groups_formula {l : Nat} (h : l < 64) : (l * 9 + (64 + 9)) / 64 = l / 7 + 1 := by
  omega

theorem twVarintLen_eq (v : UInt64) : twVarintLen v = (Base128.encode v.toNat).length := by
  have bound : (v.toNat ||| 1).log2 < 64 := by
    have or_lt : v.toNat ||| 1 < 2 ^ 64 := Nat.or_lt_two_pow v.toNat_lt (by decide)
    have ne : v.toNat ||| 1 ≠ 0 := by
      have := Nat.right_le_or (n := v.toNat) (m := 1)
      omega
    exact (Nat.log2_lt ne).2 or_lt
  rw [twVarintLen, UInt64.toNat_or, Base128.encode_length]
  exact groups_formula bound

/-! ## The varint reader -/

/-- Putting seven more bits above `s` bits already read, as far as 64 bits go. -/
theorem word_group {N s : Nat} (hN : N < 2 ^ s) (hs : s < 64) (b : UInt8) :
    UInt64.ofNat N ||| ((b &&& 0x7F).toUInt64 <<< UInt64.ofNat s) =
      UInt64.ofNat (N + 2 ^ s * (b.toNat % 128)) := by
  apply UInt64.toNat_inj.mp
  have fits : 2 ^ s ≤ 2 ^ 64 := Nat.pow_le_pow_right (by omega) (by omega)
  have split : 2 ^ 64 = 2 ^ s * 2 ^ (64 - s) := by
    rw [← Nat.pow_add]
    congr 1
    omega
  have group : (b &&& 0x7F).toNat = b.toNat % 128 := by
    rw [UInt8.toNat_and]
    exact Nat.and_two_pow_sub_one_eq_mod b.toNat 7
  have shifted : (b.toNat % 128) <<< s % 2 ^ 64 = 2 ^ s * (b.toNat % 128 % 2 ^ (64 - s)) := by
    rw [Nat.shiftLeft_eq, Nat.mul_comm, split, Nat.mul_mod_mul_left]
  rw [UInt64.toNat_or, UInt64.toNat_shiftLeft, UInt8.toNat_toUInt64, group, UInt64.toNat_ofNat',
    UInt64.toNat_ofNat', UInt64.toNat_ofNat', Nat.mod_eq_of_lt (by omega : N < 2 ^ 64),
    Nat.mod_eq_of_lt (by omega : s < 2 ^ 64), Nat.mod_eq_of_lt hs, shifted, Nat.or_comm,
    ← Nat.two_pow_add_eq_or_of_lt hN, split, Nat.mod_mul, Nat.add_mul_mod_self_left,
    Nat.mod_eq_of_lt hN, Nat.add_mul_div_left _ _ (Nat.two_pow_pos s), Nat.div_eq_of_lt hN,
    Nat.zero_add, Nat.add_comm]

theorem decodeVarintLoop_terminated {l : List UInt8} (h : Base128.Terminated l) :
    ∀ (rest : List UInt8) (i N : Nat), i + 2 + l.length ≤ 10 → N < 2 ^ (7 * (i + 2)) →
      decodeVarintLoop (l ++ rest) i (UInt64.ofNat N) (UInt64.ofNat (7 * (i + 2))) =
        .ok (UInt64.ofNat (N + 2 ^ (7 * (i + 2)) * Base128.value l), i + 2 + l.length) := by
  induction h with
  | @last b low =>
    intro rest i N len hN
    rw [List.length_singleton] at len
    rw [List.singleton_append, decodeVarintLoop, if_neg (by omega),
      if_pos (by rw [UInt8.lt_iff_toNat_lt]; exact low), word_group hN (by omega)]
    rfl
  | @more b tail high term ih =>
    intro rest i N len hN
    rw [List.length_cons] at len ⊢
    have := term.length_pos
    have shift : UInt64.ofNat (7 * (i + 2)) + 7 = UInt64.ofNat (7 * (i + 1 + 2)) := by
      rw [show 7 * (i + 1 + 2) = 7 * (i + 2) + 7 by omega, UInt64.ofNat_add]
      rfl
    have grows : 2 ^ (7 * (i + 1 + 2)) = 128 * 2 ^ (7 * (i + 2)) := by
      rw [show 7 * (i + 1 + 2) = 7 + 7 * (i + 2) by omega, Nat.pow_add]
    have bound : N + 2 ^ (7 * (i + 2)) * (b.toNat % 128) < 2 ^ (7 * (i + 1 + 2)) := by
      have : 2 ^ (7 * (i + 2)) * (b.toNat % 128) ≤ 2 ^ (7 * (i + 2)) * 127 :=
        Nat.mul_le_mul_left _ (by omega)
      omega
    have total : N + 2 ^ (7 * (i + 2)) * (b.toNat % 128) +
        2 ^ (7 * (i + 1 + 2)) * Base128.value tail =
        N + 2 ^ (7 * (i + 2)) * (b.toNat % 128 + 128 * Base128.value tail) := by
      rw [grows]
      ring
    rw [List.cons_append, decodeVarintLoop, if_neg (by omega),
      if_neg (by rw [UInt8.lt_iff_toNat_lt]; exact Nat.not_lt.2 high), word_group hN (by omega),
      shift, ih rest (i + 1) _ (by omega) bound, total, Base128.value,
      show i + 1 + 2 + tail.length = i + 2 + (tail.length + 1) by omega]

theorem byte_below {b : UInt8} : b < 0x80 ↔ b.toNat < 128 := UInt8.lt_iff_toNat_lt

theorem twDecodeVarint_one {b0 : UInt8} (h : b0.toNat < 128) (rest : List UInt8) :
    twDecodeVarint (b0 :: rest) = .ok (b0.toUInt64, 1) := by
  simp [twDecodeVarint, byte_below.2 h]

theorem twDecodeVarint_two {b0 b1 : UInt8} (h0 : 128 ≤ b0.toNat) (h1 : b1.toNat < 128)
    (rest : List UInt8) :
    twDecodeVarint (b0 :: b1 :: rest) =
      .ok ((b0 &&& 0x7F).toUInt64 ||| (b1.toUInt64 <<< 7), 2) := by
  have high : ¬ b0 < 0x80 := by rw [byte_below]; omega
  simp [twDecodeVarint, high, byte_below.2 h1]

theorem twDecodeVarint_more {b0 b1 : UInt8} (h0 : 128 ≤ b0.toNat) (h1 : 128 ≤ b1.toNat)
    (rest : List UInt8) :
    twDecodeVarint (b0 :: b1 :: rest) =
      decodeVarintLoop rest 0
        ((b0 &&& 0x7F).toUInt64 ||| ((b1 &&& 0x7F).toUInt64 <<< 7)) 14 := by
  have high : ¬ b0 < 0x80 := by rw [byte_below]; omega
  have high1 : ¬ b1 < 0x80 := by rw [byte_below]; omega
  simp [twDecodeVarint, high, high1]

theorem group_of_low {b : UInt8} (h : b.toNat < 128) : b &&& 0x7F = b := by
  apply UInt8.toNat_inj.mp
  rw [UInt8.toNat_and]
  exact (Nat.and_two_pow_sub_one_eq_mod b.toNat 7).trans (Nat.mod_eq_of_lt h)

theorem first_group (b : UInt8) : (b &&& 0x7F).toUInt64 = UInt64.ofNat (b.toNat % 128) := by
  have := word_group (N := 0) (s := 0) (by omega) (by omega) b
  simpa using this

/-- The reader accepts every spelling of at most ten groups, whatever follows it. -/
theorem twDecodeVarint_terminated {l : List UInt8} (h : Base128.Terminated l)
    (len : l.length ≤ 10) (rest : List UInt8) :
    twDecodeVarint (l ++ rest) = .ok (UInt64.ofNat (Base128.value l), l.length) := by
  cases h with
  | @last b low =>
    have word : b.toUInt64 = UInt64.ofNat (Base128.value [b]) := by
      rw [← group_of_low low, first_group, Base128.value, Base128.value, group_of_low low]
      rfl
    rw [List.singleton_append, twDecodeVarint_one low, word]
    rfl
  | @more b0 tail high0 term =>
    cases term with
    | @last b1 low1 =>
      rw [List.cons_append, List.singleton_append, twDecodeVarint_two high0 low1, first_group,
        ← group_of_low low1, show (7 : UInt64) = UInt64.ofNat 7 from rfl,
        word_group (by omega) (by omega), group_of_low low1]
      simp [Base128.value]
    | @more b1 tail high1 term =>
      rw [List.length_cons, List.length_cons] at len
      have total : b0.toNat % 128 + 2 ^ 7 * (b1.toNat % 128) +
          2 ^ (7 * (0 + 2)) * Base128.value tail =
          b0.toNat % 128 + 128 * (b1.toNat % 128 + 128 * Base128.value tail) := by
        ring
      rw [List.cons_append, List.cons_append, twDecodeVarint_more high0 high1, first_group,
        show (7 : UInt64) = UInt64.ofNat 7 from rfl, word_group (by omega) (by omega),
        show (14 : UInt64) = UInt64.ofNat (7 * (0 + 2)) from rfl,
        decodeVarintLoop_terminated term rest 0 _ (by omega) (by omega), total]
      simp only [Base128.value, List.length_cons]
      rw [show 0 + 2 + tail.length = tail.length + 1 + 1 by omega]

theorem decodeVarintLoop_sound :
    ∀ {bytes : List UInt8} {i c : Nat} {value shift v : UInt64},
      decodeVarintLoop bytes i value shift = .ok (v, c) →
      ∃ l rest, bytes = l ++ rest ∧ Base128.Terminated l ∧ i + 2 + l.length ≤ 10 := by
  intro bytes
  induction bytes with
  | nil => intro i c value shift v h; cases h
  | cons b bytes ih =>
    intro i c value shift v h
    rw [decodeVarintLoop] at h
    split at h
    · cases h
    · by_cases low : b < 0x80
      · exact ⟨[b], bytes, rfl, .last (byte_below.1 low), by simp; omega⟩
      · rw [if_neg low] at h
        obtain ⟨l, rest, rfl, term, len⟩ := ih h
        refine ⟨b :: l, rest, rfl, .more ?_ term, by simp; omega⟩
        rw [byte_below] at low
        omega

/-- What the reader accepts is such a spelling: it reads no byte past the one that ends it. -/
theorem twDecodeVarint_sound {bytes : List UInt8} {v : UInt64} {c : Nat}
    (h : twDecodeVarint bytes = .ok (v, c)) :
    ∃ l rest, bytes = l ++ rest ∧ Base128.Terminated l ∧ l.length ≤ 10 ∧
      v = UInt64.ofNat (Base128.value l) ∧ c = l.length := by
  suffices ∃ l rest, bytes = l ++ rest ∧ Base128.Terminated l ∧ l.length ≤ 10 by
    obtain ⟨l, rest, rfl, term, len⟩ := this
    rw [twDecodeVarint_terminated term len] at h
    cases h
    exact ⟨l, rest, rfl, term, len, rfl, rfl⟩
  match bytes with
  | [] => cases h
  | b0 :: tail =>
    by_cases low0 : b0.toNat < 128
    · exact ⟨[b0], tail, rfl, .last low0, by simp⟩
    · match tail with
      | [] =>
        have high : ¬ b0 < 0x80 := by rwa [byte_below]
        simp [twDecodeVarint, high] at h
      | b1 :: tail =>
        by_cases low1 : b1.toNat < 128
        · exact ⟨[b0, b1], tail, rfl, .more (by omega) (.last low1), by simp⟩
        · rw [twDecodeVarint_more (by omega) (by omega)] at h
          obtain ⟨l, rest, rfl, term, len⟩ := decodeVarintLoop_sound h
          exact ⟨b0 :: b1 :: l, rest, rfl, .more (by omega) (.more (by omega) term), by simp; omega⟩

theorem twDecodeVarint_bounds {bytes : List UInt8} {v : UInt64} {c : Nat}
    (h : twDecodeVarint bytes = .ok (v, c)) : 0 < c ∧ c ≤ 10 ∧ c ≤ bytes.length := by
  obtain ⟨l, rest, rfl, term, len, -, rfl⟩ := twDecodeVarint_sound h
  have := term.length_pos
  rw [List.length_append]
  omega

/-- `l` is a varint of the word `v`, be it the shortest one or not. -/
structure Spells (l : List UInt8) (v : UInt64) : Prop where
  terminated : Base128.Terminated l
  short : l.length ≤ 10
  value : UInt64.ofNat (Base128.value l) = v

/-- The writer's spelling. -/
theorem spells_encode (v : UInt64) : Spells (Base128.encode v.toNat) v where
  terminated := Base128.encode_terminated _
  short := by
    have := v.toNat_lt
    exact Base128.encode_length_le (by omega) (by omega)
  value := by rw [Base128.value_encode, UInt64.ofNat_toNat]

theorem Spells.decode {l : List UInt8} {v : UInt64} (h : Spells l v) (rest : List UInt8) :
    twDecodeVarint (l ++ rest) = .ok (v, l.length) := by
  rw [twDecodeVarint_terminated h.terminated h.short, h.value]

theorem Spells.length_pos {l : List UInt8} {v : UInt64} (h : Spells l v) : 0 < l.length :=
  h.terminated.length_pos

end Typeway.Protobuf
