import Mathlib.Data.Nat.Bitwise

/-!
# Little-endian words and binary floating-point words

A word of `n` bytes, least significant byte first, and what a floating-point word needs of
IEEE 754 to be compared and converted: which words are a zero, which two words are the same
number, and the nearest word to a natural number.
-/

namespace LittleEndian

/-- The low `n` bytes of `v`. -/
def encode : Nat → Nat → List UInt8
  | 0, _ => []
  | n + 1, v => UInt8.ofNat v :: encode n (v / 256)

def value : List UInt8 → Nat
  | [] => 0
  | b :: rest => b.toNat + 256 * value rest

@[simp] theorem encode_length (n v : Nat) : (encode n v).length = n := by
  induction n generalizing v with
  | zero => rfl
  | succ n ih => rw [encode, List.length_cons, ih]

theorem value_encode {n v : Nat} (h : v < 256 ^ n) : value (encode n v) = v := by
  induction n generalizing v with
  | zero =>
    have : v = 0 := by simpa using h
    rw [this]
    rfl
  | succ n ih =>
    have small : v / 256 < 256 ^ n :=
      Nat.div_lt_of_lt_mul (by rwa [Nat.pow_succ, Nat.mul_comm] at h)
    rw [encode, value, ih small, UInt8.toNat_ofNat']
    omega

/-- Only the low bytes count. -/
theorem encode_mod (n v : Nat) : encode n (v % 256 ^ n) = encode n v := by
  induction n generalizing v with
  | zero => rfl
  | succ n ih =>
    have low : UInt8.ofNat (v % 256 ^ (n + 1)) = UInt8.ofNat v := by
      apply UInt8.toNat_inj.1
      rw [UInt8.toNat_ofNat', UInt8.toNat_ofNat', Nat.pow_succ]
      exact Nat.mod_mul_left_mod v (256 ^ n) 256
    have high : v % 256 ^ (n + 1) / 256 = v / 256 % 256 ^ n := by
      rw [Nat.pow_succ, Nat.mul_comm]
      exact Nat.mod_mul_right_div_self v 256 (256 ^ n)
    rw [encode, encode, low, high, ih]

theorem value_lt (bytes : List UInt8) : value bytes < 256 ^ bytes.length := by
  induction bytes with
  | nil => exact Nat.one_pos
  | cons b rest ih =>
    have small := b.toNat_lt
    rw [value, List.length_cons, Nat.pow_succ]
    omega

theorem encode_value (bytes : List UInt8) : encode bytes.length (value bytes) = bytes := by
  induction bytes with
  | nil => rfl
  | cons b rest ih =>
    have small := b.toNat_lt
    have high : (b.toNat + 256 * value rest) / 256 = value rest := by omega
    rw [value, List.length_cons, encode, high, ih, List.cons.injEq]
    refine ⟨?_, rfl⟩
    apply UInt8.toNat_inj.1
    rw [UInt8.toNat_ofNat']
    omega

end LittleEndian

namespace Ieee

/-- A word of `n` bytes in memory order. -/
def toLeBytes {n : Nat} (x : BitVec (8 * n)) : List UInt8 :=
  LittleEndian.encode n x.toNat

def fromLeBytes (n : Nat) (bytes : List UInt8) : BitVec (8 * n) :=
  BitVec.ofNat (8 * n) (LittleEndian.value bytes)

@[simp] theorem toLeBytes_length {n : Nat} (x : BitVec (8 * n)) : (toLeBytes x).length = n :=
  LittleEndian.encode_length n x.toNat

@[simp] theorem fromLeBytes_toLeBytes {n : Nat} (x : BitVec (8 * n)) :
    fromLeBytes n (toLeBytes x) = x := by
  have bound : x.toNat < 256 ^ n := by
    have := x.isLt
    rwa [Nat.pow_mul] at this
  rw [fromLeBytes, toLeBytes, LittleEndian.value_encode bound, BitVec.ofNat_toNat,
    BitVec.setWidth_eq]

/-- Every bit but the sign is zero: the word is `0.0` or `-0.0`. -/
def isZero {w : Nat} (x : BitVec w) : Bool :=
  x.setWidth (w - 1) == 0

/-- Comparison by value: equal words, or two zeros of any sign. On words that are not a
NaN this is the floating-point `==`. -/
def SameValue {w : Nat} (x y : BitVec w) : Prop :=
  x = y ∨ isZero x = true ∧ isZero y = true

@[simp] theorem isZero_zero (w : Nat) : isZero 0#w = true := by
  simp [isZero]

theorem SameValue.refl {w : Nat} (x : BitVec w) : SameValue x x := .inl rfl

/-- The word of the number nearest to `n`, ties to the even mantissa, for a format with `p`
stored mantissa bits and the given exponent bias. A carry out of the mantissa goes into the
exponent, as the format wants. -/
def ofNat (p bias n : Nat) : Nat :=
  let e := n.log2
  if n = 0 then 0
  else if e ≤ p then (e + bias) * 2 ^ p + (n * 2 ^ (p - e) - 2 ^ p)
  else
    let q := n / 2 ^ (e - p)
    let r := n % 2 ^ (e - p)
    let half := 2 ^ (e - p - 1)
    let up := if half < r ∨ r = half ∧ q % 2 = 1 then 1 else 0
    (e + bias) * 2 ^ p + (q + up - 2 ^ p)

example : ofNat 23 127 16777217 = 0x4b800000 := by decide
example : ofNat 52 1023 3 = 0x4008000000000000 := by decide

end Ieee
