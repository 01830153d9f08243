import Mathlib.Data.Nat.Bitwise
import Mathlib.Tactic.IntervalCases

/-!
# Base-128 groups

A natural number as bytes of seven bits each, least significant group first. Every byte
but the last carries the continuation bit `0x80`. `Terminated` says which byte strings
have that shape, canonical or not, and `value` is the number such a string stands for, so
facts about readers can be stated for every well-formed spelling of a number.
-/

namespace Base128

/-- The shortest spelling of `n`. -/
def encode (n : Nat) : List UInt8 :=
  if n < 128 then [UInt8.ofNat n] else UInt8.ofNat (n % 128 + 128) :: encode (n / 128)
termination_by n
decreasing_by omega

/-- The number a byte string stands for, continuation bits ignored. -/
def value : List UInt8 → Nat
  | [] => 0
  | b :: rest => b.toNat % 128 + 128 * value rest

/-- Every byte but the last carries the continuation bit, and the last does not. -/
inductive Terminated : List UInt8 → Prop where
  | last {b : UInt8} (low : b.toNat < 128) : Terminated [b]
  | more {b : UInt8} {rest : List UInt8} (high : 128 ≤ b.toNat) (tail : Terminated rest) :
      Terminated (b :: rest)

theorem encode_of_lt {n : Nat} (h : n < 128) : encode n = [UInt8.ofNat n] := by
  rw [encode, if_pos h]

theorem encode_of_ge {n : Nat} (h : 128 ≤ n) :
    encode n = UInt8.ofNat (n % 128 + 128) :: encode (n / 128) := by
  rw [encode, if_neg (by omega)]

theorem toNat_more (n : Nat) : (UInt8.ofNat (n % 128 + 128)).toNat = n % 128 + 128 := by
  rw [UInt8.toNat_ofNat']
  omega

theorem encode_terminated (n : Nat) : Terminated (encode n) := by
  induction n using Nat.strongRecOn with
  | ind n ih =>
    by_cases h : n < 128
    · rw [encode_of_lt h]
      exact .last (by rw [UInt8.toNat_ofNat']; omega)
    · rw [encode_of_ge (by omega)]
      exact .more (by rw [toNat_more]; omega) (ih (n / 128) (by omega))

@[simp] theorem value_encode (n : Nat) : value (encode n) = n := by
  induction n using Nat.strongRecOn with
  | ind n ih =>
    by_cases h : n < 128
    · rw [encode_of_lt h, value, value, UInt8.toNat_ofNat']
      omega
    · rw [encode_of_ge (by omega), value, toNat_more, ih (n / 128) (by omega)]
      omega

theorem Terminated.length_pos {l : List UInt8} (h : Terminated l) : 0 < l.length := by
  cases h <;> simp

/-- A spelling ends where it ends, whatever comes behind it. -/
theorem Terminated.append_inj {l l' rest rest' : List UInt8} (h : Terminated l)
    (h' : Terminated l') (same : l ++ rest = l' ++ rest') : l = l' ∧ rest = rest' := by
  induction h generalizing l' with
  | last low =>
    cases h' with
    | last low' =>
      cases same
      exact ⟨rfl, rfl⟩
    | more high tail =>
      cases same
      omega
  | more high tail ih =>
    cases h' with
    | last low =>
      cases same
      omega
    | more high' tail' =>
      rw [List.cons_append, List.cons_append, List.cons.injEq] at same
      obtain ⟨rfl, rfl⟩ := ih tail' same.2
      exact ⟨by rw [same.1], rfl⟩

/-- The byte that ends a spelling is its only one below 128. -/
theorem Terminated.low_iff {l : List UInt8} (h : Terminated l) :
    ∀ {j : Nat} {b : UInt8}, l[j]? = some b → (b.toNat < 128 ↔ j + 1 = l.length) := by
  induction h with
  | last low =>
    intro j b here
    cases j with
    | zero =>
      cases here
      simpa using low
    | succ j => simp at here
  | more high tail ih =>
    intro j b here
    cases j with
    | zero =>
      cases here
      have := tail.length_pos
      rw [List.length_cons]
      omega
    | succ j =>
      rw [ih here, List.length_cons]
      omega

theorem encode_length_pos (n : Nat) : 0 < (encode n).length :=
  (encode_terminated n).length_pos

/-- `k` groups are enough for `7 * k` bits. -/
theorem encode_length_le {k n : Nat} (hk : 0 < k) (h : n < 128 ^ k) : (encode n).length ≤ k := by
  induction k generalizing n with
  | zero => omega
  | succ k ih =>
    by_cases small : n < 128
    · rw [encode_of_lt small]
      simp
    · have hk : 0 < k := by
        rcases Nat.eq_zero_or_pos k with rfl | hk
        · simp only [Nat.zero_add, Nat.pow_one] at h
          omega
        · exact hk
      have bound : n / 128 < 128 ^ k :=
        Nat.div_lt_of_lt_mul (by rwa [Nat.pow_succ, Nat.mul_comm] at h)
      rw [encode_of_ge (by omega), List.length_cons]
      have := ih hk bound
      omega

theorem log2_or_one {n : Nat} (h : 0 < n) : (n ||| 1).log2 = n.log2 := by
  have ne : n ||| 1 ≠ 0 := by
    have := Nat.left_le_or (n := n) (m := 1)
    omega
  have low := Nat.log2_self_le (n := n) (by omega)
  have high : n < 2 ^ (n.log2 + 1) := Nat.lt_log2_self
  rw [Nat.log2_eq_iff ne]
  exact ⟨low.trans Nat.left_le_or, Nat.or_lt_two_pow high (Nat.one_lt_two_pow (by omega))⟩

theorem log2_div_128 {n : Nat} (h : 128 ≤ n) : (n / 128).log2 + 7 = n.log2 := by
  have low := Nat.log2_self_le (n := n / 128) (by omega)
  have high : n / 128 < 2 ^ ((n / 128).log2 + 1) := Nat.lt_log2_self
  symm
  rw [Nat.log2_eq_iff (by omega)]
  constructor
  · rw [Nat.pow_add]
    omega
  · rw [show (n / 128).log2 + 7 + 1 = (n / 128).log2 + 1 + 7 by omega, Nat.pow_add]
    omega

/-- The number of groups from the position of the highest bit. -/
theorem encode_length (n : Nat) : (encode n).length = (n ||| 1).log2 / 7 + 1 := by
  have pos : ∀ m, 0 < m → (encode m).length = m.log2 / 7 + 1 := by
    intro m
    induction m using Nat.strongRecOn with
    | ind m ih =>
      intro hm
      by_cases h : m < 128
      · have : m.log2 < 7 := (Nat.log2_lt (by omega)).2 h
        rw [encode_of_lt h, List.length_singleton]
        omega
      · rw [encode_of_ge (by omega), List.length_cons, ih (m / 128) (by omega) (by omega),
          ← log2_div_128 (n := m) (by omega)]
        omega
  rcases Nat.eq_zero_or_pos n with rfl | h
  · rw [encode_of_lt (by omega)]
    rfl
  · rw [pos n h, log2_or_one h]

end Base128
