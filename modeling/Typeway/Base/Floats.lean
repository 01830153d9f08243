import Mathlib.Tactic.Ring
import Typeway.Base.LittleEndian

/-!
# Conversions between floating-point formats

A finite word stands for a multiple of the format's smallest number, and `scaled` is the factor.
`round` goes the other way, to the nearest word, so a conversion between formats is `round`
after `scaled`. Casts to integers cut off the fraction and saturate.
-/

namespace Ieee

/-- The number a word without its sign stands for, counted in smallest positive numbers of a
format with `p` stored mantissa bits. -/
def scaled (p w : Nat) : Nat :=
  if w / 2 ^ p = 0 then w % 2 ^ p else (2 ^ p + w % 2 ^ p) * 2 ^ (w / 2 ^ p - 1)

/-- The word nearest to `n`, ties to the even mantissa, where `n` counts in units `2 ^ u` times
smaller than the format's smallest positive number. -/
def round (p u n : Nat) : Nat :=
  let shift := max (n.log2 - p) u
  let q := n / 2 ^ shift
  let r := n % 2 ^ shift
  let half := 2 ^ (shift - 1)
  let up := if shift ≠ 0 ∧ (half < r ∨ r = half ∧ q % 2 = 1) then 1 else 0
  (shift - u) * 2 ^ p + (q + up)

example : round 23 0 (scaled 23 0x3F800000) = 0x3F800000 := by decide

/-- Nothing is rounded off a multiple of the last place. -/
theorem round_of_dvd {p u n : Nat} (h : 2 ^ max (n.log2 - p) u ∣ n) :
    round p u n = (max (n.log2 - p) u - u) * 2 ^ p + n / 2 ^ max (n.log2 - p) u := by
  have exact := Nat.mod_eq_zero_of_dvd h
  have half : 0 < 2 ^ (max (n.log2 - p) u - 1) := Nat.two_pow_pos _
  simp only [round, exact]
  rw [if_neg, Nat.add_zero]
  rintro ⟨-, low | ⟨same, -⟩⟩
  · omega
  · omega

theorem log2_mul_two_pow {a k : Nat} (pos : 0 < a) : (a * 2 ^ k).log2 = a.log2 + k := by
  have low := Nat.log2_self_le (n := a) (by omega)
  have high : a < 2 ^ (a.log2 + 1) := Nat.lt_log2_self
  have two := Nat.two_pow_pos k
  rw [Nat.log2_eq_iff (Nat.mul_ne_zero (by omega) (by omega))]
  constructor
  · rw [Nat.pow_add]
    exact Nat.mul_le_mul_right _ low
  · rw [show a.log2 + k + 1 = a.log2 + 1 + k by omega, Nat.pow_add]
    exact Nat.mul_lt_mul_of_pos_right high two

/-- The mantissa of a normal word has its leading bit. -/
theorem log2_leading {p f : Nat} (low : f < 2 ^ p) : (2 ^ p + f).log2 = p := by
  rw [Nat.log2_eq_iff (by have := Nat.two_pow_pos p; omega), Nat.pow_succ]
  omega

theorem log2_le_of_lt {p f : Nat} (low : f < 2 ^ p) : f.log2 ≤ p := by
  rcases Nat.eq_zero_or_pos f with rfl | pos
  · simp
  · exact Nat.le_of_lt ((Nat.log2_lt (by omega)).2 low)

/-- Every word is its own nearest word, in finer units too. -/
theorem round_scaled (p u w : Nat) : round p u (scaled p w * 2 ^ u) = w := by
  have two := Nat.two_pow_pos p
  have low : w % 2 ^ p < 2 ^ p := Nat.mod_lt _ two
  have split := Nat.div_add_mod w (2 ^ p)
  by_cases sub : w / 2 ^ p = 0
  · rw [scaled, if_pos sub]
    have small : w % 2 ^ p = w := by
      rw [sub, Nat.mul_zero, Nat.zero_add] at split
      exact split
    rw [small] at low ⊢
    have shift : max ((w * 2 ^ u).log2 - p) u = u := by
      rcases Nat.eq_zero_or_pos w with rfl | pos
      · simp
      · have := log2_le_of_lt low
        rw [log2_mul_two_pow pos]
        omega
    rw [round_of_dvd (by rw [shift]; exact Nat.dvd_mul_left _ _), shift,
      Nat.mul_div_cancel _ (Nat.two_pow_pos u), Nat.sub_self, Nat.zero_mul, Nat.zero_add]
  · rw [scaled, if_neg sub, Nat.mul_assoc, ← Nat.pow_add]
    have shift : max (((2 ^ p + w % 2 ^ p) * 2 ^ (w / 2 ^ p - 1 + u)).log2 - p) u =
        w / 2 ^ p - 1 + u := by
      rw [log2_mul_two_pow (by omega), log2_leading low]
      omega
    rw [round_of_dvd (by rw [shift]; exact Nat.dvd_mul_left _ _), shift,
      Nat.mul_div_cancel _ (Nat.two_pow_pos _), Nat.add_sub_cancel]
    have : (w / 2 ^ p - 1) * 2 ^ p + 2 ^ p = w / 2 ^ p * 2 ^ p := by
      rw [← Nat.succ_mul, Nat.succ_eq_add_one, Nat.sub_add_cancel (Nat.pos_of_ne_zero sub)]
    rw [Nat.mul_comm (w / 2 ^ p)] at this
    omega

/-- The bits that are left of a number have the leading one in the mantissa or below it. -/
theorem quotient_lt (p n : Nat) : n / 2 ^ (n.log2 - p) < 2 ^ (p + 1) := by
  apply Nat.div_lt_of_lt_mul
  rw [← Nat.pow_add]
  exact lt_of_lt_of_le Nat.lt_log2_self (Nat.pow_le_pow_right (by omega) (by omega))

/-- A number with no more bits than the mantissa has is a word of the format. -/
theorem scaled_round {p n : Nat} (h : 2 ^ (n.log2 - p) ∣ n) : scaled p (round p 0 n) = n := by
  have two := Nat.two_pow_pos p
  have shift : max (n.log2 - p) 0 = n.log2 - p := Nat.max_zero _
  rw [round_of_dvd (by rwa [shift]), shift, Nat.sub_zero]
  generalize s_eq : n.log2 - p = s at h
  obtain ⟨q, rfl⟩ := h
  rw [Nat.mul_div_cancel_left _ (Nat.two_pow_pos s)]
  by_cases small : q < 2 ^ p
  · -- below the leading bit there is nothing to shift
    have none : s * 2 ^ p = 0 := by
      rcases Nat.eq_zero_or_pos q with rfl | pos
      · rw [Nat.mul_zero, Nat.log2_zero] at s_eq
        rw [← s_eq, Nat.zero_sub, Nat.zero_mul]
      · have := (Nat.log2_lt (by omega)).2 small
        rw [Nat.mul_comm, log2_mul_two_pow pos] at s_eq
        have : s = 0 := by omega
        rw [this, Nat.zero_mul]
    have zero : s = 0 := by
      rcases Nat.mul_eq_zero.1 none with zero | zero
      · exact zero
      · omega
    rw [none, Nat.zero_add, scaled, Nat.div_eq_of_lt small, if_pos rfl, Nat.mod_eq_of_lt small,
      zero, Nat.pow_zero, Nat.one_mul]
  · have pos : 0 < q := by omega
    have bound : q < 2 ^ (p + 1) := by
      have := quotient_lt p (2 ^ s * q)
      rwa [s_eq, Nat.mul_div_cancel_left _ (Nat.two_pow_pos s)] at this
    rw [Nat.pow_succ] at bound
    have field : (s * 2 ^ p + q) / 2 ^ p = s + 1 := by
      rw [show s * 2 ^ p + q = q - 2 ^ p + (s + 1) * 2 ^ p by rw [Nat.succ_mul]; omega,
        Nat.add_mul_div_right _ _ two, Nat.div_eq_of_lt (by omega), Nat.zero_add]
    have rest : (s * 2 ^ p + q) % 2 ^ p = q - 2 ^ p := by
      rw [show s * 2 ^ p + q = q - 2 ^ p + (s + 1) * 2 ^ p by rw [Nat.succ_mul]; omega,
        Nat.add_mul_mod_self_right, Nat.mod_eq_of_lt (by omega)]
    rw [scaled, field, rest, if_neg (by omega), Nat.add_sub_cancel,
      show 2 ^ p + (q - 2 ^ p) = q by omega, Nat.mul_comm]

theorem round_lt {p n : Nat} (h : 2 ^ (n.log2 - p) ∣ n) :
    round p 0 n < (n.log2 - p + 2) * 2 ^ p := by
  have shift : max (n.log2 - p) 0 = n.log2 - p := Nat.max_zero _
  have := quotient_lt p n
  rw [Nat.pow_succ] at this
  rw [round_of_dvd (by rwa [shift]), shift, Nat.sub_zero, Nat.add_mul]
  omega

/-- A number of a format is a mantissa and a power of two. -/
theorem scaled_split (p w : Nat) :
    ∃ a k, scaled p w = a * 2 ^ k ∧ a < 2 ^ (p + 1) ∧ k ≤ w / 2 ^ p - 1 := by
  have low : w % 2 ^ p < 2 ^ p := Nat.mod_lt _ (Nat.two_pow_pos p)
  rw [scaled, Nat.pow_succ]
  split
  · exact ⟨w % 2 ^ p, 0, (Nat.mul_one _).symm, by omega, Nat.zero_le _⟩
  · exact ⟨2 ^ p + w % 2 ^ p, _, rfl, by omega, le_refl _⟩

/-! ### Single and double precision -/

/-- The bits below the sign. -/
def magnitude {n : Nat} (x : BitVec (8 * n)) : Nat :=
  x.toNat % 2 ^ (8 * n - 1)

def sign {n : Nat} (x : BitVec (8 * n)) : Nat :=
  x.toNat / 2 ^ (8 * n - 1)

/-- A word of `n` bytes from its sign and the bits below it. -/
def word (n : Nat) (sign magnitude : Nat) : BitVec (8 * n) :=
  .ofNat _ (sign * 2 ^ (8 * n - 1) + magnitude)

def isFinite32 (x : BitVec (8 * 4)) : Bool :=
  magnitude x / 2 ^ 23 < 255

def isFinite64 (x : BitVec (8 * 8)) : Bool :=
  magnitude x / 2 ^ 52 < 2047

/-- The smallest positive single is the smallest positive double times two to the power of it. -/
def unitGap : Nat := 925

/-- `x as f64` of an `f32`. -/
def widen (x : BitVec (8 * 4)) : BitVec (8 * 8) :=
  word 8 (sign x)
    (if isFinite32 x then round 52 0 (scaled 23 (magnitude x) * 2 ^ unitGap)
    else 2047 * 2 ^ 52 + magnitude x % 2 ^ 23 * 2 ^ 29)

/-- `x as f32` of an `f64`. -/
def narrow (x : BitVec (8 * 8)) : BitVec (8 * 4) :=
  word 4 (sign x)
    (if isFinite64 x then min (round 23 unitGap (scaled 52 (magnitude x))) (255 * 2 ^ 23)
    else if magnitude x % 2 ^ 52 = 0 then 255 * 2 ^ 23
    else 255 * 2 ^ 23 + 2 ^ 22)

example : widen 0x3F800000 = 0x3FF0000000000000 := by decide +kernel
example : narrow 0x3FF0000000000000 = 0x3F800000 := by decide +kernel

/-- `i as f64` of an integer. -/
def ofInt (i : Int) : BitVec (8 * 8) :=
  word 8 (if i < 0 then 1 else 0) (ofNat 52 1023 i.natAbs)

/-- `x as i128` of an `f64`, cut down to `low..=high`: a NaN is 0 and an infinity a bound. -/
def toInt (low high : Int) (x : BitVec (8 * 8)) : Int :=
  if magnitude x > 2047 * 2 ^ 52 then 0
  else
    let n : Int := ((if isFinite64 x then scaled 52 (magnitude x) / 2 ^ 1074 else 2 ^ 64 : Nat) : Int)
    max low (min high (if sign x = 0 then n else -n))

example : toInt (-2 ^ 63) (2 ^ 63 - 1) (ofInt (-3)) = -3 := by decide +kernel

theorem sign_word {n s m : Nat} (pos : 0 < n) (hs : s < 2) (hm : m < 2 ^ (8 * n - 1)) :
    sign (word n s m) = s ∧ magnitude (word n s m) = m := by
  have top : 2 ^ (8 * n) = 2 * 2 ^ (8 * n - 1) := by
    rw [← Nat.pow_succ']
    congr 1
    omega
  have fits : s * 2 ^ (8 * n - 1) + m < 2 ^ (8 * n) := by
    have : s * 2 ^ (8 * n - 1) ≤ 1 * 2 ^ (8 * n - 1) := Nat.mul_le_mul_right _ (by omega)
    omega
  have two := Nat.two_pow_pos (8 * n - 1)
  rw [sign, magnitude, word, BitVec.toNat_ofNat, Nat.mod_eq_of_lt fits, Nat.add_comm,
    Nat.add_mul_div_right _ _ two, Nat.div_eq_of_lt hm, Nat.zero_add, Nat.add_mul_mod_self_right,
    Nat.mod_eq_of_lt hm]
  exact ⟨rfl, rfl⟩

theorem word_sign {n : Nat} (x : BitVec (8 * n)) : word n (sign x) (magnitude x) = x := by
  rw [word, sign, magnitude, Nat.div_add_mod', BitVec.ofNat_toNat, BitVec.setWidth_eq]

theorem sign_lt {n : Nat} (pos : 0 < n) (x : BitVec (8 * n)) : sign x < 2 := by
  have top : 2 ^ (8 * n) = 2 ^ (8 * n - 1) * 2 := by
    rw [← Nat.pow_succ]
    congr 1
    omega
  exact Nat.div_lt_of_lt_mul (top ▸ x.isLt)

theorem isZero_iff {n : Nat} (x : BitVec (8 * n)) : isZero x = true ↔ magnitude x = 0 := by
  rw [isZero, beq_iff_eq, ← BitVec.toNat_inj, BitVec.toNat_setWidth]
  simp [magnitude]

theorem magnitude_widen {x : BitVec (8 * 4)} (finite : isFinite32 x = true) :
    sign (widen x) = sign x ∧ scaled 52 (magnitude (widen x)) = scaled 23 (magnitude x) * 2 ^ unitGap ∧
      isFinite64 (widen x) = true := by
  have small : magnitude x / 2 ^ 23 < 255 := by simpa [isFinite32] using finite
  have gap : unitGap = 925 := rfl
  obtain ⟨a, k, split, low, high⟩ := scaled_split 23 (magnitude x)
  -- a mantissa of 24 bits is also one of 53
  have fits : 2 ^ ((scaled 23 (magnitude x) * 2 ^ unitGap).log2 - 52) ∣
      scaled 23 (magnitude x) * 2 ^ unitGap := by
    rw [split, Nat.mul_assoc, ← Nat.pow_add]
    rcases Nat.eq_zero_or_pos a with rfl | pos
    · simp
    · have := (Nat.log2_lt (by omega)).2 low
      rw [log2_mul_two_pow pos]
      exact (Nat.pow_dvd_pow 2 (by omega)).trans (Nat.dvd_mul_left _ _)
  have bits : (scaled 23 (magnitude x) * 2 ^ unitGap).log2 ≤ 23 + (253 + unitGap) := by
    rw [split, Nat.mul_assoc, ← Nat.pow_add]
    rcases Nat.eq_zero_or_pos a with rfl | pos
    · simp
    · have := (Nat.log2_lt (by omega)).2 low
      rw [log2_mul_two_pow pos]
      omega
  have back := scaled_round fits
  have below := round_lt fits
  rw [widen, if_pos finite]
  generalize scaled 23 (magnitude x) * 2 ^ unitGap = m at bits back below ⊢
  have fit : round 52 0 m < 2 ^ (8 * 8 - 1) := by omega
  obtain ⟨sign_eq, magnitude_eq⟩ := sign_word (n := 8) (by omega) (sign_lt (by omega) x) fit
  rw [isFinite64, sign_eq, magnitude_eq, back, decide_eq_true_eq]
  have exponent : m.log2 - 52 + 2 ≤ 2047 := by omega
  refine ⟨rfl, rfl, Nat.div_lt_of_lt_mul ?_⟩
  rw [Nat.mul_comm]
  exact lt_of_lt_of_le below (Nat.mul_le_mul_right _ exponent)

theorem scaled_eq_zero {p w : Nat} : scaled p w = 0 ↔ w = 0 := by
  have two := Nat.two_pow_pos p
  have split := Nat.div_add_mod w (2 ^ p)
  rw [scaled]
  split
  · rename_i sub
    rw [sub, Nat.mul_zero, Nat.zero_add] at split
    rw [split]
  · rename_i normal
    have some : (2 ^ p + w % 2 ^ p) * 2 ^ (w / 2 ^ p - 1) ≠ 0 :=
      Nat.mul_ne_zero (by omega) (Nat.two_pow_pos _).ne'
    refine iff_of_false some fun zero => normal ?_
    rw [zero, Nat.zero_div]

theorem isZero_widen {x : BitVec (8 * 4)} (finite : isFinite32 x = true) :
    isZero (widen x) = isZero x := by
  obtain ⟨-, value, -⟩ := magnitude_widen finite
  have gap := (Nat.two_pow_pos unitGap).ne'
  rw [Bool.eq_iff_iff, isZero_iff, isZero_iff, ← scaled_eq_zero (p := 52), value, Nat.mul_eq_zero,
    scaled_eq_zero]
  simp only [gap, or_false]

/-- Widening is exact. -/
theorem narrow_widen {x : BitVec (8 * 4)} (finite : isFinite32 x = true) : narrow (widen x) = x := by
  obtain ⟨sign_eq, value, finite64⟩ := magnitude_widen finite
  have bound : magnitude x < 255 * 2 ^ 23 := by
    rw [isFinite32, decide_eq_true_eq] at finite
    omega
  have back : round 23 unitGap (scaled 23 (magnitude x) * 2 ^ unitGap) = magnitude x :=
    round_scaled 23 unitGap (magnitude x)
  have smaller : min (magnitude x) (255 * 2 ^ 23) = magnitude x := Nat.min_eq_left bound.le
  rw [narrow, if_pos finite64, value, back, sign_eq, smaller, word_sign]

theorem ofNat_bounds {n : Nat} (pos : 0 < n) (low : n ≤ 2 ^ 64) :
    0 < ofNat 52 1023 n ∧ ofNat 52 1023 n < 2 ^ 63 := by
  have e_le : n.log2 ≤ 64 := by
    have := (Nat.log2_lt (k := 65) (by omega)).2 (by omega : n < 2 ^ 65)
    omega
  have high : n < 2 ^ (n.log2 + 1) := Nat.lt_log2_self
  have start : 1023 * 2 ^ 52 ≤ (n.log2 + 1023) * 2 ^ 52 := Nat.mul_le_mul_right _ (by omega)
  have stop : (n.log2 + 1023) * 2 ^ 52 ≤ 1087 * 2 ^ 52 := Nat.mul_le_mul_right _ (by omega)
  rw [ofNat, if_neg (by omega)]
  split
  · rename_i short
    have : n * 2 ^ (52 - n.log2) < 2 ^ 53 := by
      calc n * 2 ^ (52 - n.log2) < 2 ^ (n.log2 + 1) * 2 ^ (52 - n.log2) :=
            Nat.mul_lt_mul_of_pos_right high (Nat.two_pow_pos _)
        _ = 2 ^ 53 := by rw [← Nat.pow_add]; congr 1; omega
    omega
  · have := quotient_lt 52 n
    dsimp only
    split <;> omega

/-- Only zero is cast to a zero. -/
theorem isZero_ofInt {i : Int} (lower : -2 ^ 63 ≤ i) (upper : i < 2 ^ 64) :
    isZero (ofInt i) = true ↔ i = 0 := by
  rw [isZero_iff]
  constructor
  · intro zero
    by_contra ne
    obtain ⟨pos, low⟩ := ofNat_bounds (n := i.natAbs) (by omega) (by omega)
    have := (sign_word (n := 8) (s := if i < 0 then 1 else 0) (by omega) (by split <;> omega) low).2
    rw [ofInt, this] at zero
    omega
  · intro zero
    rw [zero]
    decide

end Ieee
