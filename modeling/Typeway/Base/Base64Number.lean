import Mathlib.Data.Nat.Digits.Lemmas
import Mathlib.Tactic.Ring
import Typeway.Base.Base64

/-!
# Base 64 as numbers

Digits and bytes are numbers in two bases. The decoder divides the one by the bits that make no
byte at the end, so what it reads is determined, and a text is the digits of its bytes when no bit
of it is left over.
-/

namespace Base64

/-- The number that digits stand for. -/
def digitNumber (text : List Char) : Nat :=
  Nat.ofDigits 64 (text.reverse.map fun c => (digitValue c).getD 0)

/-- The number that bytes stand for. -/
def byteNumber (bytes : List UInt8) : Nat :=
  Nat.ofDigits 256 (bytes.reverse.map UInt8.toNat)

theorem digitNumber_cons (c : Char) (text : List Char) :
    digitNumber (c :: text) = (digitValue c).getD 0 * 64 ^ text.length + digitNumber text := by
  unfold digitNumber
  rw [List.reverse_cons, List.map_append, Nat.ofDigits_append, List.map_singleton,
    Nat.ofDigits_singleton, List.length_map, List.length_reverse]
  ring

theorem byteNumber_cons (b : UInt8) (bytes : List UInt8) :
    byteNumber (b :: bytes) = b.toNat * 256 ^ bytes.length + byteNumber bytes := by
  unfold byteNumber
  rw [List.reverse_cons, List.map_append, Nat.ofDigits_append, List.map_singleton,
    Nat.ofDigits_singleton, List.length_map, List.length_reverse]
  ring

theorem ascii_of_digitValue {c : Char} {val : Nat} (value : digitValue c = some val) :
    c.toNat < 128 := by
  simp only [digitValue, Char.le_def, UInt32.le_iff_toNat_le] at value
  split at value
  · rename_i range
    exact lt_of_le_of_lt range.2 (by decide)
  split at value
  · rename_i range
    exact lt_of_le_of_lt range.2 (by decide)
  split at value
  · rename_i range
    exact lt_of_le_of_lt range.2 (by decide)
  split at value
  · subst c
    decide
  split at value
  · subst c
    decide
  · cases value

theorem digit_digitValue {c : Char} {val : Nat} (value : digitValue c = some val) :
    val < 64 ∧ digit val = c := by
  have table : ∀ n < 128, (digitValue (Char.ofNat n)).all
      (fun v => decide (v < 64) && digit v == Char.ofNat n) = true := by decide +kernel
  have here := table c.toNat (ascii_of_digitValue value)
  rw [Char.ofNat_toNat, value] at here
  simpa using here

/-- What a collected byte and the bytes behind it make of the bits. -/
theorem collected {first kept n r q t number : Nat} (bits : r + 6 * n = 8 * q + t) :
    ((first * 2 ^ r + kept) * 64 ^ n + number) / 2 ^ t =
      first * 256 ^ q + (kept * 64 ^ n + number) / 2 ^ t := by
  have power : 2 ^ r * 64 ^ n = 256 ^ q * 2 ^ t := by
    rw [show 64 = 2 ^ 6 by rfl, show 256 = 2 ^ 8 by rfl, ← Nat.pow_mul, ← Nat.pow_mul,
      ← Nat.pow_add, ← Nat.pow_add, bits]
  have split : (first * 2 ^ r + kept) * 64 ^ n + number =
      kept * 64 ^ n + number + first * 256 ^ q * 2 ^ t := by
    calc (first * 2 ^ r + kept) * 64 ^ n + number
        = kept * 64 ^ n + number + first * (2 ^ r * 64 ^ n) := by ring
      _ = kept * 64 ^ n + number + first * 256 ^ q * 2 ^ t := by rw [power]; ring
  rw [split, Nat.add_mul_div_right _ _ (Nat.two_pow_pos t), Nat.add_comm]

/-- The loop keeps the bits, but for those that make no byte at the end. -/
theorem decodeLoop_number {text : List Char} {buf bits : Nat} {out : List UInt8}
    (few : bits < 8) (small : buf < 2 ^ bits) (decoded : decodeLoop text buf bits = some out) :
    out.length = (bits + 6 * text.length) / 8 ∧
      byteNumber out =
        (buf * 64 ^ text.length + digitNumber text) / 2 ^ ((bits + 6 * text.length) % 8) := by
  induction text generalizing buf bits out with
  | nil =>
    cases decoded
    constructor
    · show 0 = (bits + 0) / 8
      omega
    · show 0 = (buf * 1 + 0) / 2 ^ ((bits + 0) % 8)
      rw [Nat.mul_one, Nat.add_zero, Nat.add_zero, Nat.mod_eq_of_lt few, Nat.div_eq_of_lt small]
  | cons c text ih =>
    rw [decodeLoop, Option.bind_eq_bind, Option.bind_eq_some_iff] at decoded
    obtain ⟨val, value, decoded⟩ := decoded
    have digit := (digit_digitValue value).1
    dsimp only at decoded
    rw [digitNumber_cons, value, Option.getD_some, List.length_cons]
    have grown : buf * 64 + val < 2 ^ (bits + 6) := by
      rw [Nat.pow_add]
      omega
    have number : buf * 64 ^ (text.length + 1) + (val * 64 ^ text.length + digitNumber text) =
        (buf * 64 + val) * 64 ^ text.length + digitNumber text := by ring
    rw [number]
    split at decoded
    · rename_i full
      rw [Option.bind_eq_bind, Option.bind_eq_some_iff] at decoded
      obtain ⟨rest, decoded, first⟩ := decoded
      cases first
      obtain ⟨length, value⟩ := ih (by omega) (Nat.mod_lt _ (Nat.two_pow_pos _)) decoded
      have byte : (buf * 64 + val) / 2 ^ (bits + 6 - 8) < 256 := by
        rw [Nat.div_lt_iff_lt_mul (Nat.two_pow_pos _), show 256 = 2 ^ 8 by rfl, ← Nat.pow_add]
        rwa [show 8 + (bits + 6 - 8) = bits + 6 by omega]
      rw [List.length_cons, byteNumber_cons, UInt8.toNat_ofNat', Nat.mod_eq_of_lt byte, length,
        value]
      refine ⟨by omega, ?_⟩
      rw [show (bits + 6 * (text.length + 1)) % 8 = (bits + 6 - 8 + 6 * text.length) % 8 by omega]
      conv_rhs => rw [← Nat.div_add_mod' (buf * 64 + val) (2 ^ (bits + 6 - 8))]
      exact (collected (by omega)).symm
    · obtain ⟨length, value⟩ := ih (by omega) grown decoded
      rw [length, value, show bits + 6 + 6 * text.length = bits + 6 * (text.length + 1) by omega]
      exact ⟨rfl, rfl⟩

/-- The loop fails at what is no digit, and nowhere else. -/
theorem isSome_decodeLoop (text : List Char) (buf bits : Nat) :
    (decodeLoop text buf bits).isSome = text.all fun c => (digitValue c).isSome := by
  induction text generalizing buf bits with
  | nil => rfl
  | cons c text ih =>
    rw [decodeLoop, List.all_cons]
    cases digitValue c with
    | none => rfl
    | some val =>
      rw [Option.bind_eq_bind, Option.bind_some]
      dsimp only
      split
      · rw [Option.bind_eq_bind, Option.isSome_bind, ← ih]
        cases decodeLoop text _ _ <;> rfl
      · exact ih _ _

theorem digitValue_getD_digit (n : Nat) : (digitValue (digit n)).getD 0 = n % 64 := by
  rw [digitValue_digit, Option.getD_some]

theorem length_digits (input : List UInt8) : (digits input).length = (8 * input.length + 5) / 6 := by
  induction input using digits.induct with
  | case1 => rfl
  | case2 b0 => simp only [digits, List.length_cons, List.length_nil]
  | case3 b0 b1 => simp only [digits, List.length_cons, List.length_nil]
  | case4 b0 b1 b2 rest ih =>
    rw [digits]
    simp only [List.length_cons, ih]
    omega

/-- The digits of a byte string leave no bits. -/
theorem digitNumber_digits (input : List UInt8) :
    digitNumber (digits input) = byteNumber input * 2 ^ (6 * (digits input).length % 8) := by
  induction input using digits.induct with
  | case1 => rfl
  | case2 b0 =>
    have := b0.toNat_lt
    simp only [digits, digitNumber_cons, digitValue_getD_digit, byteNumber_cons, List.length_cons,
      List.length_nil]
    show _ + (_ + 0) = (_ + 0) * 2 ^ 4
    omega
  | case3 b0 b1 =>
    have := b0.toNat_lt
    have := b1.toNat_lt
    simp only [digits, digitNumber_cons, digitValue_getD_digit, byteNumber_cons, List.length_cons,
      List.length_nil]
    show _ + (_ + (_ + 0)) = (_ + (_ + 0)) * 2 ^ 2
    omega
  | case4 b0 b1 b2 rest ih =>
    have := b0.toNat_lt
    have := b1.toNat_lt
    have := b2.toNat_lt
    have length := length_digits rest
    have power : 64 ^ (digits rest).length =
        256 ^ rest.length * 2 ^ (6 * (digits rest).length % 8) := by
      rw [show 64 = 2 ^ 6 by rfl, show 256 = 2 ^ 8 by rfl, ← Nat.pow_mul, ← Nat.pow_mul,
        ← Nat.pow_add]
      congr 1
      omega
    have same : 6 * ((digits rest).length + 4) % 8 = 6 * (digits rest).length % 8 := by omega
    simp only [digits, digitNumber_cons, digitValue_getD_digit, byteNumber_cons, List.length_cons,
      ih, same]
    have group : b0.toNat * 256 ^ 2 + b1.toNat * 256 + b2.toNat =
        (b0.toNat * 2 ^ 16 + b1.toNat * 2 ^ 8 + b2.toNat) / 2 ^ 18 % 64 * 64 ^ 3 +
          (b0.toNat * 2 ^ 16 + b1.toNat * 2 ^ 8 + b2.toNat) / 2 ^ 12 % 64 * 64 ^ 2 +
          (b0.toNat * 2 ^ 16 + b1.toNat * 2 ^ 8 + b2.toNat) / 2 ^ 6 % 64 * 64 +
          (b0.toNat * 2 ^ 16 + b1.toNat * 2 ^ 8 + b2.toNat) % 64 := by omega
    calc _ = ((b0.toNat * 2 ^ 16 + b1.toNat * 2 ^ 8 + b2.toNat) / 2 ^ 18 % 64 * 64 ^ 3 +
          (b0.toNat * 2 ^ 16 + b1.toNat * 2 ^ 8 + b2.toNat) / 2 ^ 12 % 64 * 64 ^ 2 +
          (b0.toNat * 2 ^ 16 + b1.toNat * 2 ^ 8 + b2.toNat) / 2 ^ 6 % 64 * 64 +
          (b0.toNat * 2 ^ 16 + b1.toNat * 2 ^ 8 + b2.toNat) % 64) * 64 ^ (digits rest).length +
            byteNumber rest * 2 ^ (6 * (digits rest).length % 8) := by ring
      _ = _ := by
        rw [← group, power]
        ring

theorem digitNumber_injective {text text' : List Char} (length : text.length = text'.length)
    (all : text.all (fun c => (digitValue c).isSome) = true)
    (all' : text'.all (fun c => (digitValue c).isSome) = true)
    (number : digitNumber text = digitNumber text') : text = text' := by
  have below : ∀ {s : List Char}, ∀ v ∈ s.reverse.map (fun c => (digitValue c).getD 0), v < 64 := by
    intro s v mem
    obtain ⟨c, -, rfl⟩ := List.mem_map.1 mem
    cases value : digitValue c with
    | none => decide
    | some val => exact (digit_digitValue value).1
  have values := Nat.ofDigits_inj_of_len_eq (by decide : 1 < 64)
    (by simp only [List.length_map, List.length_reverse, length]) below below number
  rw [List.map_reverse, List.map_reverse, List.reverse_inj] at values
  clear number length
  induction text generalizing text' with
  | nil => exact (List.map_eq_nil_iff.1 values.symm).symm
  | cons c text ih =>
    cases text' with
    | nil => cases values
    | cons c' text' =>
      rw [List.all_cons, Bool.and_eq_true] at all all'
      obtain ⟨val, value⟩ := Option.isSome_iff_exists.1 all.1
      obtain ⟨val', value'⟩ := Option.isSome_iff_exists.1 all'.1
      rw [List.map_cons, List.map_cons, List.cons.injEq, value, value', Option.getD_some,
        Option.getD_some] at values
      have first : c = c' := by
        rw [← (digit_digitValue value).2, ← (digit_digitValue value').2, values.1]
      rw [first, ih all.2 all'.2 values.2]

/-- The bits behind the last whole byte. -/
def leftOver (text : List Char) : Nat :=
  digitNumber text % 2 ^ (6 * text.length % 8)

/-- The texts that are digits of their own bytes. -/
theorem digits_eq_iff {text : List Char} {out : List UInt8}
    (decoded : decodeLoop text 0 0 = some out) :
    digits out = text ↔ text.length % 4 ≠ 1 ∧ leftOver text = 0 := by
  obtain ⟨length, number⟩ := decodeLoop_number (by omega) (by decide) decoded
  rw [Nat.zero_add] at length number
  rw [Nat.zero_mul, Nat.zero_add] at number
  constructor
  · rintro rfl
    have long := length_digits out
    refine ⟨by omega, ?_⟩
    rw [leftOver, digitNumber_digits, Nat.mul_mod_left]
  · rintro ⟨whole, none⟩
    have long := length_digits out
    have same : (digits out).length = text.length := by
      have rest : text.length % 4 = 0 ∨ text.length % 4 = 2 ∨ text.length % 4 = 3 := by omega
      rcases rest with rest | rest | rest <;> omega
    have all := isSome_decodeLoop text 0 0
    have all' := isSome_decodeLoop (digits out) 0 0
    rw [decoded] at all
    rw [decodeLoop_digits] at all'
    apply digitNumber_injective same all'.symm all.symm
    rw [digitNumber_digits, same, number]
    exact Nat.div_mul_cancel (Nat.dvd_of_mod_eq_zero none)

end Base64
