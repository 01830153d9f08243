import Mathlib.Data.List.DropRight
import Mathlib.Data.List.Basic
import Mathlib.Tactic.IntervalCases

/-!
# Base 64

Three bytes as four digits of six bits, the last group padded. The decoder drops the padding and
collects bits, so it reads back what the encoder writes.
-/

namespace Base64

def alphabet : List Char :=
  "ABCDEFGHIJKLMNOPQRSTUVWXYZabcdefghijklmnopqrstuvwxyz0123456789+/".toList

def digit (n : Nat) : Char :=
  alphabet.getD (n % 64) 'A'

def digitValue (c : Char) : Option Nat :=
  if 'A' ≤ c ∧ c ≤ 'Z' then some (c.toNat - 'A'.toNat)
  else if 'a' ≤ c ∧ c ≤ 'z' then some (c.toNat - 'a'.toNat + 26)
  else if '0' ≤ c ∧ c ≤ '9' then some (c.toNat - '0'.toNat + 52)
  else if c = '+' then some 62
  else if c = '/' then some 63
  else none

/-- The digits of a chunk, without padding. -/
def digits : List UInt8 → List Char
  | [] => []
  | [b0] =>
    let triple := b0.toNat * 2 ^ 16
    [digit (triple / 2 ^ 18), digit (triple / 2 ^ 12)]
  | [b0, b1] =>
    let triple := b0.toNat * 2 ^ 16 + b1.toNat * 2 ^ 8
    [digit (triple / 2 ^ 18), digit (triple / 2 ^ 12), digit (triple / 2 ^ 6)]
  | b0 :: b1 :: b2 :: rest =>
    let triple := b0.toNat * 2 ^ 16 + b1.toNat * 2 ^ 8 + b2.toNat
    digit (triple / 2 ^ 18) :: digit (triple / 2 ^ 12) :: digit (triple / 2 ^ 6) ::
      digit triple :: digits rest

def encode (input : List UInt8) : List Char :=
  digits input ++ List.replicate ((3 - input.length % 3) % 3) '='

/-- The loop over the digits, with the bits that make no byte yet and their number. -/
def decodeLoop : List Char → Nat → Nat → Option (List UInt8)
  | [], _, _ => some []
  | c :: rest, buf, bits => do
    let val ← digitValue c
    let buf := buf * 64 + val
    let bits := bits + 6
    if 8 ≤ bits then
      let out ← decodeLoop rest (buf % 2 ^ (bits - 8)) (bits - 8)
      some (UInt8.ofNat (buf / 2 ^ (bits - 8)) :: out)
    else decodeLoop rest buf bits

def decode (input : List Char) : Option (List UInt8) :=
  decodeLoop (input.rdropWhile (· = '=')) 0 0

example : encode [104, 105] = "aGk=".toList := by decide
example : decode "aGk=".toList = some [104, 105] := by decide

theorem digitValue_digit (n : Nat) : digitValue (digit n) = some (n % 64) := by
  have : n % 64 < 64 := Nat.mod_lt _ (by omega)
  rw [digit]
  interval_cases n % 64 <;> decide

theorem digit_ne_pad (n : Nat) : digit n ≠ '=' := by
  intro pad
  have value := digitValue_digit n
  rw [pad] at value
  cases value

theorem mem_digits {input : List UInt8} {c : Char} (mem : c ∈ digits input) : ∃ n, c = digit n := by
  induction input using digits.induct with
  | case1 => cases mem
  | case2 b0 =>
    simp only [digits, List.mem_cons, List.not_mem_nil, or_false] at mem
    rcases mem with rfl | rfl <;> exact ⟨_, rfl⟩
  | case3 b0 b1 =>
    simp only [digits, List.mem_cons, List.not_mem_nil, or_false] at mem
    rcases mem with rfl | rfl | rfl <;> exact ⟨_, rfl⟩
  | case4 b0 b1 b2 rest ih =>
    simp only [digits, List.mem_cons] at mem
    rcases mem with rfl | rfl | rfl | rfl | mem
    all_goals first | exact ⟨_, rfl⟩ | exact ih mem

/-- The padding is what the decoder drops. -/
theorem rdropWhile_encode (input : List UInt8) :
    (encode input).rdropWhile (· = '=') = digits input := by
  have kept : (digits input).rdropWhile (· = '=') = digits input := by
    rw [List.rdropWhile_eq_self_iff]
    intro some pad
    obtain ⟨n, last⟩ := mem_digits (List.getLast_mem some)
    exact digit_ne_pad n (by simpa [last] using pad)
  rw [encode]
  induction (3 - input.length % 3) % 3 with
  | zero => rwa [List.replicate_zero, List.append_nil]
  | succ n ih => rw [List.replicate_succ', ← List.append_assoc, List.rdropWhile_concat_pos _ _ _ (by simp), ih]

/-- A digit that completes a byte. -/
theorem decodeLoop_byte {n buf bits : Nat} {b : UInt8} {rest : List Char} (full : 8 ≤ bits + 6)
    (byte : (buf * 64 + n % 64) / 2 ^ (bits + 6 - 8) = b.toNat) :
    decodeLoop (digit n :: rest) buf bits =
      (decodeLoop rest ((buf * 64 + n % 64) % 2 ^ (bits + 6 - 8)) (bits + 6 - 8)).map (b :: ·) := by
  rw [decodeLoop, digitValue_digit, Option.bind_eq_bind, Option.bind_some]
  dsimp only
  rw [if_pos full, byte, UInt8.ofNat_toNat]
  cases decodeLoop rest ((buf * 64 + n % 64) % 2 ^ (bits + 6 - 8)) (bits + 6 - 8) <;> rfl

theorem decodeLoop_first (n : Nat) (rest : List Char) :
    decodeLoop (digit n :: rest) 0 0 = decodeLoop rest (n % 64) 6 := by
  rw [decodeLoop, digitValue_digit, Option.bind_eq_bind, Option.bind_some]
  dsimp only
  rw [if_neg (by omega), Nat.zero_mul, Nat.zero_add]

theorem decodeLoop_digits (input : List UInt8) : decodeLoop (digits input) 0 0 = some input := by
  induction input using digits.induct with
  | case1 => rfl
  | case2 b0 =>
    have := b0.toNat_lt
    rw [digits, decodeLoop_first, decodeLoop_byte (b := b0) (by omega) (by omega)]
    rfl
  | case3 b0 b1 =>
    have := b0.toNat_lt
    have := b1.toNat_lt
    rw [digits, decodeLoop_first, decodeLoop_byte (b := b0) (by omega) (by omega),
      decodeLoop_byte (b := b1) (by omega) (by omega)]
    rfl
  | case4 b0 b1 b2 rest ih =>
    have := b0.toNat_lt
    have := b1.toNat_lt
    have := b2.toNat_lt
    rw [digits, decodeLoop_first, decodeLoop_byte (b := b0) (by omega) (by omega),
      decodeLoop_byte (b := b1) (by omega) (by omega),
      decodeLoop_byte (b := b2) (by omega) (by omega)]
    simp only [Nat.reduceAdd, Nat.reduceSub, Nat.pow_zero, Nat.mod_one]
    rw [ih]
    rfl

theorem decode_encode (input : List UInt8) : decode (encode input) = some input := by
  rw [decode, rdropWhile_encode, decodeLoop_digits]

theorem isEmpty_encode (input : List UInt8) : (encode input).isEmpty = input.isEmpty := by
  match input with
  | [] => rfl
  | [b0] => rfl
  | [b0, b1] => rfl
  | b0 :: b1 :: b2 :: rest => rfl

end Base64
