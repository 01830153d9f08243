import Mathlib.Data.List.Basic

/-!
# Percent escapes

Bytes behind a `%` as two hexadecimal digits. `escape` writes every byte that is not plain so, and
`unescape` reads whatever looks like one: what it reads as itself are the texts without an escape.
-/

namespace Percent

/-- `%` -/
def percent : UInt8 := 37

/-- The digit as `format!("{:X}")` writes it. -/
def hexUpper (n : Nat) : UInt8 :=
  UInt8.ofNat (if n < 10 then 48 + n else 55 + n)

/-- `to_digit(16)` -/
def toDigit (b : UInt8) : Option Nat :=
  let n := b.toNat
  if 48 ≤ n ∧ n ≤ 57 then some (n - 48)
  else if 65 ≤ n ∧ n ≤ 70 then some (n - 55)
  else if 97 ≤ n ∧ n ≤ 102 then some (n - 87)
  else none

def escapeByte (plain : UInt8 → Bool) (b : UInt8) : List UInt8 :=
  if plain b then [b] else [percent, hexUpper (b.toNat / 16), hexUpper (b.toNat % 16)]

def escape (plain : UInt8 → Bool) (bytes : List UInt8) : List UInt8 :=
  bytes.flatMap (escapeByte plain)

/-- The byte that two digits stand for. -/
def pair (hi lo : UInt8) : Option UInt8 := do
  let hi ← toDigit hi
  let lo ← toDigit lo
  some (UInt8.ofNat (hi * 16 + lo))

def unescape : List UInt8 → List UInt8
  | [] => []
  | [b] => [b]
  | [b, b'] => [b, b']
  | b :: hi :: lo :: rest =>
    if b = percent then
      match pair hi lo with
      | some byte => byte :: unescape rest
      | none => b :: unescape (hi :: lo :: rest)
    else b :: unescape (hi :: lo :: rest)

/-- Somewhere in the text a `%` stands before two digits. -/
def HasEscape (bytes : List UInt8) : Prop :=
  ∃ before hi lo behind, bytes = before ++ percent :: hi :: lo :: behind ∧ (pair hi lo).isSome = true

variable {plain : UInt8 → Bool} {b hi lo : UInt8} {rest bytes : List UInt8}

/-! ## Reading back -/

theorem toDigit_hexUpper {n : Nat} (digit : n < 16) : toDigit (hexUpper n) = some n := by
  have all : ∀ n < 16, toDigit (hexUpper n) = some n := by decide
  exact all n digit

theorem pair_hexUpper (b : UInt8) :
    pair (hexUpper (b.toNat / 16)) (hexUpper (b.toNat % 16)) = some b := by
  have := b.toNat_lt
  rw [pair, toDigit_hexUpper (by omega), toDigit_hexUpper (by omega)]
  have whole : b.toNat / 16 * 16 + b.toNat % 16 = b.toNat := by omega
  show some (UInt8.ofNat (b.toNat / 16 * 16 + b.toNat % 16)) = some b
  rw [whole, UInt8.ofNat_toNat]

theorem unescape_cons (other : b ≠ percent) : unescape (b :: rest) = b :: unescape rest := by
  match rest with
  | [] => rfl
  | [_] => rfl
  | _ :: _ :: _ => rw [unescape, if_neg other]

theorem unescape_pair {byte : UInt8} (read : pair hi lo = some byte) :
    unescape (percent :: hi :: lo :: rest) = byte :: unescape rest := by
  rw [unescape, if_pos rfl, read]

theorem unescape_of_pair_none (read : pair hi lo = none) :
    unescape (percent :: hi :: lo :: rest) = percent :: unescape (hi :: lo :: rest) := by
  rw [unescape, if_pos rfl, read]

/-- What has been escaped is read back, if `%` is no plain byte. -/
theorem unescape_escape (special : plain percent = false) (bytes rest : List UInt8) :
    unescape (escape plain bytes ++ rest) = bytes ++ unescape rest := by
  induction bytes with
  | nil => rfl
  | cons b bytes ih =>
    rw [escape, List.flatMap_cons, List.append_assoc]
    change unescape (escapeByte plain b ++ (escape plain bytes ++ rest)) = _
    rw [escapeByte]
    split
    · rename_i isPlain
      have other : b ≠ percent := by
        rintro rfl
        rw [special] at isPlain
        cases isPlain
      rw [List.singleton_append, unescape_cons other, ih, List.cons_append]
    · simp only [List.cons_append, List.nil_append]
      rw [unescape_pair (pair_hexUpper b), ih]

theorem escape_eq_self {bytes : List UInt8} (all : ∀ b ∈ bytes, plain b = true) :
    escape plain bytes = bytes := by
  induction bytes with
  | nil => rfl
  | cons b bytes ih =>
    rw [List.forall_mem_cons] at all
    rw [escape, List.flatMap_cons, escapeByte, if_pos all.1, ← escape, ih all.2]
    rfl

/-- Every byte of an escaped text is plain, a `%`, or a digit. -/
theorem mem_escape {bytes : List UInt8} (mem : b ∈ escape plain bytes) :
    plain b = true ∨ b = percent ∨ ∃ n < 16, b = hexUpper n := by
  obtain ⟨b', -, mem⟩ := List.mem_flatMap.1 mem
  have := b'.toNat_lt
  rw [escapeByte] at mem
  split at mem
  · rename_i isPlain
    rw [List.mem_singleton] at mem
    exact .inl (mem ▸ isPlain)
  · simp only [List.mem_cons, List.not_mem_nil, or_false] at mem
    obtain rfl | rfl | rfl := mem
    · exact .inr (.inl rfl)
    · exact .inr (.inr ⟨_, by omega, rfl⟩)
    · exact .inr (.inr ⟨_, by omega, rfl⟩)

/-! ## Texts without an escape -/

theorem hasEscape_cons (other : b ≠ percent ∨ ∀ hi lo rest', rest = hi :: lo :: rest' →
    pair hi lo = none) : HasEscape (b :: rest) ↔ HasEscape rest := by
  constructor
  · rintro ⟨before, hi, lo, behind, split, read⟩
    cases before with
    | nil =>
      cases split
      obtain other | none := other
      · exact absurd rfl other
      · rw [none hi lo behind rfl] at read
        cases read
    | cons b' before =>
      cases split
      exact ⟨before, hi, lo, behind, rfl, read⟩
  · rintro ⟨before, hi, lo, behind, rfl, read⟩
    exact ⟨b :: before, hi, lo, behind, rfl, read⟩

theorem hasEscape_pair (read : (pair hi lo).isSome = true) :
    HasEscape (percent :: hi :: lo :: rest) :=
  ⟨[], hi, lo, rest, rfl, read⟩

theorem not_hasEscape_short (short : bytes.length < 3) : ¬ HasEscape bytes := by
  rintro ⟨before, hi, lo, behind, rfl, -⟩
  simp at short
  omega

/-- Reading makes a text shorter exactly if it has an escape. -/
theorem unescape_length_le (bytes : List UInt8) :
    (unescape bytes).length ≤ bytes.length ∧
      (HasEscape bytes → (unescape bytes).length < bytes.length) := by
  induction bytes using unescape.induct with
  | case1 => exact ⟨Nat.le_refl _, fun h => absurd h (not_hasEscape_short (by simp))⟩
  | case2 b => exact ⟨Nat.le_refl _, fun h => absurd h (not_hasEscape_short (by simp))⟩
  | case3 b b' => exact ⟨Nat.le_refl _, fun h => absurd h (not_hasEscape_short (by simp))⟩
  | case4 hi lo rest byte read ih =>
    rw [unescape_pair read]
    simp only [List.length_cons]
    constructor
    · omega
    · intro
      omega
  | case5 hi lo rest read ih =>
    rw [unescape_of_pair_none read, hasEscape_cons (.inr ?_)]
    · simpa using ih
    · intro hi' lo' rest' e
      cases e
      exact read
  | case6 b hi lo rest other ih =>
    rw [unescape_cons other, hasEscape_cons (.inl other)]
    simpa using ih

theorem unescape_of_not_hasEscape (bytes : List UInt8) (clean : ¬ HasEscape bytes) :
    unescape bytes = bytes := by
  induction bytes using unescape.induct with
  | case1 => rfl
  | case2 b => rfl
  | case3 b b' => rfl
  | case4 hi lo rest byte read ih => exact absurd (hasEscape_pair (by rw [read]; rfl)) clean
  | case5 hi lo rest read ih =>
    rw [hasEscape_cons (.inr ?_)] at clean
    · rw [unescape_of_pair_none read, ih clean]
    · intro hi' lo' rest' e
      cases e
      exact read
  | case6 b hi lo rest other ih =>
    rw [hasEscape_cons (.inl other)] at clean
    rw [unescape_cons other, ih clean]

theorem unescape_eq_self_iff : unescape bytes = bytes ↔ ¬ HasEscape bytes := by
  constructor
  · intro same escaped
    have := (unescape_length_le bytes).2 escaped
    rw [same] at this
    omega
  · exact unescape_of_not_hasEscape bytes

/-! ## Malformed escapes -/

/-- No two digits are at the front. -/
def Lone (rest : List UInt8) : Prop :=
  ∀ hi lo behind, rest = hi :: lo :: behind → pair hi lo = none

theorem unescape_lone (lone : b ≠ percent ∨ Lone rest) : unescape (b :: rest) = b :: unescape rest := by
  by_cases other : b = percent
  · have malformed : Lone rest := lone.resolve_left fun apart => apart other
    subst other
    match rest with
    | [] => rfl
    | [_] => rfl
    | hi :: lo :: behind => exact unescape_of_pair_none (malformed hi lo behind rfl)
  · exact unescape_cons other

theorem lone_percent (rest : List UInt8) : Lone (percent :: rest) := by
  rintro hi lo behind e
  cases e
  rfl

theorem lone_second (b : UInt8) (rest : List UInt8) : Lone (b :: percent :: rest) := by
  rintro hi lo behind e
  cases e
  unfold pair
  cases toDigit b <;> rfl

/-- A `%` that is no escape is read as itself, and so is whatever stands around it. -/
theorem unescape_append_percent (lone : Lone rest) (before : List UInt8) :
    unescape (before ++ percent :: rest) = unescape before ++ percent :: unescape rest := by
  have here : unescape (percent :: rest) = percent :: unescape rest := unescape_lone (.inr lone)
  induction before using unescape.induct with
  | case1 => exact here
  | case2 b =>
    show unescape (b :: percent :: rest) = _
    rw [unescape_lone (.inr (lone_percent rest)), here]
    rfl
  | case3 b b' =>
    show unescape (b :: b' :: percent :: rest) = _
    rw [unescape_lone (.inr (lone_second b' rest)), unescape_lone (.inr (lone_percent rest)), here]
    rfl
  | case4 hi lo behind byte read ih =>
    show unescape (percent :: hi :: lo :: (behind ++ percent :: rest)) = _
    rw [unescape_pair read, unescape_pair read, ih]
    rfl
  | case5 hi lo behind read ih =>
    show unescape (percent :: hi :: lo :: (behind ++ percent :: rest)) = _
    rw [unescape_of_pair_none read, unescape_of_pair_none read]
    exact congrArg (percent :: ·) ih
  | case6 b hi lo behind other ih =>
    show unescape (b :: hi :: lo :: (behind ++ percent :: rest)) = _
    rw [unescape_cons other, unescape_cons other]
    exact congrArg (b :: ·) ih

end Percent
