import Typeway.Base.Checked
import Typeway.Base.Text
import Typeway.Grpc.Status

/-!
# Timeouts in headers

`parse_grpc_timeout` of `status.rs`. A duration is its nanoseconds.
-/

namespace Typeway.Grpc

open Typeway.Core Checked Text

/-- `parse::<u64>()` -/
def parseU64 (text : Str) : Option Nat :=
  (digits? (if text.head? = some '+' then text.tail else text)).bind fun n =>
    if n < 2 ^ 64 then some n else none

/-- `checked_mul` of a `u64` -/
def checkedMul (n m : Nat) : Option Nat :=
  if n * m < 2 ^ 64 then some (n * m) else none

def timeoutOf (num : Nat) (unit : Char) : Option Nat :=
  match unit with
  | 'H' => (checkedMul num 3600).map fun secs => secs * 10 ^ 9
  | 'M' => (checkedMul num 60).map fun secs => secs * 10 ^ 9
  | 'S' => some (num * 10 ^ 9)
  | 'm' => some (num * 10 ^ 6)
  | 'u' => some (num * 10 ^ 3)
  | 'n' => some num
  | _ => none

/-- The text is split before its last byte, which panics inside of a character. -/
def parseGrpcTimeout (value : Str) : Run Unit (Option Nat) :=
  let value := trim value
  match value.getLast? with
  | none => .ok none
  | some unit =>
    if (Utf8.bytes value).length < 2 then .ok none
    else if unit.utf8Size = 1 then
      .ok ((parseU64 value.dropLast).bind fun num => timeoutOf num unit)
    else .error (.panic .sliceOutOfRange)

/-! ## What a timeout is -/

/-- The nanoseconds of a unit. -/
def unitNanos : Char → Option Nat
  | 'H' => some (3600 * 10 ^ 9)
  | 'M' => some (60 * 10 ^ 9)
  | 'S' => some (10 ^ 9)
  | 'm' => some (10 ^ 6)
  | 'u' => some (10 ^ 3)
  | 'n' => some 1
  | _ => none

/-- So many units, if that fits into a `Duration`. -/
def duration (num : Nat) (unit : Char) : Option Nat :=
  (unitNanos unit).bind fun nanos =>
    if num * nanos < 2 ^ 64 * 10 ^ 9 then some (num * nanos) else none

/-- Digits and a unit. -/
def readTimeout (value : Str) : Option Nat :=
  value.getLast?.bind fun unit => (digits? value.dropLast).bind fun num => duration num unit

structure ReadsTimeout (value : Str) : Prop where
  returns : ∃ result, parseGrpcTimeout value = .ok result
  exact : trim value = value → parseGrpcTimeout value = .ok (readTimeout value)

/-- No character is cut, no sign is read, and no number is too large for its own. -/
structure PlainTimeout (value : Str) : Prop where
  ascii : ∀ unit, (trim value).getLast? = some unit → unit.toNat < 128
  sign : trim value = value → ∀ digits unit num, value = '+' :: digits ++ [unit] →
    digits? digits = some num → (duration num unit).isSome = true → 2 ^ 64 ≤ num
  number : trim value = value → ∀ digits unit num, value = digits ++ [unit] →
    digits? digits = some num → (duration num unit).isSome = true → num < 2 ^ 64

/-! ## The units -/

theorem checkedMul_secs (num secs : Nat) :
    (checkedMul num secs).map (fun secs => secs * 10 ^ 9) =
      if num * (secs * 10 ^ 9) < 2 ^ 64 * 10 ^ 9 then some (num * (secs * 10 ^ 9)) else none := by
  unfold checkedMul
  rw [← Nat.mul_assoc]
  by_cases fits : num * secs < 2 ^ 64
  · rw [if_pos fits, if_pos (by omega)]
    rfl
  · rw [if_neg fits, if_neg (by omega)]
    rfl

/-- Of the numbers that are read, every unit takes those that fit. -/
theorem timeoutOf_eq {num : Nat} (small : num < 2 ^ 64) (unit : Char) :
    timeoutOf num unit = duration num unit := by
  unfold timeoutOf duration unitNanos
  split
  · rw [Option.bind_some, checkedMul_secs]
  · rw [Option.bind_some, checkedMul_secs]
  · rw [Option.bind_some, if_pos (by omega)]
  · rw [Option.bind_some, if_pos (by omega)]
  · rw [Option.bind_some, if_pos (by omega)]
  · rw [Option.bind_some, if_pos (by omega), Nat.mul_one]
  · rfl

theorem utf8Size_eq_one {c : Char} : c.utf8Size = 1 ↔ c.toNat < 128 := by
  have value : c.val.toNat = c.toNat := rfl
  have top : (127 : UInt32).toNat = 127 := rfl
  rw [Char.utf8Size_eq_one_iff, UInt32.le_iff_toNat_le]
  omega

/-! ## What is read -/

variable {value : Str}

theorem parseGrpcTimeout_nil (empty : trim value = []) : parseGrpcTimeout value = .ok none := by
  unfold parseGrpcTimeout
  rw [empty]
  rfl

/-- No text in ASCII is split inside a character. -/
theorem parseGrpcTimeout_ascii (ascii : ∀ c ∈ value, c.toNat < 128) :
    ∃ timeout, parseGrpcTimeout value = .ok timeout := by
  rw [parseGrpcTimeout]
  cases last : (trim value).getLast? with
  | none => exact ⟨none, rfl⟩
  | some unit =>
    have mem : unit ∈ value := (trim_sublist value).mem (List.mem_of_getLast? last)
    dsimp only
    split
    · exact ⟨none, rfl⟩
    · rw [if_pos (utf8Size_eq_one.2 (ascii unit mem))]
      exact ⟨_, rfl⟩

theorem length_bytes_singleton (c : Char) : (Utf8.bytes [c]).length = c.utf8Size := by
  show (String.utf8EncodeChar c ++ []).length = _
  rw [List.append_nil, String.length_utf8EncodeChar]

theorem parseU64_nil : parseU64 [] = none := rfl

theorem parseGrpcTimeout_snoc {front : Str} {unit : Char} (split : trim value = front ++ [unit]) :
    parseGrpcTimeout value =
      if unit.toNat < 128 then
        .ok ((parseU64 front).bind fun num => timeoutOf num unit)
      else .error (.panic .sliceOutOfRange) := by
  unfold parseGrpcTimeout
  rw [split]
  simp only [List.getLast?_append, List.getLast?_singleton, Option.some_or, List.dropLast_concat,
    utf8Size_eq_one, Utf8.bytes_append, List.length_append, length_bytes_singleton]
  have one := Char.utf8Size_pos unit
  split
  · rename_i short
    cases front with
    | nil =>
      rw [if_pos (utf8Size_eq_one.1 (by omega)), parseU64_nil]
      rfl
    | cons c front =>
      have more := Char.utf8Size_pos c
      have bytes : Utf8.bytes (c :: front) = Utf8.bytes [c] ++ Utf8.bytes front :=
        Utf8.bytes_append [c] front
      rw [bytes, List.length_append, length_bytes_singleton] at short
      omega
  · rfl

theorem digits?_sign (rest : Str) : digits? ('+' :: rest) = none :=
  if_neg fun h => absurd h.2 (by simp)

/-- Digits, or digits behind a sign, of a number that a `u64` holds. -/
theorem parseU64_eq_some_iff {text : Str} {num : Nat} :
    parseU64 text = some num ↔
      num < 2 ^ 64 ∧ (digits? text = some num ∨ ∃ digits, text = '+' :: digits ∧ digits? digits = some num) := by
  have read (digits : Str) : ((digits? digits).bind fun n => if n < 2 ^ 64 then some n else none) =
      some num ↔ num < 2 ^ 64 ∧ digits? digits = some num := by
    rw [Option.bind_eq_some_iff]
    constructor
    · intro h
      obtain ⟨n, found, small⟩ := h
      obtain ⟨small, same⟩ := Option.ite_none_right_eq_some.1 small
      cases same
      exact ⟨small, found⟩
    · intro h
      exact ⟨num, h.2, if_pos h.1⟩
  unfold parseU64
  rw [read]
  apply and_congr_right
  intro _
  by_cases sign : text.head? = some '+'
  · rw [if_pos sign]
    obtain ⟨rest, rfl⟩ := List.head?_eq_some_iff.1 sign
    rw [digits?_sign]
    simp
  · rw [if_neg sign]
    constructor
    · exact .inl
    · intro h
      rcases h with found | ⟨rest, rfl, _⟩
      · exact found
      · exact absurd rfl sign

theorem parsed_eq_some_iff {front : Str} {unit : Char} {d : Nat} :
    ((parseU64 front).bind fun num => timeoutOf num unit) = some d ↔
      ∃ num, num < 2 ^ 64 ∧
        (digits? front = some num ∨ ∃ digits, front = '+' :: digits ∧ digits? digits = some num) ∧
        duration num unit = some d := by
  rw [Option.bind_eq_some_iff]
  constructor
  · intro h
    obtain ⟨num, parsed, read⟩ := h
    obtain ⟨small, digits⟩ := parseU64_eq_some_iff.1 parsed
    exact ⟨num, small, digits, timeoutOf_eq small unit ▸ read⟩
  · intro h
    obtain ⟨num, small, digits, read⟩ := h
    exact ⟨num, parseU64_eq_some_iff.2 ⟨small, digits⟩, (timeoutOf_eq small unit).trans read⟩

theorem readTimeout_snoc (front : Str) (unit : Char) :
    readTimeout (front ++ [unit]) = (digits? front).bind fun num => duration num unit := by
  unfold readTimeout
  rw [List.getLast?_append, List.getLast?_singleton, List.dropLast_concat]
  rfl

/-- The two agree when the number is one of a `u64`, and not behind a sign. -/
theorem parsed_eq_read_iff {front : Str} {unit : Char} :
    (((parseU64 front).bind fun num => timeoutOf num unit) = readTimeout (front ++ [unit])) ↔
      (∀ digits num, front = '+' :: digits → digits? digits = some num →
        (duration num unit).isSome = true → 2 ^ 64 ≤ num) ∧
      ∀ num, digits? front = some num → (duration num unit).isSome = true → num < 2 ^ 64 := by
  rw [readTimeout_snoc]
  constructor
  · intro same
    constructor
    · intro digits num sign found fits
      by_contra small
      obtain ⟨d, fits⟩ := Option.isSome_iff_exists.1 fits
      have parsed := parsed_eq_some_iff.2 ⟨num, by omega, .inr ⟨digits, sign, found⟩, fits⟩
      rw [same, sign, digits?_sign] at parsed
      cases parsed
    · intro num found fits
      obtain ⟨d, fits⟩ := Option.isSome_iff_exists.1 fits
      rw [found, Option.bind_some, fits] at same
      obtain ⟨num', small, digits, _⟩ := parsed_eq_some_iff.1 same
      rcases digits with found' | ⟨rest, rfl, _⟩
      · cases found.symm.trans found'
        exact small
      · rw [digits?_sign] at found
        cases found
  · intro h
    obtain ⟨sign, number⟩ := h
    apply Option.ext
    intro d
    rw [parsed_eq_some_iff, Option.bind_eq_some_iff]
    constructor
    · intro h
      obtain ⟨num, small, found | ⟨rest, eq, found⟩, fits⟩ := h
      · exact ⟨num, found, fits⟩
      · have := sign rest num eq found (fits ▸ rfl)
        omega
    · intro h
      obtain ⟨num, found, fits⟩ := h
      exact ⟨num, number num found (fits ▸ rfl), .inl found, fits⟩

/-- **Timeouts are read exactly** when their last character is one byte, they have no sign and their
numbers are of 64 bits. -/
theorem readsTimeout_iff (value : Str) : ReadsTimeout value ↔ PlainTimeout value := by
  rcases List.eq_nil_or_concat (trim value) with empty | ⟨front, unit, split⟩
  · have read := parseGrpcTimeout_nil empty
    refine iff_of_true ⟨⟨_, read⟩, ?_⟩ ⟨?_, ?_, ?_⟩
    · intro solid
      rw [read, ← solid, empty]
      rfl
    · intro unit last
      rw [empty] at last
      cases last
    · intro solid digits unit num eq
      rw [← solid, empty] at eq
      cases eq
    · intro solid digits unit num eq
      rw [← solid, empty] at eq
      exact absurd eq.symm (by simp)
  · rw [List.concat_eq_append] at split
    have read := parseGrpcTimeout_snoc split
    have ends {digits : Str} {unit' : Char} (eq : front ++ [unit] = digits ++ [unit']) :
        front = digits ∧ unit = unit' := by
      obtain ⟨same, last⟩ := List.append_inj' eq rfl
      exact ⟨same, List.singleton_inj.1 last⟩
    constructor
    · intro reads
      obtain ⟨result, returned⟩ := reads.returns
      have ascii : unit.toNat < 128 := by
        by_contra wide
        rw [returned, if_neg wide] at read
        cases read
      rw [if_pos ascii] at read
      have agree (solid : trim value = value)
          (exact : parseGrpcTimeout value = .ok (readTimeout value)) := by
        have whole : value = front ++ [unit] := solid.symm.trans split
        rw [read] at exact
        have same := Except.ok.inj exact
        rw [whole] at same
        exact parsed_eq_read_iff.1 same
      refine ⟨?_, ?_, ?_⟩
      · intro last found
        rw [split, List.getLast?_append, List.getLast?_singleton] at found
        cases found
        exact ascii
      · intro solid digits unit' num eq
        obtain ⟨rfl, rfl⟩ := ends (split.symm.trans (solid.trans eq))
        exact (agree solid (reads.exact solid)).1 digits num rfl
      · intro solid digits unit' num eq
        obtain ⟨rfl, rfl⟩ := ends (split.symm.trans (solid.trans eq))
        exact (agree solid (reads.exact solid)).2 num
    · intro plain
      have ascii := plain.ascii unit (by rw [split, List.getLast?_concat])
      rw [if_pos ascii] at read
      refine ⟨⟨_, read⟩, ?_⟩
      intro solid
      have whole : value = front ++ [unit] := solid.symm.trans split
      rw [read, whole]
      apply congrArg
      apply parsed_eq_read_iff.2
      constructor
      · intro digits num sign
        exact plain.sign solid digits unit num (by rw [whole, sign])
      · intro num
        exact plain.number solid front unit num whole

/-- A character of two bytes is cut. -/
theorem not_readsTimeout_micro : ¬ ∀ value : Str, ReadsTimeout value := by
  intro all
  have plain := (readsTimeout_iff ['1', 'µ']).1 (all ['1', 'µ'])
  exact absurd (plain.ascii 'µ' (by decide)) (by decide)

end Typeway.Grpc
