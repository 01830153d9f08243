import Mathlib.Data.List.Lex
import Mathlib.Data.Char
import Typeway.Base.Floats
import Typeway.Base.SortedMap

/-!
# JSON values

A number is an integer of 64 bits with or without sign, or the word of a `double`. The members
of an object are sorted by their names.
-/

namespace Json

inductive Number where
  | int (i : Int) (lower : -2 ^ 63 ≤ i) (upper : i < 2 ^ 64)
  | float (bits : UInt64)
  deriving DecidableEq

inductive Value where
  | null
  | bool (b : Bool)
  | number (n : Number)
  | str (s : List Char)
  | arr (items : List Value)
  | obj (members : List (List Char × Value))

namespace Value

def asObject : Value → Option (List (List Char × Value))
  | obj members => some members
  | _ => none

def asArray : Value → Option (List Value)
  | arr items => some items
  | _ => none

def asStr : Value → Option (List Char)
  | str s => some s
  | _ => none

def asBool : Value → Option Bool
  | bool b => some b
  | _ => none

def isNull : Value → Bool
  | null => true
  | _ => false

/-- `as_u64`. -/
def asU64 : Value → Option UInt64
  | number (.int i _ _) => if 0 ≤ i then some (.ofNat i.toNat) else none
  | _ => none

/-- `as_i64`. -/
def asI64 : Value → Option (BitVec 64)
  | number (.int i _ _) => if i < 2 ^ 63 then some (.ofInt 64 i) else none
  | _ => none

/-- `as_f64`. -/
def asF64 : Value → Option (BitVec (8 * 8))
  | number (.int i _ _) => some (Ieee.ofInt i)
  | number (.float bits) => some bits.toBitVec
  | _ => none

/-- `json!(v)` of a `u64`. -/
def ofU64 (v : UInt64) : Value :=
  number (.int v.toNat (by omega) (by have := v.toNat_lt; omega))

theorem toInt_bounds {w : Nat} (short : w ≤ 64) (v : BitVec w) :
    -2 ^ 63 ≤ v.toInt ∧ v.toInt < 2 ^ 63 := by
  have low := BitVec.le_two_mul_toInt (x := v)
  have high := BitVec.two_mul_toInt_lt (x := v)
  have most : (2 : Int) ^ w ≤ 2 ^ 64 := by
    exact_mod_cast Nat.pow_le_pow_right (n := 2) (by omega) short
  omega

theorem short32 : 32 ≤ 64 := by
  decide

theorem short64 : 64 ≤ 64 := by
  decide

/-- `json!(v)` of a signed integer of at most 64 bits. -/
def ofSigned {w : Nat} (short : w ≤ 64) (v : BitVec w) : Value :=
  number (.int v.toInt (toInt_bounds short v).1 (by have := (toInt_bounds short v).2; omega))

/-- `json!(x)` of an `f64`. -/
def ofF64 (x : BitVec (8 * 8)) : Value :=
  if Ieee.isFinite64 x then number (.float (.ofBitVec x)) else null

/-- `json!(x)` of an `f32`. -/
def ofF32 (x : BitVec (8 * 4)) : Value :=
  if Ieee.isFinite32 x then number (.float (.ofBitVec (Ieee.widen x))) else null

@[simp] theorem asU64_ofU64 (v : UInt64) : (ofU64 v).asU64 = some v := by
  rw [ofU64, asU64, if_pos (by omega), Int.toNat_natCast, UInt64.ofNat_toNat]

@[simp] theorem asI64_ofSigned {w : Nat} (short : w ≤ 64) (v : BitVec w) :
    (ofSigned short v).asI64 = some (v.signExtend 64) :=
  if_pos (toInt_bounds short v).2

/-- Without a sign bit a signed integer is the unsigned one of its bits. -/
theorem ofSigned_eq_ofU64 {w : Nat} (short : w ≤ 64) {v : BitVec w} :
    ofU64 (.ofBitVec (v.signExtend 64)) = ofSigned short v ↔ 0 ≤ v.toInt := by
  have bounds := toInt_bounds short v
  have bits : (v.signExtend 64).toInt = v.toInt := by
    rw [BitVec.signExtend, BitVec.toInt_ofInt_eq_self (by omega) (by omega) (by omega)]
  have unsigned := BitVec.toInt_eq_toNat_cond (v.signExtend 64)
  have bound := (v.signExtend 64).isLt
  rw [ofU64, ofSigned, Value.number.injEq, Number.int.injEq]
  show ((v.signExtend 64).toNat : Int) = v.toInt ↔ 0 ≤ v.toInt
  rw [← bits, unsigned]
  split <;> omega

theorem setWidth_signExtend {w : Nat} (short : w ≤ 64) (v : BitVec w) :
    (v.signExtend 64).setWidth w = v := by
  ext i hi
  have : i < 64 := by omega
  simp [BitVec.getElem_signExtend, hi, this]

end Value

/-- The object with the given members, where a later one replaces an earlier of the same name. -/
def ofMembers (members : List (List Char × Value)) : List (List Char × Value) :=
  members.foldl (fun map member => SortedMap.insert member.1 member.2 map) []

theorem sorted_ofMembers (members : List (List Char × Value)) :
    SortedMap.Sorted (ofMembers members) := by
  suffices ∀ map, SortedMap.Sorted map → SortedMap.Sorted
      (members.foldl (fun map member => SortedMap.insert member.1 member.2 map) map) from
    this [] SortedMap.sorted_nil
  induction members with
  | nil => exact fun map sorted => sorted
  | cons member members ih => exact fun map sorted => ih _ (SortedMap.sorted_insert sorted)

theorem lookup_ofMembers {members : List (List Char × Value)}
    (distinct : members.Pairwise fun e e' => e.1 ≠ e'.1) {e : List Char × Value}
    (mem : e ∈ members) : SortedMap.lookup e.1 (ofMembers members) = some e.2 := by
  suffices ∀ map, SortedMap.lookup e.1
      (members.foldl (fun map member => SortedMap.insert member.1 member.2 map) map) = some e.2 from
    this []
  induction members with
  | nil => cases mem
  | cons member members ih =>
    obtain ⟨apart, distinct⟩ := List.pairwise_cons.1 distinct
    intro map
    rw [List.foldl_cons]
    rcases List.mem_cons.1 mem with rfl | mem
    · rw [SortedMap.lookup_foldl_insert_of_ne fun e' mem => (apart e' mem).symm,
        SortedMap.lookup_insert, if_pos rfl]
    · exact ih distinct mem _

theorem lookup_ofMembers_of_ne {members : List (List Char × Value)} {name : List Char}
    (absent : ∀ e ∈ members, e.1 ≠ name) : SortedMap.lookup name (ofMembers members) = none :=
  SortedMap.lookup_foldl_insert_of_ne absent []

/-! ### The text of a value -/

def hexDigit (n : Nat) : Char :=
  (Nat.toDigits 16 n).headD '0'

def escape (c : Char) : List Char :=
  if c = '"' then ['\\', '"']
  else if c = '\\' then ['\\', '\\']
  else if c = '\n' then ['\\', 'n']
  else if c = '\r' then ['\\', 'r']
  else if c = '\t' then ['\\', 't']
  else if c = Char.ofNat 8 then ['\\', 'b']
  else if c = Char.ofNat 12 then ['\\', 'f']
  else if c.toNat < 32 then
    ['\\', 'u', '0', '0', hexDigit (c.toNat / 16), hexDigit (c.toNat % 16)]
  else [c]

def quote (s : List Char) : List Char :=
  '"' :: (s.flatMap escape ++ ['"'])

/-- `Number::to_string`, with the text of a `double` as a parameter. -/
def Number.text (floatText : UInt64 → List Char) : Number → List Char
  | int i _ _ => (toString i).toList
  | float bits => floatText bits

mutual

/-- The compact text of a value. -/
def Value.text (floatText : UInt64 → List Char) : Value → List Char
  | .null => "null".toList
  | .bool b => if b then "true".toList else "false".toList
  | .number n => n.text floatText
  | .str s => quote s
  | .arr items => '[' :: (textItems floatText items ++ [']'])
  | .obj members => '{' :: (textMembers floatText members ++ ['}'])

def textItems (floatText : UInt64 → List Char) : List Value → List Char
  | [] => []
  | [item] => item.text floatText
  | item :: items => item.text floatText ++ ',' :: textItems floatText items

def textMembers (floatText : UInt64 → List Char) : List (List Char × Value) → List Char
  | [] => []
  | [(name, value)] => quote name ++ ':' :: value.text floatText
  | (name, value) :: members =>
    quote name ++ ':' :: (value.text floatText ++ ',' :: textMembers floatText members)

end

end Json
