import Typeway.Macros.Records

/-!
# Well-formed fields

A field as the wire format has it, whatever struct reads it: a tag and a value of the shape its
wire type asks for, varints in any spelling. The decoder passes over such a field when its tag is
none of the struct's, unless it is a group, which it refuses.
-/

namespace Typeway.Macros

open Checked Protobuf

variable {ι : Type}

mutual

/-- A value under a wire type. A group ends with a tag of its own number. -/
inductive WireValue : UInt32 → UInt8 → List UInt8 → Prop where
  | varint {tag : UInt32} {l : List UInt8} {v : UInt64} (spells : Spells l v) : WireValue tag 0 l
  | fixed64 {tag : UInt32} {l : List UInt8} (width : l.length = 8) : WireValue tag 1 l
  | len {tag : UInt32} {payload l : List UInt8} (framed : Framed payload l) : WireValue tag 2 l
  | group {tag : UInt32} {l stop : List UInt8} (fields : WireFields l)
      (close : Spells stop (tagWord tag 4)) : WireValue tag 3 (l ++ stop)
  | fixed32 {tag : UInt32} {l : List UInt8} (width : l.length = 4) : WireValue tag 5 l

/-- Fields one behind the other. -/
inductive WireFields : List UInt8 → Prop where
  | nil : WireFields []
  | cons {tag : UInt32} {wireType : UInt8} {t l rest : List UInt8}
      (spells : Spells t (tagWord tag wireType)) (value : WireValue tag wireType l)
      (others : WireFields rest) : WireFields (t ++ l ++ rest)

end

theorem WireValue.lt {tag : UInt32} {wireType : UInt8} {l : List UInt8}
    (h : WireValue tag wireType l) : wireType.toNat < 8 := by
  cases h <;> decide

/-- A field the struct `n` does not have, and whether it is a group. -/
inductive UnknownField (S : Schema ι) (n : ι) : Bool → List UInt8 → Prop where
  | mk {tag : UInt32} {wireType : UInt8} {t l : List UInt8}
      (unknown : ∀ i : S.Pos n, (S.field i).tag ≠ tag) (spells : Spells t (tagWord tag wireType))
      (value : WireValue tag wireType l) : UnknownField S n (wireType == 3) (t ++ l)

section Skip

variable {bytes : List UInt8} {offset : Nat}

/-- What the skipper finds behind the offset is what `skipValue` moves over. -/
theorem skipValue_of {wireType : UInt8} {l : List UInt8} (small : bytes.length ≤ isizeMax)
    (h : At bytes offset l) (skip : twSkipWireValue (bytes.drop offset) wireType = .ok l.length) :
    skipValue wireType bytes offset = .ok ((), offset + l.length) := by
  have bound := h.bound
  unfold isizeMax at small
  rw [skipValue, sliceFrom_eq_ok (by omega), ok_bind, skip, ok_bind,
    add_eq_ok (by unfold usizeBound; omega)]
  rfl

theorem skipValue_value {tag : UInt32} {wireType : UInt8} {l : List UInt8}
    (small : bytes.length ≤ isizeMax) (value : WireValue tag wireType l) (single : wireType ≠ 3)
    (h : At bytes offset l) : skipValue wireType bytes offset = .ok ((), offset + l.length) := by
  have bound := h.bound
  cases value with
  | varint spells =>
    obtain ⟨rest, tail⟩ := h.drop
    apply skipValue_of small h
    rw [twSkipWireValue, tail, spells.decode]
    rfl
  | fixed64 width =>
    apply skipValue_of small h
    rw [twSkipWireValue, if_neg (by rw [List.length_drop]; omega), width]
    rfl
  | len framed => exact skipValue_framed small framed h
  | group fields close => exact (single rfl).elim
  | fixed32 width =>
    apply skipValue_of small h
    rw [twSkipWireValue, if_neg (by rw [List.length_drop]; omega), width]
    rfl

/-- A group is refused where it starts. -/
theorem skipValue_group (low : offset ≤ bytes.length) :
    skipValue 3 bytes offset = .error (.err (.unknownWireType 3)) := by
  rw [skipValue, sliceFrom_eq_ok low, ok_bind]
  rfl

end Skip

section

variable {S : Schema ι} {n : ι}

theorem findField_unknown {tag : UInt32} (unknown : ∀ i : S.Pos n, (S.field i).tag ≠ tag) :
    findField S n tag = none := by
  rw [findField, List.find?_eq_none]
  intro i _
  simpa using unknown i

/-- No field has the number 0. -/
theorem unknown_zero (i : S.Pos n) : (S.field i).tag ≠ 0 :=
  S.tag_ne_zero i

theorem spells_zero : Spells [0] 0 :=
  ⟨.last (by decide), by decide, by decide⟩

/-- A zero byte is the tag of a varint field with the number 0. -/
theorem unknownField_zero {l : List UInt8} {v : UInt64} (spells : Spells l v) :
    UnknownField S n false (0 :: l) :=
  .mk unknown_zero spells_zero (.varint spells)

/-- A turn that passes over a field the struct does not have. -/
theorem decodeStep_unknown {tag : UInt32} {wireType : UInt8} {bytes t l : List UInt8}
    (unknown : ∀ i : S.Pos n, (S.field i).tag ≠ tag) (spells : Spells t (tagWord tag wireType))
    (value : WireValue tag wireType l) (single : wireType ≠ 3) {s : DecodeState S n}
    (small : bytes.length ≤ isizeMax) (h : At bytes s.offset (t ++ l)) :
    decodeStep S (typewayDecode S) n bytes s = .ok ⟨s.offset + (t ++ l).length, s.fields⟩ := by
  rw [decodeStep_tagged value.lt spells small h.left, findField_unknown unknown]
  dsimp only
  rw [skipValue_value small value single h.right, ok_bind, List.length_append, ← Nat.add_assoc]
  rfl

theorem Reads.unknown {l : List UInt8} (field : UnknownField S n false l) (F : S.Fields n) :
    Reads S n l F F := by
  intro bytes offset small h
  generalize e : false = grouped at field
  cases field with
  | mk unknown spells value =>
    exact .next .start (h.goes_on spells.length_pos)
      (decodeStep_unknown unknown spells value (by simpa using e.symm) small h)

/-- The loop of struct `n` fails on a group within the bytes `l`. -/
def Breaks (S : Schema ι) (n : ι) (l : List UInt8) (F : S.Fields n) : Prop :=
  ∀ bytes offset, bytes.length ≤ isizeMax → At bytes offset l →
    decodeLoop S (typewayDecode S) n bytes ⟨offset, F⟩ = .error (.err (.unknownWireType 3))

theorem Breaks.left {l l' : List UInt8} {F : S.Fields n} (h : Breaks S n l F) :
    Breaks S n (l ++ l') F :=
  fun bytes offset small here => h bytes offset small here.left

theorem Reads.breaks {l l' : List UInt8} {F F' : S.Fields n} (h : Reads S n l F F')
    (h' : Breaks S n l' F') : Breaks S n (l ++ l') F := by
  intro bytes offset small here
  have first := h bytes offset small here.left
  rw [decodeLoop, first.runLoop_eq (decodeLoop_lowers S _)]
  exact h' bytes _ small here.right

/-- A failing turn ends the loop. -/
theorem Breaks.of_step {l : List UInt8} {F : S.Fields n} (pos : 0 < l.length)
    (h : ∀ bytes offset, bytes.length ≤ isizeMax → At bytes offset l →
      decodeStep S (typewayDecode S) n bytes ⟨offset, F⟩ = .error (.err (.unknownWireType 3))) :
    Breaks S n l F := by
  intro bytes offset small here
  have bound := here.bound
  rw [decodeLoop, runLoop_next (decodeLoop_lowers S _) (by simp; omega), h bytes offset small here,
    error_bind]

theorem Breaks.unknown {l : List UInt8} (field : UnknownField S n true l) (F : S.Fields n) :
    Breaks S n l F := by
  generalize e : true = grouped at field
  cases field with
  | @mk tag wireType t l unknown spells value =>
    have group : wireType = 3 := by simpa using e.symm
    subst group
    refine .of_step (by have := spells.length_pos; simp; omega) ?_
    intro bytes offset small h
    rw [decodeStep_tagged value.lt spells small h.left, findField_unknown unknown]
    dsimp only
    have low : offset + t.length ≤ bytes.length := h.left.bound
    rw [skipValue_group low]
    rfl

variable (S) in
/-- The arm of a field of kind `k` refuses the group within the bytes `l`. -/
def ArmRefuses (k : CodecKind ι) (wireType : UInt8) (l : List UInt8) (cur : S.Value k) : Prop :=
  ∀ ident bytes offset, bytes.length ≤ isizeMax → At bytes offset l →
    genDecodeArm (typewayDecode S) ident wireType bytes offset k cur =
      .error (.err (.unknownWireType 3))

theorem Breaks.tagged (i : S.Pos n) {wireType : UInt8} (hwt : wireType.toNat < 8)
    {t l : List UInt8} (spells : Spells t (tagWord (S.field i).tag wireType)) {F : S.Fields n}
    (refuses : ArmRefuses S (S.field i).kind wireType l (F i)) : Breaks S n (t ++ l) F := by
  refine .of_step (by have := spells.length_pos; rw [List.length_append]; omega) ?_
  intro bytes offset small h
  rw [decodeStep_tagged hwt spells small h.left, findField_tag]
  dsimp only
  rw [refuses _ _ _ small h.right, error_bind]

theorem armRefuses_message {payload l : List UInt8} (framed : Framed payload l)
    (nested : payload.length ≤ isizeMax →
      typewayDecode S n payload = .error (.err (.unknownWireType 3))) (wireType : UInt8) :
    (∀ cur, ArmRefuses S (.message n) wireType l cur) ∧
      (∀ cur, ArmRefuses S (.optionalMessage n) wireType l cur) ∧
      ∀ cur, ArmRefuses S (.repeatedMessage n) wireType l cur := by
  refine ⟨?_, ?_, ?_⟩
  all_goals
    intro cur ident bytes offset small h
    obtain ⟨fits, read⟩ := readMessage_nested S n small framed h
    rw [genDecodeArm, read, nested fits]
    rfl

/-- What decoding gives, a group being refused. -/
def outcome (grouped : Bool) (w : S.Msg n) : Run TypewayDecodeError (S.Msg n) :=
  if grouped then .error (.err (.unknownWireType 3)) else .ok w

end

end Typeway.Macros
