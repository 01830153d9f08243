import Typeway.Grpc.JsonTyped
import Typeway.Macros.Records

/-!
# Structs as JSON objects

A struct with a derived codec and a list of field definitions can describe one message. `Defines`
says when they do, and `messageJson` is the object that stands for a value of the struct: a member
for each field, under the field's name, where `None` is no member.
-/

namespace Typeway.Grpc

open Checked Typeway.Core Json Protobuf Macros

variable {ι : Type} {Γ : ι → List (CodecField ι)}

/-- The protobuf type of a scalar kind. -/
def protoScalar : CodecKind ι → Option Scalar
  | .varint .u32 => some .uint32
  | .varint .u64 => some .uint64
  | .varint .i32 => some .int32
  | .varint .i64 => some .int64
  | .bool => some .bool
  | .fixed32 => some .float
  | .fixed64 => some .double
  | .lenString | .lenBytesStr => some .string
  | .lenBytes => some .bytes
  | _ => none

/-- The kinds both codecs have, as the scalar or the struct they are made of and whether they are
a list of it. -/
inductive Common : CodecKind ι → Bool → Scalar ⊕ ι → Prop where
  | scalar {k : CodecKind ι} {s : Scalar} (scalar : protoScalar k = some s) :
      Common k false (.inl s)
  | optional {k : CodecKind ι} {s : Scalar} (scalar : protoScalar k = some s) :
      Common (.optional k) false (.inl s)
  | repeated {k : CodecKind ι} {s : Scalar} (scalar : protoScalar k = some s) :
      Common (.repeated k) true (.inl s)
  | message (m : ι) : Common (.message m) false (.inr m)
  | optionalMessage (m : ι) : Common (.optionalMessage m) false (.inr m)
  | repeatedMessage (m : ι) : Common (.repeatedMessage m) true (.inr m)

/-- A definition describes the field of a struct. -/
structure Describes (f : CodecField ι) (d : ProtoFieldDef) (made : Scalar ⊕ ι) : Prop where
  name : d.name = f.ident.toList
  tag : d.tag = f.tag
  plain : d.isMap = false
  common : Common f.kind d.repeated made
  scalar : ∀ s, made = .inl s → d.protoType = .scalar s
  message : ∀ m, made = .inr m →
    (∃ name, d.protoType = .other name) ∧ ∃ inner, d.nestedFields = some inner

/-- The definitions of a struct, one for each field, in order. -/
inductive Defines (Γ : ι → List (CodecField ι)) : ι → List ProtoFieldDef → Prop where
  | intro {n : ι} {defs : Fin (Γ n).length → ProtoFieldDef} {made : Fin (Γ n).length → Scalar ⊕ ι}
      (names : ∀ i j, (defs i).name = (defs j).name → i = j)
      (describes : ∀ i, Describes ((Γ n).get i) (defs i) (made i))
      (nested : ∀ i m inner, made i = .inr m → (defs i).nestedFields = some inner →
        Defines Γ m inner) :
      Defines Γ n ((List.finRange (Γ n).length).map defs)

/-! ## Values -/

def intJson : (ty : IntTy) → ty.Val → Value
  | .u32, x => .ofU64 (UInt32.ofBitVec x).toUInt64
  | .u64, x => .ofU64 (.ofBitVec x)
  | .i32, x => .ofSigned Value.short32 x
  | .i64, x => .ofSigned Value.short64 x

/-- `None`. -/
def isNone : {k : CodecKind ι} → FieldValue Γ k → Bool
  | _, .none => true
  | _, .noMessage => true
  | _, _ => false

mutual

/-- The value of its type's `Default`: a zero, nothing, or a struct of defaults. -/
def isDefault : {k : CodecKind ι} → FieldValue Γ k → Bool
  | _, .varint x => x == 0
  | _, .bool b => !b
  | _, .fixed32 x => Ieee.isZero x
  | _, .fixed64 x => Ieee.isZero x
  | _, .lenString s => s.isEmpty
  | _, .lenBytesStr s => s.isEmpty
  | _, .messageStr s => s.isEmpty
  | _, .lenBytes bytes => bytes.isEmpty
  | _, .none => true
  | _, .some _ => false
  | _, .nil => true
  | _, .cons _ _ => false
  | _, .message m => isDefaultMessage m
  | _, .noMessage => true
  | _, .someMessage _ => false
  | _, .nilMessage => true
  | _, .consMessage _ _ => false

def isDefaultMessage : {n : ι} → Message Γ n → Bool
  | n, .mk fields => (List.finRange (Γ n).length).all fun i => isDefault (fields i)

end

/-- `[first, rest...]`. -/
def consJson (first rest : Value) : Value :=
  .arr (first :: rest.asArray.getD [])

mutual

/-- The JSON value of a field, with or without the default members of nested messages. -/
def fieldJson (defaults : Bool) : {k : CodecKind ι} → FieldValue Γ k → Value
  | .varint ty, .varint x => intJson ty x
  | _, .bool b => .bool b
  | _, .fixed32 x => .ofF32 x
  | _, .fixed64 x => .ofF64 x
  | _, .lenString s => .str s.toList
  | _, .lenBytesStr s => .str s.toList
  | _, .messageStr s => .str s.toList
  | _, .lenBytes bytes => .str (Base64.encode bytes)
  | _, .none => .null
  | _, .some val => fieldJson defaults val
  | _, .nil => .arr []
  | _, .cons item items => consJson (fieldJson defaults item) (fieldJson defaults items)
  | _, .message m => messageJson defaults m
  | _, .noMessage => .null
  | _, .someMessage m => messageJson defaults m
  | _, .nilMessage => .arr []
  | _, .consMessage m ms => consJson (messageJson defaults m) (fieldJson defaults ms)

/-- The object of a message, with or without its default members. -/
def messageJson (defaults : Bool) : {n : ι} → Message Γ n → Value
  | n, .mk fields => .obj (ofMembers ((List.finRange (Γ n).length).filterMap fun i =>
      if isNone (fields i) || !defaults && isDefault (fields i) then none
      else some (((Γ n).get i).ident.toList, fieldJson defaults (fields i))))

end

mutual

/-- JSON has no number for an infinity or a NaN. -/
def Finite : {k : CodecKind ι} → FieldValue Γ k → Prop
  | _, .fixed32 x => Ieee.isFinite32 x = true
  | _, .fixed64 x => Ieee.isFinite64 x = true
  | _, .some val => Finite val
  | _, .cons item items => Finite item ∧ Finite items
  | _, .message m => FiniteMessage m
  | _, .someMessage m => FiniteMessage m
  | _, .consMessage m ms => FiniteMessage m ∧ Finite ms
  | _, _ => True

def FiniteMessage : {n : ι} → Message Γ n → Prop
  | _, .mk fields => ∀ i, Finite (fields i)

end

/-! ## Members -/

/-- What the object of a message has under a field's name. -/
def memberJson (defaults : Bool) {k : CodecKind ι} (v : FieldValue Γ k) : Option Value :=
  if isNone v || !defaults && isDefault v then none else some (fieldJson defaults v)

/-- The members of the object of a message. -/
theorem messageJson_members (defaults : Bool) {n : ι}
    (fields : (i : Fin (Γ n).length) → FieldValue Γ ((Γ n).get i).kind)
    (names : ∀ i j, ((Γ n).get i).ident.toList = ((Γ n).get j).ident.toList → i = j) :
    ∃ map, messageJson defaults (.mk fields) = .obj map ∧ SortedMap.Sorted map ∧
      (∀ i, SortedMap.lookup ((Γ n).get i).ident.toList map = memberJson defaults (fields i)) ∧
      ∀ name, (∀ i, ((Γ n).get i).ident.toList ≠ name) → SortedMap.lookup name map = none := by
  rw [messageJson]
  refine ⟨_, rfl, sorted_ofMembers _, ?_, ?_⟩
  · intro i
    rw [memberJson]
    split
    · rename_i absent
      apply lookup_ofMembers_of_ne
      intro e mem same
      obtain ⟨j, -, here⟩ := List.mem_filterMap.1 mem
      split at here
      · cases here
      · rename_i present
        cases here
        exact present (names j i same ▸ absent)
    · rename_i present
      refine lookup_ofMembers (e := (_, fieldJson defaults (fields i))) ?_
        (List.mem_filterMap.2 ⟨i, List.mem_finRange i, if_neg present⟩)
      refine List.Pairwise.filterMap _ ?_ (List.nodup_finRange _)
      intro j j' apart e here e' here'
      split at here
      · cases here
      · split at here'
        · cases here'
        · cases here
          cases here'
          exact fun same => apart (names j j' same)
  · intro name other
    apply lookup_ofMembers_of_ne
    intro e mem
    obtain ⟨j, -, here⟩ := List.mem_filterMap.1 mem
    split at here
    · cases here
    · cases here
      exact other j

/-! ## Scalars on the wire -/

/-- The wire value of a scalar. -/
def scalarWire : {k : CodecKind ι} → FieldValue Γ k → WireValue
  | .varint ty, .varint x => .varint (ty.asU64 x)
  | _, .bool b => .varint (if b then 1 else 0)
  | _, .fixed32 x => .fixed32 (Ieee.toLeBytes x)
  | _, .fixed64 x => .fixed64 (Ieee.toLeBytes x)
  | _, .lenString s => .lengthDelimited (Utf8.encode s)
  | _, .lenBytesStr s => .lengthDelimited (Utf8.encode s)
  | _, .lenBytes bytes => .lengthDelimited bytes
  | _, _ => .varint 0

theorem carries_int (ty : IntTy) (x : ty.Val) {s : Scalar}
    (scalar : protoScalar (.varint ty : CodecKind ι) = some s) :
    Carries s (intJson ty x) (.varint (ty.asU64 x)) (intJson ty x) := by
  cases ty with
  | u32 =>
    cases scalar
    have wide : IntTy.asU64 .u32 x = (UInt32.ofBitVec x).toUInt64 := by
      apply UInt64.toNat_inj.mp
      have low : BitVec.toNat (w := 32) x < 2 ^ 32 := BitVec.isLt (w := 32) x
      have narrow : (IntTy.asU64 .u32 x).toNat = BitVec.toNat (w := 32) x % 2 ^ 64 :=
        BitVec.toNat_setWidth 64 x
      rw [narrow, Nat.mod_eq_of_lt (by omega)]
      rfl
    rw [wide]
    exact carries_uint32 (.ofBitVec x)
  | u64 =>
    cases scalar
    have wide : IntTy.asU64 .u64 x = .ofBitVec x :=
      congrArg UInt64.ofBitVec (BitVec.setWidth_eq x)
    rw [wide]
    exact carries_uint64 (.ofBitVec x)
  | i32 =>
    cases scalar
    exact carries_int32 x
  | i64 =>
    cases scalar
    have wide : IntTy.asU64 .i64 x = .ofBitVec x :=
      congrArg UInt64.ofBitVec (BitVec.signExtend_eq (w := 64) x)
    rw [wide]
    exact carries_int64 x

theorem carries_scalar {k : CodecKind ι} {s : Scalar} (scalar : protoScalar k = some s)
    (v : FieldValue Γ k) (finite : Finite v) (defaults : Bool) :
    Carries s (fieldJson defaults v) (scalarWire v) (fieldJson defaults v) := by
  cases v with
  | varint x => exact carries_int _ x scalar
  | bool b =>
    cases scalar
    exact carries_bool b
  | fixed32 x =>
    cases scalar
    rw [Finite] at finite
    rw [fieldJson, Value.ofF32, if_pos finite]
    exact carries_float finite
  | fixed64 x =>
    cases scalar
    rw [Finite] at finite
    rw [fieldJson, Value.ofF64, if_pos finite]
    exact carries_double finite
  | lenString s =>
    cases scalar
    have := carries_string s.toList
    rwa [String.ofList_toList] at this
  | lenBytesStr s =>
    cases scalar
    have := carries_string s.toList
    rwa [String.ofList_toList] at this
  | lenBytes bytes =>
    cases scalar
    exact carries_bytes bytes
  | _ => cases scalar

/-- The derived codec's record of a scalar. -/
theorem scalarWire_record {k : CodecKind ι} {s : Scalar} (scalar : protoScalar k = some s)
    (v : FieldValue Γ k) (tag : UInt32) : (scalarWire v).record tag = Macros.record tag v := by
  cases v with
  | bool b => rw [WireValue.record, Macros.record, content_bool]; rfl
  | varint x => rfl
  | fixed32 x => rfl
  | fixed64 x => rfl
  | lenString s => rfl
  | lenBytesStr s => rfl
  | lenBytes bytes => rfl
  | _ => cases scalar

theorem writesOptional_of_scalar {k : CodecKind ι} {s : Scalar} (scalar : protoScalar k = some s) :
    k.writesOptional = true := by
  cases k <;> first | rfl | cases scalar

theorem holdsDefault_int (ty : IntTy) (x : ty.Val) {s : Scalar}
    (scalar : protoScalar (.varint ty : CodecKind ι) = some s) :
    s.Holds (intJson ty x) ∧ holdsDefault (intJson ty x) = (x == 0) := by
  cases ty with
  | u32 =>
    cases scalar
    refine ⟨⟨_, rfl⟩, (holdsDefault_ofU64 _).trans ?_⟩
    rw [Bool.eq_iff_iff, beq_iff_eq, beq_iff_eq, ← UInt64.toNat_inj]
    exact BitVec.toNat_inj (x := x) (y := 0#32)
  | u64 =>
    cases scalar
    refine ⟨⟨_, rfl⟩, (holdsDefault_ofU64 _).trans ?_⟩
    rw [Bool.eq_iff_iff, beq_iff_eq, beq_iff_eq, ← UInt64.toNat_inj]
    exact BitVec.toNat_inj (x := x) (y := 0#64)
  | i32 =>
    cases scalar
    exact ⟨⟨_, rfl⟩, holdsDefault_ofSigned (by decide) x⟩
  | i64 =>
    cases scalar
    exact ⟨⟨_, rfl⟩, holdsDefault_ofSigned (by decide) x⟩

theorem isEmpty_toList (s : String) : s.toList.isEmpty = s.isEmpty := by
  rw [Bool.eq_iff_iff, List.isEmpty_iff, String.isEmpty_iff]
  exact String.toList_eq_nil_iff

/-- A scalar's default is the default of its JSON value. -/
theorem holdsDefault_scalar {k : CodecKind ι} {s : Scalar} (scalar : protoScalar k = some s)
    (v : FieldValue Γ k) (finite : Finite v) (defaults : Bool) :
    s.Holds (fieldJson defaults v) ∧ holdsDefault (fieldJson defaults v) = isDefault v := by
  cases v with
  | varint x => exact holdsDefault_int _ x scalar
  | bool b =>
    cases scalar
    exact ⟨⟨b, rfl⟩, rfl⟩
  | fixed32 x =>
    cases scalar
    rw [Finite] at finite
    rw [fieldJson, Value.ofF32, if_pos finite]
    exact ⟨⟨x, finite, rfl⟩, Ieee.isZero_widen finite⟩
  | fixed64 x =>
    cases scalar
    rw [Finite] at finite
    rw [fieldJson, Value.ofF64, if_pos finite]
    exact ⟨⟨x, finite, rfl⟩, rfl⟩
  | lenString s =>
    cases scalar
    exact ⟨⟨_, rfl⟩, isEmpty_toList s⟩
  | lenBytesStr s =>
    cases scalar
    exact ⟨⟨_, rfl⟩, isEmpty_toList s⟩
  | lenBytes bytes =>
    cases scalar
    exact ⟨⟨_, rfl⟩, Base64.isEmpty_encode bytes⟩
  | _ => cases scalar

end Typeway.Grpc
