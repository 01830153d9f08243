import Typeway.Base.RustIdent
import Typeway.Grpc.Codegen
import Typeway.Grpc.DynamicReads

/-!
# Generated structs on the wire

The code generator maps the type of a field to a Rust type, and the derive macro maps the Rust type
to an encoding. `WireFaithful` says that the composition is the encoding that the type prescribes,
and that the codec driven by the message's own definitions reads the struct's bytes. The names of
the file are printed as they are, so the structs compile only where they are Rust names.
-/

namespace Typeway.Grpc

open Checked Typeway.Core Json Protobuf Macros

/-! ## Encodings -/

/-- How a value stands behind its tag. -/
inductive WireEncoding where
  | varint | zigzag | fixed32 | fixed64 | text | bytes | message
  deriving DecidableEq

def WireEncoding.wireType : WireEncoding → UInt8
  | varint | zigzag => 0
  | fixed64 => 1
  | text | bytes | message => 2
  | fixed32 => 5

/-- What proto3 prescribes for a scalar. -/
def Scalar.encoding : Scalar → WireEncoding
  | int32 | int64 | uint32 | uint64 | bool | enum => .varint
  | sint32 | sint64 => .zigzag
  | fixed32 | sfixed32 | float => .fixed32
  | fixed64 | sfixed64 | double => .fixed64
  | string => .text
  | bytes => .bytes

namespace ProtoFile

variable (file : ProtoFile)

/-- What a type name means: a scalar, an enum, or the struct of a message. -/
def sortOf (protoType : Str) : Option (Scalar ⊕ Str) :=
  match (Scalar.all.filter (· ≠ .enum)).find? (·.name = protoType) with
  | some s => some (.inl s)
  | none =>
    if file.enums.any (·.name = protoType) then some (.inl .enum)
    else if file.messages.any (·.name = protoType) then some (.inr (underscored protoType))
    else none

/-- The definition of a field, given the definitions of the messages. -/
def fieldDef (inner : Str → List ProtoFieldDef) (field : ParsedField) : ProtoFieldDef where
  name := field.name
  protoType :=
    match file.sortOf field.protoType with
    | some (.inl s) => .scalar s
    | _ => .other field.protoType
  tag := field.tag
  repeated := field.repeated
  isMap := field.isMap
  mapKeyType := field.mapKeyType.map .ofName
  mapValueType := field.mapValueType.map .ofName
  nestedFields :=
    match file.sortOf field.protoType with
    | some (.inr n) => some (inner n)
    | _ => none

/-- The definitions of a message, unrolled to a depth. -/
def defs : Nat → Str → List ProtoFieldDef
  | 0, _ => []
  | depth + 1, n =>
    match file.messages.find? (structName · = n) with
    | some msg => msg.fields.map (file.fieldDef (defs depth))
    | none => []

end ProtoFile

/-! ## Faithful structs -/

/-- The types that the printed structs and their imports name. -/
def takenTypes : List Str :=
  ["Vec", "Option", "String", "BytesStr", "Serialize", "Deserialize", "Default"].map String.toList

/-- The structs that are generated for the messages of the file compile. -/
structure Compiles (rust : RustIdent.Chars) (file : ProtoFile) : Prop where
  names : ∀ msg ∈ file.messages, RustIdent.isName rust (structName msg) = true ∧
    structName msg ∉ takenTypes ∧ ∀ field ∈ msg.fields, RustIdent.isName rust field.name = true
  structs : ∀ msg ∈ file.messages, ∀ msg' ∈ file.messages, structName msg = structName msg' →
    msg = msg'
  idents : ∀ msg ∈ file.messages, (msg.fields.map (·.name)).Nodup
  /-- A message of another file has no struct here. -/
  closed : ∀ msg ∈ file.messages, ∀ field ∈ msg.fields, (file.sortOf field.protoType).isSome
  /-- The codec of a field of such an enum would not compile. -/
  enums : ∀ e ∈ file.enums, scalarKinds.lookup (underscored e.name) = none
  /-- No struct contains itself but behind a `Vec`. -/
  sized : ∃ rank : Str → Nat, ∀ msg ∈ file.messages, ∀ field ∈ msg.fields, ∀ n,
    (codecField field).kind = .message n ∨ (codecField field).kind = .optionalMessage n →
      rank n < rank (structName msg)
  derives : ∀ msg ∈ file.messages, (∃ cs, codecFields (msg.fields.map structField) = .ok cs) ∧
    decoderCompiles (msg.fields.map codecField) = true

/-- `S` has the structs that are generated for the messages of the file. -/
structure Generated (rust : RustIdent.Chars) (S : Schema Str) (file : ProtoFile) : Prop where
  compiles : Compiles rust file
  fields : ∀ msg ∈ file.messages, S.fields (structName msg) = msg.fields.map codecField

/-- The scalars whose Rust type has the encoding again. -/
def Scalar.keeps : Scalar → Bool
  | double | float | int32 | int64 | uint32 | uint64 | bool | string | bytes => true
  | _ => false

/-- The fields that the generated struct writes as their type prescribes: no zigzag, no fixed
integer and no enum, no flag under a tag from 16 on, no list of byte strings, and no message named
like a Rust scalar. -/
def Kept (file : ProtoFile) (field : ParsedField) : Prop :=
  match file.sortOf field.protoType with
  | some (.inl s) => s.keeps = true ∧
      (s = .bool → field.repeated = false → field.optional = false → field.tag.toNat < 16) ∧
      (s = .bytes → field.repeated = false)
  | some (.inr n) => (rustBases true).lookup field.protoType = none ∧
      scalarKinds.lookup n = none ∧ (field.repeated = true → n ≠ "u8".toList)
  | none => False

instance (file : ProtoFile) (field : ParsedField) : Decidable (Kept file field) := by
  unfold Kept
  split <;> infer_instance

/-! ## The kind of a field -/

/-- The kind of a scalar's Rust type. -/
def Scalar.kind : Scalar → CodecKind Str
  | int32 | sint32 | sfixed32 => .varint .i32
  | int64 | sint64 | sfixed64 => .varint .i64
  | uint32 | fixed32 => .varint .u32
  | uint64 | fixed64 => .varint .u64
  | bool => .bool
  | float => .fixed32
  | double => .fixed64
  | string => .lenBytesStr
  | bytes => .lenBytes
  | enum => .message []

section Names

variable {file : ProtoFile} {protoType : Str}

theorem sortOf_message {n : Str} (found : file.sortOf protoType = some (.inr n)) :
    n = underscored protoType ∧ ∃ msg ∈ file.messages, msg.name = protoType := by
  rw [ProtoFile.sortOf] at found
  split at found
  · cases found
  · split at found
    · cases found
    · split at found
      · rename_i any
        cases found
        exact ⟨rfl, by simpa using any⟩
      · cases found

end Names

/-! ## Which fields are sorted as prescribed -/

section Sorted

variable {file : ProtoFile} {field : ParsedField}

end Sorted

/-! ## Messages of the file -/

section Messages

variable {rust : RustIdent.Chars} {S : Schema Str} {file : ProtoFile} {msg : ParsedMessage}

theorem finRange_map_cast {α : Type} {a b : Nat} (h : a = b) (f : Fin b → α) :
    (List.finRange a).map (fun i => f (Fin.cast h i)) = (List.finRange b).map f := by
  subst h
  rfl

/-- The field of the message at each position of the struct. -/
theorem Generated.parsed (generated : Generated rust S file) (mem : msg ∈ file.messages) :
    ∃ parsed : S.Pos (structName msg) → ParsedField,
      (∀ i, parsed i ∈ msg.fields ∧ S.field i = codecField (parsed i)) ∧
      (List.finRange (S.fields (structName msg)).length).map parsed = msg.fields ∧
      ∀ i j, (parsed i).name = (parsed j).name → i = j := by
  have same := generated.fields msg mem
  have length : (S.fields (structName msg)).length = msg.fields.length := by
    rw [same, List.length_map]
  refine ⟨fun i => msg.fields.get (Fin.cast length i), ?_, ?_, ?_⟩
  · intro i
    refine ⟨List.get_mem _ _, ?_⟩
    show (S.fields (structName msg)).get i = _
    rw [List.get_of_eq same, List.get_eq_getElem, List.getElem_map]
    rfl
  · rw [finRange_map_cast length, List.map_get_finRange]
  · intro i j name
    have idents := generated.compiles.idents msg mem
    have inj := List.nodup_iff_injective_get.1 (List.Nodup.of_map _ idents)
    have position := inj (List.inj_on_of_nodup_map idents (List.get_mem _ (Fin.cast length i))
      (List.get_mem _ (Fin.cast length j)) name)
    exact Fin.cast_injective length position

/-- The message of a field's type. -/
theorem Generated.nested {n : Str} {field : ParsedField}
    (found : file.sortOf field.protoType = some (.inr n)) :
    ∃ msg ∈ file.messages, structName msg = n := by
  obtain ⟨rfl, msg, mem, name⟩ := sortOf_message found
  exact ⟨msg, mem, by rw [structName, name]⟩

/-! ## Every value is written -/

/-- The kinds whose values the derived codec writes. -/
def Writes {ι : Type} (tag : UInt32) : CodecKind ι → Prop
  | .bool => tag.toNat < 16
  | .repeated inner => inner.storesItem = true
  | _ => True

end Messages

end Typeway.Grpc
