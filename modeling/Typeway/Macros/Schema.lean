import Typeway.Base.LittleEndian
import Mathlib.Data.List.FinRange
import Mathlib.Data.List.Nodup

/-!
# The structs `#[derive(TypewayCodec)]` accepts, and their values

The derive macro sorts every field by the spelling of its type (`classify_type`) and refuses
a struct with a tag 0 or a repeated tag. In the decoder every field becomes a variable beside
those of the decoder itself. A `Schema` is a family of accepted structs that may name one
another. Its values are the mutual family of `FieldValue`, one constructor for each way a field of
some kind is filled, and `Message`.
-/

namespace Typeway.Macros

/-- The integer types a varint field can have. -/
inductive IntTy where
  | u32 | u64 | i32 | i64
  deriving DecidableEq, Repr

namespace IntTy

def width : IntTy → Nat
  | u32 | i32 => 32
  | u64 | i64 => 64

def signed : IntTy → Bool
  | i32 | i64 => true
  | u32 | u64 => false

abbrev Val (ty : IntTy) := BitVec ty.width

/-- `x as u64`. -/
def asU64 (ty : IntTy) (x : ty.Val) : UInt64 :=
  .ofBitVec (if ty.signed then x.signExtend 64 else x.setWidth 64)

/-- `val as _` from `u64`. -/
def ofU64 (ty : IntTy) (val : UInt64) : ty.Val :=
  val.toBitVec.setWidth ty.width

theorem width_le (ty : IntTy) : ty.width ≤ 64 := by
  cases ty <;> decide

@[simp] theorem ofU64_asU64 (ty : IntTy) (x : ty.Val) : ty.ofU64 (ty.asU64 x) = x := by
  have := ty.width_le
  rw [ofU64, asU64, UInt64.toBitVec_ofBitVec]
  split
  · ext i hi
    simp [BitVec.getLsbD_signExtend, hi]
    omega
  · rw [BitVec.setWidth_setWidth_of_le x this, BitVec.setWidth_eq]

end IntTy

/-- A field's Rust type. `n : ι` names a struct of the schema. A bare `u8` has no codec, so it
occurs in `Vec<u8>` alone. `BytesStr` is known by two spellings, and `pathBytesStr` is the type
under any other, such as `::typeway_protobuf::BytesStr` or an alias. -/
inductive RustTy (ι : Type) where
  | int (ty : IntTy)
  | bool
  | f32
  | f64
  | string
  | bytesStr
  | pathBytesStr
  | vecU8
  | option (inner : RustTy ι)
  | vec (inner : RustTy ι)
  | struct (n : ι)

/-- What kind of encoding a field needs. The generated casts depend on the integer type, and
the nested calls on the type of the message, so these stay with their kinds: `Message` is
`messageStr` for a `BytesStr` and `message n` for a struct, and `OptionalMessage` and
`RepeatedMessage` of a `BytesStr` are `optional messageStr` and `repeated messageStr`. -/
inductive CodecKind (ι : Type) where
  | varint (ty : IntTy)
  | bool
  | fixed32
  | fixed64
  | lenString
  | lenBytesStr
  | messageStr
  | lenBytes
  | optional (inner : CodecKind ι)
  | repeated (inner : CodecKind ι)
  | message (n : ι)
  | optionalMessage (n : ι)
  | repeatedMessage (n : ι)

variable {ι : Type}

def classifyType : RustTy ι → CodecKind ι
  | .option inner =>
    match classifyType inner with
    | .message n => .optionalMessage n
    | other => .optional other
  | .vecU8 => .lenBytes
  | .vec inner =>
    match classifyType inner with
    | .message n => .repeatedMessage n
    | other => .repeated other
  | .int ty => .varint ty
  | .bool => .bool
  | .f32 => .fixed32
  | .f64 => .fixed64
  | .string => .lenString
  | .bytesStr => .lenBytesStr
  | .pathBytesStr => .messageStr
  | .struct n => .message n

def wireTypeForKind : CodecKind ι → UInt8
  | .varint _ | .bool => 0
  | .fixed64 => 1
  | .lenString | .lenBytesStr | .messageStr | .lenBytes | .message _ => 2
  | .fixed32 => 5
  | .optional inner | .repeated inner => wireTypeForKind inner
  | .optionalMessage _ | .repeatedMessage _ => 2

/-- Packed encoding is for scalars. -/
def isPackable : CodecKind ι → Bool
  | .varint _ | .bool | .fixed32 | .fixed64 => true
  | _ => false

structure CodecField (ι : Type) where
  ident : String
  ty : RustTy ι
  tag : UInt32

def CodecField.kind (f : CodecField ι) : CodecKind ι :=
  classifyType f.ty

/-! ## The checks of the derive macro -/

/-- A named field as the macro finds it, with the tag of its `#[proto(tag = N)]` if it has
one. -/
structure StructField (ι : Type) where
  ident : String
  ty : RustTy ι
  protoTag : Option UInt32

inductive DeriveError where
  | reservedTag (ident : String)
  | duplicateTag (ident : String) (tag : UInt32) (prev : String)

def DeriveError.message : DeriveError → String
  | .reservedTag _ => "proto tag 0 is reserved; tags must be >= 1"
  | .duplicateTag _ tag prev =>
    "duplicate proto tag " ++ toString tag ++ ": already used by field " ++ prev.quote

/-- The loop of `derive_typeway_codec_struct` over the fields from position `i` on. -/
def codecFieldsFrom (i : Nat) (seenTags : List (UInt32 × String)) :
    List (StructField ι) → Except DeriveError (List (CodecField ι))
  | [] => .ok []
  | field :: fields =>
    let tag := field.protoTag.getD (UInt32.ofNat i + 1)
    if tag = 0 then .error (.reservedTag field.ident)
    else
      match seenTags.lookup tag with
      | some prev => .error (.duplicateTag field.ident tag prev)
      | none => do
        let rest ← codecFieldsFrom (i + 1) ((tag, field.ident) :: seenTags) fields
        pure (⟨field.ident, field.ty, tag⟩ :: rest)

def codecFields (fields : List (StructField ι)) : Except DeriveError (List (CodecField ι)) :=
  codecFieldsFrom 0 [] fields

theorem codecFieldsFrom_ok {fields : List (StructField ι)} :
    ∀ {i : Nat} {seen : List (UInt32 × String)} {cs : List (CodecField ι)},
      codecFieldsFrom i seen fields = .ok cs →
      (∀ c ∈ cs, c.tag ≠ 0 ∧ seen.lookup c.tag = none) ∧ (cs.map (·.tag)).Nodup := by
  induction fields with
  | nil =>
    intro i seen cs h
    cases h
    simp
  | cons field fields ih =>
    intro i seen cs h
    rw [codecFieldsFrom] at h
    split at h
    · cases h
    · rename_i ne
      split at h
      · cases h
      · rename_i fresh
        cases rest : codecFieldsFrom (i + 1)
            ((field.protoTag.getD (UInt32.ofNat i + 1), field.ident) :: seen) fields with
        | error e =>
          rw [rest] at h
          cases h
        | ok cs' =>
          rw [rest] at h
          cases h
          obtain ⟨all, nodup⟩ := ih rest
          have later : ∀ c ∈ cs', c.tag ≠ field.protoTag.getD (UInt32.ofNat i + 1) := by
            intro c hc e
            have := (all c hc).2
            rw [e] at this
            rw [List.lookup_cons_self] at this
            cases this
          refine ⟨?_, ?_⟩
          · intro c hc
            rcases List.mem_cons.1 hc with rfl | hc
            · exact ⟨ne, fresh⟩
            · refine ⟨(all c hc).1, ?_⟩
              have := (all c hc).2
              rwa [List.lookup_cons, beq_false_of_ne (later c hc)] at this
          · rw [List.map_cons, List.nodup_cons]
            refine ⟨?_, nodup⟩
            intro mem
            obtain ⟨c, hc, e⟩ := List.mem_map.1 mem
            exact later c hc e

/-- What the macro has checked of a struct it accepts. -/
theorem codecFields_ok {fields : List (StructField ι)} {cs : List (CodecField ι)}
    (h : codecFields fields = .ok cs) : (∀ c ∈ cs, c.tag ≠ 0) ∧ (cs.map (·.tag)).Nodup :=
  ⟨fun c hc => ((codecFieldsFrom_ok h).1 c hc).1, (codecFieldsFrom_ok h).2⟩

/-! ## Names of the generated decoder -/

/-- What the loop of the decoder binds. -/
def loopNames : List String :=
  ["tag_wire", "consumed", "field_number", "wire_type"]

/-- Names no variable of the decoder can have. The last `offset` is a `usize`. -/
def takenNames : List String :=
  ["offset", "Ok", "Err", "Some", "None"]

/-- What hides the variable of a field where its arm stores into it. An arm that stores nothing
has no such names. -/
def armNames : CodecKind ι → List String
  | .varint _ | .bool => "val" :: loopNames
  | .fixed32 | .fixed64 => loopNames
  | .lenString | .lenBytesStr => "str_len" :: "slice" :: loopNames
  | .lenBytes => "byte_len" :: loopNames
  | .message _ | .messageStr | .optionalMessage _ | .repeatedMessage _ => "msg_len" :: loopNames
  | .optional .lenBytes => []
  | .optional (.optional _) | .optional (.repeated _) => []
  | .optional (.optionalMessage _) | .optional (.repeatedMessage _) => []
  | .optional inner => armNames inner
  | .repeated (.varint _) | .repeated .bool =>
    "packed_len" :: "packed_end" :: "b" :: "val" :: loopNames
  | .repeated .fixed32 | .repeated .fixed64 => "packed_len" :: "packed_end" :: "val" :: loopNames
  | .repeated .lenString | .repeated .lenBytesStr => "str_len" :: "slice" :: loopNames
  | .repeated .messageStr => "msg_len" :: loopNames
  | .repeated _ => []

def isVecU8 : RustTy ι → Bool
  | .vecU8 => true
  | _ => false

/-- A variable for the field fits into the generated decoder: `bytes` is indexed for slices of
bytes, and an arm does not store into a variable of its own. -/
def CodecField.compiles (f : CodecField ι) : Bool :=
  !takenNames.contains f.ident &&
    (f.ident != "bytes" || isVecU8 f.ty) && !(armNames f.kind).contains f.ident

def isLenBytesStr : CodecKind ι → Bool
  | .lenBytesStr => true
  | _ => false

/-- The two generated decoders compile. The second slices its `input` for each `BytesStr`. -/
def decoderCompiles (fields : List (CodecField ι)) : Bool :=
  fields.all CodecField.compiles &&
    !(fields.any (·.ident == "input") && fields.any fun f => isLenBytesStr f.kind)

/-! ## Values -/

section

variable (Γ : ι → List (CodecField ι))

mutual

/-- The value of a field of some kind. A Rust `Option` or `Vec` is spelled by the two
constructors of its kind. -/
inductive FieldValue : CodecKind ι → Type where
  | varint {ty : IntTy} (x : ty.Val) : FieldValue (.varint ty)
  | bool (b : Bool) : FieldValue .bool
  | fixed32 (x : BitVec (8 * 4)) : FieldValue .fixed32
  | fixed64 (x : BitVec (8 * 8)) : FieldValue .fixed64
  | lenString (s : String) : FieldValue .lenString
  | lenBytesStr (s : String) : FieldValue .lenBytesStr
  | messageStr (s : String) : FieldValue .messageStr
  | lenBytes (bytes : List UInt8) : FieldValue .lenBytes
  | none {k : CodecKind ι} : FieldValue (.optional k)
  | some {k : CodecKind ι} (val : FieldValue k) : FieldValue (.optional k)
  | nil {k : CodecKind ι} : FieldValue (.repeated k)
  | cons {k : CodecKind ι} (item : FieldValue k) (items : FieldValue (.repeated k)) :
      FieldValue (.repeated k)
  | message {n : ι} (m : Message n) : FieldValue (.message n)
  | noMessage {n : ι} : FieldValue (.optionalMessage n)
  | someMessage {n : ι} (m : Message n) : FieldValue (.optionalMessage n)
  | nilMessage {n : ι} : FieldValue (.repeatedMessage n)
  | consMessage {n : ι} (m : Message n) (ms : FieldValue (.repeatedMessage n)) :
      FieldValue (.repeatedMessage n)

/-- A value of the struct `n`. -/
inductive Message : ι → Type where
  | mk {n : ι} (fields : (i : Fin (Γ n).length) → FieldValue ((Γ n).get i).kind) : Message n

end

end

/-- A family of structs the macro accepts and whose code compiles. Each implements `Default`, which decoding needs
of the struct of a plain nested field. -/
structure Schema (ι : Type) where
  fields : ι → List (CodecField ι)
  accepted : ∀ n, ∃ decl, codecFields decl = .ok (fields n)
  compiles : ∀ n, decoderCompiles (fields n) = true
  default : (n : ι) → Message fields n

namespace Schema

variable (S : Schema ι)

/-- The positions of the fields of a struct. -/
abbrev Pos (n : ι) := Fin (S.fields n).length

abbrev field {n : ι} (i : S.Pos n) : CodecField ι := (S.fields n).get i

abbrev Value (k : CodecKind ι) := FieldValue S.fields k

abbrev Msg (n : ι) := Message S.fields n

/-- The field variables of the struct `n`. -/
abbrev Fields (n : ι) := (i : S.Pos n) → S.Value (S.field i).kind

theorem tag_ne_zero {n : ι} (i : S.Pos n) : (S.field i).tag ≠ 0 := by
  obtain ⟨decl, h⟩ := S.accepted n
  exact (codecFields_ok h).1 _ (List.get_mem _ _)

theorem tag_inj {n : ι} {i j : S.Pos n} (h : (S.field i).tag = (S.field j).tag) : i = j := by
  obtain ⟨decl, ok⟩ := S.accepted n
  have nodup := (codecFields_ok ok).2
  have key := List.nodup_iff_injective_get.1 nodup
  have := @key ⟨i, by simp⟩ ⟨j, by simp⟩ (by simpa using h)
  exact Fin.ext (by simpa using this)

/-- A field of this name hides the parameter `bytes` of `typeway_decode`. -/
def shadowed (n : ι) : Bool :=
  (S.fields n).any (·.ident == "bytes")

/-- What the decoder finds in its variable `bytes`. Every field has been declared a variable with
its default by then, and the default of a `Vec<u8>` is empty. -/
def visible (n : ι) (bytes : List UInt8) : List UInt8 :=
  if S.shadowed n then [] else bytes

theorem visible_of_not {n : ι} (clear : S.shadowed n = false) (bytes : List UInt8) :
    S.visible n bytes = bytes := by
  rw [visible, clear, if_neg Bool.false_ne_true]

theorem visible_of_shadowed {n : ι} (hidden : S.shadowed n = true) (bytes : List UInt8) :
    S.visible n bytes = [] := by
  rw [visible, if_pos hidden]

theorem visible_length_le (n : ι) (bytes : List UInt8) :
    (S.visible n bytes).length ≤ bytes.length := by
  rw [visible]
  split
  · exact Nat.zero_le _
  · exact Nat.le_refl _

/-- The field that hides the parameter is a `Vec<u8>`. -/
theorem exists_of_shadowed {n : ι} (hidden : S.shadowed n = true) :
    ∃ i : S.Pos n, (S.field i).kind = .lenBytes := by
  obtain ⟨f, mem, named⟩ := List.any_eq_true.1 hidden
  have fits := S.compiles n
  rw [decoderCompiles, Bool.and_eq_true, List.all_eq_true] at fits
  have fits := fits.1 f mem
  rw [CodecField.compiles, beq_iff_eq.1 named] at fits
  obtain ⟨i, rfl⟩ := List.get_of_mem mem
  refine ⟨i, ?_⟩
  rw [CodecField.kind]
  cases ty : ((S.fields n).get i).ty <;> simp_all [isVecU8, classifyType]

/-- `Default::default()` for a field's type. -/
def fieldDefault : (k : CodecKind ι) → S.Value k
  | .varint _ => .varint 0
  | .bool => .bool false
  | .fixed32 => .fixed32 0
  | .fixed64 => .fixed64 0
  | .lenString => .lenString ""
  | .lenBytesStr => .lenBytesStr ""
  | .messageStr => .messageStr ""
  | .lenBytes => .lenBytes []
  | .optional _ => .none
  | .repeated _ => .nil
  | .message n => .message (S.default n)
  | .optionalMessage _ => .noMessage
  | .repeatedMessage _ => .nilMessage

def fieldDefaults (n : ι) : S.Fields n :=
  fun i => S.fieldDefault (S.field i).kind

end Schema

namespace FieldValue

variable {Γ : ι → List (CodecField ι)} {k : CodecKind ι} {n : ι}

/-- The elements of a `Vec`. -/
def items : FieldValue Γ (.repeated k) → List (FieldValue Γ k)
  | .nil => []
  | .cons item items => item :: items.items

def push (v : FieldValue Γ (.repeated k)) (item : FieldValue Γ k) : FieldValue Γ (.repeated k) :=
  match v with
  | .nil => .cons item .nil
  | .cons first items => .cons first (items.push item)

def messages : FieldValue Γ (.repeatedMessage n) → List (Message Γ n)
  | .nilMessage => []
  | .consMessage m ms => m :: ms.messages

def pushMessage (v : FieldValue Γ (.repeatedMessage n)) (m : Message Γ n) :
    FieldValue Γ (.repeatedMessage n) :=
  match v with
  | .nilMessage => .consMessage m .nilMessage
  | .consMessage first ms => .consMessage first (ms.pushMessage m)

end FieldValue

/-! ## A recursive struct -/

/-- `struct Node { id: u32, children: Vec<Node>, #[proto(tag = 16)] flag: bool }`. -/
def nodeFields : List (CodecField Unit) :=
  [⟨"id", .int .u32, 1⟩, ⟨"children", .vec (.struct ()), 2⟩, ⟨"flag", .bool, 16⟩]

def nodeOf (id : BitVec 32) (children : FieldValue (fun _ => nodeFields) (.repeatedMessage ()))
    (flag : Bool) : Message (fun _ => nodeFields) () :=
  .mk fun
    | ⟨0, _⟩ => .varint id
    | ⟨1, _⟩ => children
    | ⟨2, _⟩ => .bool flag

def nodeSchema : Schema Unit where
  fields _ := nodeFields
  accepted _ :=
    ⟨[⟨"id", .int .u32, none⟩, ⟨"children", .vec (.struct ()), none⟩, ⟨"flag", .bool, some 16⟩], rfl⟩
  compiles _ := rfl
  default _ := nodeOf 0 .nilMessage false

def node (id : BitVec 32) (children : nodeSchema.Value (.repeatedMessage ())) (flag : Bool) :
    nodeSchema.Msg () :=
  nodeOf id children flag

end Typeway.Macros
