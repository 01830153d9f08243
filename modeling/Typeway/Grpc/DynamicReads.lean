import Typeway.Grpc.StructJson
import Typeway.Macros.RoundTrip
import Mathlib.Data.Finset.Lattice.Fold
import Mathlib.Data.Fintype.Basic

/-!
# Reading the derived codec with definitions

The codec driven by definitions reads what the derived codec of a struct writes. It makes each
member of the object from the records of one field, so the proof goes field by field. Wide flags
and lists of a kind that no `Vec` writes are left out: the derived codec does not write them.
-/

namespace Typeway.Grpc

open Checked Typeway.Core Json Protobuf Macros

variable {ι : Type} {Γ : ι → List (CodecField ι)}

mutual

/-- The derived codec writes what the value holds: no flag under a wide tag, and nothing of a kind
that an `Option` or a `Vec` does not write. -/
def Written (tag : UInt32) : {k : CodecKind ι} → FieldValue Γ k → Prop
  | _, .bool b => b = true → tag.toNat < 16
  | .optional inner, .some _ => inner.writesOptional = true
  | .repeated inner, .cons _ _ => inner.storesItem = true
  | _, .message m => WrittenMessage m
  | _, .someMessage m => WrittenMessage m
  | _, .consMessage m ms => WrittenMessage m ∧ Written tag ms
  | _, _ => True

def WrittenMessage : {n : ι} → Message Γ n → Prop
  | n, .mk fields => ∀ i, Written ((Γ n).get i).tag (fields i)

end

mutual

/-- Messages are nested at most so deep. -/
def Within : Nat → {k : CodecKind ι} → FieldValue Γ k → Prop
  | depth, _, .message m => WithinMessage depth m
  | depth, _, .someMessage m => WithinMessage depth m
  | depth, _, .consMessage m ms => WithinMessage depth m ∧ Within depth ms
  | _, _, _ => True

def WithinMessage : Nat → {n : ι} → Message Γ n → Prop
  | 0, _, _ => False
  | depth + 1, _, .mk fields => ∀ i, Within depth (fields i)

end

mutual

theorem within_mono {depth more : Nat} (le : depth ≤ more) {k : CodecKind ι} (v : FieldValue Γ k)
    (within : Within depth v) : Within more v := by
  cases v with
  | message m => exact withinMessage_mono le m within
  | someMessage m => exact withinMessage_mono le m within
  | consMessage m ms =>
    obtain ⟨first, rest⟩ := within
    exact ⟨withinMessage_mono le m first, within_mono le ms rest⟩
  | _ => trivial

theorem withinMessage_mono {depth more : Nat} (le : depth ≤ more) {n : ι} :
    (m : Message Γ n) → WithinMessage depth m → WithinMessage more m
  | .mk fields, within => by
    have each := fun (depth more : Nat) (le : depth ≤ more) i => within_mono le (fields i)
    cases depth with
    | zero => exact within.elim
    | succ depth =>
      cases more with
      | zero => exact absurd le (Nat.not_succ_le_zero _)
      | succ more => exact fun i => each depth more (Nat.le_of_succ_le_succ le) i (within i)

end

mutual

/-- Every value is nested to some depth. -/
theorem exists_within {k : CodecKind ι} (v : FieldValue Γ k) : ∃ depth, Within depth v := by
  cases v with
  | message m => exact exists_withinMessage m
  | someMessage m => exact exists_withinMessage m
  | consMessage m ms =>
    obtain ⟨first, withinFirst⟩ := exists_withinMessage m
    obtain ⟨rest, withinRest⟩ := exists_within ms
    exact ⟨max first rest, withinMessage_mono (Nat.le_max_left _ _) m withinFirst,
      within_mono (Nat.le_max_right _ _) ms withinRest⟩
  | _ => exact ⟨0, trivial⟩

theorem exists_withinMessage {n : ι} : (m : Message Γ n) → ∃ depth, WithinMessage depth m
  | .mk fields => by
    have each := fun i => exists_within (fields i)
    choose depth within using each
    refine ⟨Finset.univ.sup depth + 1, fun i => ?_⟩
    exact within_mono (Finset.le_sup (Finset.mem_univ i)) (fields i) (within i)

end

/-! ## Scalars, lists and defaults -/

theorem isNone_scalar {k : CodecKind ι} {s : Scalar} (scalar : protoScalar k = some s)
    (v : FieldValue Γ k) : isNone v = false := by
  cases v <;> first | rfl | cases scalar

theorem silent_scalar {k : CodecKind ι} {s : Scalar} (scalar : protoScalar k = some s)
    (v : FieldValue Γ k) : silent v = isDefault v := by
  cases v <;> first | rfl | cases scalar

theorem encodeField_scalar {tag : UInt32} {k : CodecKind ι} {s : Scalar}
    (scalar : protoScalar k = some s) (v : FieldValue Γ k) (written : Written tag v) :
    Macros.encodeField tag v = if isDefault v then [] else Macros.record tag v := by
  cases v with
  | bool b =>
    rw [encodeField_bool]
    cases b with
    | false => rfl
    | true =>
      have low : tag.toNat < 16 := written rfl
      rw [if_pos rfl, isDefault, if_neg (by simp), Macros.record, ← List.singleton_append,
        precomputeTagByte_eq varint_lt low]
      rfl
  | varint x => exact encodeField_plain rfl _
  | fixed32 x => exact encodeField_plain rfl _
  | fixed64 x => exact encodeField_plain rfl _
  | lenString s => exact encodeField_plain rfl _
  | lenBytesStr s => exact encodeField_plain rfl _
  | lenBytes bytes => exact encodeField_plain rfl _
  | _ => cases scalar

theorem isPackableType_scalar {k : CodecKind ι} {s : Scalar} (scalar : protoScalar k = some s) :
    isPackableType (.scalar s) = isPackable k := by
  cases k with
  | varint ty => cases ty <;> cases scalar <;> rfl
  | _ => first | (cases scalar; done) | (cases scalar; rfl)

theorem fieldJson_items (defaults : Bool) {k : CodecKind ι} :
    (v : FieldValue Γ (.repeated k)) →
      fieldJson defaults v = .arr (v.items.map (fieldJson defaults))
  | .nil => by rw [fieldJson, FieldValue.items, List.map_nil]
  | .cons item items => by
    rw [fieldJson, FieldValue.items, List.map_cons, fieldJson_items defaults items]
    rfl

theorem fieldJson_messages (defaults : Bool) {n : ι} :
    (v : FieldValue Γ (.repeatedMessage n)) →
      fieldJson defaults v = .arr (v.messages.map (messageJson defaults))
  | .nilMessage => by rw [fieldJson, FieldValue.messages, List.map_nil]
  | .consMessage m ms => by
    rw [fieldJson, FieldValue.messages, List.map_cons, fieldJson_messages defaults ms]
    rfl

mutual

/-- A value that is written writes nothing exactly if it is a default. -/
theorem silent_eq_isDefault {tag : UInt32} {k : CodecKind ι} (v : FieldValue Γ k)
    (written : Written tag v) : silent v = isDefault v := by
  cases v with
  | @some inner val =>
    rw [Written] at written
    rw [silent, isDefault, written]
    rfl
  | @cons inner item items =>
    rw [Written] at written
    rw [silent, isDefault, ← CodecKind.storesItem, written]
    rfl
  | message m =>
    rw [Written] at written
    rw [silent, isDefault, silentMessage_eq_isDefault m written]
  | _ => rfl

theorem silentMessage_eq_isDefault {n : ι} :
    (m : Message Γ n) → WrittenMessage m → silentMessage m = isDefaultMessage m
  | .mk fields, written => by
    have each := fun i => silent_eq_isDefault (fields i) (written i)
    rw [silentMessage, isDefaultMessage]
    exact congrArg _ (funext each)

end

/-- A wire value that comes out as `u`. -/
structure Delivers (s : Scalar) (wv : WireValue) (u : Value) : Prop where
  fits : wv.Fits
  wireType : wv.wireType = wireTypeFor (.scalar s)
  decoded : ∀ (E : Externals) (nested : NestedDecoder), wireValueToJson E wv (.scalar s) nested = .ok u

/-- The record of a scalar comes out as its JSON value, an infinity and a NaN as `null`. -/
theorem delivers_scalar {k : CodecKind ι} {s : Scalar} (scalar : protoScalar k = some s)
    (v : FieldValue Γ k) (defaults : Bool) : Delivers s (scalarWire v) (fieldJson defaults v) := by
  have carried (finite : Finite v) : Delivers s (scalarWire v) (fieldJson defaults v) := by
    obtain ⟨fits, wireType, -, decoded⟩ := carries_scalar scalar v finite defaults
    exact ⟨fits, wireType, decoded⟩
  cases v with
  | fixed32 x =>
    cases scalar
    refine ⟨Ieee.toLeBytes_length x, rfl, fun E nested => ?_⟩
    rw [scalarWire, wireValueToJson, Ieee.fromLeBytes_toLeBytes, fieldJson]
    rfl
  | fixed64 x =>
    cases scalar
    refine ⟨Ieee.toLeBytes_length x, rfl, fun E nested => ?_⟩
    rw [scalarWire, wireValueToJson, Ieee.fromLeBytes_toLeBytes, fieldJson]
    rfl
  | _ => first | exact carried trivial | cases scalar

/-! ## Fields -/

section Fields

variable {E : Externals} {d : ProtoFieldDef}

/-- The records of a field, and the member they make. -/
def Makes (E : Externals) (d : ProtoFieldDef) (bytes : List UInt8) (member : Option Value) : Prop :=
  ∃ wvs : List WireValue, (∀ wv ∈ wvs, wv.Fits) ∧ bytes = wvs.flatMap (·.record d.tag) ∧
    fieldMember E d wvs = .ok member

theorem makes_nothing : Makes E d [] none :=
  ⟨[], fun _ mem => absurd mem List.not_mem_nil, rfl, rfl⟩

theorem Delivers.unpacked {s : Scalar} {u : Value} {wv : WireValue} (delivers : Delivers s wv u)
    (packable : isPackableType (.scalar s) = true) : wv.wireType ≠ 2 := by
  rw [delivers.wireType]
  cases s <;> first | decide | cases packable

/-- A record on its own is one value. -/
theorem wireValues_delivers {s : Scalar} {u : Value} {wv : WireValue} (delivers : Delivers s wv u)
    (type : d.protoType = .scalar s) :
    wireValues E d (nestedDecoder E d.nestedFields) wv = .ok [u] := by
  rw [wireValues_single E _ fun packable => delivers.unpacked (type ▸ packable), type,
    delivers.decoded]
  rfl

theorem fieldMember_one (one : d.repeated = false) {wv : WireValue} {u : Value}
    (read : wireValues E d (nestedDecoder E d.nestedFields) wv = .ok [u]) :
    fieldMember E d [wv] = .ok (some u) := by
  rw [fieldMember, List.mapM_cons, List.mapM_nil, read]
  show Except.ok (joined d [[u]]) = _
  rw [joined, if_neg (by simp [one])]
  rfl

theorem fieldMember_many (many : d.repeated = true) {wvs : List WireValue} {us : List Value}
    (some : us ≠ []) (read : List.Forall₂ (fun wv u =>
      wireValues E d (nestedDecoder E d.nestedFields) wv = .ok [u]) wvs us) :
    fieldMember E d wvs = .ok (.some (.arr us)) := by
  have all : wvs.mapM (wireValues E d (nestedDecoder E d.nestedFields)) = .ok (us.map ([·])) := by
    induction read with
    | nil => rfl
    | @cons wv u wvs us here read ih =>
      rw [List.mapM_cons, here]
      cases us with
      | nil =>
        cases read
        rfl
      | cons u' us =>
        rw [ih (List.cons_ne_nil _ _)]
        rfl
  refine fieldMember_ok.2 ⟨_, all, ?_⟩
  cases us with
  | nil => exact absurd rfl some
  | cons u us =>
    rw [List.map_cons, joined, if_pos many, flatten_map_singleton]
    rfl

theorem makes_scalar {s : Scalar} (type : d.protoType = .scalar s) (one : d.repeated = false)
    {k : CodecKind ι} (scalar : protoScalar k = some s) (v : FieldValue Γ k) :
    Makes E d (Macros.record d.tag v) (some (fieldJson false v)) := by
  have delivers := delivers_scalar scalar v false
  refine ⟨[scalarWire v], List.forall_mem_singleton.2 delivers.fits, ?_, ?_⟩
  · rw [List.flatMap_singleton, scalarWire_record scalar]
  · exact fieldMember_one one (wireValues_delivers delivers type)

/-! ### Lists -/

theorem scalarWire_bytes {k : CodecKind ι} {s : Scalar} (scalar : protoScalar k = some s)
    (v : FieldValue Γ k) : (scalarWire v).bytes = content v := by
  cases v with
  | bool b => exact (content_bool b).symm
  | varint x => rfl
  | fixed32 x => rfl
  | fixed64 x => rfl
  | lenString s => rfl
  | lenBytesStr s => rfl
  | lenBytes bytes => rfl
  | _ => cases scalar

/-- Elements that stand each in a record of its own. -/
theorem makes_records {α : Type} (many : d.repeated = true) {items : List α} (some : items ≠ [])
    {wire : α → WireValue} {json : α → Value} (fits : ∀ item ∈ items, (wire item).Fits)
    (read : ∀ item ∈ items,
      wireValues E d (nestedDecoder E d.nestedFields) (wire item) = .ok [json item]) :
    Makes E d (items.flatMap fun item => (wire item).record d.tag)
      (.some (.arr (items.map json))) := by
  refine ⟨items.map wire, ?_, ?_, ?_⟩
  · intro wv mem
    obtain ⟨item, inside, rfl⟩ := List.mem_map.1 mem
    exact fits item inside
  · rw [List.flatMap_map]
  · apply fieldMember_many many (mt List.map_eq_nil_iff.1 some)
    rw [List.forall₂_map_left_iff, List.forall₂_map_right_iff, List.forall₂_same]
    exact read

/-- Elements that stand in one packed record. -/
theorem makes_packed {s : Scalar} (many : d.repeated = true) (type : d.protoType = .scalar s)
    {k : CodecKind ι} (scalar : protoScalar k = some s) (packable : isPackable k = true)
    {items : List (FieldValue Γ k)} (small : (packedPayload items).length ≤ isizeMax) :
    Makes E d (tagBytes d.tag 2 ++ delimited (packedPayload items))
      (some (.arr (items.map (fieldJson false)))) := by
  have payload : packedPayload items = (items.map scalarWire).flatMap WireValue.bytes := by
    rw [List.flatMap_map, packedPayload]
    exact congrArg (items.flatMap ·) (funext fun item => (scalarWire_bytes scalar item).symm)
  have packs : isPackableType (.scalar s) = true := by rw [isPackableType_scalar scalar, packable]
  have elements : List.Forall₂ (fun wv u => wv.Fits ∧ wv.wireType = wireTypeFor (.scalar s) ∧
      wireValueToJson E wv (.scalar s) none = .ok u) (items.map scalarWire)
      (items.map (fieldJson false)) := by
    rw [List.forall₂_map_left_iff, List.forall₂_map_right_iff, List.forall₂_same]
    intro item _
    have delivers := delivers_scalar scalar item false
    exact ⟨delivers.fits, delivers.wireType, delivers.decoded E none⟩
  have short : wireTypeFor (.scalar s) ≠ 2 := by
    cases s <;> first | decide | cases packs
  rw [payload] at small ⊢
  have unpacked := unpackScalars_elements E short elements small
  refine ⟨[.lengthDelimited ((items.map scalarWire).flatMap WireValue.bytes)],
    List.forall_mem_singleton.2 trivial, ?_, ?_⟩
  · rw [List.flatMap_singleton]
    rfl
  · have read : wireValues E d (nestedDecoder E d.nestedFields)
        (.lengthDelimited ((items.map scalarWire).flatMap WireValue.bytes)) =
        .ok (items.map (fieldJson false)) := by
      unfold wireValues
      rw [many, type, packs]
      exact unpacked
    rw [fieldMember, List.mapM_cons, List.mapM_nil, read]
    show Except.ok (joined d [items.map (fieldJson false)]) = _
    rw [joined, if_pos many, List.flatten_nil, List.append_nil]

theorem makes_items {s : Scalar} (many : d.repeated = true) (type : d.protoType = .scalar s)
    {k : CodecKind ι} (scalar : protoScalar k = some s) {items : List (FieldValue Γ k)}
    (some : items ≠ []) (stores : k.storesItem = true)
    (small : (repeatedBytes d.tag items).length ≤ isizeMax) :
    Makes E d (repeatedBytes d.tag items) (.some (.arr (items.map (fieldJson false)))) := by
  rw [CodecKind.storesItem] at stores
  rw [repeatedBytes] at small ⊢
  cases packable : isPackable k with
  | true =>
    rw [packable, if_pos rfl, if_neg (by simpa using some)] at small
    rw [if_pos rfl, if_neg (by simpa using some)]
    refine makes_packed many type scalar packable (le_trans ?_ small)
    rw [delimited, List.length_append, List.length_append]
    omega
  | false =>
    have writes : k.writesItem = true := by simpa [packable] using stores
    rw [if_neg (by simp), if_pos writes]
    have spelled : (items.flatMap fun item => tagBytes d.tag (wireTypeForKind k) ++ content item) =
        items.flatMap fun item => (scalarWire item).record d.tag :=
      congrArg (items.flatMap ·) (funext fun item => (scalarWire_record scalar item d.tag).symm)
    rw [spelled]
    apply makes_records many some
    · exact fun item _ => (delivers_scalar scalar item false).fits
    · exact fun item _ => wireValues_delivers (delivers_scalar scalar item false) type

/-! ### Messages -/

theorem messages_ne_nil {n : ι} (m : Message Γ n) (ms : FieldValue Γ (.repeatedMessage n)) :
    (FieldValue.consMessage m ms).messages ≠ [] := by
  rw [FieldValue.messages]
  exact List.cons_ne_nil _ _

theorem encodeField_messages (tag : UInt32) {n : ι} :
    (v : FieldValue Γ (.repeatedMessage n)) → Macros.encodeField tag v =
      v.messages.flatMap fun m => (WireValue.lengthDelimited (encodeToVec m)).record tag
  | .nilMessage => by
    rw [FieldValue.messages]
    exact (encodeField_eq_nil tag _).2 rfl
  | .consMessage m ms => by
    rw [encodeField_consMessage, FieldValue.messages, List.flatMap_cons,
      encodeField_messages tag ms]
    rfl

theorem written_messages {tag : UInt32} {n : ι} :
    (v : FieldValue Γ (.repeatedMessage n)) → Written tag v → ∀ m ∈ v.messages, WrittenMessage m
  | .nilMessage, _ => fun m mem => by
    rw [FieldValue.messages] at mem
    cases mem
  | .consMessage m ms, written => by
    obtain ⟨first, rest⟩ := written
    rw [FieldValue.messages]
    exact List.forall_mem_cons.2 ⟨first, written_messages ms rest⟩

theorem within_messages {depth : Nat} {n : ι} :
    (v : FieldValue Γ (.repeatedMessage n)) → Within depth v → ∀ m ∈ v.messages, WithinMessage depth m
  | .nilMessage, _ => fun m mem => by
    rw [FieldValue.messages] at mem
    cases mem
  | .consMessage m ms, within => by
    obtain ⟨first, rest⟩ := within
    rw [FieldValue.messages]
    exact List.forall_mem_cons.2 ⟨first, within_messages ms rest⟩

/-- The dynamic decoder reads what the derived codec writes of the struct `n`, to some depth. -/
def DynamicReads (E : Externals) (depth : Nat) (n : ι) (defs : List ProtoFieldDef) : Prop :=
  ∀ m : Message Γ n, WithinMessage depth m → WrittenMessage m → (encodeToVec m).length ≤ isizeMax →
    protoBinaryToJson E (encodeToVec m) defs = .ok (messageJson false m)

theorem wireValues_message {name : Str} (type : d.protoType = .other name)
    {inner : List ProtoFieldDef} (nested : d.nestedFields = some inner) {data : List UInt8}
    {v : Value} (read : protoBinaryToJson E data inner = .ok v) :
    wireValues E d (nestedDecoder E d.nestedFields) (.lengthDelimited data) = .ok [v] := by
  rw [wireValues_single E _ (by rw [type]; intro packable; cases packable), type, nested,
    nestedDecoder_some]
  show (protoBinaryToJson E data inner).map ([·]) = _
  rw [read]
  rfl

/-- **A field of the derived codec.** Its bytes are records that make its member. -/
theorem makes_field {f : CodecField ι} {made : Scalar ⊕ ι} {depth : Nat} (describes : Describes f d made)
    (nested : ∀ m inner, made = .inr m → d.nestedFields = some inner →
      DynamicReads (Γ := Γ) E depth m inner)
    (v : FieldValue Γ f.kind) (within : Within depth v) (written : Written f.tag v)
    (small : (Macros.encodeField f.tag v).length ≤ isizeMax) :
    Makes E d (Macros.encodeField f.tag v) (memberJson false v) := by
  obtain ⟨-, tag, -, common, isScalar, isMessage⟩ := describes
  rw [← tag] at written small ⊢
  generalize f.kind = k at common v
  generalize many : d.repeated = isList at common
  have record_le {bytes : List UInt8} :
      bytes.length ≤ ((WireValue.lengthDelimited bytes).record d.tag).length :=
    record_length_le d.tag bytes
  cases common with
  | scalar scalar =>
    rw [encodeField_scalar scalar v written, memberJson, isNone_scalar scalar]
    cases default : isDefault v with
    | true => exact makes_nothing
    | false => exact makes_scalar (isScalar _ rfl) many scalar v
  | optional scalar =>
    cases v with
    | none => exact makes_nothing
    | some val =>
      rw [encodeField_some, if_pos (writesOptional_of_scalar scalar), memberJson, fieldJson]
      exact makes_scalar (isScalar _ rfl) many scalar val
  | repeated scalar =>
    cases v with
    | nil =>
      rw [(encodeField_eq_nil _ _).2 rfl]
      exact makes_nothing
    | cons item items =>
      rw [encodeField_repeated] at small ⊢
      rw [memberJson, fieldJson_items]
      exact makes_items many (isScalar _ rfl) scalar
        (by rw [FieldValue.items]; exact List.cons_ne_nil _ _) written small
  | message n =>
    obtain ⟨⟨name, type⟩, inner, here⟩ := isMessage n rfl
    cases v with
    | message m =>
      have quiet := silentMessage_eq_isDefault m written
      rw [encodeField_message] at small ⊢
      rw [memberJson, show isNone (.message m : FieldValue Γ _) = false from rfl, isDefault, ← quiet,
        fieldJson]
      cases silent : silentMessage m with
      | true =>
        rw [(encodeToVec_eq_nil m).2 silent]
        exact makes_nothing
      | false =>
        have loud : encodeToVec m ≠ [] := fun e => by
          rw [(encodeToVec_eq_nil m).1 e] at silent
          cases silent
        rw [if_neg (by simpa using loud)] at small ⊢
        have read := nested n inner rfl here m within written (le_trans record_le small)
        refine ⟨[.lengthDelimited (encodeToVec m)], List.forall_mem_singleton.2 trivial, ?_, ?_⟩
        · rw [List.flatMap_singleton]
          rfl
        · exact fieldMember_one many (wireValues_message type here read)
  | optionalMessage n =>
    obtain ⟨⟨name, type⟩, inner, here⟩ := isMessage n rfl
    cases v with
    | noMessage => exact makes_nothing
    | someMessage m =>
      rw [encodeField_someMessage] at small ⊢
      rw [memberJson, fieldJson]
      have read := nested n inner rfl here m within written (le_trans record_le small)
      refine ⟨[.lengthDelimited (encodeToVec m)], List.forall_mem_singleton.2 trivial, ?_, ?_⟩
      · rw [List.flatMap_singleton]
        rfl
      · exact fieldMember_one many (wireValues_message type here read)
  | repeatedMessage n =>
    obtain ⟨⟨name, type⟩, inner, here⟩ := isMessage n rfl
    cases v with
    | nilMessage => exact makes_nothing
    | consMessage m ms =>
      have within := within_messages _ within
      have written := written_messages _ written
      rw [encodeField_messages] at small ⊢
      rw [memberJson, fieldJson_messages]
      refine makes_records many (messages_ne_nil m ms) (fun _ _ => trivial) ?_
      intro m mem
      have short : (encodeToVec m).length ≤ isizeMax := by
        refine le_trans (le_trans record_le ?_) small
        rw [List.flatMap_def]
        apply List.Sublist.length_le
        exact List.sublist_flatten_of_mem (List.mem_map_of_mem mem)
      exact wireValues_message type here (nested n inner rfl here m (within m mem) (written m mem) short)

end Fields

/-! ## Whole messages -/

section Messages

variable {E : Externals} {S : Schema ι}

/-- The definitions of a struct have different tags and names. -/
theorem distinct_defs {n : ι} {defs : S.Pos n → ProtoFieldDef} {made : S.Pos n → Scalar ⊕ ι}
    (names : ∀ i j, (defs i).name = (defs j).name → i = j)
    (describes : ∀ i, Describes (S.field i) (defs i) (made i)) :
    Distinct ((List.finRange (S.fields n).length).map defs) where
  tags := by
    refine List.Pairwise.map _ ?_ (List.nodup_finRange _)
    intro i j apart same
    rw [(describes i).tag, (describes j).tag] at same
    exact apart (S.tag_inj same)
  names := by
    refine List.Pairwise.map _ ?_ (List.nodup_finRange _)
    exact fun i j apart same => apart (names i j same)

/-- Each field makes its member, so the bytes of all fields make the object. -/
theorem protoBinaryToJson_of_makes {n : ι} {defs : S.Pos n → ProtoFieldDef}
    {made : S.Pos n → Scalar ⊕ ι} (names : ∀ i j, (defs i).name = (defs j).name → i = j)
    (describes : ∀ i, Describes (S.field i) (defs i) (made i)) {fields : S.Fields n}
    (makes : ∀ i, (Macros.encodeField (S.field i).tag (fields i)).length ≤ isizeMax →
      Makes E (defs i) (Macros.encodeField (S.field i).tag (fields i)) (memberJson false (fields i)))
    (small : (encodeToVec (.mk fields : S.Msg n)).length ≤ isizeMax) :
    protoBinaryToJson E (encodeToVec (.mk fields : S.Msg n))
      ((List.finRange (S.fields n).length).map defs) = .ok (messageJson false (.mk fields)) := by
  rw [encodeToVec_mk] at small ⊢
  have each (i : S.Pos n) := makes i <| by
    refine le_trans ?_ small
    rw [List.flatMap_def]
    apply List.Sublist.length_le
    exact List.sublist_flatten_of_mem (List.mem_map_of_mem (List.mem_finRange i))
  choose wvs fits spelled member using each
  have inj : Function.Injective defs := fun i j same => names i j (congrArg _ same)
  -- the records of a definition are those of its field
  have records (i : S.Pos n) : Function.extend defs wvs (fun _ => []) (defs i) = wvs i :=
    inj.extend_apply wvs _ i
  have idents (i j : S.Pos n) (same : (S.field i).ident.toList = (S.field j).ident.toList) :
      i = j := by
    rw [← (describes i).name, ← (describes j).name] at same
    exact names i j same
  obtain ⟨map, object, sorted, members, others⟩ := messageJson_members false fields idents
  refine (@protoBinaryToJson_records E _ (distinct_defs names describes)
    (Function.extend defs wvs fun _ => []) ?_ _ ?_ small _).2
      ⟨map, object, sorted, ?_, ?_⟩
  · intro d mem
    obtain ⟨i, -, rfl⟩ := List.mem_map.1 mem
    rw [records]
    exact fits i
  · rw [List.flatMap_map]
    simp only [records]
    exact congrArg (List.flatMap · _) (funext spelled)
  · intro name other
    apply others
    intro i same
    apply other (defs i) (List.mem_map_of_mem (List.mem_finRange i))
    rw [(describes i).name, same]
  · intro d mem
    obtain ⟨i, -, rfl⟩ := List.mem_map.1 mem
    rw [records, (describes i).name, members]
    exact member i

/-- The dynamic decoder reads every value that is written as its object without defaults. -/
theorem dynamicReads (E : Externals) {n : ι} {defs : List ProtoFieldDef}
    (defines : Defines S.fields n defs) (depth : Nat) :
    DynamicReads (Γ := S.fields) E depth n defs := by
  induction defines generalizing depth with
  | @intro n defs made names describes nested ih =>
    intro ⟨fields⟩ within written small
    cases depth with
    | zero => exact within.elim
    | succ depth =>
      apply protoBinaryToJson_of_makes names describes _ small
      intro i short
      exact makes_field (describes i) (fun m inner here some => ih i m inner here some depth)
        (fields i) (within i) (written i) short

end Messages

/-! ## Missing members -/

/-- The dynamic decoder makes nothing of nothing. -/
theorem nothing_missing (E : Externals) {fields : List ProtoFieldDef} {map : List (Str × Value)}
    (run : protoBinaryToJson E [] fields = .ok (.obj map)) (name : Str) :
    SortedMap.lookup name map = none := by
  rw [protoBinaryToJson, decodeMembers, jsonLoop, runLoop_done rfl, ok_bind] at run
  cases run
  rfl

theorem decodeWireValue_nil (wireType : UInt8) : ∃ st, decodeWireValue [] wireType = .error st := by
  unfold decodeWireValue
  split
  · exact ⟨_, rfl⟩
  · exact ⟨_, rfl⟩
  · exact ⟨_, rfl⟩
  · exact ⟨_, rfl⟩
  · exact ⟨_, rfl⟩

/-- The member of a record under another tag is another member. -/
theorem storeRecord_member (E : Externals) {fields : List ProtoFieldDef} {d : ProtoFieldDef}
    (own : ∀ f ∈ fields, f.name = d.name → f.tag = d.tag) {tag : UInt32} (other : tag ≠ d.tag)
    {wv : WireValue} {s t : JsonState} (ordered : s.Ordered)
    (run : storeRecord E (withDecoders E fields) tag wv s = .ok t) :
    t.Ordered ∧ t.member d.name = s.member d.name := by
  rw [storeRecord] at run
  split at run
  · rename_i field nested found
    rw [storeWireValue_eq] at run
    obtain ⟨values, -, run⟩ := bind_eq_ok.1 run
    cases run
    have here : field.tag = tag := by simpa using List.find?_some found
    have mem := List.mem_of_find?_eq_some found
    rw [withDecoders_eq] at mem
    obtain ⟨f, inside, same⟩ := List.mem_map.1 mem
    cases same
    refine ⟨ordered.put field values, s.member_put_of_ne ?_ values⟩
    exact fun name => other (here.symm.trans (own field inside name.symm))
  · cases run
    exact ⟨ordered, rfl⟩

/-- The two bytes of a `true` under a tag from 16 on make no member of that field. -/
theorem wideFlag_missing (E : Externals) {fields : List ProtoFieldDef} {d : ProtoFieldDef}
    (own : ∀ f ∈ fields, f.name = d.name → f.tag = d.tag) (wide : 16 ≤ d.tag.toNat)
    {map : List (Str × Value)}
    (run : protoBinaryToJson E [precomputeTagByte d.tag 0, 1] fields = .ok (.obj map)) :
    SortedMap.lookup d.name map = none := by
  have byte := precomputeTagByte_toNat varint_lt d.tag
  rw [show (0 : UInt8).toNat = 0 from rfl, Nat.add_zero] at byte
  have two : [precomputeTagByte d.tag 0, 1].length ≤ isizeMax := (by decide : 2 ≤ isizeMax)
  rw [protoBinaryToJson, decodeMembers] at run
  obtain ⟨t, loop, run⟩ := bind_eq_ok.1 run
  by_cases low : (precomputeTagByte d.tag 0).toNat < 128
  · -- the first byte is the tag of another field
    obtain ⟨other, narrow, spelled⟩ : ∃ other : UInt32, other.toNat < 16 ∧
        [precomputeTagByte d.tag 0, 1] = (WireValue.varint 1).record other := by
      refine ⟨.ofNat (d.tag.toNat * 8 % 256 / 8), ?_, ?_⟩
      · rw [UInt32.toNat_ofNat']
        omega
      · have narrow : (UInt32.ofNat (d.tag.toNat * 8 % 256 / 8)).toNat < 16 := by
          rw [UInt32.toNat_ofNat']
          omega
        have same : precomputeTagByte d.tag 0 =
            precomputeTagByte (.ofNat (d.tag.toNat * 8 % 256 / 8)) 0 := by
          apply UInt8.toNat_inj.mp
          rw [byte, precomputeTagByte_toNat varint_lt, UInt32.toNat_ofNat',
            show (0 : UInt8).toNat = 0 from rfl]
          omega
        rw [same, ← List.singleton_append, precomputeTagByte_eq varint_lt narrow]
        exact congrArg (_ ++ ·) (Base128.encode_of_lt (by decide)).symm
    have ne : other ≠ d.tag := fun e => by rw [e] at narrow; omega
    rw [spelled] at two loop
    rw [jsonLoop_records E (withDecoders E fields) two
      (show ∀ r ∈ [(other, WireValue.varint 1)], r.2.Fits from List.forall_mem_singleton.2 trivial)
      (by rw [List.flatMap_singleton]; exact At.whole _)
      (by rw [List.flatMap_singleton]; exact Nat.zero_add _)] at loop
    cases stored : storeRecord E (withDecoders E fields) other (.varint 1) ⟨0, [], []⟩ with
    | error st =>
      rw [storeRecords, stored] at loop
      cases loop
    | ok s =>
      rw [storeRecords, stored] at loop
      cases loop
      obtain ⟨ordered, same⟩ := storeRecord_member E own ne ⟨SortedMap.sorted_nil, SortedMap.sorted_nil⟩ stored
      obtain ⟨m, finish, -, lookup⟩ := JsonState.finish_eq ordered
      have object : map = m := Value.obj.inj ((Except.ok.inj run).symm.trans finish)
      rw [object, lookup, same]
      rfl
  · -- both bytes are the tag, and nothing follows it
    have spells : Spells [precomputeTagByte d.tag 0, 1]
        (UInt64.ofNat (Base128.value [precomputeTagByte d.tag 0, 1])) :=
      ⟨.more (by omega) (.last (by decide)), (by decide : 2 ≤ 10), rfl⟩
    obtain ⟨st, none⟩ := decodeWireValue_nil
      (UInt64.ofNat (Base128.value [precomputeTagByte d.tag 0, 1]) &&& 7).toUInt8
    rw [jsonLoop, runLoop_next (jsonLoop_lowers E _ _) rfl, jsonStep, sliceFrom_eq_ok (Nat.zero_le _),
      ok_bind, decodeVarint_at (At.whole _) spells, lift_ok, ok_bind] at loop
    dsimp only at loop
    rw [add_eq_ok (by unfold usizeBound; simp), ok_bind, sliceFrom_eq_ok (by simp), ok_bind] at loop
    have empty : [precomputeTagByte d.tag 0, 1].drop (0 + [precomputeTagByte d.tag 0, 1].length) = [] := rfl
    rw [empty, none] at loop
    cases loop

end Typeway.Grpc
