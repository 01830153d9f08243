import Typeway.Grpc.DynamicReads
import Typeway.Macros.Interchange

/-!
# Reading the codec driven by definitions with the derived codec

The derived codec of a struct reads what the codec driven by definitions writes, on values that are
`Safe`. The dynamic codec writes no default, so `Some` of a default does not get through, and it
writes the elements of a list one by one, which the derived codec reads of every kind but floats.
-/

namespace Typeway.Grpc

open Checked Typeway.Core Json Protobuf Macros

variable {ι : Type} {Γ : ι → List (CodecField ι)}

mutual

/-- No flag under a wide tag, no `Some` of a default or of a kind that no arm reads, no float and
no byte string in a list. -/
def Safe (tag : UInt32) : {k : CodecKind ι} → FieldValue Γ k → Prop
  | _, .bool b => b = true → tag.toNat < 16
  | .optional inner, .some val => isDefault val = false ∧ inner.readsOptional = true
  | .repeated inner, .cons _ _ => inner.isFixed = false ∧ inner.storesItem = true
  | _, .message m => SafeMessage m
  | _, .someMessage m => SafeMessage m
  | _, .consMessage m ms => SafeMessage m ∧ Safe tag ms
  | _, _ => True

def SafeMessage : {n : ι} → Message Γ n → Prop
  | n, .mk fields => ∀ i, Safe ((Γ n).get i).tag (fields i)

end

mutual

theorem written_of_safe {tag : UInt32} {k : CodecKind ι} (v : FieldValue Γ k) (safe : Safe tag v) :
    Written tag v := by
  cases v with
  | bool b => exact safe
  | @some inner val =>
    obtain ⟨-, reads⟩ := safe
    show inner.writesOptional = true
    cases inner <;> first | rfl | cases reads
  | cons item items => exact safe.2
  | message m => exact writtenMessage_of_safe m safe
  | someMessage m => exact writtenMessage_of_safe m safe
  | consMessage m ms =>
    obtain ⟨first, rest⟩ := safe
    exact ⟨writtenMessage_of_safe m first, written_of_safe ms rest⟩
  | _ => trivial

theorem writtenMessage_of_safe {n : ι} : (m : Message Γ n) → SafeMessage m → WrittenMessage m
  | .mk fields, safe => by
    have each := fun i => written_of_safe (fields i) (safe i)
    exact each

end

theorem finite_items {k : CodecKind ι} :
    (v : FieldValue Γ (.repeated k)) → Finite v → ∀ item ∈ v.items, Finite item
  | .nil, _ => fun item mem => by
    rw [FieldValue.items] at mem
    cases mem
  | .cons item items, finite => by
    obtain ⟨first, rest⟩ := finite
    rw [FieldValue.items]
    exact List.forall_mem_cons.2 ⟨first, finite_items items rest⟩

theorem finite_messages {n : ι} :
    (v : FieldValue Γ (.repeatedMessage n)) → Finite v → ∀ m ∈ v.messages, FiniteMessage m
  | .nilMessage, _ => fun m mem => by
    rw [FieldValue.messages] at mem
    cases mem
  | .consMessage m ms, finite => by
    obtain ⟨first, rest⟩ := finite
    rw [FieldValue.messages]
    exact List.forall_mem_cons.2 ⟨first, finite_messages ms rest⟩

theorem safe_messages {tag : UInt32} {n : ι} :
    (v : FieldValue Γ (.repeatedMessage n)) → Safe tag v → ∀ m ∈ v.messages, SafeMessage m
  | .nilMessage, _ => fun m mem => by
    rw [FieldValue.messages] at mem
    cases mem
  | .consMessage m ms, safe => by
    obtain ⟨first, rest⟩ := safe
    rw [FieldValue.messages]
    exact List.forall_mem_cons.2 ⟨first, safe_messages ms rest⟩

theorem concatM_map {α β : Type} {f : α → Except CodecError (List UInt8)} {g : β → α}
    {part : β → List UInt8} {l : List β} (each : ∀ b ∈ l, f (g b) = .ok (part b)) :
    concatM f (l.map g) = .ok (l.flatMap part) := by
  induction l with
  | nil => rfl
  | cons b l ih =>
    rw [List.map_cons, concatM, each b List.mem_cons_self,
      ih fun b mem => each b (List.mem_cons_of_mem _ mem)]
    rfl

section Dynamic

variable {E : Externals} {S : Schema ι} {d : ProtoFieldDef}
  {nested : Option (Value → Except CodecError (List UInt8))} {map : List (Str × Value)}

theorem memberBytes_absent (absent : SortedMap.lookup d.name map = none) :
    memberBytes E nested d map = .ok [] := by
  rw [memberBytes, absent]

theorem memberBytes_list (plain : d.isMap = false) (many : d.repeated = true) {items : List Value}
    (here : SortedMap.lookup d.name map = some (.arr items)) :
    memberBytes E nested d map = concatM (encodeFieldWith E nested d) items := by
  rw [memberBytes, here]
  dsimp only
  rw [if_neg (by simp [Value.isNull]), if_neg (by simp [many]), if_neg (by simp [plain]),
    if_pos many]
  rfl

theorem memberBytes_one (plain : d.isMap = false) (one : d.repeated = false) {v : Value}
    (here : SortedMap.lookup d.name map = some v) (nonnull : v.isNull = false) :
    memberBytes E nested d map =
      if isProto3Default v d.protoType then .ok [] else encodeFieldWith E nested d v := by
  rw [memberBytes, here]
  dsimp only
  rw [if_neg (by simp [nonnull]), plain, one]
  simp

/-- Records of a list, read one after the other. -/
theorem armsRead_list {α : Type} {k : CodecKind ι} (tag : UInt32) {wireType : UInt8}
    (hwt : wireType.toNat < 8) {bytes : α → List UInt8} {step : S.Value k → α → S.Value k}
    {l : List α} (arm : ∀ a ∈ l, ∀ cur, ArmReads S k wireType (bytes a) cur (step cur a))
    (cur : S.Value k) :
    ArmsRead S k tag (l.flatMap fun a => tagBytes tag wireType ++ bytes a) cur
      (l.foldl step cur) := by
  induction l generalizing cur with
  | nil => exact .done cur
  | cons a l ih =>
    rw [List.flatMap_cons, List.foldl_cons]
    exact .record hwt (arm a List.mem_cons_self cur)
      (ih (fun a mem => arm a (List.mem_cons_of_mem _ mem)) _)

theorem nonnull_scalar {s : Scalar} {v : Value} (holds : s.Holds v) : v.isNull = false := by
  cases s <;> (obtain ⟨x, h⟩ := holds; first | (rw [h]; rfl) | (rw [h.2]; rfl))

theorem foldl_pushMessage {α : Type} {n : ι} (of : α → S.Msg n) (l : List α) (m : S.Msg n)
    (ms : S.Value (.repeatedMessage n)) :
    l.foldl (fun cur a => cur.pushMessage (of a)) (FieldValue.consMessage m ms) =
      FieldValue.consMessage m (l.foldl (fun cur a => cur.pushMessage (of a)) ms) := by
  induction l generalizing ms with
  | nil => rfl
  | cons a l ih =>
    rw [List.foldl_cons, List.foldl_cons, FieldValue.pushMessage, ih]

/-- Pushing messages of the same values makes a list of the same value. -/
theorem canon_pushMessages {n : ι} {of : S.Msg n → S.Msg n} :
    (v : S.Value (.repeatedMessage n)) → (∀ m ∈ v.messages, SameMessage (of m) m) →
      canon (v.messages.foldl (fun cur m => cur.pushMessage (of m)) .nilMessage) = canon v
  | .nilMessage, _ => by rw [FieldValue.messages, List.foldl_nil]
  | .consMessage m ms, same => by
    rw [FieldValue.messages] at same ⊢
    obtain ⟨here, rest⟩ := List.forall_mem_cons.1 same
    rw [List.foldl_cons, FieldValue.pushMessage, foldl_pushMessage, canon, canon, here,
      canon_pushMessages ms rest]

/-- No struct that has definitions hides its input from its decoder. -/
def Clear (S : Schema ι) : Prop :=
  ∀ n defs, Defines S.fields n defs → S.shadowed n = false

/-- The derived decoder reads what the dynamic encoder writes of the struct `n`. -/
def StaticReads (E : Externals) (S : Schema ι) (n : ι) (defs : List ProtoFieldDef) : Prop :=
  ∀ m : S.Msg n, FiniteMessage m → SafeMessage m → ∃ bytes w,
    jsonToProtoBinary E (messageJson true m) defs = .ok bytes ∧ (Clear S → SameMessage w m) ∧
      (bytes.length ≤ isizeMax → typewayDecode S n bytes = .ok w)

/-- The field's member is written as records that its arm reads to a value like `v`. -/
def ReadBack (E : Externals) (S : Schema ι) (d : ProtoFieldDef) (map : List (Str × Value))
    {k : CodecKind ι} (v : S.Value k) : Prop :=
  ∃ part new, memberBytes E (nestedEncoder E d.nestedFields) d map = .ok part ∧
    ArmsRead S k d.tag part (S.fieldDefault k) new ∧ (Clear S → canon new = canon v)

theorem readBack_absent {k : CodecKind ι} {v : S.Value k}
    (absent : SortedMap.lookup d.name map = none) (default : canon (S.fieldDefault k) = canon v) :
    ReadBack E S d map v :=
  ⟨[], _, memberBytes_absent absent, .done _, fun _ => default⟩

theorem memberBytes_scalar (plain : d.isMap = false) (one : d.repeated = false) {s : Scalar}
    (type : d.protoType = .scalar s) {k : CodecKind ι} (scalar : protoScalar k = some s)
    (v : S.Value k) (finite : Finite v)
    (here : SortedMap.lookup d.name map = some (fieldJson true v)) :
    memberBytes E nested d map = .ok (if isDefault v then [] else Macros.record d.tag v) := by
  obtain ⟨holds, zero⟩ := holdsDefault_scalar scalar v finite true
  rw [memberBytes_one plain one here (nonnull_scalar holds), type, isProto3Default_eq holds, zero,
    (carries_scalar scalar v finite true).encoded E _ d type, scalarWire_record scalar]
  split <;> rfl

theorem memberBytes_items (plain : d.isMap = false) (many : d.repeated = true) {s : Scalar}
    (type : d.protoType = .scalar s) {k : CodecKind ι} (scalar : protoScalar k = some s)
    (v : S.Value (.repeated k)) (finite : Finite v)
    (here : SortedMap.lookup d.name map = some (fieldJson true v)) :
    memberBytes E nested d map = .ok (v.items.flatMap fun item => Macros.record d.tag item) := by
  rw [fieldJson_items] at here
  rw [memberBytes_list plain many here]
  apply concatM_map
  intro item mem
  rw [(carries_scalar scalar item (finite_items v finite item mem) true).encoded E _ d type,
    scalarWire_record scalar]

theorem memberBytes_single (plain : d.isMap = false) (many : d.repeated = true) {s : Scalar}
    (type : d.protoType = .scalar s) {k : CodecKind ι} (scalar : protoScalar k = some s)
    (item : S.Value k) (finite : Finite (.cons item .nil : S.Value (.repeated k)))
    (here : SortedMap.lookup d.name map =
      some (fieldJson true (.cons item .nil : S.Value (.repeated k)))) :
    memberBytes E nested d map = .ok (Macros.record d.tag item) := by
  rw [memberBytes_items plain many type scalar _ finite here, FieldValue.items, FieldValue.items,
    List.flatMap_singleton]

theorem textless_of_scalar {k : CodecKind ι} {s : Scalar} (scalar : protoScalar k = some s)
    (v : S.Value k) : textless v = true := by
  cases v <;> first | rfl | cases scalar

theorem readBack_scalar (plain : d.isMap = false) (one : d.repeated = false) {s : Scalar}
    (type : d.protoType = .scalar s) {k : CodecKind ι} (scalar : protoScalar k = some s)
    (v : S.Value k) (finite : Finite v)
    (here : SortedMap.lookup d.name map = some (fieldJson true v)) : ReadBack E S d map v := by
  have writes := writesOptional_of_scalar scalar
  have back := canon_absorb_scalar S writes v
  rw [absorb_scalar S writes, silent_scalar scalar] at back
  refine ⟨_, _, memberBytes_scalar plain one type scalar v finite here, ?_, fun _ => back⟩
  cases default : isDefault v with
  | true => exact .done _
  | false =>
    have spelled := spelled_content writes (textless_of_scalar scalar v)
    exact .one S (wireTypeForKind_lt k) (armReads_scalar S _ spelled _)

theorem readBack_some (plain : d.isMap = false) (one : d.repeated = false) {s : Scalar}
    (type : d.protoType = .scalar s) {k : CodecKind ι} (scalar : protoScalar k = some s)
    (val : S.Value k) (finite : Finite val) (default : isDefault val = false)
    (reads : k.readsOptional = true)
    (here : SortedMap.lookup d.name map = some (fieldJson true val)) :
    ReadBack E S d map (.some val) := by
  refine ⟨_, .some val, memberBytes_scalar plain one type scalar val finite here, ?_, fun _ => rfl⟩
  have spelled := spelled_content (writesOptional_of_scalar scalar) (textless_of_scalar scalar val)
  have arm := armReads_optional S spelled (S.fieldDefault (.optional k))
  rw [if_pos reads] at arm
  rw [default, if_neg (by simp)]
  exact .one S (wireTypeForKind_lt k) arm

theorem readBack_items (plain : d.isMap = false) (many : d.repeated = true) {s : Scalar}
    (type : d.protoType = .scalar s) {k : CodecKind ι} (scalar : protoScalar k = some s)
    (v : S.Value (.repeated k)) (finite : Finite v)
    (stores : v.items ≠ [] → k.isFixed = false ∧ k.storesItem = true)
    (here : SortedMap.lookup d.name map = some (fieldJson true v)) : ReadBack E S d map v := by
  refine ⟨_, pushAll .nil v.items, memberBytes_items plain many type scalar v finite here, ?_, ?_⟩
  · refine armsRead_list d.tag (wireTypeForKind_lt k) ?_ _
    intro item mem cur
    obtain ⟨varint, stores⟩ := stores (List.ne_nil_of_mem mem)
    have spelled := spelled_content (writesOptional_of_scalar scalar) (textless_of_scalar scalar item)
    cases packable : isPackable k with
    | true => exact armReads_single packable spelled varint cur
    | false =>
      rw [CodecKind.storesItem, packable, Bool.false_or] at stores
      exact armReads_item S packable stores _ spelled cur
  · exact fun _ => congrArg canon (pushAll_items v)

theorem nonnull_message (defaults : Bool) {n : ι} (m : S.Msg n) :
    (messageJson defaults m).isNull = false := by
  cases m
  rw [messageJson]
  rfl

theorem encodes_message {name : Str} (type : d.protoType = .other name)
    {inner : List ProtoFieldDef} (nested : d.nestedFields = some inner) {v : Value}
    {bytes : List UInt8} (run : jsonToProtoBinary E v inner = .ok bytes) :
    encodeFieldWith E (nestedEncoder E d.nestedFields) d v =
      .ok ((WireValue.lengthDelimited bytes).record d.tag) := by
  rw [nested, nestedEncoder_some, encodeFieldWith_message E type, run]
  rfl

theorem memberBytes_message (plain : d.isMap = false) (one : d.repeated = false) {name : Str}
    (type : d.protoType = .other name) {inner : List ProtoFieldDef}
    (nested : d.nestedFields = some inner) {n : ι} {m : S.Msg n}
    (here : SortedMap.lookup d.name map = some (messageJson true m)) {bytes : List UInt8}
    (run : jsonToProtoBinary E (messageJson true m) inner = .ok bytes) :
    memberBytes E (nestedEncoder E d.nestedFields) d map =
      .ok ((WireValue.lengthDelimited bytes).record d.tag) := by
  rw [memberBytes_one plain one here (nonnull_message true m), type, isProto3Default,
    if_neg (by simp), encodes_message type nested run]

theorem readBack_messages (plain : d.isMap = false) (many : d.repeated = true) {name : Str}
    (type : d.protoType = .other name) {inner : List ProtoFieldDef}
    (nested : d.nestedFields = some inner) {n : ι} (reads : StaticReads E S n inner)
    (v : S.Value (.repeatedMessage n)) (finite : Finite v) (safe : Safe d.tag v)
    (here : SortedMap.lookup d.name map = some (fieldJson true v)) : ReadBack E S d map v := by
  have each (m : S.Msg n) : ∃ bytes w, m ∈ v.messages →
      jsonToProtoBinary E (messageJson true m) inner = .ok bytes ∧ (Clear S → SameMessage w m) ∧
        (bytes.length ≤ isizeMax → typewayDecode S n bytes = .ok w) := by
    by_cases mem : m ∈ v.messages
    · obtain ⟨bytes, w, run⟩ := reads m (finite_messages v finite m mem) (safe_messages v safe m mem)
      exact ⟨bytes, w, fun _ => run⟩
    · exact ⟨[], m, fun mem' => absurd mem' mem⟩
  choose bytes w run using each
  rw [fieldJson_messages] at here
  refine ⟨v.messages.flatMap fun m => (WireValue.lengthDelimited (bytes m)).record d.tag,
    v.messages.foldl (fun cur m => FieldValue.pushMessage cur (w m)) FieldValue.nilMessage, ?_, ?_,
    ?_⟩
  · rw [memberBytes_list plain many here]
    exact concatM_map fun m mem => encodes_message type nested (run m mem).1
  · refine armsRead_list d.tag len_lt ?_ _
    exact fun m mem => (armReads_message S (framed_delimited _) (run m mem).2.2 2).2.2
  · exact fun clear => canon_pushMessages v fun m mem => (run m mem).2.1 clear

/-- The bytes of a field of the dynamic encoder are records that the field's arm reads back. -/
theorem readBack_field {f : CodecField ι} {made : Scalar ⊕ ι} (describes : Describes f d made)
    (nested : ∀ m inner, made = .inr m → d.nestedFields = some inner → StaticReads E S m inner)
    (v : S.Value f.kind) (finite : Finite v) (safe : Safe f.tag v)
    (member : SortedMap.lookup d.name map = memberJson true v) : ReadBack E S d map v := by
  obtain ⟨-, tag, plain, common, isScalar, isMessage⟩ := describes
  rw [← tag] at safe
  generalize f.kind = k at common v
  generalize many : d.repeated = isList at common
  rw [memberJson, Bool.not_true, Bool.false_and, Bool.or_false] at member
  cases common with
  | scalar scalar =>
    rw [isNone_scalar scalar] at member
    exact readBack_scalar plain many (isScalar _ rfl) scalar v finite member
  | optional scalar =>
    cases v with
    | none => exact readBack_absent member rfl
    | some val =>
      obtain ⟨default, reads⟩ := safe
      exact readBack_some plain many (isScalar _ rfl) scalar val finite default reads member
  | repeated scalar =>
    cases v with
    | nil =>
      exact readBack_items plain many (isScalar _ rfl) scalar _ finite
        (fun some => absurd (by rw [FieldValue.items]) some) member
    | cons item items =>
      exact readBack_items plain many (isScalar _ rfl) scalar _ finite (fun _ => safe) member
  | message n =>
    obtain ⟨⟨name, type⟩, inner, here⟩ := isMessage n rfl
    cases v with
    | message m =>
      obtain ⟨bytes, w, run, same, read⟩ := nested n inner rfl here m finite safe
      refine ⟨_, .message w, memberBytes_message plain many type here member run,
        .one S len_lt ((armReads_message S (framed_delimited _) read 2).1 _), fun clear => ?_⟩
      rw [canon, canon, same clear]
  | optionalMessage n =>
    obtain ⟨⟨name, type⟩, inner, here⟩ := isMessage n rfl
    cases v with
    | noMessage => exact readBack_absent member rfl
    | someMessage m =>
      obtain ⟨bytes, w, run, same, read⟩ := nested n inner rfl here m finite safe
      refine ⟨_, .someMessage w, memberBytes_message plain many type here member run,
        .one S len_lt ((armReads_message S (framed_delimited _) read 2).2.1 _), fun clear => ?_⟩
      rw [canon, canon, same clear]
  | repeatedMessage n =>
    obtain ⟨⟨name, type⟩, inner, here⟩ := isMessage n rfl
    have reads := nested n inner rfl here
    cases v with
    | nilMessage => exact readBack_messages plain many type here reads _ finite safe member
    | consMessage m ms => exact readBack_messages plain many type here reads _ finite safe member

/-- The derived decoder reads every safe value as itself. -/
theorem staticReads (E : Externals) {n : ι} {defs : List ProtoFieldDef}
    (defines : Defines S.fields n defs) : StaticReads E S n defs := by
  induction defines with
  | @intro n defs made names describes nested ih =>
    rintro ⟨fields⟩ finite safe
    have idents (i j : S.Pos n) (same : (S.field i).ident.toList = (S.field j).ident.toList) :
        i = j := by
      rw [← (describes i).name, ← (describes j).name] at same
      exact names i j same
    obtain ⟨map, object, -, members, -⟩ := messageJson_members true fields idents
    have back (i : S.Pos n) : ReadBack E S (defs i) map (fields i) := by
      apply readBack_field (describes i) (ih i) (fields i) (finite i) (safe i)
      rw [(describes i).name, members]
    choose part new bytes arms same using back
    have written : jsonToProtoBinary E (messageJson true (.mk fields : S.Msg n))
        ((List.finRange (S.fields n).length).map defs) =
          .ok ((List.finRange (S.fields n).length).flatMap part) := by
      rw [object, jsonToProtoBinary_obj]
      exact concatM_map fun i _ => bytes i
    cases hidden : S.shadowed n with
    | true =>
      refine ⟨_, .mk (S.fieldDefaults n), written, fun clear => ?_,
        fun _ => typewayDecode_shadowed S hidden _⟩
      exact nomatch hidden.symm.trans (clear n _ (.intro names describes nested))
    | false =>
      refine ⟨_, .mk new, written, fun clear => ?_, fun small => ?_⟩
      · rw [SameMessage, canonMessage, canonMessage, funext fun i => same i clear]
      apply typewayDecode_of_reads S hidden small
      apply reads_all S
      intro i F start
      have arms := arms i
      rw [(describes i).tag] at arms
      exact arms.reads S i start

end Dynamic

end Typeway.Grpc
