import Mathlib.Data.List.Nodup
import Typeway.Grpc.JsonTyped

/-!
# The round trip of the dynamic codec

A JSON object goes to protobuf bytes and back by one list of field definitions. What comes back
is the object without its defaults, unless it has a negative enumerator or a map with an entry
somewhere: enumerators are read without sign, and the entries of a map are written as submessages
but read as JSON text.
-/

namespace Typeway.Grpc

open Checked Typeway.Core Json Protobuf

/-! ## Recursion over definitions -/

section Schema

variable {α : Type}

mutual

def nestedBy (message : List (ProtoFieldDef × Option α) → α) :
    Option (List ProtoFieldDef) → Option α
  | none => none
  | some fields => some (message (withNested message fields))

/-- The definitions with what is made of their nested definitions. -/
def withNested (message : List (ProtoFieldDef × Option α) → α) :
    List ProtoFieldDef → List (ProtoFieldDef × Option α)
  | [] => []
  | ⟨name, protoType, tag, repeated, isMap, keyType, valueType, nested⟩ :: fields =>
    (⟨name, protoType, tag, repeated, isMap, keyType, valueType, nested⟩,
      nestedBy message nested) :: withNested message fields

end

/-- What `message` makes of definitions whose nested ones are done already. -/
def bySchema (message : List (ProtoFieldDef × Option α) → α) (fields : List ProtoFieldDef) : α :=
  message (withNested message fields)

theorem bySchema_eq (message : List (ProtoFieldDef × Option α) → α) (fields : List ProtoFieldDef) :
    bySchema message fields =
      message (fields.map fun f => (f, f.nestedFields.map (bySchema message))) := by
  have done : ∀ fields, withNested message fields =
      fields.map fun f => (f, f.nestedFields.map (bySchema message)) := by
    intro fields
    induction fields with
    | nil => rw [withNested, List.map_nil]
    | cons f fields ih =>
      obtain ⟨name, protoType, tag, repeated, isMap, keyType, valueType, nested⟩ := f
      rw [withNested, ih, List.map_cons]
      cases nested with
      | none => rw [nestedBy, Option.map_none]
      | some inner => rw [nestedBy, Option.map_some, bySchema]
  rw [bySchema, done]

end Schema

/-! ## Definitions -/

/-- A map's type is none of the scalar ones and its entries have no definitions. A message type
has definitions. -/
structure ProtoFieldDef.Shaped (field : ProtoFieldDef) : Prop where
  map : field.isMap = true →
    field.repeated = false ∧ field.nestedFields = none ∧ ∃ name, field.protoType = .other name
  message : field.isMap = false → ∀ name, field.protoType = .other name →
    ∃ inner, field.nestedFields = some inner

/-- The definitions of a message and of the messages in it. -/
inductive Legal : List ProtoFieldDef → Prop where
  | intro {fields : List ProtoFieldDef} (distinct : Distinct fields)
      (shaped : ∀ f ∈ fields, f.Shaped)
      (nested : ∀ f ∈ fields, ∀ inner, f.nestedFields = some inner → Legal inner) : Legal fields

/-! ## Values -/

def SingleTyped (field : ProtoFieldDef) (nested : Option (Value → Prop)) (v : Value) : Prop :=
  match field.protoType with
  | .scalar s => s.Holds v
  | .other _ => ∃ typed, nested = some typed ∧ typed v

/-- The entries of a map may be anything. -/
def MemberTyped (field : ProtoFieldDef) (nested : Option (Value → Prop)) (v : Value) : Prop :=
  if field.isMap then ∃ entries, v = .obj entries
  else if field.repeated then ∃ items, v = .arr items ∧ ∀ item ∈ items, SingleTyped field nested item
  else SingleTyped field nested v

/-- An object whose members are all defined and of their types. -/
def WellTyped : List ProtoFieldDef → Value → Prop :=
  bySchema fun fields v => ∃ map, v = .obj map ∧ SortedMap.Sorted map ∧
    ∀ e ∈ map, ∃ f ∈ fields, f.1.name = e.1 ∧ MemberTyped f.1 f.2 e.2

def cleanSingle (field : ProtoFieldDef) (nested : Option (Value → Value)) (v : Value) : Value :=
  match field.protoType, nested with
  | .other _, some clean => clean v
  | _, _ => v

/-- A member without the defaults in it, if it is no default itself. -/
def cleanMember (field : ProtoFieldDef) (nested : Option (Value → Value)) (v : Value) :
    Option Value :=
  match field.isMap, field.repeated, v with
  | true, _, .obj [] => none
  | true, _, v => some v
  | false, true, .arr [] => none
  | false, true, .arr items => some (.arr (items.map (cleanSingle field nested)))
  | false, true, v => some v
  | false, false, v => if holdsDefault v then none else some (cleanSingle field nested v)

def cleanEntry (fields : List (ProtoFieldDef × Option (Value → Value))) (name : Str) (v : Value) :
    Option Value :=
  match fields.find? fun f => f.1.name == name with
  | some f => cleanMember f.1 f.2 v
  | none => some v

/-- The object without defaults, empty lists and empty maps, at every level. -/
def withoutDefaults : List ProtoFieldDef → Value → Value :=
  bySchema fun fields v =>
    match v with
    | .obj map => .obj (SortedMap.mapMaybe (cleanEntry fields) map)
    | v => v

def SingleSurvives (field : ProtoFieldDef) (nested : Option (Value → Prop)) (v : Value) : Prop :=
  match field.protoType, nested with
  | .scalar s, _ => s.comesBack v
  | .other _, some survives => survives v
  | .other _, none => True

def MemberSurvives (field : ProtoFieldDef) (nested : Option (Value → Prop)) (v : Value) : Prop :=
  if field.isMap then v = .obj []
  else if field.repeated then ∀ items, v = .arr items → ∀ item ∈ items, SingleSurvives field nested item
  else SingleSurvives field nested v

/-- No map with an entry and no negative enumerator, at any level. -/
def Survives : List ProtoFieldDef → Value → Prop :=
  bySchema fun fields v => ∀ map, v = .obj map →
    ∀ e ∈ map, ∀ f ∈ fields, f.1.name = e.1 → MemberSurvives f.1 f.2 e.2

/-- The object comes back without its defaults. -/
def RoundTrips (E : Externals) (fields : List ProtoFieldDef) (v : Value) : Prop :=
  ∃ bytes, jsonToProtoBinary E v fields = .ok bytes ∧
    protoBinaryToJson E bytes fields = .ok (withoutDefaults fields v)

/-! ## Single values -/

/-- What the decoder does with the bytes of a nested message. -/
def ComesBack (E : Externals) (fields : List ProtoFieldDef) (v : Value) : Prop :=
  ∀ bytes, jsonToProtoBinary E v fields = .ok bytes → bytes.length ≤ isizeMax →
    (protoBinaryToJson E bytes fields = .ok (withoutDefaults fields v) ↔ Survives fields v)

/-- A record of a field that is one value, and whether it comes back. -/
structure Single (E : Externals) (field : ProtoFieldDef) (v : Value) (part : List UInt8)
    (wv : WireValue) : Prop where
  fits : wv.Fits
  spelled : part = wv.record field.tag
  alone : wireValues E field (nestedDecoder E field.nestedFields) wv =
    (wireValueToJson E wv field.protoType (nestedDecoder E field.nestedFields)).map ([·])
  back : wireValueToJson E wv field.protoType (nestedDecoder E field.nestedFields) =
      .ok (cleanSingle field (field.nestedFields.map withoutDefaults) v) ↔
    SingleSurvives field (field.nestedFields.map Survives) v

theorem single_record (E : Externals) {field : ProtoFieldDef} {v : Value} {part : List UInt8}
    (typed : SingleTyped field (field.nestedFields.map WellTyped) v)
    (inner : ∀ fields, field.nestedFields = some fields → ∀ v, WellTyped fields v →
      ComesBack E fields v)
    (encoded : encodeFieldWith E (nestedEncoder E field.nestedFields) field v = .ok part)
    (small : part.length ≤ isizeMax) : ∃ wv, Single E field v part wv := by
  cases type : field.protoType with
  | scalar s =>
    simp only [SingleTyped, type] at typed
    obtain ⟨wv, u, carries, back⟩ := typed.carries
    have spelled := carries.encoded E (nestedEncoder E field.nestedFields) field type
    rw [encoded] at spelled
    refine ⟨wv, carries.fits, Except.ok.inj spelled, ?_, ?_⟩
    · apply wireValues_single
      intro packable two
      rw [carries.wireType] at two
      rw [type] at packable
      cases s <;> simp_all [isPackableType, wireTypeFor]
    · rw [type, carries.decoded]
      simp only [cleanSingle, SingleSurvives, type]
      exact ⟨fun same => back.1 (Except.ok.inj same), fun same => congrArg _ (back.2 same)⟩
  | other name =>
    simp only [SingleTyped, type] at typed
    obtain ⟨_, here, typed⟩ := typed
    obtain ⟨fields, nested, rfl⟩ := Option.map_eq_some_iff.1 here
    rw [nested, nestedEncoder_some, encodeFieldWith_message E type] at encoded
    cases run : jsonToProtoBinary E v fields with
    | error e =>
      rw [run] at encoded
      cases encoded
    | ok data =>
      rw [run] at encoded
      have spelled : part = (WireValue.lengthDelimited data).record field.tag :=
        (Except.ok.inj encoded).symm
      have short := record_length_le field.tag data
      rw [← spelled] at short
      refine ⟨.lengthDelimited data, trivial, spelled, ?_, ?_⟩
      · apply wireValues_single
        intro packable
        rw [type] at packable
        cases packable
      · have back := inner fields nested v typed data run (short.trans small)
        rw [nested, nestedDecoder_some, type]
        simp only [wireValueToJson, cleanSingle, SingleSurvives, type, Option.map_some]
        exact back

/-! ## Lists -/

section Lists

variable {E : Externals} {field : ProtoFieldDef}

/-- Reading the records of a list gives one value each, and the list without defaults when every
item comes back. -/
theorem items_read {items : List Value} {wvs : List WireValue}
    (singles : List.Forall₂ (fun item wv => ∃ part, Single E field item part wv) items wvs) :
    (∀ values, wvs.mapM (wireValues E field (nestedDecoder E field.nestedFields)) = .ok values →
      ∃ us : List Value, values = us.map ([·])) ∧
    (wvs.mapM (wireValues E field (nestedDecoder E field.nestedFields)) =
        .ok ((items.map (cleanSingle field (field.nestedFields.map withoutDefaults))).map ([·])) ↔
      ∀ item ∈ items, SingleSurvives field (field.nestedFields.map Survives) item) := by
  induction singles with
  | nil =>
    constructor
    · intro values read
      cases read
      exact ⟨[], rfl⟩
    · exact iff_of_true rfl fun item mem => absurd mem List.not_mem_nil
  | @cons item wv items wvs single singles ih =>
    obtain ⟨part, single⟩ := single
    rw [List.mapM_cons, single.alone, List.map_cons, List.map_cons, List.forall_mem_cons,
      ← single.back, ← ih.2]
    cases wireValueToJson E wv field.protoType (nestedDecoder E field.nestedFields) with
    | error e =>
      constructor
      · intro values read
        cases read
      · constructor
        · intro read
          cases read
        · intro both
          cases both.1
    | ok u =>
      cases more : wvs.mapM (wireValues E field (nestedDecoder E field.nestedFields)) with
      | error e =>
        constructor
        · intro values read
          cases read
        · constructor
          · intro read
            cases read
          · intro both
            cases both.2
      | ok values =>
        obtain ⟨us, rfl⟩ := ih.1 values more
        constructor
        · intro values read
          cases read
          exact ⟨u :: us, rfl⟩
        · constructor
          · intro read
            obtain ⟨first, rest⟩ := List.cons.inj (Except.ok.inj read)
            exact ⟨congrArg Except.ok (List.singleton_inj.1 first), congrArg Except.ok rest⟩
          · intro both
            obtain ⟨first, rest⟩ := both
            cases first
            exact congrArg (fun l => Except.ok ([_] :: l)) (Except.ok.inj rest)

theorem items_records {items : List Value} {parts : List (List UInt8)}
    (typed : ∀ item ∈ items, SingleTyped field (field.nestedFields.map WellTyped) item)
    (inner : ∀ fields, field.nestedFields = some fields → ∀ v, WellTyped fields v →
      ComesBack E fields v)
    (encoded : List.Forall₂ (fun item part =>
      encodeFieldWith E (nestedEncoder E field.nestedFields) field item = .ok part) items parts)
    (small : parts.flatten.length ≤ isizeMax) :
    ∃ wvs : List WireValue, (∀ wv ∈ wvs, wv.Fits) ∧
      parts.flatten = wvs.flatMap (·.record field.tag) ∧
      List.Forall₂ (fun item wv => ∃ part, Single E field item part wv) items wvs := by
  induction encoded with
  | nil => exact ⟨[], fun wv mem => absurd mem List.not_mem_nil, rfl, .nil⟩
  | @cons item part items parts here encoded ih =>
    rw [List.flatten_cons, List.length_append] at small
    obtain ⟨wv, single⟩ := single_record E (typed item List.mem_cons_self) inner here (by omega)
    obtain ⟨wvs, fits, spelled, singles⟩ :=
      ih (fun item mem => typed item (List.mem_cons_of_mem _ mem)) (by omega)
    refine ⟨wv :: wvs, ?_, ?_, .cons ⟨part, single⟩ singles⟩
    · exact List.forall_mem_cons.2 ⟨single.fits, fits⟩
    · rw [List.flatten_cons, List.flatMap_cons, ← spelled, single.spelled]

end Lists

/-! ## Maps -/

/-- A result, if there is one, starts with the given bytes. -/
def Starts (front : List UInt8) (x : Except CodecError (List UInt8)) : Prop :=
  ∀ part, x = .ok part → ∃ rest, part = front ++ rest

theorem Starts.ok (front rest : List UInt8) : Starts front (.ok (front ++ rest)) := by
  intro part same
  exact ⟨rest, (Except.ok.inj same).symm⟩

theorem Starts.error (front : List UInt8) (e : CodecError) : Starts front (.error e) := by
  intro part same
  cases same

theorem Starts.bind {α : Type} {front : List UInt8} {x : Except CodecError α}
    {f : α → Except CodecError (List UInt8)} (rest : ∀ a, Starts front (f a)) :
    Starts front (x >>= f) := by
  cases x with
  | error e => exact .error front e
  | ok a => exact rest a

/-- Every record starts with its tag. -/
theorem starts_encodeFieldWith (E : Externals)
    (nested : Option (Value → Except CodecError (List UInt8))) (field : ProtoFieldDef) (v : Value) :
    Starts (encodeVarint ((field.tag.toUInt64 <<< 3) ||| (wireTypeFor field.protoType).toUInt64))
      (encodeFieldWith E nested field v) := by
  unfold encodeFieldWith
  dsimp only
  generalize wireTypeFor field.protoType = wt
  split
  · exact .bind fun n => .ok _ _
  · split
    · split
      · exact .ok _ _
      · exact .error _ _
    · exact .bind fun n => .ok _ _
    · exact .bind fun n => .ok _ _
    · exact .error _ _
  · split
    · split
      · exact .ok _ _
      · exact .error _ _
    · split
      · exact .ok _ _
      · exact .error _ _
    · split
      · exact .bind fun data => .ok _ _
      · exact .ok _ _
  · split
    · split
      · exact .ok _ _
      · exact .error _ _
    · exact .bind fun n => .ok _ _
    · exact .bind fun n => .ok _ _
    · exact .error _ _
  · exact .error _ _

/-- The tag of an entry's value is a control character, so the entry is no JSON text. -/
theorem entryBytes_control {E : Externals} {field : ProtoFieldDef} {entry : Str × Value}
    {part : List UInt8} (encoded : entryBytes E field entry = .ok part) :
    ∃ data, part = (WireValue.lengthDelimited data).record field.tag ∧
      E.fromSlice data = none := by
  unfold entryBytes at encoded
  dsimp only at encoded
  generalize field.mapKeyType.getD (.scalar .string) = keyType at encoded
  generalize field.mapValueType.getD (.scalar .string) = valType at encoded
  cases key : encodeFieldWith E none (entryField "key".toList keyType 1) (.str entry.1) with
  | error e =>
    rw [key] at encoded
    cases encoded
  | ok keyPart =>
    cases val : encodeFieldWith E none (entryField "value".toList valType 2) entry.2 with
    | error e =>
      rw [key, val] at encoded
      cases encoded
    | ok valPart =>
      rw [key, val] at encoded
      obtain ⟨rest, spelled⟩ := starts_encodeFieldWith E none _ entry.2 valPart val
      refine ⟨keyPart ++ valPart, ?_, ?_⟩
      · rw [← Except.ok.inj encoded, withLength_eq]
        exact congrArg (· ++ delimited (keyPart ++ valPart)) 
          (encodeTag_eq (show (2 : UInt8).toNat < 8 by decide) field.tag)
      · have wire : wireTypeFor valType = 0 ∨ wireTypeFor valType = 1 ∨ wireTypeFor valType = 2 ∨
            wireTypeFor valType = 5 := by
          rcases valType with s | name
          · cases s <;> decide
          · exact .inr (.inr (.inl rfl))
        have control {b : UInt8} (here : encodeVarint (((2 : UInt64) <<< 3) ||| (wireTypeFor valType).toUInt64) = [b])
            (low : b < 0x20) (tab : b ≠ 9) (line : b ≠ 10) (feed : b ≠ 13) :
            E.fromSlice (keyPart ++ valPart) = none := by
          refine E.controls _ b ?_ low tab line feed
          rw [spelled]
          have first : encodeVarint (((entryField "value".toList valType 2).tag.toUInt64 <<< 3) |||
            (wireTypeFor (entryField "value".toList valType 2).protoType).toUInt64) = [b] := here
          rw [first]
          simp
        rcases wire with wire | wire | wire | wire
        all_goals
          rw [wire] at control
          exact control ((encodeVarint_eq _).trans (Base128.encode_of_lt (by decide)))
            (by decide) (by decide) (by decide) (by decide)

theorem wireValues_entry (E : Externals) {field : ProtoFieldDef} {name : Str}
    (type : field.protoType = .other name) (none : field.nestedFields = none) {data : List UInt8}
    (control : E.fromSlice data = .none) :
    wireValues E field (nestedDecoder E field.nestedFields) (.lengthDelimited data) =
      .ok [.str (Base64.encode data)] := by
  rw [wireValues_single E _ (by rw [type]; intro packable; cases packable), type, none, nestedDecoder]
  simp only [wireValueToJson, control]
  rfl

/-- The entries of a map, and that no object comes back. -/
theorem entries_records (E : Externals) {field : ProtoFieldDef} {name : Str}
    (type : field.protoType = .other name) (none : field.nestedFields = none)
    {entries : List (Str × Value)} {parts : List (List UInt8)}
    (encoded : List.Forall₂ (fun entry part => entryBytes E field entry = .ok part) entries parts) :
    ∃ wvs : List WireValue, (∀ wv ∈ wvs, wv.Fits) ∧
      parts.flatten = wvs.flatMap (·.record field.tag) ∧ wvs.length = entries.length ∧
      ∃ texts : List Str, wvs.mapM (wireValues E field (nestedDecoder E field.nestedFields)) =
        .ok (texts.map fun text => [.str text]) := by
  induction encoded with
  | nil => exact ⟨[], fun wv mem => absurd mem List.not_mem_nil, rfl, rfl, [], rfl⟩
  | @cons entry part entries parts here encoded ih =>
    obtain ⟨data, spelled, control⟩ := entryBytes_control here
    obtain ⟨wvs, fits, more, length, texts, read⟩ := ih
    refine ⟨.lengthDelimited data :: wvs, List.forall_mem_cons.2 ⟨trivial, fits⟩, ?_, ?_,
      Base64.encode data :: texts, ?_⟩
    · rw [List.flatten_cons, List.flatMap_cons, spelled, more]
    · rw [List.length_cons, List.length_cons, length]
    · rw [List.mapM_cons, wireValues_entry E type none control, read]
      rfl

theorem fieldMember_entries (E : Externals) {field : ProtoFieldDef} (one : field.repeated = false)
    {wvs : List WireValue} {texts : List Str}
    (read : wvs.mapM (wireValues E field (nestedDecoder E field.nestedFields)) =
      .ok (texts.map fun text => [.str text])) {members : List (Str × Value)} :
    fieldMember E field wvs ≠ .ok (some (.obj members)) := by
  intro back
  obtain ⟨values, same, joins⟩ := fieldMember_ok.1 back
  rw [read] at same
  cases same
  cases texts with
  | nil => cases joins
  | cons text texts =>
    rw [List.map_cons, joined, if_neg (by simp [one])] at joins
    have last := List.mem_of_getLast? joins
    simp at last

/-! ## The recursion -/

theorem wellTyped_iff {fields : List ProtoFieldDef} {v : Value} :
    WellTyped fields v ↔ ∃ map, v = .obj map ∧ SortedMap.Sorted map ∧
      ∀ e ∈ map, ∃ f ∈ fields, f.name = e.1 ∧ MemberTyped f (f.nestedFields.map WellTyped) e.2 := by
  rw [WellTyped, bySchema_eq]
  simp only [List.mem_map, exists_exists_and_eq_and]

theorem WellTyped.member {fields : List ProtoFieldDef}
    (names : fields.Pairwise fun f g => f.name ≠ g.name) {map : List (Str × Value)}
    (typed : WellTyped fields (.obj map)) {f : ProtoFieldDef} (mem : f ∈ fields) {v : Value}
    (here : SortedMap.lookup f.name map = some v) :
    MemberTyped f (f.nestedFields.map WellTyped) v := by
  obtain ⟨_, same, -, members⟩ := wellTyped_iff.1 typed
  cases same
  obtain ⟨g, memG, name, member⟩ := members _ (SortedMap.mem_of_lookup here)
  have distinct : (fields.map ProtoFieldDef.name).Nodup := List.pairwise_map.2 names
  exact List.inj_on_of_nodup_map distinct memG mem name ▸ member

theorem find_name {α : Type} {fields : List (ProtoFieldDef × α)}
    (names : fields.Pairwise fun f g => f.1.name ≠ g.1.name) {f : ProtoFieldDef × α}
    (mem : f ∈ fields) : fields.find? (fun g => g.1.name == f.1.name) = some f := by
  induction fields with
  | nil => cases mem
  | cons g fields ih =>
    obtain ⟨apart, names⟩ := List.pairwise_cons.1 names
    rcases List.mem_cons.1 mem with rfl | mem
    · rw [List.find?_cons_of_pos (by simp)]
    · rw [List.find?_cons_of_neg (by simpa using apart f mem), ih names mem]

theorem withoutDefaults_obj (fields : List ProtoFieldDef) (map : List (Str × Value)) :
    withoutDefaults fields (.obj map) = .obj (SortedMap.mapMaybe
      (cleanEntry (fields.map fun f => (f, f.nestedFields.map withoutDefaults))) map) := by
  conv_lhs => rw [withoutDefaults, bySchema_eq]
  rfl

theorem cleanEntry_mem {fields : List ProtoFieldDef}
    (names : fields.Pairwise fun f g => f.name ≠ g.name) {f : ProtoFieldDef} (mem : f ∈ fields)
    (v : Value) :
    cleanEntry (fields.map fun f => (f, f.nestedFields.map withoutDefaults)) f.name v =
      cleanMember f (f.nestedFields.map withoutDefaults) v := by
  have found := find_name (List.pairwise_map.2 names)
    (List.mem_map_of_mem (f := fun f => (f, f.nestedFields.map withoutDefaults)) mem)
  rw [cleanEntry, found]

theorem survives_iff {fields : List ProtoFieldDef} {map : List (Str × Value)}
    (sorted : SortedMap.Sorted map) :
    Survives fields (.obj map) ↔ ∀ f ∈ fields, ∀ v, SortedMap.lookup f.name map = some v →
      MemberSurvives f (f.nestedFields.map Survives) v := by
  conv_lhs => rw [Survives, bySchema_eq]
  constructor
  · intro survives f mem v here
    exact survives map rfl _ (SortedMap.mem_of_lookup here) (f, f.nestedFields.map Survives)
      (List.mem_map_of_mem (f := fun f => (f, f.nestedFields.map Survives)) mem) rfl
  · intro survives m same e memE g memG name
    cases same
    obtain ⟨f, mem, rfl⟩ := List.mem_map.1 memG
    have found := SortedMap.lookup_of_mem sorted memE
    exact survives f mem e.2 (name ▸ found)

/-- A default is no negative number. -/
theorem not_negative_of_default {v : Value} (default : holdsDefault v = true) :
    isNegative v = false := by
  unfold holdsDefault at default
  split at default
  · rw [isNegative, beq_iff_eq.1 default]
    rfl
  · rfl
  · rfl
  · rfl
  · cases default

theorem single_default {field : ProtoFieldDef} {v : Value}
    (typed : SingleTyped field (field.nestedFields.map WellTyped) v) :
    isProto3Default v field.protoType = holdsDefault v := by
  cases type : field.protoType with
  | scalar s =>
    simp only [SingleTyped, type] at typed
    exact isProto3Default_eq typed
  | other name =>
    simp only [SingleTyped, type] at typed
    obtain ⟨_, here, typed⟩ := typed
    obtain ⟨fields, nested, rfl⟩ := Option.map_eq_some_iff.1 here
    obtain ⟨map, rfl, -⟩ := wellTyped_iff.1 typed
    rfl

theorem single_of_default {field : ProtoFieldDef} {v : Value}
    (typed : SingleTyped field (field.nestedFields.map WellTyped) v)
    (default : holdsDefault v = true) :
    SingleSurvives field (field.nestedFields.map Survives) v := by
  cases type : field.protoType with
  | scalar s =>
    simp only [SingleSurvives, type]
    exact fun _ => not_negative_of_default default
  | other name =>
    simp only [SingleTyped, type] at typed
    obtain ⟨_, here, typed⟩ := typed
    obtain ⟨fields, nested, rfl⟩ := Option.map_eq_some_iff.1 here
    obtain ⟨map, rfl, -⟩ := wellTyped_iff.1 typed
    cases default

theorem single_not_null {field : ProtoFieldDef} {v : Value}
    (typed : SingleTyped field (field.nestedFields.map WellTyped) v) : v.isNull = false := by
  cases type : field.protoType with
  | scalar s =>
    simp only [SingleTyped, type] at typed
    cases s <;> simp only [Scalar.Holds] at typed <;> obtain ⟨x, h⟩ := typed <;>
      first | (rw [h]; rfl) | (rw [h.2]; rfl)
  | other name =>
    simp only [SingleTyped, type] at typed
    obtain ⟨_, here, typed⟩ := typed
    obtain ⟨fields, nested, rfl⟩ := Option.map_eq_some_iff.1 here
    obtain ⟨map, rfl, -⟩ := wellTyped_iff.1 typed
    rfl

/-! ## Members of an object -/

section Members

variable {E : Externals} {field : ProtoFieldDef}

theorem memberBytes_none (map : List (Str × Value))
    (nested : Option (Value → Except CodecError (List UInt8)))
    (absent : SortedMap.lookup field.name map = none) : memberBytes E nested field map = .ok [] := by
  rw [memberBytes, absent]

/-- The records of a member, and whether it comes back. -/
def Recorded (E : Externals) (field : ProtoFieldDef) (part : List UInt8) (back : Option Value)
    (survives : Prop) : Prop :=
  ∃ wvs : List WireValue, (∀ wv ∈ wvs, wv.Fits) ∧ part = wvs.flatMap (·.record field.tag) ∧
    (fieldMember E field wvs = .ok back ↔ survives)

theorem recorded_nothing {survives : Prop} (always : survives) :
    Recorded E field [] none survives :=
  ⟨[], fun _ mem => absurd mem List.not_mem_nil, rfl, iff_of_true rfl always⟩

theorem recorded_map (isMap : field.isMap = true) (shaped : field.Shaped)
    {nested : Option (Value → Value)} {survives : Option (Value → Prop)}
    {entries : List (Str × Value)} {part : List UInt8}
    (encoded : concatM (entryBytes E field) entries = .ok part) :
    Recorded E field part (cleanMember field nested (.obj entries))
      (MemberSurvives field survives (.obj entries)) := by
  obtain ⟨one, noDefs, name, type⟩ := shaped.map isMap
  obtain ⟨parts, all, rfl⟩ := concatM_eq_ok.1 encoded
  obtain ⟨wvs, fits, spelled, length, texts, read⟩ := entries_records E type noDefs all
  refine ⟨wvs, fits, spelled, ?_⟩
  cases entries with
  | nil =>
    have none : wvs = [] := List.eq_nil_of_length_eq_zero length
    subst none
    rw [cleanMember.eq_def, isMap]
    apply iff_of_true
    · rfl
    · rw [MemberSurvives, if_pos isMap]
  | cons e entries =>
    rw [cleanMember.eq_def, isMap]
    apply iff_of_false
    · exact fieldMember_entries E one read
    · rw [MemberSurvives, if_pos isMap]
      intro same
      cases same

theorem recorded_list (isMap : field.isMap = false) (many : field.repeated = true)
    {items : List Value}
    (typed : ∀ item ∈ items, SingleTyped field (field.nestedFields.map WellTyped) item)
    (inner : ∀ fields, field.nestedFields = some fields → ∀ v, WellTyped fields v →
      ComesBack E fields v) {part : List UInt8}
    (encoded : concatM (encodeFieldWith E (nestedEncoder E field.nestedFields) field) items =
      .ok part) (small : part.length ≤ isizeMax) :
    Recorded E field part (cleanMember field (field.nestedFields.map withoutDefaults) (.arr items))
      (MemberSurvives field (field.nestedFields.map Survives) (.arr items)) := by
  obtain ⟨parts, all, rfl⟩ := concatM_eq_ok.1 encoded
  obtain ⟨wvs, fits, spelled, singles⟩ := items_records typed inner all small
  refine ⟨wvs, fits, spelled, ?_⟩
  rw [cleanMember.eq_def, isMap, many, MemberSurvives, if_neg (by simp [isMap]), if_pos many]
  cases items with
  | nil =>
    cases singles
    apply iff_of_true
    · rfl
    · intro items same item mem
      cases same
      cases mem
  | cons item items =>
    obtain ⟨alone, back⟩ := items_read singles
    refine (fieldMember_items E many (List.cons_ne_nil _ _) alone).trans (back.trans ?_)
    constructor
    · intro each items same
      cases same
      exact each
    · intro each
      exact each _ rfl

theorem recorded_single (isMap : field.isMap = false) (one : field.repeated = false) {v : Value}
    (typed : SingleTyped field (field.nestedFields.map WellTyped) v)
    (inner : ∀ fields, field.nestedFields = some fields → ∀ v, WellTyped fields v →
      ComesBack E fields v) (written : holdsDefault v = false) {part : List UInt8}
    (encoded : encodeFieldWith E (nestedEncoder E field.nestedFields) field v = .ok part)
    (small : part.length ≤ isizeMax) :
    Recorded E field part (cleanMember field (field.nestedFields.map withoutDefaults) v)
      (MemberSurvives field (field.nestedFields.map Survives) v) := by
  obtain ⟨wv, single⟩ := single_record E typed inner encoded small
  refine ⟨[wv], List.forall_mem_singleton.2 single.fits, ?_, ?_⟩
  · rw [single.spelled, List.flatMap_singleton]
  · have clean : cleanMember field (field.nestedFields.map withoutDefaults) v =
        some (cleanSingle field (field.nestedFields.map withoutDefaults) v) := by
      rw [cleanMember.eq_def, isMap, one]
      simp only [written, Bool.false_eq_true, if_false]
    rw [clean, MemberSurvives, if_neg (by simp [isMap]), if_neg (by simp [one])]
    exact (fieldMember_single E one single.alone).trans single.back

theorem recorded_member (shaped : field.Shaped) {map : List (Str × Value)}
    (typed : ∀ v, SortedMap.lookup field.name map = some v →
      MemberTyped field (field.nestedFields.map WellTyped) v)
    (inner : ∀ fields, field.nestedFields = some fields → ∀ v, WellTyped fields v →
      ComesBack E fields v) {part : List UInt8}
    (encoded : memberBytes E (nestedEncoder E field.nestedFields) field map = .ok part)
    (small : part.length ≤ isizeMax) :
    Recorded E field part
      ((SortedMap.lookup field.name map).bind
        (cleanMember field (field.nestedFields.map withoutDefaults)))
      (∀ v, SortedMap.lookup field.name map = some v →
        MemberSurvives field (field.nestedFields.map Survives) v) := by
  rw [memberBytes] at encoded
  cases here : SortedMap.lookup field.name map with
  | none =>
    rw [here] at encoded
    cases encoded
    apply recorded_nothing
    intro v same
    cases same
  | some v =>
    rw [here] at encoded
    dsimp only at encoded
    have typed := typed v here
    have only : (∀ w, some v = some w →
        MemberSurvives field (field.nestedFields.map Survives) w) =
          MemberSurvives field (field.nestedFields.map Survives) v := by
      apply propext
      constructor
      · intro each
        exact each v rfl
      · intro holds w same
        cases same
        exact holds
    rw [Option.bind_some, only]
    cases isMap : field.isMap with
    | true =>
      rw [MemberTyped, if_pos isMap] at typed
      obtain ⟨entries, rfl⟩ := typed
      rw [isMap] at encoded
      simp only [Bool.not_true, Bool.and_false, Bool.false_and] at encoded
      exact recorded_map isMap shaped encoded
    | false =>
      rw [MemberTyped, if_neg (by simp [isMap])] at typed
      cases many : field.repeated with
      | true =>
        rw [if_pos many] at typed
        obtain ⟨items, rfl, typed⟩ := typed
        rw [isMap, many] at encoded
        exact recorded_list isMap many typed inner encoded small
      | false =>
        rw [if_neg (by simp [many])] at typed
        rw [isMap, many, single_not_null typed, single_default typed] at encoded
        cases written : holdsDefault v with
        | true =>
          rw [written] at encoded
          cases encoded
          have gone : cleanMember field (field.nestedFields.map withoutDefaults) v = none := by
            rw [cleanMember.eq_def, isMap, many]
            simp only [written, if_true]
          rw [gone]
          apply recorded_nothing
          rw [MemberSurvives, if_neg (by simp [isMap]), if_neg (by simp [many])]
          exact single_of_default typed written
        | false =>
          rw [written] at encoded
          exact recorded_single isMap many typed inner written encoded small

end Members

/-! ## The round trip -/

/-- What comes back from bytes the encoder made. -/
theorem comesBack (E : Externals) {fields : List ProtoFieldDef} (legal : Legal fields) (v : Value)
    (typed : WellTyped fields v) : ComesBack E fields v := by
  induction legal generalizing v with
  | @intro fields distinct shaped nested ih =>
    obtain ⟨map, rfl, sorted, -⟩ := wellTyped_iff.1 typed
    intro bytes encoded small
    rw [jsonToProtoBinary_obj] at encoded
    obtain ⟨part, each, rfl⟩ := concatM_parts encoded
    have recorded : ∀ f, ∃ wvs : List WireValue, f ∈ fields → (∀ wv ∈ wvs, wv.Fits) ∧
        part f = wvs.flatMap (·.record f.tag) ∧
        (fieldMember E f wvs = .ok ((SortedMap.lookup f.name map).bind
            (cleanMember f (f.nestedFields.map withoutDefaults))) ↔
          ∀ v, SortedMap.lookup f.name map = some v →
            MemberSurvives f (f.nestedFields.map Survives) v) := by
      intro f
      by_cases mem : f ∈ fields
      · have short : (part f).length ≤ (fields.flatMap part).length := by
          obtain ⟨front, back, rfl⟩ := List.append_of_mem mem
          rw [List.flatMap_append, List.flatMap_cons, List.length_append, List.length_append]
          omega
        obtain ⟨wvs, all⟩ := recorded_member (shaped f mem)
          (fun v here => typed.member distinct.names mem here) (ih f mem) (each f mem)
          (short.trans small)
        exact ⟨wvs, fun _ => all⟩
      · exact ⟨[], fun here => absurd here mem⟩
    choose records fits spelled back using recorded
    have whole : fields.flatMap part = fields.flatMap fun f => (records f).flatMap (·.record f.tag) := by
      rw [List.flatMap_def, List.flatMap_def]
      exact congrArg _ (List.map_congr_left fun f mem => spelled f mem)
    have clean : ∀ f ∈ fields, SortedMap.lookup f.name (SortedMap.mapMaybe
        (cleanEntry (fields.map fun f => (f, f.nestedFields.map withoutDefaults))) map) =
        (SortedMap.lookup f.name map).bind (cleanMember f (f.nestedFields.map withoutDefaults)) := by
      intro f mem
      rw [SortedMap.lookup_mapMaybe _ sorted]
      exact congrArg _ (funext (cleanEntry_mem distinct.names mem))
    rw [protoBinaryToJson_records E distinct fits whole small, withoutDefaults_obj,
      survives_iff sorted]
    constructor
    · intro read
      obtain ⟨_, same, -, -, read⟩ := read
      cases same
      intro f mem
      exact (back f mem).1 ((read f mem).trans (congrArg _ (clean f mem)))
    · intro survives
      refine ⟨_, rfl, SortedMap.sorted_mapMaybe sorted, ?_, ?_⟩
      · intro name other
        rw [SortedMap.lookup_mapMaybe _ sorted]
        obtain ⟨_, same, -, members⟩ := wellTyped_iff.1 typed
        cases same
        have absent : SortedMap.lookup name map = none := by
          refine SortedMap.lookup_eq_none.2 fun e memE here => ?_
          obtain ⟨f, mem, named, -⟩ := members e memE
          exact other f mem (named.trans here.symm)
        rw [absent]
        rfl
      · intro f mem
        exact ((back f mem).2 (survives f mem)).trans (congrArg _ (clean f mem)).symm

theorem concatM_ok {α : Type} {f : α → Except CodecError (List UInt8)} {l : List α}
    (each : ∀ a ∈ l, ∃ part, f a = .ok part) : ∃ bytes, concatM f l = .ok bytes := by
  induction l with
  | nil => exact ⟨[], rfl⟩
  | cons a l ih =>
    obtain ⟨part, here⟩ := each a List.mem_cons_self
    obtain ⟨bytes, rest⟩ := ih fun a mem => each a (List.mem_cons_of_mem _ mem)
    exact ⟨part ++ bytes, by rw [concatM, here, rest]; rfl⟩

theorem single_encodes (E : Externals) {field : ProtoFieldDef} {v : Value}
    (typed : SingleTyped field (field.nestedFields.map WellTyped) v)
    (survives : SingleSurvives field (field.nestedFields.map Survives) v)
    (inner : ∀ fields, field.nestedFields = some fields → ∀ v, WellTyped fields v →
      Survives fields v → ∃ bytes, jsonToProtoBinary E v fields = .ok bytes) :
    ∃ part, encodeFieldWith E (nestedEncoder E field.nestedFields) field v = .ok part := by
  cases type : field.protoType with
  | scalar s =>
    simp only [SingleTyped, type] at typed
    obtain ⟨wv, u, carries, -⟩ := typed.carries
    exact ⟨_, carries.encoded E _ field type⟩
  | other name =>
    simp only [SingleTyped, type] at typed
    obtain ⟨_, here, typed⟩ := typed
    obtain ⟨fields, nested, rfl⟩ := Option.map_eq_some_iff.1 here
    simp only [SingleSurvives, type, nested, Option.map_some] at survives
    obtain ⟨data, run⟩ := inner fields nested v typed survives
    rw [nested, nestedEncoder_some, encodeFieldWith_message E type, run]
    exact ⟨_, rfl⟩

theorem member_encodes (E : Externals) {field : ProtoFieldDef} {v : Value}
    (typed : MemberTyped field (field.nestedFields.map WellTyped) v)
    (survives : MemberSurvives field (field.nestedFields.map Survives) v)
    (inner : ∀ fields, field.nestedFields = some fields → ∀ v, WellTyped fields v →
      Survives fields v → ∃ bytes, jsonToProtoBinary E v fields = .ok bytes)
    {map : List (Str × Value)} (here : SortedMap.lookup field.name map = some v) :
    ∃ part, memberBytes E (nestedEncoder E field.nestedFields) field map = .ok part := by
  rw [memberBytes, here]
  dsimp only
  rw [MemberTyped] at typed
  rw [MemberSurvives] at survives
  split
  · exact ⟨[], rfl⟩
  · split
    · exact ⟨[], rfl⟩
    · split
      · rename_i isMap
        rw [if_pos isMap] at survives
        rw [survives]
        exact ⟨[], rfl⟩
      · rename_i notMap
        rw [if_neg notMap] at typed survives
        split
        · rename_i many
          rw [if_pos many] at typed survives
          obtain ⟨items, rfl, typed⟩ := typed
          exact concatM_ok fun item mem =>
            single_encodes E (typed item mem) (survives items rfl item mem) inner
        · rename_i one
          rw [if_neg one] at typed survives
          exact single_encodes E typed survives inner

/-- An object that survives has bytes. -/
theorem survivor_encodes (E : Externals) {fields : List ProtoFieldDef} (legal : Legal fields)
    (v : Value) (typed : WellTyped fields v) (survives : Survives fields v) :
    ∃ bytes, jsonToProtoBinary E v fields = .ok bytes := by
  induction legal generalizing v with
  | @intro fields distinct shaped nested ih =>
    obtain ⟨map, rfl, sorted, -⟩ := wellTyped_iff.1 typed
    rw [jsonToProtoBinary_obj]
    apply concatM_ok
    intro f mem
    cases here : SortedMap.lookup f.name map with
    | none => exact ⟨[], memberBytes_none map _ here⟩
    | some v =>
      exact member_encodes E (typed.member distinct.names mem here)
        ((survives_iff sorted).1 survives f mem v here) (ih f mem) here

/-- **The dynamic round trip.** A well-typed object comes back without its defaults exactly if it
holds no map entry and no negative enumerator. -/
theorem protoBinary_roundTrips_iff (E : Externals) {fields : List ProtoFieldDef} (legal : Legal fields)
    {v : Value} (typed : WellTyped fields v)
    (small : ∀ bytes, jsonToProtoBinary E v fields = .ok bytes → bytes.length ≤ isizeMax) :
    RoundTrips E fields v ↔ Survives fields v := by
  constructor
  · intro h
    obtain ⟨bytes, encoded, back⟩ := h
    exact (comesBack E legal v typed bytes encoded (small bytes encoded)).1 back
  · intro survives
    obtain ⟨bytes, encoded⟩ := survivor_encodes E legal v typed survives
    exact ⟨bytes, encoded,
      (comesBack E legal v typed bytes encoded (small bytes encoded)).2 survives⟩

def statusField : ProtoFieldDef := entryField "status".toList (.scalar .enum) 1

def statusOf (x : BitVec 32) : Value :=
  .obj [("status".toList, .ofSigned Value.short32 x)]

theorem legal_one {f : ProtoFieldDef} (shaped : f.Shaped) (flat : f.nestedFields = none) :
    Legal [f] := by
  refine .intro ⟨List.pairwise_singleton _ _, List.pairwise_singleton _ _⟩
    (List.forall_mem_singleton.2 shaped) (List.forall_mem_singleton.2 ?_)
  intro inner same
  rw [flat] at same
  cases same

theorem entryField_shaped {name : Str} {s : Scalar} {tag : UInt32} :
    (entryField name (.scalar s) tag).Shaped where
  map isMap := by cases isMap
  message _ _ type := by cases type

theorem legal_status : Legal [statusField] :=
  legal_one entryField_shaped rfl

theorem wellTyped_status (x : BitVec 32) : WellTyped [statusField] (statusOf x) :=
  wellTyped_iff.2 ⟨_, rfl, List.pairwise_singleton _ _,
    List.forall_mem_singleton.2 ⟨statusField, List.mem_singleton_self _, rfl, x, rfl⟩⟩

theorem record_varint_length (tag : UInt32) (n : UInt64) :
    ((WireValue.varint n).record tag).length ≤ 20 := by
  have first := (spells_tagBytes (WireValue.varint n).wireType_lt tag).short
  have second := (spells_encode n).short
  rw [WireValue.record, List.length_append]
  exact Nat.add_le_add first second

/-- A scalar member that is no default is a record. -/
theorem memberBytes_entry (E : Externals) (tag : UInt32) {name : Str} {s : Scalar} {v u : Value}
    {wv : WireValue} (carries : Carries s v wv u) (holds : s.Holds v) (present : v.isNull = false)
    (some : holdsDefault v = false) {map : List (Str × Value)}
    (here : SortedMap.lookup name map = .some v) :
    memberBytes E (nestedEncoder E none) (entryField name (.scalar s) tag) map =
      .ok (wv.record tag) := by
  have encoded := carries.encoded E (nestedEncoder E none) (entryField name (.scalar s) tag) rfl
  have default : isProto3Default v (.scalar s) = false := (isProto3Default_eq holds).trans some
  rw [memberBytes, show SortedMap.lookup (entryField name (.scalar s) tag).name map = .some v from here]
  dsimp only
  rw [present, show (entryField name (.scalar s) tag).protoType = .scalar s from rfl, default]
  exact encoded

/-- An object with one member that is no default is the record of the member. -/
theorem encode_entry (E : Externals) {name : Str} {s : Scalar} {tag : UInt32} {v u : Value}
    {wv : WireValue} (carries : Carries s v wv u) (holds : s.Holds v) (present : v.isNull = false)
    (some : holdsDefault v = false) :
    jsonToProtoBinary E (.obj [(name, v)]) [entryField name (.scalar s) tag] =
      .ok (wv.record tag) := by
  have member := memberBytes_entry E tag carries holds present some
    (show SortedMap.lookup name [(name, v)] = .some v from if_pos rfl)
  rw [jsonToProtoBinary_obj, concatM]
  refine (congrArg (· >>= _) member).trans ?_
  show Except.ok (_ ++ []) = _
  rw [List.append_nil]

theorem encode_status (E : Externals) {x : BitVec 32}
    (some : holdsDefault (.ofSigned (by decide) x) = false) :
    jsonToProtoBinary E (statusOf x) [statusField] =
      .ok ((WireValue.varint (.ofBitVec (x.signExtend 64))).record 1) :=
  encode_entry E (carries_enum x) ⟨x, rfl⟩ rfl some

theorem status_small (E : Externals) {x : BitVec 32}
    (some : holdsDefault (.ofSigned (by decide) x) = false) {bytes : List UInt8}
    (encoded : jsonToProtoBinary E (statusOf x) [statusField] = .ok bytes) :
    bytes.length ≤ isizeMax := by
  rw [encode_status E some] at encoded
  rw [← Except.ok.inj encoded]
  exact (record_varint_length _ _).trans (by decide)

theorem survives_status {x : BitVec 32} :
    Survives [statusField] (statusOf x) ↔ isNegative (.ofSigned (by decide) x) = false := by
  rw [statusOf, survives_iff (List.pairwise_singleton _ _), List.forall_mem_singleton]
  constructor
  · intro survives
    exact survives _ rfl rfl
  · intro pos v here
    cases here
    exact fun _ => pos

theorem roundTrips_status : RoundTrips readsNothing [statusField] (statusOf 2) :=
  (protoBinary_roundTrips_iff readsNothing legal_status (wellTyped_status 2)
    fun _ => status_small readsNothing (by decide)).2 (survives_status.2 (by decide))

def scoresField : ProtoFieldDef where
  name := "scores".toList
  protoType := .other "map".toList
  tag := 1
  repeated := false
  isMap := true
  mapKeyType := some (.scalar .string)
  mapValueType := some (.scalar .int32)
  nestedFields := none

def scores : Value :=
  .obj [("scores".toList, .obj [("a".toList, .ofSigned Value.short32 (1 : BitVec 32))])]

theorem record_delimited_length (tag : UInt32) (data : List UInt8) :
    ((WireValue.lengthDelimited data).record tag).length ≤ 20 + data.length := by
  have first := (spells_tagBytes (WireValue.lengthDelimited data).wireType_lt tag).short
  have second := (spells_encode (.ofNat data.length)).short
  rw [UInt64.toNat_ofNat'] at second
  rw [WireValue.record, WireValue.bytes, delimited, List.length_append, List.length_append]
  omega

theorem encode_scores (E : Externals) :
    jsonToProtoBinary E scores [scoresField] =
      .ok ((WireValue.lengthDelimited ((WireValue.lengthDelimited [97]).record 1 ++
        (WireValue.varint 1).record 2)).record 1) := by
  have key := (carries_string "a".toList).encoded E none
    (entryField "key".toList (.scalar .string) 1) rfl
  have val := (carries_int32 1).encoded E none (entryField "value".toList (.scalar .int32) 2) rfl
  have entry : entryBytes E scoresField ("a".toList, .ofSigned (by decide) (1 : BitVec 32)) =
      .ok ((WireValue.lengthDelimited ((WireValue.lengthDelimited [97]).record 1 ++
        (WireValue.varint 1).record 2)).record 1) := by
    rw [entryBytes]
    dsimp only
    rw [show scoresField.mapKeyType.getD (.scalar .string) = .scalar .string from rfl,
      show scoresField.mapValueType.getD (.scalar .string) = .scalar .int32 from rfl, key, val]
    show Except.ok (encodeVarint ((scoresField.tag.toUInt64 <<< 3) ||| (2 : UInt8).toUInt64) ++
      withLength _) = _
    rw [encodeTag_eq (by decide), withLength_eq]
    rfl
  have list : concatM (entryBytes E scoresField)
      [("a".toList, .ofSigned (by decide) (1 : BitVec 32))] =
        .ok ((WireValue.lengthDelimited ((WireValue.lengthDelimited [97]).record 1 ++
          (WireValue.varint 1).record 2)).record 1 ++ []) := by
    rw [concatM, entry]
    rfl
  rw [scores, jsonToProtoBinary_obj, concatM, memberBytes]
  refine (congrArg (· >>= _) list).trans ?_
  show Except.ok (_ ++ [] ++ []) = _
  rw [List.append_nil, List.append_nil]

theorem wellTyped_scores : WellTyped [scoresField] scores :=
  wellTyped_iff.2 ⟨_, rfl, List.pairwise_singleton _ _,
    List.forall_mem_singleton.2 ⟨scoresField, List.mem_singleton_self _, rfl, _, rfl⟩⟩

theorem legal_scores : Legal [scoresField] :=
  legal_one ⟨fun _ => ⟨rfl, rfl, _, rfl⟩, fun isMap => by cases isMap⟩ rfl

/-- A map with an entry and a negative enumerator do not come back. -/
theorem not_roundTrips_scores :
    ¬ RoundTrips readsNothing [scoresField] scores ∧
      ¬ RoundTrips readsNothing [statusField] (statusOf (-1)) := by
  constructor
  · intro h
    obtain ⟨bytes, encoded, back⟩ := h
    have small : bytes.length ≤ isizeMax := by
      have key := record_delimited_length 1 [97]
      have val := record_varint_length 2 1
      have entry := record_delimited_length 1 ((WireValue.lengthDelimited [97]).record 1 ++
        (WireValue.varint 1).record 2)
      rw [encode_scores] at encoded
      rw [← Except.ok.inj encoded]
      rw [List.length_append] at entry
      rw [List.length_singleton] at key
      unfold isizeMax
      omega
    have survives := (comesBack readsNothing legal_scores scores wellTyped_scores bytes encoded
      small).1 back
    have empty := (survives_iff (List.pairwise_singleton _ _)).1 survives scoresField
      (List.mem_singleton_self _) _ rfl
    cases empty
  · intro h
    obtain ⟨bytes, encoded, back⟩ := h
    have survives := (comesBack readsNothing legal_status _ (wellTyped_status (-1)) bytes encoded
      (status_small readsNothing (by decide) encoded)).1 back
    have negative := survives_status.1 survives
    revert negative
    decide

end Typeway.Grpc
