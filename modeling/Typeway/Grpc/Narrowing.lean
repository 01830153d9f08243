import Mathlib.Data.List.Nodup
import Typeway.Base.SideBySide
import Typeway.Grpc.JsonSafety

/-!
# Readers that know less

Two sides of a connection may have different versions of a message. The one with the fewer fields
skips what it does not know, in nested messages too, and reads the rest as the other does.
-/

namespace Typeway.Grpc

open Checked Typeway.Core Json

/-! ## Narrower definitions -/

mutual

/-- All that `narrow` knows stands in `wide`, and the names of the other fields are not among those
it knows. -/
inductive Narrows : List ProtoFieldDef → List ProtoFieldDef → Prop where
  | intro {narrow wide : List ProtoFieldDef} (names : (narrow.map ProtoFieldDef.name).Nodup)
      (inner : ProtoFieldDef → Option (List ProtoFieldDef))
      (known : ∀ f ∈ narrow,
        wide.find? (fun g => g.tag == f.tag) = some { f with nestedFields := inner f })
      (each : ∀ f ∈ narrow, NarrowsNested f.nestedFields (inner f))
      (fresh : ∀ g ∈ wide, (∀ f ∈ narrow, f.tag ≠ g.tag) → ∀ f ∈ narrow, f.name ≠ g.name) :
      Narrows narrow wide

inductive NarrowsNested : Option (List ProtoFieldDef) → Option (List ProtoFieldDef) → Prop where
  | scalar : NarrowsNested none none
  | message {narrow wide : List ProtoFieldDef} (narrows : Narrows narrow wide) :
      NarrowsNested (some narrow) (some wide)

end

/-- The items of an array changed. -/
def mapItems (change : Value → Value) : Value → Value
  | .arr items => .arr (items.map change)
  | v => v

mutual

/-- The value of a nested field without what is not known of it. -/
def prune : Option (List ProtoFieldDef) → Value → Value
  | none, v => v
  | some fields, v =>
    match v with
    | .obj members => .obj (SortedMap.mapMaybe (knownMember fields) members)
    | v => v

/-- The value of a member if its field is known. -/
def knownMember : List ProtoFieldDef → Str → Value → Option Value
  | [], _, _ => none
  | ⟨name, _, _, repeated, _, _, _, nested⟩ :: fields, key, value =>
    if name = key then
      some (if repeated then mapItems (prune nested) value else prune nested value)
    else knownMember fields key value

end

theorem prune_none (v : Value) : prune none v = v := by
  rw [prune]

theorem prune_obj (fields : List ProtoFieldDef) (members : List (Str × Value)) :
    prune (some fields) (.obj members) =
      .obj (SortedMap.mapMaybe (knownMember fields) members) := by
  rw [prune]

theorem prune_of_not_obj (nested : Option (List ProtoFieldDef)) {v : Value}
    (other : v.asObject = none) : prune nested v = v := by
  cases nested with
  | none => exact prune_none v
  | some fields =>
    rw [prune]
    rintro members rfl
    cases other

/-- The value of a member under its field. -/
def ProtoFieldDef.pruned (f : ProtoFieldDef) (value : Value) : Value :=
  if f.repeated then mapItems (prune f.nestedFields) value else prune f.nestedFields value

theorem knownMember_eq (fields : List ProtoFieldDef) (key : Str) (value : Value) :
    knownMember fields key value =
      (fields.find? fun f => f.name = key).map fun f => f.pruned value := by
  induction fields with
  | nil => rw [knownMember, List.find?_nil, Option.map_none]
  | cons f fields ih =>
    cases f with
    | mk name protoType tag repeated isMap keyType valueType nested =>
      rw [knownMember, List.find?_cons]
      by_cases here : name = key
      · rw [if_pos here, decide_eq_true here]
        rfl
      · rw [if_neg here, ih, decide_eq_false here]

/-! ## Turns of the loop -/

/-- The number of the next field, its wire value and where it ends. -/
def readRecord (bytes : List UInt8) (offset : Nat) : Run CodecError (UInt32 × WireValue × Nat) := do
  let rest ← sliceFrom bytes offset
  let (tagAndWire, consumed) ← lift (decodeVarint rest)
  let offset ← add offset consumed
  let rest ← sliceFrom bytes offset
  let (wireVal, consumed) ← decodeWireValue rest (tagAndWire &&& 7).toUInt8
  let offset ← add offset consumed
  pure ((tagAndWire >>> 3).toUInt32, wireVal, offset)

theorem jsonStep_eq (E : Externals) (fields : List (ProtoFieldDef × NestedDecoder))
    (bytes : List UInt8) (s : JsonState) :
    jsonStep E fields bytes s = readRecord bytes s.offset >>= fun r =>
      storeRecord E fields r.1 r.2.1 { s with offset := r.2.2 } := by
  rw [jsonStep, readRecord]
  simp only [bind_assoc, pure_bind]
  rfl

theorem readRecord_shorter (bytes : List UInt8) (offset : Nat) :
    Ensures (readRecord bytes offset) fun r =>
      ∀ data, r.2.1 = .lengthDelimited data → data.length < bytes.length := by
  rw [readRecord]
  refine Ensures.any.bind fun rest _ => Ensures.any.bind fun tag _ => Ensures.any.bind fun start _ => ?_
  refine (Ensures.sliceFrom bytes start).bind fun rest behind => ?_
  refine (decodeWireValue_ensures _ _).bind fun r bounds => ?_
  refine Ensures.any.bind fun stop _ => .ok fun data same => ?_
  have shorter := bounds.2 data same
  rw [behind.2, List.length_drop] at shorter
  omega

/-! ## Values -/

theorem asObject_ofF64 (x : BitVec (8 * 8)) : (Value.ofF64 x).asObject = none := by
  rw [Value.ofF64]
  split <;> rfl

theorem asObject_ofF32 (x : BitVec (8 * 4)) : (Value.ofF32 x).asObject = none := by
  rw [Value.ofF32]
  split <;> rfl

/-- Only a field with a length can be a message. -/
theorem wireValueToJson_flat (E : Externals) {wv : WireValue}
    (flat : ∀ data, wv ≠ .lengthDelimited data) (protoType : ProtoType) (nested : NestedDecoder) :
    wireValueToJson E wv protoType nested = wireValueToJson E wv protoType none ∧
      Ensures (wireValueToJson E wv protoType none) fun v => v.asObject = none := by
  have text (v : Value) (plain : v.asObject = none) :
      Ensures (pure v : Run CodecError Value) fun v => v.asObject = none := .ok plain
  cases wv with
  | lengthDelimited data => exact absurd rfl (flat data)
  | varint v =>
    rcases protoType with s | name
    · cases s <;> first | exact ⟨rfl, text _ rfl⟩ | exact ⟨rfl, .fail _⟩
    · exact ⟨rfl, .fail _⟩
  | fixed64 word =>
    rcases protoType with s | name
    · cases s <;> first | exact ⟨rfl, text _ rfl⟩ | exact ⟨rfl, .fail _⟩ |
        exact ⟨rfl, text _ (asObject_ofF64 _)⟩
    · exact ⟨rfl, .fail _⟩
  | fixed32 word =>
    rcases protoType with s | name
    · cases s <;> first | exact ⟨rfl, text _ rfl⟩ | exact ⟨rfl, .fail _⟩ |
        exact ⟨rfl, text _ (asObject_ofF32 _)⟩
    · exact ⟨rfl, .fail _⟩

theorem nestedDecoder_none (E : Externals) : nestedDecoder E none = none := by
  rw [nestedDecoder]

/-- Texts are no messages. -/
theorem wireValueToJson_text (E : Externals) (data : List UInt8) {protoType : ProtoType}
    (text : protoType = .scalar .string ∨ protoType = .scalar .bytes) (nested : NestedDecoder) :
    wireValueToJson E (.lengthDelimited data) protoType nested =
        wireValueToJson E (.lengthDelimited data) protoType none ∧
      Ensures (wireValueToJson E (.lengthDelimited data) protoType none) fun v =>
        v.asObject = none := by
  rcases text with rfl | rfl
  · refine ⟨rfl, ?_⟩
    unfold wireValueToJson
    dsimp only
    split
    · exact .ok rfl
    · exact .fail _
  · exact ⟨rfl, .ok rfl⟩

section Values

variable {E : Externals} {nested nested' : Option (List ProtoFieldDef)}

theorem wireValueToJson_prune (related : NarrowsNested nested nested') {wv : WireValue}
    {protoType : ProtoType}
    (inner : ∀ data narrow wide, wv = .lengthDelimited data → Narrows narrow wide → ∀ v,
      protoBinaryToJson E data wide = .ok v →
        protoBinaryToJson E data narrow = .ok (prune (some narrow) v))
    {v : Value} (run : wireValueToJson E wv protoType (nestedDecoder E nested') = .ok v) :
    wireValueToJson E wv protoType (nestedDecoder E nested) = .ok (prune nested v) := by
  have plain (alone : ∀ decoder, wireValueToJson E wv protoType decoder =
        wireValueToJson E wv protoType none ∧
      Ensures (wireValueToJson E wv protoType none) fun v => v.asObject = none) :
      wireValueToJson E wv protoType (nestedDecoder E nested) = .ok (prune nested v) := by
    rw [(alone _).1] at run ⊢
    rw [prune_of_not_obj nested ((alone none).2 v run), run]
  by_cases flat : ∀ data, wv ≠ .lengthDelimited data
  · exact plain fun decoder => wireValueToJson_flat E flat protoType decoder
  · simp only [ne_eq, not_forall, not_not] at flat
    obtain ⟨data, rfl⟩ := flat
    by_cases text : protoType = .scalar .string ∨ protoType = .scalar .bytes
    · exact plain fun decoder => wireValueToJson_text E data text decoder
    · obtain ⟨string, bytes⟩ := not_or.1 text
      cases related with
      | scalar => rw [run, prune_none]
      | message narrows =>
        rw [wireValueToJson_delimited string bytes, nestedDecoder_some] at run ⊢
        exact inner data _ _ rfl narrows v run

theorem unpackStep_flat (E : Externals) (data : List UInt8) (protoType : ProtoType)
    (s : Nat × List Value) (kept : ∀ v ∈ s.2, v.asObject = none) :
    Ensures (unpackStep E protoType data s) fun t => ∀ v ∈ t.2, v.asObject = none := by
  obtain ⟨offset, results⟩ := s
  have more {wv : WireValue} (flat : ∀ data, wv ≠ .lengthDelimited data) (stop : Nat) :
      Ensures (wireValueToJson E wv protoType none >>= fun value =>
        (pure (stop, results ++ [value]) : Run CodecError (Nat × List Value)))
        fun t => ∀ v ∈ t.2, v.asObject = none := by
    refine (wireValueToJson_flat E flat protoType none).2.bind fun value alone => .ok ?_
    exact List.forall_mem_append.2 ⟨kept, List.forall_mem_singleton.2 alone⟩
  unfold unpackStep
  dsimp only
  split
  · refine Ensures.any.bind fun rest _ => Ensures.any.bind fun r _ => ?_
    exact Ensures.any.bind fun stop _ => more (by nofun) stop
  · refine Ensures.any.bind fun stop _ => ?_
    split
    · exact .fail _
    · exact Ensures.any.bind fun word _ => more (by nofun) stop
  · refine Ensures.any.bind fun stop _ => ?_
    split
    · exact .fail _
    · exact Ensures.any.bind fun word _ => more (by nofun) stop
  · exact .fail _

theorem unpackScalars_flat (E : Externals) (data : List UInt8) (protoType : ProtoType) :
    Ensures (unpackScalars E data protoType) fun values => ∀ v ∈ values, v.asObject = none := by
  rw [unpackScalars]
  refine Ensures.bind (P := fun s : Nat × List Value => ∀ v ∈ s.2, v.asObject = none) ?_
    fun s kept => .ok kept
  refine (Ensures.runLoop (unpackLoop_lowers E protoType data)
    (fun s kept _ => unpackStep_flat E data protoType s kept) ?_).mono fun s h => h.1
  exact List.forall_mem_nil _

/-- The values that a record adds, without what is not known of them. -/
theorem wireValues_prune {f : ProtoFieldDef} (related : NarrowsNested f.nestedFields nested')
    {wv : WireValue}
    (inner : ∀ data narrow wide, wv = .lengthDelimited data → Narrows narrow wide → ∀ v,
      protoBinaryToJson E data wide = .ok v →
        protoBinaryToJson E data narrow = .ok (prune (some narrow) v))
    {values : List Value}
    (run : wireValues E { f with nestedFields := nested' } (nestedDecoder E nested') wv =
      .ok values) :
    wireValues E f (nestedDecoder E f.nestedFields) wv =
      .ok (values.map (prune f.nestedFields)) := by
  have single
      (run : (wireValueToJson E wv f.protoType (nestedDecoder E nested')).map ([·]) =
        .ok values) :
      (wireValueToJson E wv f.protoType (nestedDecoder E f.nestedFields)).map ([·]) =
        .ok (values.map (prune f.nestedFields)) := by
    cases read : wireValueToJson E wv f.protoType (nestedDecoder E nested') with
    | error e =>
      rw [read] at run
      cases run
    | ok v =>
      rw [read] at run
      cases run
      rw [wireValueToJson_prune related inner read]
      rfl
  unfold wireValues at run ⊢
  dsimp only at run
  cases packed : f.repeated && isPackableType f.protoType with
  | false =>
    rw [packed] at run
    exact single run
  | true =>
    rw [packed] at run
    cases wv with
    | lengthDelimited data =>
      have flat := unpackScalars_flat E data f.protoType values run
      have same : values.map (prune f.nestedFields) = values.map id :=
        List.map_congr_left fun v mem => prune_of_not_obj _ (flat v mem)
      rw [same, List.map_id]
      exact run
    | _ => exact single run

end Values

/-! ## States -/

/-- The state of the reader that knows less. -/
structure Behind (narrow : List ProtoFieldDef) (s t : JsonState) : Prop where
  offset : t.offset = s.offset
  ordered : s.Ordered
  ordered' : t.Ordered
  repeatedFields : ∀ f ∈ narrow, SortedMap.lookup f.name t.repeatedFields =
    (SortedMap.lookup f.name s.repeatedFields).map (List.map (prune f.nestedFields))
  map : ∀ f ∈ narrow, SortedMap.lookup f.name t.map =
    (SortedMap.lookup f.name s.map).map (prune f.nestedFields)
  single : ∀ f ∈ narrow, f.repeated = true → SortedMap.lookup f.name s.map = none
  several : ∀ f ∈ narrow, f.repeated = false → SortedMap.lookup f.name s.repeatedFields = none
  others : ∀ name, (∀ f ∈ narrow, f.name ≠ name) →
    SortedMap.lookup name t.repeatedFields = none ∧ SortedMap.lookup name t.map = none

namespace Behind

variable {narrow : List ProtoFieldDef} {s t : JsonState}

theorem start (narrow : List ProtoFieldDef) : Behind narrow ⟨0, [], []⟩ ⟨0, [], []⟩ where
  offset := rfl
  ordered := ⟨SortedMap.sorted_nil, SortedMap.sorted_nil⟩
  ordered' := ⟨SortedMap.sorted_nil, SortedMap.sorted_nil⟩
  repeatedFields _ _ := rfl
  map _ _ := rfl
  single _ _ _ := rfl
  several _ _ _ := rfl
  others _ _ := ⟨rfl, rfl⟩

theorem moved (behind : Behind narrow s t) (offset : Nat) :
    Behind narrow { s with offset := offset } { t with offset := offset } where
  offset := rfl
  ordered := ⟨behind.ordered.map, behind.ordered.repeatedFields⟩
  ordered' := ⟨behind.ordered'.map, behind.ordered'.repeatedFields⟩
  repeatedFields := behind.repeatedFields
  map := behind.map
  single := behind.single
  several := behind.several
  others := behind.others

theorem ne_name (names : (narrow.map ProtoFieldDef.name).Nodup) {f g : ProtoFieldDef}
    (memF : f ∈ narrow) (memG : g ∈ narrow) (same : g.name = f.name) : g = f :=
  List.inj_on_of_nodup_map names memG memF same

/-- Values are added to a repeated field. -/
theorem extend (behind : Behind narrow s t) (names : (narrow.map ProtoFieldDef.name).Nodup)
    {f : ProtoFieldDef} (mem : f ∈ narrow) (repeated : f.repeated = true) (values : List Value) :
    Behind narrow (s.extend f.name values)
      (t.extend f.name (values.map (prune f.nestedFields))) where
  offset := behind.offset
  ordered := ⟨behind.ordered.map, SortedMap.sorted_insert behind.ordered.repeatedFields⟩
  ordered' := ⟨behind.ordered'.map, SortedMap.sorted_insert behind.ordered'.repeatedFields⟩
  repeatedFields g memG := by
    simp only [JsonState.extend, SortedMap.lookup_insert]
    by_cases same : g.name = f.name
    · cases ne_name names mem memG same
      rw [if_pos rfl, if_pos rfl, behind.repeatedFields f mem]
      cases SortedMap.lookup f.name s.repeatedFields with
      | none => rfl
      | some before => simp
    · rw [if_neg same, if_neg same, behind.repeatedFields g memG]
  map := behind.map
  single := behind.single
  several g memG alone := by
    simp only [JsonState.extend, SortedMap.lookup_insert]
    by_cases same : g.name = f.name
    · cases ne_name names mem memG same
      rw [alone] at repeated
      cases repeated
    · rw [if_neg same, behind.several g memG alone]
  others name other := by
    refine ⟨?_, (behind.others name other).2⟩
    simp only [JsonState.extend, SortedMap.lookup_insert]
    rw [if_neg (other f mem).symm, (behind.others name other).1]

/-- The value of a field is set. -/
theorem insert (behind : Behind narrow s t) (names : (narrow.map ProtoFieldDef.name).Nodup)
    {f : ProtoFieldDef} (mem : f ∈ narrow) (alone : f.repeated = false) (value : Value) :
    Behind narrow (s.insert f.name value) (t.insert f.name (prune f.nestedFields value)) where
  offset := behind.offset
  ordered := behind.ordered.insert f.name value
  ordered' := behind.ordered'.insert f.name _
  repeatedFields := behind.repeatedFields
  map g memG := by
    simp only [JsonState.insert, SortedMap.lookup_insert]
    by_cases same : g.name = f.name
    · cases ne_name names mem memG same
      rw [if_pos rfl, if_pos rfl, Option.map_some]
    · rw [if_neg same, if_neg same, behind.map g memG]
  single g memG repeated := by
    simp only [JsonState.insert, SortedMap.lookup_insert]
    by_cases same : g.name = f.name
    · cases ne_name names mem memG same
      rw [alone] at repeated
      cases repeated
    · rw [if_neg same, behind.single g memG repeated]
  several := behind.several
  others name other := by
    refine ⟨(behind.others name other).1, ?_⟩
    simp only [JsonState.insert, SortedMap.lookup_insert]
    rw [if_neg (other f mem).symm, (behind.others name other).2]

/-- A known field is stored on both sides. -/
theorem put (behind : Behind narrow s t) (names : (narrow.map ProtoFieldDef.name).Nodup)
    {f : ProtoFieldDef} (mem : f ∈ narrow) (nested : Option (List ProtoFieldDef))
    (values : List Value) :
    Behind narrow (s.put { f with nestedFields := nested } values)
      (t.put f (values.map (prune f.nestedFields))) := by
  unfold JsonState.put
  dsimp only
  cases repeated : f.repeated with
  | true => exact behind.extend names mem repeated values
  | false =>
    simp only [Bool.false_eq_true, if_false]
    induction values generalizing s t with
    | nil => exact behind
    | cons value values ih => exact ih (behind.insert names mem repeated value)

/-- An unknown field is stored on one side. -/
theorem put_unknown (behind : Behind narrow s t) {g : ProtoFieldDef}
    (fresh : ∀ f ∈ narrow, f.name ≠ g.name) (values : List Value) :
    Behind narrow (s.put g values) t := by
  rw [JsonState.put]
  split
  · refine { behind with
      ordered := ⟨behind.ordered.map, SortedMap.sorted_insert behind.ordered.repeatedFields⟩
      repeatedFields := fun f mem => ?_, several := fun f mem alone => ?_ }
    · rw [JsonState.extend, SortedMap.lookup_insert, if_neg (fresh f mem),
        behind.repeatedFields f mem]
    · rw [JsonState.extend, SortedMap.lookup_insert, if_neg (fresh f mem),
        behind.several f mem alone]
  · induction values generalizing s with
    | nil => exact behind
    | cons value values ih =>
      have next : Behind narrow (s.insert g.name value) t :=
        { behind with
          ordered := behind.ordered.insert g.name value
          map := fun f mem => by
            rw [JsonState.insert, SortedMap.lookup_insert, if_neg (fresh f mem), behind.map f mem]
          single := fun f mem repeated => by
            rw [JsonState.insert, SortedMap.lookup_insert, if_neg (fresh f mem),
              behind.single f mem repeated] }
      exact ih next

/-- At the end, the unknown members are left out. -/
theorem finish (behind : Behind narrow s t) (names : (narrow.map ProtoFieldDef.name).Nodup) :
    t.finish = prune (some narrow) s.finish := by
  obtain ⟨m, whole, sorted, lookup⟩ := JsonState.finish_eq behind.ordered
  obtain ⟨m', part, sorted', lookup'⟩ := JsonState.finish_eq behind.ordered'
  rw [whole, part, prune_obj]
  refine congrArg Value.obj (SortedMap.ext sorted' (SortedMap.sorted_mapMaybe sorted) fun name => ?_)
  rw [lookup', SortedMap.lookup_mapMaybe _ sorted, lookup, JsonState.member, JsonState.member]
  by_cases own : ∃ f ∈ narrow, f.name = name
  · obtain ⟨f, mem, rfl⟩ := own
    have found : narrow.find? (fun g => g.name = f.name) = some f := by
      cases first : narrow.find? (fun g => decide (g.name = f.name)) with
      | none => exact absurd (List.find?_eq_none.1 first f mem) (by simp)
      | some g =>
        have same := List.find?_some first
        exact congrArg some (ne_name names mem (List.mem_of_find?_eq_some first)
          (of_decide_eq_true same))
    rw [behind.repeatedFields f mem, behind.map f mem]
    have known (v : Value) : knownMember narrow f.name v = some (f.pruned v) := by
      rw [knownMember_eq, found, Option.map_some]
    cases repeated : f.repeated with
    | true =>
      rw [behind.single f mem repeated]
      cases SortedMap.lookup f.name s.repeatedFields with
      | none => rfl
      | some items =>
        refine Eq.trans ?_ (known _).symm
        rw [ProtoFieldDef.pruned, repeated]
        rfl
    | false =>
      rw [behind.several f mem repeated]
      cases SortedMap.lookup f.name s.map with
      | none => rfl
      | some v =>
        refine Eq.trans ?_ (known _).symm
        rw [ProtoFieldDef.pruned, repeated]
        rfl
  · have other : ∀ f ∈ narrow, f.name ≠ name := fun f mem same => own ⟨f, mem, same⟩
    have unknown (v : Value) : knownMember narrow name v = none := by
      rw [knownMember_eq, List.find?_eq_none.2 fun f mem => by simpa using other f mem,
        Option.map_none]
    rw [(behind.others name other).1, (behind.others name other).2]
    exact (Option.bind_eq_none_iff.2 fun v _ => unknown v).symm

end Behind

/-! ## Runs -/

theorem Narrows.names {narrow wide : List ProtoFieldDef} (narrows : Narrows narrow wide) :
    (narrow.map ProtoFieldDef.name).Nodup := by
  cases narrows with
  | intro names => exact names

/-- What the definitions with a number are on both sides. -/
theorem Narrows.find {narrow wide : List ProtoFieldDef} (narrows : Narrows narrow wide)
    (tag : UInt32) :
    (∃ f nested, f ∈ narrow ∧ narrow.find? (fun g => g.tag == tag) = some f ∧
        wide.find? (fun g => g.tag == tag) = some { f with nestedFields := nested } ∧
        NarrowsNested f.nestedFields nested) ∨
      narrow.find? (fun g => g.tag == tag) = none ∧
        ∀ g, wide.find? (fun g => g.tag == tag) = some g → ∀ f ∈ narrow, f.name ≠ g.name := by
  cases narrows with
  | intro names inner known each fresh =>
    cases found : narrow.find? (fun g => g.tag == tag) with
    | some f =>
      have mem := List.mem_of_find?_eq_some found
      have same := List.find?_some found
      rw [beq_iff_eq] at same
      subst same
      exact .inl ⟨f, inner f, mem, rfl, known f mem, each f mem⟩
    | none =>
      refine .inr ⟨rfl, fun g first => fresh g (List.mem_of_find?_eq_some first) fun f mem same => ?_⟩
      have here := List.find?_some first
      have away := List.find?_eq_none.1 found f mem
      rw [same] at away
      exact away here

section Runs

variable {E : Externals} {bytes : List UInt8} {narrow wide : List ProtoFieldDef}

/-- A record is stored on both sides, or it is unknown to one. -/
theorem storeRecord_narrows (narrows : Narrows narrow wide) {s t s' : JsonState}
    (behind : Behind narrow s t) {tag : UInt32} {wv : WireValue}
    (inner : ∀ data narrow wide, wv = .lengthDelimited data → Narrows narrow wide → ∀ v,
      protoBinaryToJson E data wide = .ok v →
        protoBinaryToJson E data narrow = .ok (prune (some narrow) v))
    (run : storeRecord E (withDecoders E wide) tag wv s = .ok s') :
    ∃ t', storeRecord E (withDecoders E narrow) tag wv t = .ok t' ∧ Behind narrow s' t' := by
  rw [storeRecord, find_decoder] at run ⊢
  rcases narrows.find tag with ⟨f, nested, mem, here, there, related⟩ | ⟨here, fresh⟩
  · rw [there, Option.map_some] at run
    rw [here, Option.map_some]
    dsimp only at run ⊢
    rw [storeWireValue_eq] at run ⊢
    obtain ⟨values, read, stored⟩ := bind_eq_ok.1 run
    rw [wireValues_prune related inner read]
    cases stored
    exact ⟨_, rfl, behind.put narrows.names mem nested values⟩
  · rw [here]
    refine ⟨t, rfl, ?_⟩
    cases found : wide.find? (fun g => g.tag == tag) with
    | none =>
      rw [found] at run
      cases run
      exact behind
    | some g =>
      rw [found, Option.map_some] at run
      dsimp only at run
      rw [storeWireValue_eq] at run
      obtain ⟨values, -, stored⟩ := bind_eq_ok.1 run
      cases stored
      exact behind.put_unknown (fresh g found) values

/-- A turn of the loop on both sides. -/
theorem jsonStep_narrows (narrows : Narrows narrow wide) {s t s' : JsonState}
    (behind : Behind narrow s t)
    (inner : ∀ data narrow wide, data.length < bytes.length → Narrows narrow wide → ∀ v,
      protoBinaryToJson E data wide = .ok v →
        protoBinaryToJson E data narrow = .ok (prune (some narrow) v))
    (run : jsonStep E (withDecoders E wide) bytes s = .ok s') :
    ∃ t', jsonStep E (withDecoders E narrow) bytes t = .ok t' ∧ Behind narrow s' t' := by
  rw [jsonStep_eq] at run ⊢
  obtain ⟨⟨tag, wv, stop⟩, read, stored⟩ := bind_eq_ok.1 run
  rw [behind.offset, read, ok_bind]
  refine storeRecord_narrows narrows (behind.moved stop) ?_ stored
  intro data narrow wide same
  exact inner data narrow wide (readRecord_shorter bytes s.offset _ read data same)

/-- **What a reader that knows less makes of a message**: it fails on no input that the other one
reads, and it gives the same value without what it does not know. -/
theorem protoBinaryToJson_narrows (E : Externals) {bytes : List UInt8}
    {narrow wide : List ProtoFieldDef} (narrows : Narrows narrow wide) {v : Value}
    (run : protoBinaryToJson E bytes wide = .ok v) :
    protoBinaryToJson E bytes narrow = .ok (prune (some narrow) v) := by
  -- A nested message is shorter than the one it stands in.
  generalize length : bytes.length = n
  induction n using Nat.strongRecOn generalizing bytes narrow wide v with
  | ind n ih =>
    subst length
    unfold protoBinaryToJson decodeMembers at run ⊢
    obtain ⟨s, loop, done⟩ := bind_eq_ok.1 run
    cases done
    obtain ⟨t, loop', behind⟩ := runLoop_follows
      (jsonLoop_lowers E (withDecoders E wide) bytes)
      (jsonLoop_lowers E (withDecoders E narrow) bytes) (R := Behind narrow)
      (fun s t behind => by rw [behind.offset])
      (fun s t s' behind _ run => jsonStep_narrows narrows behind
        (fun data _ _ shorter narrows _ run => ih data.length shorter narrows run rfl) run)
      (Behind.start narrow) loop
    rw [jsonLoop, loop', ok_bind, behind.finish narrows.names]
    rfl

end Runs

/-- A message with an owner. -/
def ownedDefs (owner : List ProtoFieldDef) : List ProtoFieldDef :=
  [{ entryField "owner".toList (.other "Owner".toList) 1 with nestedFields := some owner }]

def nameDef : ProtoFieldDef := entryField "name".toList (.scalar .string) 2

def countDef : ProtoFieldDef := entryField "count".toList (.scalar .uint32) 2

/-- One field more, with a name of its own. -/
theorem Narrows.more {f g : ProtoFieldDef} {nested : Option (List ProtoFieldDef)}
    (related : NarrowsNested f.nestedFields nested)
    (apart : f.name ≠ g.name) : Narrows [f] [{ f with nestedFields := nested }, g] := by
  refine .intro (List.nodup_singleton _) (fun _ => nested) ?_ ?_ ?_
  · refine List.forall_mem_singleton.2 ?_
    exact List.find?_cons_of_pos (by dsimp only; exact beq_self_eq_true f.tag)
  · exact List.forall_mem_singleton.2 related
  · intro h mem fresh
    refine List.forall_mem_singleton.2 ?_
    rcases List.mem_cons.1 mem with rfl | mem
    · exact absurd rfl (fresh f (List.mem_singleton_self f))
    · rw [List.mem_singleton.1 mem]
      exact apart

/-- The owner's name and the count are not known. -/
theorem narrows_ownedDefs :
    Narrows (ownedDefs idDefs) (ownedDefs (idDefs ++ [nameDef]) ++ [countDef]) :=
  .more (.message (.more .scalar (by decide))) (by decide)

/-- The same with a reader that knows them. -/
theorem protoBinaryToJson_owned :
    protoBinaryToJson readsNothing [0x0A, 0x05, 0x08, 0x05, 0x12, 0x01, 0x61, 0x10, 0x07]
      (ownedDefs (idDefs ++ [nameDef]) ++ [countDef]) =
      .ok (.obj [("count".toList, .ofU64 7),
        ("owner".toList, .obj [("id".toList, .ofU64 5), ("name".toList, .str "a".toList)])]) := by
  rw [protoBinaryToJson, withDecoders_eq]
  simp only [ownedDefs, idDefs, nameDef, countDef, entryField, List.map, List.cons_append,
    List.nil_append, nestedDecoder_some, protoBinaryToJson, withDecoders_eq, nestedDecoder_none]
  rfl

theorem protoBinaryToJson_narrows_owned :
    protoBinaryToJson readsNothing [0x0A, 0x05, 0x08, 0x05, 0x12, 0x01, 0x61, 0x10, 0x07]
      (ownedDefs idDefs) =
      .ok (.obj [("owner".toList, .obj [("id".toList, .ofU64 5)])]) := by
  refine (protoBinaryToJson_narrows readsNothing narrows_ownedDefs protoBinaryToJson_owned).trans ?_
  simp [prune_obj, SortedMap.mapMaybe, knownMember_eq, ownedDefs, ProtoFieldDef.pruned, idDefs,
    entryField, prune_none]

end Typeway.Grpc
