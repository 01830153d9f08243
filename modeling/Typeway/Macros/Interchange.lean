import Typeway.Macros.RoundTrip
import Typeway.Macros.WireFields

/-!
# Packed and single elements

A list of scalars may stand on the wire as packed chunks, as single elements under the wire type
of an element, or as both in turn, with records of other fields in between. `Serialises` is that
relation, and `Neighbour` says what a record of another field is: a field the struct does not
have, or one of its own in a spelling the wire format allows. The arm of a packed field reads a
varint wherever the wire type is not 2, so the single elements of a list of floats are misread,
and a group is refused wherever it stands.
-/

namespace Typeway.Macros

open Checked Protobuf

variable {ι : Type} {Γ : ι → List (CodecField ι)}

def CodecKind.isFixed : CodecKind ι → Bool
  | .fixed32 | .fixed64 => true
  | _ => false

/-- A `Vec` of floats. -/
def CodecKind.isFixedVec : CodecKind ι → Bool
  | .repeated k => k.isFixed
  | _ => false

/-- A `Vec` of booleans, integers or floats. -/
def CodecKind.isScalarVec : CodecKind ι → Bool
  | .repeated k => isPackable k
  | _ => false

/-- A field that holds messages of the struct `m`. -/
def CodecKind.Holds (m : ι) (k : CodecKind ι) : Prop :=
  k = .message m ∨ k = .optionalMessage m ∨ k = .repeatedMessage m

/-- A record of a list of scalars: `new` is `cur` with the elements of the record pushed. Single
floats occur where `floats` allows them. -/
inductive Piece (floats : Bool) (tag : UInt32) :
    {k : CodecKind ι} → List UInt8 → FieldValue Γ k → FieldValue Γ k → Prop where
  | packed {k : CodecKind ι} (packable : isPackable k = true) {t frame : List UInt8}
      {l : List (FieldValue Γ k × List UInt8)} (spells : Spells t (tagWord tag 2))
      (each : ∀ e ∈ l, Spelled e.1 e.2) (framed : Framed (l.flatMap Prod.snd) frame)
      (cur : FieldValue Γ (.repeated k)) :
      Piece floats tag (t ++ frame) cur (pushAll cur (l.map Prod.fst))
  | single {k : CodecKind ι} (packable : isPackable k = true) {item : FieldValue Γ k}
      {t l : List UInt8} (spells : Spells t (tagWord tag (wireTypeForKind k)))
      (spelled : Spelled item l) (allowed : k.isFixed = true → floats = true)
      (cur : FieldValue Γ (.repeated k)) : Piece floats tag (t ++ l) cur (cur.push item)

section

variable (S : Schema ι)

/-- A record of a struct, of its field `place` if it is one of the struct's: a list of scalars, a
scalar, an element of a list of texts, or a message of records. The flag says whether it is a
group or a decoder meets one in it. -/
inductive Neighbour (floats : Bool) :
    (n : ι) → Option (S.Pos n) → List UInt8 → Bool → Prop where
  | unknown {n : ι} {l : List UInt8} {grouped : Bool} (field : UnknownField S n grouped l) :
      Neighbour floats n none l grouped
  | piece {n : ι} (j : S.Pos n) {l : List UInt8} {cur new : S.Value (S.field j).kind}
      (here : Piece floats (S.field j).tag l cur new) : Neighbour floats n (some j) l false
  | scalar {n : ι} (j : S.Pos n) {k : CodecKind ι}
      (kind : (S.field j).kind = k ∨ (S.field j).kind = .optional k) {v : S.Value k}
      {t l : List UInt8} (spells : Spells t (tagWord (S.field j).tag (wireTypeForKind k)))
      (spelled : Spelled v l) : Neighbour floats n (some j) (t ++ l) false
  | item {n : ι} (j : S.Pos n) {k : CodecKind ι} (kind : (S.field j).kind = .repeated k)
      (single : isPackable k = false) {v : S.Value k} {t l : List UInt8}
      (spells : Spells t (tagWord (S.field j).tag 2)) (spelled : Spelled v l) :
      Neighbour floats n (some j) (t ++ l) false
  | message {n m : ι} (j : S.Pos n) (kind : (S.field j).kind.Holds m) {t l : List UInt8}
      {records : List (Option (S.Pos m) × List UInt8 × Bool)}
      (spells : Spells t (tagWord (S.field j).tag 2))
      (framed : Framed (records.flatMap (·.2.1)) l)
      (nested : ∀ r ∈ records, Neighbour floats m r.1 r.2.1 r.2.2) :
      Neighbour floats n (some j) (t ++ l) (!S.shadowed m && records.any (·.2.2))

variable {n : ι}

/-- The records of the field `i` in the bytes, between those of other fields, push the elements
by which `new` is longer than `cur`. The flag says whether a group stands between them. -/
inductive Serialises (floats : Bool) (i : S.Pos n) :
    List UInt8 → Bool → S.Value (S.field i).kind → S.Value (S.field i).kind → Prop where
  | done (cur : S.Value (S.field i).kind) : Serialises floats i [] false cur cur
  | piece {l bytes : List UInt8} {grouped : Bool} {cur mid new : S.Value (S.field i).kind}
      (here : Piece floats (S.field i).tag l cur mid)
      (rest : Serialises floats i bytes grouped mid new) :
      Serialises floats i (l ++ bytes) grouped cur new
  | other {l bytes : List UInt8} {place : Option (S.Pos n)} {group grouped : Bool}
      {cur new : S.Value (S.field i).kind} (beside : place ≠ some i)
      (record : Neighbour S floats n place l group)
      (rest : Serialises floats i bytes grouped cur new) :
      Serialises floats i (l ++ bytes) (group || grouped) cur new

/-- Decoding the bytes gives a struct with this list. -/
def DecodesToList (i : S.Pos n) (bytes : List UInt8) (v : S.Value (S.field i).kind) : Prop :=
  ∃ F : S.Fields n, typewayDecode S n bytes = .ok (.mk F) ∧ F i = v

/-! ## Reading a record -/

variable {S}

/-- A single element that is no float is the varint the arm reads. -/
theorem armReads_single {k : CodecKind ι} (packable : isPackable k = true) {item : S.Value k}
    {l : List UInt8} (spelled : Spelled item l) (varint : k.isFixed = false)
    (cur : S.Value (.repeated k)) :
    ArmReads S (.repeated k) (wireTypeForKind k) l cur (cur.push item) := by
  intro ident bytes offset small h
  rw [genDecodeArm]
  cases spelled with
  | varint spells =>
    rw [genDecodeRepeated, decodePacked, if_neg (by simp [wireTypeForKind]),
      readVarint_spelled small spells h, store, ok_bind]
    simp only [IntTy.ofU64_asU64]
    rfl
  | bool spells =>
    rw [genDecodeRepeated, decodePacked, if_neg (by simp [wireTypeForKind]),
      readVarint_spelled small spells h, store, ok_bind]
    simp only [bit_ne_zero]
    rfl
  | fixed32 => cases varint
  | fixed64 => cases varint
  | _ => cases packable

theorem Piece.armReads {tag : UInt32} {k : CodecKind ι} {bytes : List UInt8}
    {cur new : S.Value k} (piece : Piece false tag bytes cur new) :
    ∃ wireType t l, bytes = t ++ l ∧ wireType.toNat < 8 ∧ Spells t (tagWord tag wireType) ∧
      ArmReads S k wireType l cur new := by
  cases piece with
  | packed packable spells each framed cur =>
    exact ⟨2, _, _, rfl, len_lt, spells, armReads_elements S packable each framed cur⟩
  | @single k packable item t l spells spelled allowed cur =>
    have varint : k.isFixed = false := Bool.eq_false_iff.2 fun fixed => nomatch allowed fixed
    exact ⟨_, t, l, rfl, wireTypeForKind_lt k, spells, armReads_single packable spelled varint cur⟩

/-- A record of the same pieces for another list. -/
theorem Piece.restart {floats : Bool} {tag : UInt32} {k : CodecKind ι} {l : List UInt8}
    {cur new : S.Value k} (piece : Piece floats tag l cur new) (cur' : S.Value k) :
    ∃ new', Piece floats tag l cur' new' := by
  cases piece with
  | packed packable spells each framed => exact ⟨_, .packed packable spells each framed cur'⟩
  | single packable spells spelled allowed =>
    exact ⟨_, .single packable spells spelled allowed cur'⟩

theorem armReads_either {k k' : CodecKind ι} (kind : k' = k ∨ k' = .optional k) {v : S.Value k}
    {l : List UInt8} (spelled : Spelled v l) (cur : S.Value k') :
    ∃ new, ArmReads S k' (wireTypeForKind k) l cur new := by
  rcases kind with rfl | rfl
  · exact ⟨_, armReads_scalar S _ spelled cur⟩
  · exact ⟨_, armReads_optional S spelled cur⟩

theorem armReads_text {k k' : CodecKind ι} (kind : k' = .repeated k) (single : isPackable k = false)
    {v : S.Value k} {l : List UInt8} (spelled : Spelled v l) (cur : S.Value k') :
    ∃ new, ArmReads S k' 2 l cur new := by
  subst kind
  cases writes : k.writesItem with
  | true => exact ⟨_, armReads_item S single writes 2 spelled cur⟩
  | false =>
    -- the elements of a `Vec<Vec<u8>>` are passed over
    cases spelled with
    | lenBytes framed =>
      refine ⟨cur, fun ident bytes offset small h => ?_⟩
      rw [genDecodeArm]
      simp only [genDecodeRepeated, genDecodeRepeatedItem, skipValue_framed small framed h]
      rfl
    | bool spells => cases single
    | _ => cases writes

theorem armReads_holds {m : ι} {k : CodecKind ι} (kind : k.Holds m) {payload l : List UInt8}
    (framed : Framed payload l) {w : S.Msg m}
    (nested : payload.length ≤ isizeMax → typewayDecode S m payload = .ok w) (cur : S.Value k) :
    ∃ new, ArmReads S k 2 l cur new := by
  obtain ⟨plain, optional, repeated⟩ := armReads_message S framed nested 2
  rcases kind with rfl | rfl | rfl
  · exact ⟨_, plain cur⟩
  · exact ⟨_, optional cur⟩
  · exact ⟨_, repeated cur⟩

theorem armRefuses_holds {m : ι} {k : CodecKind ι} (kind : k.Holds m) {payload l : List UInt8}
    (framed : Framed payload l)
    (nested : payload.length ≤ isizeMax →
      typewayDecode S m payload = .error (.err (.unknownWireType 3))) (cur : S.Value k) :
    ArmRefuses S k 2 l cur := by
  obtain ⟨plain, optional, repeated⟩ := armRefuses_message framed nested 2
  rcases kind with rfl | rfl | rfl
  · exact plain cur
  · exact optional cur
  · exact repeated cur

variable (S) in
/-- The loop of the struct `n` fails on a group in the bytes if the flag is set. Otherwise it gets
over them and changes the field `place` alone. -/
def Passable (n : ι) (place : Option (S.Pos n)) (l : List UInt8) (grouped : Bool) : Prop :=
  ∀ F : S.Fields n, (grouped = true → Breaks S n l F) ∧
    (grouped = false → ∃ F', Reads S n l F F' ∧ ∀ i, place ≠ some i → F' i = F i)

theorem passable_arm {j : S.Pos n} {wireType : UInt8} (hwt : wireType.toNat < 8) {t l : List UInt8}
    (spells : Spells t (tagWord (S.field j).tag wireType))
    (arm : ∀ cur, ∃ new, ArmReads S (S.field j).kind wireType l cur new) :
    Passable S n (some j) (t ++ l) false := by
  intro F
  refine ⟨nofun, fun _ => ?_⟩
  obtain ⟨new, arm⟩ := arm (F j)
  refine ⟨_, .tagged j hwt spells arm, fun i other => ?_⟩
  exact Function.update_of_ne (fun same => other (congrArg some same.symm)) _ _

/-- Records one behind the other. -/
theorem passable_records {records : List (Option (S.Pos n) × List UInt8 × Bool)}
    (each : ∀ r ∈ records, Passable S n r.1 r.2.1 r.2.2) (F : S.Fields n) :
    (records.any (·.2.2) = true → Breaks S n (records.flatMap (·.2.1)) F) ∧
      (records.any (·.2.2) = false → ∃ F', Reads S n (records.flatMap (·.2.1)) F F') := by
  induction records generalizing F with
  | nil => exact ⟨nofun, fun _ => ⟨F, .nil S F⟩⟩
  | cons r records ih =>
    have rest := ih fun r mem => each r (List.mem_cons_of_mem _ mem)
    rw [List.any_cons, List.flatMap_cons]
    cases group : r.2.2 with
    | true => exact ⟨fun _ => ((each r List.mem_cons_self F).1 group).left, nofun⟩
    | false =>
      obtain ⟨mid, first, -⟩ := (each r List.mem_cons_self F).2 group
      rw [Bool.false_or]
      refine ⟨fun broken => first.breaks ((rest mid).1 broken), fun whole => ?_⟩
      obtain ⟨F', later⟩ := (rest mid).2 whole
      exact ⟨F', first.append later⟩

/-- A message of such records is decoded, or refused for the group in it. -/
theorem typewayDecode_records {m : ι} {records : List (Option (S.Pos m) × List UInt8 × Bool)}
    (each : ∀ r ∈ records, Passable S m r.1 r.2.1 r.2.2) :
    ∃ w, (records.flatMap (·.2.1)).length ≤ isizeMax →
      typewayDecode S m (records.flatMap (·.2.1)) =
        outcome (!S.shadowed m && records.any (·.2.2)) w := by
  cases hidden : S.shadowed m with
  | true => exact ⟨_, fun _ => typewayDecode_shadowed S hidden _⟩
  | false =>
    obtain ⟨breaks, reads⟩ := passable_records each (S.fieldDefaults m)
    cases grouped : records.any (·.2.2) with
    | true =>
      refine ⟨S.default m, fun small => ?_⟩
      rw [typewayDecode_eq, S.visible_of_not hidden, DecodeState.start,
        breaks grouped _ 0 small (.whole _), error_bind]
      rfl
    | false =>
      obtain ⟨F, run⟩ := reads grouped
      exact ⟨.mk F, fun small => typewayDecode_of_reads S hidden small run⟩

/-- Without single floats every record is passed or refused. -/
theorem Neighbour.passable {place : Option (S.Pos n)} {l : List UInt8} {grouped : Bool}
    (record : Neighbour S false n place l grouped) : Passable S n place l grouped := by
  induction record with
  | @unknown n l grouped field =>
    intro F
    cases grouped with
    | true => exact ⟨fun _ => .unknown field F, nofun⟩
    | false => exact ⟨nofun, fun _ => ⟨F, .unknown field F, fun _ _ => rfl⟩⟩
  | piece j here =>
    intro F
    obtain ⟨new, here⟩ := here.restart (F j)
    obtain ⟨wireType, t, l, rfl, hwt, spells, arm⟩ := here.armReads
    refine ⟨nofun, fun _ => ⟨_, .tagged j hwt spells arm, fun i other => ?_⟩⟩
    exact Function.update_of_ne (fun same => other (congrArg some same.symm)) _ _
  | scalar j kind spells spelled =>
    exact passable_arm (wireTypeForKind_lt _) spells (armReads_either kind spelled)
  | item j kind single spells spelled =>
    exact passable_arm len_lt spells (armReads_text kind single spelled)
  | @message n m j kind t l records spells framed _ ih =>
    obtain ⟨w, nested⟩ := typewayDecode_records ih
    cases grouped : (!S.shadowed m && records.any (·.2.2)) with
    | true =>
      rw [grouped] at nested
      intro F
      exact ⟨fun _ => .tagged j len_lt spells (armRefuses_holds kind framed nested _), nofun⟩
    | false =>
      rw [grouped] at nested
      exact passable_arm len_lt spells (armReads_holds kind framed nested)

/-! ## Reading a serialisation -/

theorem Serialises.reads {i : S.Pos n} {bytes : List UInt8} {grouped : Bool}
    {cur new : S.Value (S.field i).kind} (h : Serialises S false i bytes grouped cur new) :
    ∀ {F : S.Fields n}, F i = cur → (grouped = true → Breaks S n bytes F) ∧
      (grouped = false → ∃ F', Reads S n bytes F F' ∧ F' i = new) := by
  induction h with
  | done cur =>
    intro F here
    exact ⟨nofun, fun _ => ⟨F, .nil S F, here⟩⟩
  | piece here _ ih =>
    intro F start
    obtain ⟨wireType, t, l, rfl, hwt, spells, arm⟩ := here.armReads
    subst start
    have first := Reads.tagged i hwt spells arm
    obtain ⟨breaks, reads⟩ := ih (Function.update_self i _ F)
    refine ⟨fun broken => first.breaks (breaks broken), fun whole => ?_⟩
    obtain ⟨F', later, last⟩ := reads whole
    exact ⟨F', first.append later, last⟩
  | @other l bytes place group grouped cur new beside record _ ih =>
    intro F start
    cases group with
    | true => exact ⟨fun _ => ((record.passable F).1 rfl).left, nofun⟩
    | false =>
      obtain ⟨mid, first, same⟩ := (record.passable F).2 rfl
      obtain ⟨breaks, reads⟩ := ih ((same i beside).trans start)
      rw [Bool.false_or]
      refine ⟨fun broken => first.breaks (breaks broken), fun whole => ?_⟩
      obtain ⟨F', later, last⟩ := reads whole
      exact ⟨F', first.append later, last⟩

/-- Without single floats, a serialisation decodes to its list if no group stands in it and the
input is not hidden. -/
theorem decodesToList_iff {i : S.Pos n} {bytes : List UInt8} {grouped : Bool}
    {v : S.Value (S.field i).kind} (small : bytes.length ≤ isizeMax)
    (serialises : Serialises S false i bytes grouped (S.fieldDefault _) v) :
    DecodesToList S i bytes v ↔
      S.shadowed n = false ∧ grouped = false ∨ S.shadowed n = true ∧ v = S.fieldDefault _ := by
  cases hidden : S.shadowed n with
  | true =>
    rw [DecodesToList, typewayDecode_shadowed S hidden]
    constructor
    · rintro ⟨F, run, last⟩
      cases run
      exact .inr ⟨rfl, last.symm⟩
    · rintro (⟨clear, -⟩ | ⟨-, unset⟩)
      · cases clear
      · exact ⟨_, rfl, unset.symm⟩
  | false =>
    obtain ⟨breaks, reads⟩ := serialises.reads (F := S.fieldDefaults n) rfl
    cases grouped with
    | true =>
      have refused : typewayDecode S n bytes = .error (.err (.unknownWireType 3)) := by
        rw [typewayDecode_eq, S.visible_of_not hidden, DecodeState.start,
          breaks rfl _ 0 small (.whole _), error_bind]
      simp [DecodesToList, refused]
    | false =>
      obtain ⟨F, run, last⟩ := reads rfl
      exact iff_of_true ⟨F, typewayDecode_of_reads S hidden small run, last⟩ (.inl ⟨rfl, rfl⟩)

/-! ## Without lists of floats -/

theorem Piece.strict {floats : Bool} {tag : UInt32} {k : CodecKind ι} {l : List UInt8}
    {cur new : S.Value k} (piece : Piece floats tag l cur new) (varint : k.isFixedVec = false) :
    Piece false tag l cur new := by
  cases piece with
  | packed packable spells each framed cur => exact .packed packable spells each framed cur
  | single packable spells spelled _ cur =>
    exact .single packable spells spelled (fun fixed => nomatch varint.symm.trans fixed) cur

theorem Neighbour.strict {floats : Bool}
    (varint : ∀ n (i : S.Pos n), (S.field i).kind.isFixedVec = false)
    {place : Option (S.Pos n)} {l : List UInt8} {grouped : Bool}
    (record : Neighbour S floats n place l grouped) : Neighbour S false n place l grouped := by
  induction record with
  | unknown field => exact .unknown field
  | piece j here => exact .piece j (here.strict (varint _ j))
  | scalar j kind spells spelled => exact .scalar j kind spells spelled
  | item j kind single spells spelled => exact .item j kind single spells spelled
  | message j kind spells framed _ ih => exact .message j kind spells framed ih

theorem Serialises.strict {floats : Bool}
    (varint : ∀ n (i : S.Pos n), (S.field i).kind.isFixedVec = false)
    {i : S.Pos n} {bytes : List UInt8} {grouped : Bool} {cur new : S.Value (S.field i).kind}
    (h : Serialises S floats i bytes grouped cur new) :
    Serialises S false i bytes grouped cur new := by
  induction h with
  | done cur => exact .done cur
  | piece here _ ih => exact .piece (here.strict (varint n i)) ih
  | other beside record _ ih => exact .other beside (record.strict varint) ih

theorem content_length_le {k : CodecKind ι} (packable : isPackable k = true) (v : S.Value k) :
    (content v).length ≤ 10 := by
  cases v with
  | varint x => exact (spells_encode _).short
  | bool b => exact (by decide : 1 ≤ 10)
  | fixed32 x => exact (Ieee.toLeBytes_length x).trans_le (by decide)
  | fixed64 x => exact (Ieee.toLeBytes_length x).trans_le (by decide)
  | _ => cases packable

/-- A list with one element, packed. -/
theorem exists_packed {k : CodecKind ι} (list : k.isScalarVec = true) (tag : UInt32) :
    ∃ (l : List UInt8) (v : S.Value k), l.length ≤ isizeMax ∧ v ≠ S.fieldDefault k ∧
      Piece true tag l (S.fieldDefault k) v := by
  cases k with
  | repeated k =>
    have packable : isPackable k = true := list
    have spelled := spelled_content (writesOptional_of_packable packable)
      (textless_of_packable S packable (S.fieldDefault k))
    have piece : Piece true tag _ _ _ := .packed packable (spells_tagBytes len_lt tag)
      (l := [(S.fieldDefault k, content (S.fieldDefault k))]) (by simpa using spelled)
      (framed_delimited _) (S.fieldDefault (.repeated k))
    have short := tagBytes_length_le tag len_lt
    have small := content_length_le packable (S.fieldDefault k)
    obtain ⟨header, frame, spells⟩ := framed_delimited (content (S.fieldDefault k))
    have length := spells.short
    refine ⟨_, _, ?_, ?_, piece⟩
    · simp only [List.flatMap_cons, List.flatMap_nil, List.append_nil, List.length_append, frame]
      unfold isizeMax
      omega
    · simp [pushAll, Schema.fieldDefault, FieldValue.push]
  | _ => cases list

/-! ## Single floats -/

theorem f32OfU64_zero : f32OfU64 0 = 0 := by decide

theorem f64OfU64_zero : f64OfU64 0 = 0 := by decide

theorem isScalarVec_of_fixed {k : CodecKind ι} (fixed : k.isFixedVec = true) :
    k.isScalarVec = true := by
  cases k with
  | repeated k => cases k <;> first | rfl | cases fixed
  | _ => cases fixed

/-- Under a wire type other than 2 the first byte of 1.0 is read as the varint 0. -/
theorem armReads_zero32 (cur : S.Value (.repeated .fixed32)) :
    ArmReads S (.repeated .fixed32) 5 [0] cur (cur.push (.fixed32 0)) := by
  intro ident bytes offset small h
  rw [genDecodeArm, genDecodeRepeated, decodePacked, if_neg (by decide),
    readVarint_spelled small spells_zero h, store, ok_bind]
  dsimp only
  rw [f32OfU64_zero]
  rfl

theorem armReads_zero64 (cur : S.Value (.repeated .fixed64)) :
    ArmReads S (.repeated .fixed64) 1 [0] cur (cur.push (.fixed64 0)) := by
  intro ident bytes offset small h
  rw [genDecodeArm, genDecodeRepeated, decodePacked, if_neg (by decide),
    readVarint_spelled small spells_zero h, store, ok_bind]
  dsimp only
  rw [f64OfU64_zero]
  rfl

/-- The other bytes are read as fields with the number 0. -/
theorem reads_rest32 (n : ι) (F : S.Fields n) : Reads S n [0, 0x80, 0x3F] F F :=
  .unknown (unknownField_zero (v := 0x1F80)
    ⟨.more (by decide) (.last (by decide)), by decide, by decide⟩) F

theorem reads_rest64 (n : ι) (F : S.Fields n) : Reads S n [0, 0, 0, 0, 0, 0xF0, 0x3F] F F := by
  have pair : Reads S n [0, 0] F F := .unknown (unknownField_zero spells_zero) F
  have last : Reads S n [0, 0xF0, 0x3F] F F := .unknown (unknownField_zero (v := 0x1FF0)
    ⟨.more (by decide) (.last (by decide)), by decide, by decide⟩) F
  exact pair.append (pair.append last)

theorem word_one32 : Ieee.toLeBytes (0x3F800000 : BitVec (8 * 4)) = [0] ++ [0, 0x80, 0x3F] := by
  decide

theorem word_one64 : Ieee.toLeBytes (0x3FF0000000000000 : BitVec (8 * 8)) =
    [0] ++ [0, 0, 0, 0, 0, 0xF0, 0x3F] := by
  decide

theorem piece_one32 (tag : UInt32) :
    Piece true tag (tagBytes tag 5 ++ ([0] ++ [0, 0x80, 0x3F]))
      (.nil : FieldValue Γ (.repeated .fixed32)) (FieldValue.nil.push (.fixed32 0x3F800000)) := by
  rw [← word_one32]
  exact .single (k := .fixed32) rfl (spells_tagBytes (wireTypeForKind_lt _) tag) .fixed32
    (fun _ => rfl) .nil

theorem piece_one64 (tag : UInt32) :
    Piece true tag (tagBytes tag 1 ++ ([0] ++ [0, 0, 0, 0, 0, 0xF0, 0x3F]))
      (.nil : FieldValue Γ (.repeated .fixed64))
      (FieldValue.nil.push (.fixed64 0x3FF0000000000000)) := by
  rw [← word_one64]
  exact .single (k := .fixed64) rfl (spells_tagBytes (wireTypeForKind_lt _) tag) .fixed64
    (fun _ => rfl) .nil

/-- The single element 1.0 is misread. -/
theorem single_misread {k : CodecKind ι} (fixed : k.isFixedVec = true) :
    ∃ wireType rest, wireType.toNat < 8 ∧ rest.length ≤ 7 ∧ (∀ n F, Reads S n rest F F) ∧
      ∃ v read : S.Value k, read ≠ v ∧ ArmReads S k wireType [0] (S.fieldDefault k) read ∧
        ∀ tag, Piece true tag (tagBytes tag wireType ++ ([0] ++ rest)) (S.fieldDefault k) v := by
  cases k with
  | repeated k =>
    cases k with
    | fixed32 => exact ⟨5, _, by decide, by decide, reads_rest32, _, _,
        by simp [FieldValue.push, Schema.fieldDefault], armReads_zero32 _, piece_one32⟩
    | fixed64 => exact ⟨1, _, by decide, by decide, reads_rest64, _, _,
        by simp [FieldValue.push, Schema.fieldDefault], armReads_zero64 _, piece_one64⟩
    | _ => cases fixed
  | _ => cases fixed

theorem single_lost (clear : S.shadowed n = false) {i : S.Pos n}
    (fixed : (S.field i).kind.isFixedVec = true) :
    ∃ bytes v, bytes.length ≤ isizeMax ∧ Serialises S true i bytes false (S.fieldDefault _) v ∧
      ¬ DecodesToList S i bytes v := by
  obtain ⟨wireType, rest, hwt, short, beyond, v, read, ne, arm, piece⟩ :=
    single_misread (S := S) fixed
  have tag := tagBytes_length_le (S.field i).tag hwt
  have small : (tagBytes (S.field i).tag wireType ++ ([0] ++ rest)).length ≤ isizeMax := by
    simp only [List.length_append, List.length_singleton, isizeMax]
    omega
  have first := Reads.record i hwt (F := S.fieldDefaults n) arm
  have whole := first.append (beyond n _)
  rw [List.append_assoc] at whole
  have serialises := Serialises.piece (piece (S.field i).tag) (.done v)
  rw [List.append_nil] at serialises
  refine ⟨_, v, small, serialises, ?_⟩
  rintro ⟨F, run, last⟩
  rw [typewayDecode_of_reads S clear small whole] at run
  cases run
  rw [Function.update_self] at last
  exact ne last

end

/-! ## Repeated scalars -/

/-- Without single floats, a serialisation of a list of scalars decodes to the list if and only if
no group stands between its records and the struct has no field named `bytes` (or the list is
empty). With single elements of every kind, all serialisations without a group of all lists of a
schema decode to the list if and only if no struct has a `Vec` of floats, and none that has a list
of scalars has a field named `bytes`. -/
theorem interchangeable_iff (S : Schema ι) :
    (∀ n (i : S.Pos n) bytes grouped v, bytes.length ≤ isizeMax →
        Serialises S false i bytes grouped (S.fieldDefault _) v →
        (DecodesToList S i bytes v ↔
          S.shadowed n = false ∧ grouped = false ∨ S.shadowed n = true ∧ v = S.fieldDefault _)) ∧
      ((∀ n (i : S.Pos n) bytes v, (S.field i).kind.isScalarVec = true → bytes.length ≤ isizeMax →
          Serialises S true i bytes false (S.fieldDefault _) v → DecodesToList S i bytes v) ↔
        (∀ n, (∃ i : S.Pos n, (S.field i).kind.isScalarVec = true) → S.shadowed n = false) ∧
          ∀ n (i : S.Pos n), (S.field i).kind.isFixedVec = false) := by
  refine ⟨fun n i bytes grouped v small serialises => decodesToList_iff small serialises, ?_, ?_⟩
  · intro all
    have clear : ∀ n, (∃ i : S.Pos n, (S.field i).kind.isScalarVec = true) →
        S.shadowed n = false := by
      rintro n ⟨i, list⟩
      by_contra hidden
      have hidden : S.shadowed n = true := by simpa using hidden
      obtain ⟨l, v, small, set, piece⟩ := exists_packed (S := S) list (S.field i).tag
      have serialises := Serialises.piece piece (.done v)
      rw [List.append_nil] at serialises
      obtain ⟨F, run, last⟩ := all n i l v list small serialises
      rw [typewayDecode_shadowed S hidden] at run
      cases run
      exact set last.symm
    refine ⟨clear, fun n i => ?_⟩
    by_contra fixed
    have fixed : (S.field i).kind.isFixedVec = true := by simpa using fixed
    have list := isScalarVec_of_fixed fixed
    obtain ⟨bytes, v, small, serialises, lost⟩ := single_lost (clear n ⟨i, list⟩) fixed
    exact lost (all n i bytes v list small serialises)
  · rintro ⟨clear, varint⟩ n i bytes v list small serialises
    exact (decodesToList_iff small (serialises.strict varint)).2 (.inl ⟨clear n ⟨i, list⟩, rfl⟩)

/-- `struct Readings { samples: Vec<f32> }`. -/
def readings : Schema Unit where
  fields _ := [⟨"samples", .vec .f32, 1⟩]
  accepted _ := ⟨[⟨"samples", .vec .f32, none⟩], rfl⟩
  compiles _ := rfl
  default _ := .mk fun | ⟨0, _⟩ => .nil

theorem readings_tag : tagBytes 1 5 = [0x0D] := by
  simp [tagBytes, Base128.encode_of_lt]

/-- The list `[1.0]` packed, behind a field that the struct does not have. -/
theorem decodesToList_readings :
    DecodesToList readings (n := ()) ⟨0, by decide⟩ ([0x18, 5] ++ [0x0A, 4, 0, 0, 0x80, 0x3F])
      (FieldValue.cons (.fixed32 0x3F800000) .nil) := by
  have unknown : UnknownField readings () false [0x18, 5] :=
    @UnknownField.mk _ readings () 3 0 [0x18] [5] (by decide)
      ⟨.last (by decide), by decide, by decide⟩ (.varint ⟨.last (by decide), by decide, rfl⟩)
  have word : [0, 0, 0x80, 0x3F] = Ieee.toLeBytes (0x3F800000 : BitVec (8 * 4)) := by decide
  have packed : Piece false 1 ([0x0A] ++ ([4] ++ [0, 0, 0x80, 0x3F]))
      (.nil : readings.Value (.repeated .fixed32)) (pushAll .nil [.fixed32 0x3F800000]) :=
    .packed (k := .fixed32) (l := [(.fixed32 0x3F800000, [0, 0, 0x80, 0x3F])]) rfl
      ⟨.last (by decide), by decide, by decide⟩
      (by rw [List.forall_mem_singleton, word]; exact .fixed32)
      ⟨[4], rfl, .last (by decide), by decide, by decide⟩ .nil
  have last := Serialises.piece (S := readings) (n := ()) (i := ⟨0, by decide⟩) packed (.done _)
  have beside : (none : Option (readings.Pos ())) ≠ some ⟨0, by decide⟩ := nofun
  have serialises := Serialises.other beside (.unknown unknown) last
  have list := pushAll_items (.cons (.fixed32 0x3F800000) .nil : readings.Value (.repeated .fixed32))
  rw [FieldValue.items, FieldValue.items] at list
  rw [List.append_nil, list] at serialises
  exact ((interchangeable_iff readings).1 () _ _ false _ (by decide) serialises).2 (.inl ⟨rfl, rfl⟩)

/-- The list `[1.0]` as a single element, which decodes to `[0.0]`. -/
theorem not_interchangeable_readings :
    Serialises readings true (n := ()) ⟨0, by decide⟩ [0x0D, 0, 0, 0x80, 0x3F] false FieldValue.nil
        (FieldValue.cons (.fixed32 0x3F800000) .nil) ∧
      ¬ DecodesToList readings (n := ()) ⟨0, by decide⟩ [0x0D, 0, 0, 0x80, 0x3F]
        (FieldValue.cons (.fixed32 0x3F800000) .nil) := by
  have spelled : [0x0D, 0, 0, 0x80, 0x3F] = tagBytes 1 5 ++ ([0] ++ [0, 0x80, 0x3F]) := by
    rw [readings_tag]
    rfl
  rw [spelled]
  constructor
  · have piece := piece_one32 (Γ := readings.fields) 1
    rw [FieldValue.push] at piece
    have all := Serialises.piece (S := readings) (n := ()) (i := ⟨0, by decide⟩) piece (.done _)
    rwa [List.append_nil] at all
  · rintro ⟨F, run, value⟩
    have reads := (Reads.record (S := readings) (n := ()) ⟨0, by decide⟩
      (show (5 : UInt8).toNat < 8 by decide) (F := readings.fieldDefaults ())
      (armReads_zero32 .nil)).append (reads_rest32 () _)
    rw [List.append_assoc] at reads
    have small : (tagBytes 1 5 ++ ([0] ++ [0, 0x80, 0x3F])).length ≤ isizeMax := by
      rw [readings_tag]
      decide
    have read := typewayDecode_of_reads readings rfl small reads
    cases run.symm.trans read
    have first : (FieldValue.nil.push (.fixed32 0) : readings.Value (.repeated .fixed32)) =
        .cons (.fixed32 0x3F800000) .nil :=
      (Function.update_self (β := fun i => readings.Value (readings.field i).kind) ⟨0, by decide⟩ _
        _).symm.trans value
    rw [FieldValue.push] at first
    cases first

end Typeway.Macros
