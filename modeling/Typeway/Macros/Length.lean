import Typeway.Macros.Encode
import Mathlib.Algebra.BigOperators.Group.List.Basic

/-!
# The generated `encoded_len`

The macro writes `encoded_len` by a second family of match arms, with the width of a tag
fixed at expansion to one, two or three bytes. Sums are on `usize`; the lengths of values in
memory stay below its bound, so they are natural numbers here.
-/

namespace Typeway.Macros

open Protobuf

variable {ι : Type} {Γ : ι → List (CodecField ι)}

def tagByteCount (tag : UInt32) : Nat :=
  if tag < 16 then 1 else if tag < 2048 then 2 else 3

def genPackedItemLen : {k : CodecKind ι} → FieldValue Γ k → Nat
  | .varint ty, .varint x => twVarintLen (ty.asU64 x)
  | _, .bool _ => 1
  | _, .fixed32 _ => 4
  | _, .fixed64 _ => 8
  | _, _ => 0

/-- `BytesStr::encoded_len`, written by hand. -/
def bytesStrEncodedLen (s : String) : Nat :=
  if s.isEmpty then 0 else twVarintLen (.ofNat (Utf8.encode s).length) + (Utf8.encode s).length

def genEncodedLenOptionalInner (tag : UInt32) : {k : CodecKind ι} → FieldValue Γ k → Nat
  | .varint ty, .varint x => tagByteCount tag + twVarintLen (ty.asU64 x)
  | _, .bool _ => tagByteCount tag + 1
  | _, .fixed32 _ => tagByteCount tag + 4
  | _, .fixed64 _ => tagByteCount tag + 8
  | _, .lenString s =>
    tagByteCount tag + twVarintLen (.ofNat (Utf8.encode s).length) + (Utf8.encode s).length
  | _, .lenBytesStr s =>
    tagByteCount tag + twVarintLen (.ofNat (Utf8.encode s).length) + (Utf8.encode s).length
  | _, .messageStr s =>
    tagByteCount tag + twVarintLen (.ofNat (bytesStrEncodedLen s)) + bytesStrEncodedLen s
  | _, _ => 0

def genEncodedLenRepeatedItem (tag : UInt32) : {k : CodecKind ι} → FieldValue Γ k → Nat
  | .varint ty, .varint x => tagByteCount tag + twVarintLen (ty.asU64 x)
  | _, .fixed32 _ => tagByteCount tag + 4
  | _, .fixed64 _ => tagByteCount tag + 8
  | _, .lenString s =>
    tagByteCount tag + twVarintLen (.ofNat (Utf8.encode s).length) + (Utf8.encode s).length
  | _, .lenBytesStr s =>
    tagByteCount tag + twVarintLen (.ofNat (Utf8.encode s).length) + (Utf8.encode s).length
  | _, .messageStr s =>
    tagByteCount tag + twVarintLen (.ofNat (bytesStrEncodedLen s)) + bytesStrEncodedLen s
  | _, _ => 0

/-- A `Vec` field that is no `Vec` of messages. -/
def genEncodedLenRepeated (tag : UInt32) {inner : CodecKind ι} (items : List (FieldValue Γ inner)) :
    Nat :=
  if isPackable inner then
    if items.isEmpty then 0
    else
      let packedLen := items.foldl (fun len item => len + genPackedItemLen item) 0
      tagByteCount tag + twVarintLen (.ofNat packedLen) + packedLen
  else items.foldl (fun len item => len + genEncodedLenRepeatedItem tag item) 0

mutual

/-- What the statement of a field adds to `len`. -/
def genEncodedLenField (tag : UInt32) : {k : CodecKind ι} → FieldValue Γ k → Nat
  | .varint ty, .varint x => if x ≠ 0 then tagByteCount tag + twVarintLen (ty.asU64 x) else 0
  | _, .bool b => if b then tagByteCount tag + 1 else 0
  | _, .fixed32 x => if Ieee.isZero x then 0 else tagByteCount tag + 4
  | _, .fixed64 x => if Ieee.isZero x then 0 else tagByteCount tag + 8
  | _, .lenString s =>
    if s.isEmpty then 0
    else tagByteCount tag + twVarintLen (.ofNat (Utf8.encode s).length) + (Utf8.encode s).length
  | _, .lenBytesStr s =>
    if s.isEmpty then 0
    else tagByteCount tag + twVarintLen (.ofNat (Utf8.encode s).length) + (Utf8.encode s).length
  | _, .messageStr s =>
    let nestedLen := bytesStrEncodedLen s
    if nestedLen > 0 then tagByteCount tag + twVarintLen (.ofNat nestedLen) + nestedLen else 0
  | _, .lenBytes bytes =>
    if bytes.isEmpty then 0
    else tagByteCount tag + twVarintLen (.ofNat bytes.length) + bytes.length
  | _, .none => 0
  | _, .some val => genEncodedLenOptionalInner tag val
  | .repeated inner, .nil => genEncodedLenRepeated tag ([] : List (FieldValue Γ inner))
  | .repeated _, .cons item items => genEncodedLenRepeated tag (item :: items.items)
  | _, .message m =>
    let nestedLen := encodedLen m
    if nestedLen > 0 then tagByteCount tag + twVarintLen (.ofNat nestedLen) + nestedLen else 0
  | _, .noMessage => 0
  | _, .someMessage m =>
    tagByteCount tag + twVarintLen (.ofNat (encodedLen m)) + encodedLen m
  | _, .nilMessage => 0
  | _, .consMessage m ms =>
    tagByteCount tag + twVarintLen (.ofNat (encodedLen m)) + encodedLen m +
      genEncodedLenField tag ms

def encodedLen : {n : ι} → Message Γ n → Nat
  | n, .mk fields =>
    (List.finRange (Γ n).length).foldl
      (fun len i => len + genEncodedLenField ((Γ n).get i).tag (fields i)) 0

end

section

variable (tag : UInt32) {k : CodecKind ι} {n : ι}

theorem genEncodedLenField_bool (b : Bool) :
    genEncodedLenField tag (.bool b : FieldValue Γ .bool) =
      if b then tagByteCount tag + 1 else 0 := rfl

@[simp] theorem genEncodedLenField_none :
    genEncodedLenField tag (.none : FieldValue Γ (.optional k)) = 0 := rfl

theorem genEncodedLenField_some (val : FieldValue Γ k) :
    genEncodedLenField tag (.some val) = genEncodedLenOptionalInner tag val := rfl

@[simp] theorem genEncodedLenField_noMessage :
    genEncodedLenField tag (.noMessage : FieldValue Γ (.optionalMessage n)) = 0 := rfl

theorem genEncodedLenField_someMessage (m : Message Γ n) :
    genEncodedLenField tag (.someMessage m) =
      tagByteCount tag + twVarintLen (.ofNat (encodedLen m)) + encodedLen m := rfl

@[simp] theorem genEncodedLenField_nilMessage :
    genEncodedLenField tag (.nilMessage : FieldValue Γ (.repeatedMessage n)) = 0 := rfl

theorem genEncodedLenField_consMessage (m : Message Γ n) (ms : FieldValue Γ (.repeatedMessage n)) :
    genEncodedLenField tag (.consMessage m ms) =
      tagByteCount tag + twVarintLen (.ofNat (encodedLen m)) + encodedLen m +
        genEncodedLenField tag ms := rfl

/-- A `Vec` is counted by its items. -/
theorem genEncodedLenField_repeated (v : FieldValue Γ (.repeated k)) :
    genEncodedLenField tag v = genEncodedLenRepeated tag v.items := by
  cases v with
  | nil =>
    rw [FieldValue.items]
    rfl
  | cons item items =>
    rw [FieldValue.items]
    rfl

end

/-! ## The count of one record -/

/-- Three bytes hold a tag below `2^18`. -/
abbrev wideTag : Nat := 262144

theorem tagBytes_length_narrow {tag : UInt32} {wt : UInt8} (hwt : wt.toNat < 8)
    (narrow : tag.toNat < wideTag) : (tagBytes tag wt).length = tagByteCount tag := by
  unfold wideTag at narrow
  simp only [tagBytes, tagByteCount, UInt32.lt_iff_toNat_lt, UInt32.reduceToNat]
  by_cases one : tag.toNat < 16
  · rw [if_pos one, Base128.encode_of_lt (by omega)]
    rfl
  · rw [if_neg one, Base128.encode_of_ge (by omega), List.length_cons]
    by_cases two : tag.toNat < 2048
    · rw [if_pos two, Base128.encode_of_lt (by omega)]
      rfl
    · rw [if_neg two, Base128.encode_of_ge (by omega), List.length_cons,
        Base128.encode_of_lt (by omega)]
      rfl

theorem tagBytes_length_wide {tag : UInt32} {wt : UInt8} (hwt : wt.toNat < 8)
    (wide : wideTag ≤ tag.toNat) : tagByteCount tag < (tagBytes tag wt).length := by
  unfold wideTag at wide
  have count : tagByteCount tag = 3 := by
    simp only [tagByteCount, UInt32.lt_iff_toNat_lt, UInt32.reduceToNat]
    rw [if_neg (by omega), if_neg (by omega)]
  have := Base128.encode_length_pos ((tag.toNat * 8 + wt.toNat) / 128 / 128 / 128)
  rw [count, tagBytes, Base128.encode_of_ge (by omega), List.length_cons,
    Base128.encode_of_ge (by omega), List.length_cons, Base128.encode_of_ge (by omega),
    List.length_cons]
  omega

theorem delimited_length (payload : List UInt8) :
    (delimited payload).length = twVarintLen (.ofNat payload.length) + payload.length := by
  rw [delimited, List.length_append, twVarintLen_eq, UInt64.toNat_ofNat']

/-- The count of a `BytesStr` is exact. -/
@[simp] theorem bytesStrEncodedLen_eq (s : String) :
    bytesStrEncodedLen s = (bytesStrEncodeTo s []).length := by
  rw [bytesStrEncodedLen, bytesStrEncodeTo_nil]
  split
  · rfl
  · rw [delimited_length]

theorem record_length (tag : UInt32) {k : CodecKind ι} (v : FieldValue Γ k) :
    (record tag v).length = (tagBytes tag (wireTypeForKind k)).length + (content v).length := by
  rw [record, List.length_append]

/-- The kinds whose `Option` the macro counts. -/
def CodecKind.countsOptional : CodecKind ι → Bool
  | .varint _ | .bool | .fixed32 | .fixed64 | .lenString | .lenBytesStr | .messageStr => true
  | _ => false

theorem genPackedItemLen_eq {k : CodecKind ι} (packable : isPackable k = true)
    (v : FieldValue Γ k) : genPackedItemLen v = (content v).length := by
  cases v <;> simp [genPackedItemLen, content, twVarintLen_eq, isPackable] at packable ⊢

theorem genEncodedLenOptionalInner_eq {k : CodecKind ι} (tag : UInt32) (v : FieldValue Γ k) :
    genEncodedLenOptionalInner tag v =
      if k.countsOptional then tagByteCount tag + (content v).length else 0 := by
  cases v <;>
    simp [genEncodedLenOptionalInner, CodecKind.countsOptional, content, twVarintLen_eq,
      delimited_length, Nat.add_assoc]

theorem genEncodedLenRepeatedItem_eq {k : CodecKind ι} (tag : UInt32) (v : FieldValue Γ k) :
    genEncodedLenRepeatedItem tag v =
      if k.writesItem then tagByteCount tag + (content v).length else 0 := by
  cases v <;>
    simp [genEncodedLenRepeatedItem, CodecKind.writesItem, content, twVarintLen_eq,
      delimited_length, Nat.add_assoc]

theorem foldl_count {α : Type} (f : α → Nat) (l : List α) (len : Nat) :
    l.foldl (fun len a => len + f a) len = len + (l.map f).sum := by
  induction l generalizing len with
  | nil => simp
  | cons a l ih => rw [List.foldl_cons, ih, List.map_cons, List.sum_cons, Nat.add_assoc]

/-- A `Vec` field is counted as its records, each with a tag of `tagByteCount`. -/
theorem genEncodedLenRepeated_eq (tag : UInt32) {k : CodecKind ι}
    (items : List (FieldValue Γ k)) :
    genEncodedLenRepeated tag items =
      if isPackable k then
        if items.isEmpty then 0 else tagByteCount tag + (delimited (packedPayload items)).length
      else if k.writesItem then
        (items.map fun item => tagByteCount tag + (content item).length).sum
      else 0 := by
  rw [genEncodedLenRepeated]
  cases packable : isPackable k with
  | true =>
    have payload : (items.map genPackedItemLen).sum = (packedPayload items).length := by
      rw [packedPayload, List.length_flatMap]
      congr 1
      exact List.map_congr_left fun item _ => genPackedItemLen_eq packable item
    simp only [foldl_count, Nat.zero_add, payload, delimited_length, Nat.add_assoc, if_true]
  | false =>
    simp only [foldl_count, Nat.zero_add, genEncodedLenRepeatedItem_eq, Bool.false_eq_true,
      if_false]
    cases k.writesItem <;> simp

theorem encodedLen_mk {n : ι} (fields : (i : Fin (Γ n).length) → FieldValue Γ ((Γ n).get i).kind) :
    encodedLen (.mk fields) =
      ((List.finRange (Γ n).length).map fun i =>
        genEncodedLenField ((Γ n).get i).tag (fields i)).sum := by
  rw [encodedLen, foldl_count, Nat.zero_add]

theorem count_eq_iff {wt : UInt8} (hwt : wt.toNat < 8) (tag : UInt32) :
    tagByteCount tag = (tagBytes tag wt).length ↔ tag.toNat < wideTag := by
  constructor
  · intro h
    by_contra wide
    have := tagBytes_length_wide hwt (Nat.le_of_not_lt wide)
    omega
  · exact fun narrow => (tagBytes_length_narrow hwt narrow).symm

/-- Records with the same tag are counted right if there are none or the tag is narrow. -/
theorem counts_eq_iff {wt : UInt8} (hwt : wt.toNat < 8) (tag : UInt32) {α : Type} (f : α → Nat)
    (l : List α) :
    (l.map fun a => tagByteCount tag + f a).sum =
        (l.map fun a => (tagBytes tag wt).length + f a).sum ↔
      l = [] ∨ tag.toNat < wideTag := by
  have total : ∀ c, (l.map fun a => c + f a).sum = l.length * c + (l.map f).sum := by
    intro c
    rw [List.sum_map_add]
    simp
  rw [total, total, Nat.add_right_cancel_iff, ← count_eq_iff hwt]
  rcases l with _ | ⟨a, l⟩
  · simp
  · have pos : 0 < (a :: l).length := by simp
    rw [Nat.mul_right_inj (Nat.ne_of_gt pos)]
    simp

/-! ## Which values are counted right -/

/-- The struct's count is exact. -/
def Exact {n : ι} (m : Message Γ n) : Prop :=
  encodedLen m = (encodeToVec m).length

/-- The counts of the messages right inside a field are exact. -/
def NestedExact : {k : CodecKind ι} → FieldValue Γ k → Prop
  | _, .message m => Exact m
  | _, .someMessage m => Exact m
  | _, .consMessage m ms => Exact m ∧ NestedExact ms
  | _, _ => True

/-- The field's own part of the count is right: a `true` boolean has a one-byte tag, what an
`Option` writes is also counted, and a tag that is written fits in three bytes. -/
def countedHere (tag : UInt32) : {k : CodecKind ι} → FieldValue Γ k → Bool
  | _, .bool b => !b || tag.toNat < 16
  | .optional inner, .some _ =>
    !inner.writesOptional || inner.countsOptional && tag.toNat < wideTag
  | _, v => silent v || tag.toNat < wideTag

theorem genEncodedLenField_bool_iff (tag : UInt32) (b : Bool) :
    genEncodedLenField tag (.bool b : FieldValue Γ .bool) =
        (encodeField tag (.bool b : FieldValue Γ .bool)).length ↔
      b = false ∨ tag.toNat < 16 := by
  cases b with
  | false => simp [genEncodedLenField_bool, encodeField_bool]
  | true =>
    simp only [genEncodedLenField_bool, encodeField_bool, if_true, List.length_cons, List.length_nil,
      tagByteCount, UInt32.lt_iff_toNat_lt, UInt32.reduceToNat]
    split
    · simpa
    · split <;> simp <;> omega

theorem genEncodedLenField_some_iff (tag : UInt32) {k : CodecKind ι} (val : FieldValue Γ k) :
    genEncodedLenField tag (.some val) = (encodeField tag (.some val)).length ↔
      k.writesOptional = false ∨ k.countsOptional = true ∧ tag.toNat < wideTag := by
  have one := count_eq_iff (wireTypeForKind_lt k) tag
  have pos := Base128.encode_length_pos (tag.toNat * 8 + (wireTypeForKind k).toNat)
  rw [genEncodedLenField_some, genEncodedLenOptionalInner_eq, encodeField_some, ← one]
  cases writes : k.writesOptional with
  | false =>
    have : k.countsOptional = false := by cases k <;> simp_all [CodecKind.writesOptional, CodecKind.countsOptional]
    simp [this]
  | true =>
    cases k.countsOptional with
    | true => simp [record_length]
    | false =>
      simp only [if_true, record_length, Bool.false_eq_true, if_false, false_and, or_false,
        Bool.true_eq_false, iff_false]
      rw [tagBytes]
      omega

theorem genEncodedLenField_repeated_iff (tag : UInt32) {k : CodecKind ι}
    (v : FieldValue Γ (.repeated k)) :
    genEncodedLenField tag v = (encodeField tag v).length ↔
      (v.items = [] ∨ (isPackable k || k.writesItem) = false) ∨ tag.toNat < wideTag := by
  rw [genEncodedLenField_repeated, genEncodedLenRepeated_eq, encodeField_repeated, repeatedBytes]
  cases isPackable k with
  | true =>
    cases v.items with
    | nil => simp
    | cons item items => simp [← count_eq_iff len_lt tag]
  | false =>
    cases k.writesItem with
    | false => simp
    | true =>
      have each := counts_eq_iff (wireTypeForKind_lt k) tag (fun i => (content i).length) v.items
      simpa [List.length_flatMap] using each

theorem content_message_length {n : ι} {m : Message Γ n} (exact : Exact m) :
    (content (.message m)).length = twVarintLen (.ofNat (encodedLen m)) + encodedLen m := by
  rw [content, delimited_length, ← exact]

theorem genEncodedLenField_messages (tag : UInt32) {n : ι} :
    (v : FieldValue Γ (.repeatedMessage n)) → NestedExact v →
      genEncodedLenField tag v =
          (v.messages.map fun m => tagByteCount tag + (content (.message m)).length).sum ∧
        (encodeField tag v).length =
          (v.messages.map fun m => (tagBytes tag 2).length + (content (.message m)).length).sum
  | .nilMessage, _ => by simp [encodeField, genEncodeField, FieldValue.messages]
  | .consMessage m ms, h => by
    obtain ⟨count, bytes⟩ := genEncodedLenField_messages tag ms h.2
    rw [genEncodedLenField_consMessage, encodeField_consMessage, List.length_append, count, bytes,
      FieldValue.messages, List.map_cons, List.map_cons, List.sum_cons, List.sum_cons,
      record_length, content_message_length h.1, wireTypeForKind]
    exact ⟨by omega, rfl⟩

/-- A plain field is counted as its one record, with a tag of `tagByteCount`. -/
theorem genEncodedLenField_plain (tag : UInt32) {k : CodecKind ι} (plain : k.plain = true)
    (v : FieldValue Γ k) (nested : NestedExact v) :
    genEncodedLenField tag v =
      if silent v then 0 else tagByteCount tag + (content v).length := by
  cases v with
  | message m =>
    have quiet : silentMessage m = true ↔ encodedLen m = 0 := by
      rw [← encodeToVec_eq_nil, ← List.length_eq_zero_iff, ← show Exact m from nested]
    rw [genEncodedLenField, silent, content_message_length nested]
    cases loud : silentMessage m with
    | true => simp [quiet.1 loud]
    | false =>
      have pos : encodedLen m > 0 := by
        rw [gt_iff_lt, Nat.pos_iff_ne_zero]
        exact fun h => by simp [quiet.2 h] at loud
      simp [pos, Nat.add_assoc]
  | varint x =>
    simp only [genEncodedLenField, silent, content, twVarintLen_eq, beq_iff_eq]
    split <;> simp_all
  | messageStr s =>
    rw [genEncodedLenField, bytesStrEncodedLen_eq, silent, content, delimited_length]
    by_cases quiet : s = ""
    · simp [quiet, bytesStrEncodeTo_eq_nil.2]
    · have pos : (bytesStrEncodeTo s []).length > 0 :=
        List.length_pos_iff.2 (mt bytesStrEncodeTo_eq_nil.1 quiet)
      simp [quiet, pos, Nat.add_assoc]
  | _ =>
    simp [CodecKind.plain] at plain
    try simp [genEncodedLenField, silent, content, delimited_length, Nat.add_assoc]

/-- With exact nested counts a field is counted right when its own part is. -/
theorem countedHere_iff (tag : UInt32) {k : CodecKind ι} (v : FieldValue Γ k)
    (nested : NestedExact v) :
    genEncodedLenField tag v = (encodeField tag v).length ↔ countedHere tag v = true := by
  by_cases plain : k.plain = true
  · have here : countedHere tag v = (silent v || decide (tag.toNat < wideTag)) := by
      cases v <;> simp [CodecKind.plain, countedHere] at plain ⊢
    rw [genEncodedLenField_plain tag plain v nested, encodeField_plain plain, here]
    cases silent v with
    | true => simp
    | false => simp [record_length, ← count_eq_iff (wireTypeForKind_lt k) tag]
  · cases v with
    | bool b => simp [genEncodedLenField_bool_iff, countedHere]
    | some val => simp [genEncodedLenField_some_iff, countedHere]
    | nil => simp [genEncodedLenField_repeated_iff, countedHere, silent, FieldValue.items]
    | cons item items =>
      simp [genEncodedLenField_repeated_iff, countedHere, silent, FieldValue.items]
    | someMessage m =>
      rw [encodeField_someMessage, genEncodedLenField_someMessage, record_length,
        content_message_length nested]
      simp [countedHere, silent, ← count_eq_iff len_lt tag, wireTypeForKind, Nat.add_assoc]
    | consMessage m ms =>
      obtain ⟨count, bytes⟩ := genEncodedLenField_messages tag (.consMessage m ms) nested
      rw [count, bytes, counts_eq_iff len_lt]
      simp [countedHere, silent, FieldValue.messages]
    | none => simp [encodeField, genEncodeField, countedHere, silent]
    | noMessage => simp [encodeField, genEncodeField, countedHere, silent]
    | nilMessage => simp [encodeField, genEncodeField, countedHere, silent]
    | _ => exact (plain rfl).elim

mutual

/-- Every part of the field, nested messages included, is counted right. -/
def counted (tag : UInt32) : {k : CodecKind ι} → FieldValue Γ k → Bool
  | _, .message m => countedMessage m && countedHere tag (.message m)
  | _, .someMessage m => countedMessage m && countedHere tag (.someMessage m)
  | _, .consMessage m ms => countedMessage m && counted tag ms && countedHere tag (.consMessage m ms)
  | _, v => countedHere tag v

def countedMessage : {n : ι} → Message Γ n → Bool
  | n, .mk fields =>
    (List.finRange (Γ n).length).all fun i => counted ((Γ n).get i).tag (fields i)

end

mutual

theorem counted_parts (tag : UInt32) {k : CodecKind ι} (v : FieldValue Γ k)
    (h : counted tag v = true) : NestedExact v ∧ countedHere tag v = true := by
  cases v with
  | message m =>
    rw [counted, Bool.and_eq_true] at h
    exact ⟨exact_of_counted m h.1, h.2⟩
  | someMessage m =>
    rw [counted, Bool.and_eq_true] at h
    exact ⟨exact_of_counted m h.1, h.2⟩
  | consMessage m ms =>
    rw [counted, Bool.and_eq_true, Bool.and_eq_true] at h
    exact ⟨⟨exact_of_counted m h.1.1, (counted_parts tag ms h.1.2).1⟩, h.2⟩
  | _ => exact ⟨trivial, by simpa [counted] using h⟩

theorem exact_of_counted {n : ι} :
    (m : Message Γ n) → countedMessage m = true → Exact m
  | .mk fields, h => by
    have each := fun i => counted_parts ((Γ n).get i).tag (fields i)
    rw [countedMessage, List.all_eq_true] at h
    rw [Exact, encodedLen_mk, encodeToVec_mk, List.length_flatMap]
    congr 1
    refine List.map_congr_left fun i hi => ?_
    obtain ⟨nested, here⟩ := each i (h i hi)
    exact (countedHere_iff _ _ nested).2 here

end

/-! ## Which structs are counted right on every value -/

section

variable (S : Schema ι)

/-- Some value of the kind writes something. -/
inductive Writes : CodecKind ι → Prop where
  | varint (ty : IntTy) : Writes (.varint ty)
  | bool : Writes .bool
  | fixed32 : Writes .fixed32
  | fixed64 : Writes .fixed64
  | lenString : Writes .lenString
  | lenBytesStr : Writes .lenBytesStr
  | messageStr : Writes .messageStr
  | lenBytes : Writes .lenBytes
  | optional {inner : CodecKind ι} (h : inner.writesOptional = true) : Writes (.optional inner)
  | repeated {inner : CodecKind ι} (h : (isPackable inner || inner.writesItem) = true) :
      Writes (.repeated inner)
  | message {n : ι} (i : S.Pos n) (h : Writes (S.field i).kind) : Writes (.message n)
  | optionalMessage (n : ι) : Writes (.optionalMessage n)
  | repeatedMessage (n : ι) : Writes (.repeatedMessage n)

/-- The fields `encoded_len` gets wrong on some value: a boolean whose tag needs two bytes, an
`Option<Vec<u8>>`, and a field that can write under a tag of four bytes or more. -/
def Miscounts (tag : UInt32) (k : CodecKind ι) : Prop :=
  k = .bool ∧ 16 ≤ tag.toNat ∨ k = .optional .lenBytes ∨ wideTag ≤ tag.toNat ∧ Writes S k

theorem exists_loud {k : CodecKind ι} (h : Writes S k) : ∃ v : S.Value k, silent v = false := by
  induction h with
  | varint ty => exact ⟨.varint 1, by cases ty <;> rfl⟩
  | bool => exact ⟨.bool true, rfl⟩
  | fixed32 => exact ⟨.fixed32 1, rfl⟩
  | fixed64 => exact ⟨.fixed64 1, rfl⟩
  | lenString => exact ⟨.lenString "a", by simp [silent]⟩
  | lenBytesStr => exact ⟨.lenBytesStr "a", by simp [silent]⟩
  | messageStr => exact ⟨.messageStr "a", by simp [silent]⟩
  | lenBytes => exact ⟨.lenBytes [0], rfl⟩
  | @optional inner h => exact ⟨.some (S.fieldDefault inner), by simp [silent, h]⟩
  | @repeated inner h => exact ⟨.cons (S.fieldDefault inner) .nil, by rw [silent, h, Bool.not_true]⟩
  | @message n i _ ih =>
    obtain ⟨v, loud⟩ := ih
    refine ⟨.message (S.only i v), ?_⟩
    have bytes := encodeToVec_eq_nil (S.only i v)
    rw [encodeToVec_only, encodeField_eq_nil, loud] at bytes
    simpa [silent] using bytes
  | optionalMessage n => exact ⟨.someMessage (S.default n), rfl⟩
  | repeatedMessage n => exact ⟨.consMessage (S.default n) .nilMessage, rfl⟩

mutual

theorem writes_of_loud {k : CodecKind ι} (v : S.Value k) (loud : silent v = false) :
    Writes S k := by
  cases v with
  | some val => exact .optional (by simpa [silent] using loud)
  | cons item items =>
    rw [silent, Bool.not_eq_false'] at loud
    exact .repeated loud
  | message m =>
    obtain ⟨i, h⟩ := field_writes_of_loud m (by simpa [silent] using loud)
    exact .message i h
  | none => cases loud
  | nil => cases loud
  | noMessage => cases loud
  | nilMessage => cases loud
  | _ => constructor

theorem field_writes_of_loud {n : ι} :
    (m : S.Msg n) → silentMessage m = false → ∃ i : S.Pos n, Writes S (S.field i).kind
  | .mk fields, loud => by
    have each := fun i => writes_of_loud (fields i)
    rw [silentMessage, List.all_eq_false] at loud
    obtain ⟨i, -, h⟩ := loud
    exact ⟨i, each i (by simpa using h)⟩

end

mutual

theorem counted_of_sound (sound : ∀ n (i : S.Pos n), ¬ Miscounts S (S.field i).tag (S.field i).kind)
    {tag : UInt32} {k : CodecKind ι} (here : ¬ Miscounts S tag k) (v : S.Value k) :
    counted tag v = true := by
  have narrow : silent v = false → tag.toNat < wideTag := by
    intro loud
    by_contra wide
    exact here (.inr (.inr ⟨Nat.le_of_not_lt wide, writes_of_loud S v loud⟩))
  have one : (silent v || decide (tag.toNat < wideTag)) = true := by
    cases quiet : silent v with
    | true => rfl
    | false => simpa using narrow quiet
  cases v with
  | bool b =>
    have : tag.toNat < 16 := by
      by_contra big
      exact here (.inl ⟨rfl, Nat.le_of_not_lt big⟩)
    simp [counted, countedHere, this]
  | @some inner val =>
    have counts : inner.writesOptional = true → inner.countsOptional = true := by
      intro writes
      have : inner ≠ .lenBytes := fun e => here (.inr (.inl (e ▸ rfl)))
      cases inner <;> simp [CodecKind.writesOptional, CodecKind.countsOptional] at writes this ⊢
    cases writes : inner.writesOptional with
    | true => simp_all [counted, countedHere, silent]
    | false => simp [counted, countedHere, writes]
  | message m =>
    rw [counted, countedMessage_of_sound sound m, Bool.true_and]
    simpa [countedHere] using one
  | someMessage m =>
    rw [counted, countedMessage_of_sound sound m, Bool.true_and]
    simpa [countedHere] using one
  | consMessage m ms =>
    rw [counted, countedMessage_of_sound sound m, counted_of_sound sound here ms, Bool.true_and,
      Bool.true_and]
    simpa [countedHere] using one
  | _ => simpa [counted, countedHere] using one

theorem countedMessage_of_sound
    (sound : ∀ n (i : S.Pos n), ¬ Miscounts S (S.field i).tag (S.field i).kind) {n : ι} :
    (m : S.Msg n) → countedMessage m = true
  | .mk fields => by
    have each := fun i => counted_of_sound sound (sound n i) (fields i)
    rw [countedMessage, List.all_eq_true]
    exact fun i _ => each i

end

theorem nestedExact_of_law (law : ∀ n (m : S.Msg n), Exact m) {k : CodecKind ι} (v : S.Value k) :
    NestedExact v := by
  cases v with
  | message m => exact law _ m
  | someMessage m => exact law _ m
  | consMessage m ms => exact ⟨law _ m, nestedExact_of_law law ms⟩
  | _ => trivial

theorem countedHere_of_silent {tag : UInt32} {k : CodecKind ι} {v : S.Value k}
    (quiet : silent v = true) : countedHere tag v = true := by
  cases v <;> simp_all [countedHere, silent]

theorem encodedLen_only (law : ∀ n (m : S.Msg n), Exact m) {n : ι} (i : S.Pos n)
    (v : S.Value (S.field i).kind) :
    encodedLen (S.only i v) = genEncodedLenField (S.field i).tag v := by
  rw [Schema.only, encodedLen_mk, List.sum_map_eq_nsmul_single i, List.count_eq_one_of_mem
    (List.nodup_finRange _) (List.mem_finRange i), one_nsmul, Function.update_self]
  intro j ne _
  have quiet := silent_zeroed (S.fieldDefault (S.field j).kind)
  have count := (countedHere_iff (S.field j).tag _ (nestedExact_of_law S law _)).2
    (countedHere_of_silent S quiet)
  rw [Function.update_of_ne ne, Schema.zero, count, (encodeField_eq_nil _ _).2 quiet]
  rfl

theorem miscounts_value {tag : UInt32} {k : CodecKind ι} (h : Miscounts S tag k) :
    ∃ v : S.Value k, countedHere tag v = false := by
  rcases h with ⟨rfl, big⟩ | rfl | ⟨wide, writes⟩
  · exact ⟨.bool true, by simpa [countedHere] using big⟩
  · exact ⟨.some (.lenBytes []), by
      simp [countedHere, CodecKind.writesOptional, CodecKind.countsOptional]⟩
  · obtain ⟨v, loud⟩ := exists_loud S writes
    refine ⟨v, ?_⟩
    have wide : ¬ tag.toNat < wideTag := Nat.not_lt.2 wide
    cases v <;> simp_all [countedHere, silent]
    simp only [wideTag] at wide
    omega

/-- A struct is counted right on every value if and only if none of its fields, and none of
the fields of the structs it names, is miscounted. -/
theorem exact_iff_sound :
    (∀ n (m : S.Msg n), Exact m) ↔
      ∀ n (i : S.Pos n), ¬ Miscounts S (S.field i).tag (S.field i).kind := by
  constructor
  · intro law n i mis
    obtain ⟨v, wrong⟩ := miscounts_value S mis
    have whole : Exact (S.only i v) := law n _
    rw [Exact, encodedLen_only S law, encodeToVec_only,
      countedHere_iff _ v (nestedExact_of_law S law v), wrong] at whole
    cases whole
  · exact fun sound n m => exact_of_counted m (countedMessage_of_sound S sound m)

end

/-! ## The length of what `encode_to` writes -/

/-- **`encoded_len` and `encode_to`.** A value none of whose parts is miscounted appends as
many bytes as `encoded_len` says. All values of all structs do so exactly when no field is a
boolean with a tag from 16 on, an `Option<Vec<u8>>`, or a field that can write under a tag
from `2^18` on. -/
theorem encodeTo_length_iff (S : Schema ι) :
    (∀ n (m : S.Msg n) (buf : List UInt8), countedMessage m = true →
        (encodeTo m buf).length = buf.length + encodedLen m) ∧
      ((∀ n (m : S.Msg n) (buf : List UInt8),
          (encodeTo m buf).length = buf.length + encodedLen m) ↔
        ∀ n (i : S.Pos n), ¬ Miscounts S (S.field i).tag (S.field i).kind) := by
  have appended : ∀ {n} (m : S.Msg n) (buf : List UInt8),
      (encodeTo m buf).length = buf.length + encodedLen m ↔ Exact m := by
    intro n m buf
    rw [encodeTo_append, List.length_append, Nat.add_left_cancel_iff, Exact, eq_comm]
  simp only [appended]
  refine ⟨fun n m _ h => exact_of_counted m h, ?_⟩
  rw [← exact_iff_sound]
  exact ⟨fun h n m => h n m [], fun h n m _ => h n m⟩

theorem encodeTo_length_node :
    (encodeTo (node 300 (.consMessage (node 1 .nilMessage false) .nilMessage) false) [7]).length =
      1 + encodedLen (node 300 (.consMessage (node 1 .nilMessage false) .nilMessage) false) :=
  (encodeTo_length_iff nodeSchema).1 () _ [7] (by decide)

/-- A `true` flag under the tag 16 appends two bytes, and is counted as three. -/
theorem encodeTo_length_flag :
    ¬ ∀ buf, (encodeTo (node 0 .nilMessage true) buf).length =
      buf.length + encodedLen (node 0 .nilMessage true) := by
  intro h
  have := h []
  revert this
  decide

end Typeway.Macros
