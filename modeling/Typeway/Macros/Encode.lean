import Typeway.Base.Utf8
import Typeway.Macros.Schema
import Typeway.Protobuf.Wire

/-!
# The generated encoder

`gen_encode_field` and its helpers, as the code they generate. Each piece of generated code
appends to `buf`; `encodeField` is what a field appends to an empty one, and the equations
about it say which bytes a field puts on the wire.
-/

namespace Typeway.Macros

open Protobuf

variable {ι : Type} {Γ : ι → List (CodecField ι)}

/-- The tag and wire type in one byte, fixed at macro expansion. The `u32` is cut down to
its low byte. -/
def precomputeTagByte (fieldNumber : UInt32) (wireType : UInt8) : UInt8 :=
  ((fieldNumber <<< 3) ||| wireType.toUInt32).toUInt8

def emitTagPush (tag : UInt32) (wt : UInt8) (buf : List UInt8) : List UInt8 :=
  if tag < 16 then buf ++ [precomputeTagByte tag wt] else twEncodeTag buf tag wt

/-- The length varint of a payload, and the payload. -/
def pushLen (payload buf : List UInt8) : List UInt8 :=
  twEncodeVarint buf (.ofNat payload.length) ++ payload

/-- `BytesStr::encode_to`, written by hand: the length varint and the text. -/
def bytesStrEncodeTo (s : String) (buf : List UInt8) : List UInt8 :=
  if s.isEmpty then buf else pushLen (Utf8.encode s) buf

def genEncodeOptionalInner (tag : UInt32) (wt : UInt8) :
    {k : CodecKind ι} → FieldValue Γ k → List UInt8 → List UInt8
  | .varint ty, .varint x, buf => twEncodeVarint (emitTagPush tag wt buf) (ty.asU64 x)
  | _, .bool b, buf => emitTagPush tag wt buf ++ [if b then 1 else 0]
  | _, .fixed32 x, buf => emitTagPush tag wt buf ++ Ieee.toLeBytes x
  | _, .fixed64 x, buf => emitTagPush tag wt buf ++ Ieee.toLeBytes x
  | _, .lenString s, buf => pushLen (Utf8.encode s) (emitTagPush tag wt buf)
  | _, .lenBytesStr s, buf => pushLen (Utf8.encode s) (emitTagPush tag wt buf)
  -- the code for `OptionalMessage`
  | _, .messageStr s, buf => pushLen (bytesStrEncodeTo s []) (emitTagPush tag wt buf)
  | _, .lenBytes bytes, buf => pushLen bytes (emitTagPush tag wt buf)
  | _, _, buf => buf

def genEncodeRepeatedItem (tag : UInt32) (wt : UInt8) :
    {k : CodecKind ι} → FieldValue Γ k → List UInt8 → List UInt8
  | .varint ty, .varint x, buf => twEncodeVarint (emitTagPush tag wt buf) (ty.asU64 x)
  | _, .fixed32 x, buf => emitTagPush tag wt buf ++ Ieee.toLeBytes x
  | _, .fixed64 x, buf => emitTagPush tag wt buf ++ Ieee.toLeBytes x
  | _, .lenString s, buf => pushLen (Utf8.encode s) (emitTagPush tag wt buf)
  | _, .lenBytesStr s, buf => pushLen (Utf8.encode s) (emitTagPush tag wt buf)
  -- the code for `RepeatedMessage`
  | _, .messageStr s, buf => pushLen (bytesStrEncodeTo s []) (emitTagPush tag wt buf)
  | _, _, buf => buf

/-- One element of a packed field. For a varint this is the loop the packed encoder has
written out, whose buffer has room for ten bytes an element. -/
def genPackedItemWrite : {k : CodecKind ι} → FieldValue Γ k → List UInt8 → List UInt8
  | .varint ty, .varint x, buf => encodeVarintLoop 10 (ty.asU64 x) buf
  | _, .bool b, buf => buf ++ [if b then 1 else 0]
  | _, .fixed32 x, buf => buf ++ Ieee.toLeBytes x
  | _, .fixed64 x, buf => buf ++ Ieee.toLeBytes x
  | _, _, buf => buf

/-- `matches!(inner, CodecKind::Varint)`. -/
def isVarint : CodecKind ι → Bool
  | .varint _ => true
  | _ => false

/-- The length in bytes of `len` packed elements of a fixed-size kind. -/
def packedLenExpr (len : Nat) : CodecKind ι → Nat
  | .fixed32 => len * 4
  | .fixed64 => len * 8
  | _ => len

/-- A `Vec` field that is no `Vec` of messages. -/
def genEncodeRepeated (tag : UInt32) {inner : CodecKind ι} (items : List (FieldValue Γ inner))
    (buf : List UInt8) : List UInt8 :=
  if isPackable inner then
    if items.isEmpty then buf
    else if isVarint inner then
      -- one placeholder byte for the length; a longer length is written by rebuilding the tail
      let buf := emitTagPush tag 2 buf
      let lenPos := buf.length
      let buf := buf ++ [0]
      let dataStart := buf.length
      let buf := items.foldl (fun buf item => genPackedItemWrite item buf) buf
      let packedLen := buf.length - dataStart
      if packedLen < 0x80 then buf.set lenPos (.ofNat packedLen)
      else
        let data := buf.drop dataStart
        twEncodeVarint (buf.take lenPos) (.ofNat packedLen) ++ data
    else
      let packedLen := packedLenExpr items.length inner
      let buf := twEncodeVarint (emitTagPush tag 2 buf) (.ofNat packedLen)
      items.foldl (fun buf item => genPackedItemWrite item buf) buf
  else
    items.foldl (fun buf item => genEncodeRepeatedItem tag (wireTypeForKind inner) item buf) buf

mutual

def genEncodeField (tag : UInt32) : {k : CodecKind ι} → FieldValue Γ k → List UInt8 → List UInt8
  | .varint ty, .varint x, buf =>
    if x ≠ 0 then twEncodeVarint (emitTagPush tag 0 buf) (ty.asU64 x) else buf
  | _, .bool b, buf =>
    -- two constants in one go, whatever the tag
    if b then buf ++ [precomputeTagByte tag 0, 1] else buf
  | _, .fixed32 x, buf =>
    if Ieee.isZero x then buf else emitTagPush tag 5 buf ++ Ieee.toLeBytes x
  | _, .fixed64 x, buf =>
    if Ieee.isZero x then buf else emitTagPush tag 1 buf ++ Ieee.toLeBytes x
  | _, .lenString s, buf =>
    if s.isEmpty then buf else pushLen (Utf8.encode s) (emitTagPush tag 2 buf)
  | _, .lenBytesStr s, buf =>
    if s.isEmpty then buf else pushLen (Utf8.encode s) (emitTagPush tag 2 buf)
  | _, .messageStr s, buf =>
    let nested := bytesStrEncodeTo s []
    if nested.isEmpty then buf else pushLen nested (emitTagPush tag 2 buf)
  | _, .lenBytes bytes, buf =>
    if bytes.isEmpty then buf else pushLen bytes (emitTagPush tag 2 buf)
  | _, .none, buf => buf
  | .optional inner, .some val, buf => genEncodeOptionalInner tag (wireTypeForKind inner) val buf
  | .repeated inner, .nil, buf => genEncodeRepeated tag ([] : List (FieldValue Γ inner)) buf
  | .repeated _, .cons item items, buf => genEncodeRepeated tag (item :: items.items) buf
  | _, .message m, buf =>
    let nested := encodeTo m []
    if nested.isEmpty then buf else pushLen nested (emitTagPush tag 2 buf)
  | _, .noMessage, buf => buf
  | _, .someMessage m, buf => pushLen (encodeTo m []) (emitTagPush tag 2 buf)
  | _, .nilMessage, buf => buf
  | _, .consMessage m ms, buf =>
    genEncodeField tag ms (pushLen (encodeTo m []) (emitTagPush tag 2 buf))

/-- The generated `encode_to`: one statement a field, in declaration order. -/
def encodeTo : {n : ι} → Message Γ n → List UInt8 → List UInt8
  | n, .mk fields, buf =>
    (List.finRange (Γ n).length).foldl
      (fun buf i => genEncodeField ((Γ n).get i).tag (fields i) buf) buf

end

def encodeToVec {n : ι} (m : Message Γ n) : List UInt8 :=
  encodeTo m []

/-! ## The bytes of a field -/

/-- What follows the tag of a single value. -/
def content : {k : CodecKind ι} → FieldValue Γ k → List UInt8
  | .varint ty, .varint x => Base128.encode (ty.asU64 x).toNat
  | _, .bool b => [if b then 1 else 0]
  | _, .fixed32 x => Ieee.toLeBytes x
  | _, .fixed64 x => Ieee.toLeBytes x
  | _, .lenString s => delimited (Utf8.encode s)
  | _, .lenBytesStr s => delimited (Utf8.encode s)
  | _, .messageStr s => delimited (bytesStrEncodeTo s [])
  | _, .lenBytes bytes => delimited bytes
  | _, .message m => delimited (encodeToVec m)
  | _, _ => []

/-- The kinds an `Option` field writes. -/
def CodecKind.writesOptional : CodecKind ι → Bool
  | .varint _ | .bool | .fixed32 | .fixed64 | .lenString | .lenBytesStr | .messageStr | .lenBytes =>
    true
  | _ => false

/-- The kinds a `Vec` field writes one by one. -/
def CodecKind.writesItem : CodecKind ι → Bool
  | .varint _ | .fixed32 | .fixed64 | .lenString | .lenBytesStr | .messageStr => true
  | _ => false

theorem wireTypeForKind_lt (k : CodecKind ι) : (wireTypeForKind k).toNat < 8 := by
  induction k with
  | optional inner ih => exact ih
  | repeated inner ih => exact ih
  | _ => simp [wireTypeForKind]

theorem precomputeTagByte_toNat {wt : UInt8} (hwt : wt.toNat < 8) (tag : UInt32) :
    (precomputeTagByte tag wt).toNat = (tag.toNat * 8 + wt.toNat) % 256 := by
  have word : ((tag <<< 3) ||| wt.toUInt32).toNat = tag.toNat * 8 % 2 ^ 32 + wt.toNat := by
    have low : tag.toNat * 8 % 2 ^ 32 = 2 ^ 3 * (tag.toNat % 2 ^ 29) := by omega
    rw [UInt32.toNat_or, UInt32.toNat_shiftLeft, UInt8.toNat_toUInt32,
      show (3 : UInt32).toNat % 32 = 3 from rfl, Nat.shiftLeft_eq, low,
      ← Nat.two_pow_add_eq_or_of_lt (i := 3) hwt]
  rw [precomputeTagByte, UInt32.toNat_toUInt8, word]
  omega

/-- Below 16 the one byte is the whole tag. -/
theorem precomputeTagByte_eq {tag : UInt32} {wt : UInt8} (hwt : wt.toNat < 8)
    (small : tag.toNat < 16) : [precomputeTagByte tag wt] = tagBytes tag wt := by
  have byte : precomputeTagByte tag wt = UInt8.ofNat (tag.toNat * 8 + wt.toNat) := by
    apply UInt8.toNat_inj.mp
    rw [precomputeTagByte_toNat hwt, UInt8.toNat_ofNat']
  rw [tagBytes, Base128.encode_of_lt (by omega), byte]

theorem emitTagPush_eq {wt : UInt8} (hwt : wt.toNat < 8) (tag : UInt32) (buf : List UInt8) :
    emitTagPush tag wt buf = buf ++ tagBytes tag wt := by
  rw [emitTagPush]
  split
  · rename_i small
    rw [precomputeTagByte_eq hwt (UInt32.lt_iff_toNat_lt.1 small)]
  · exact twEncodeTag_eq hwt tag buf

/-! The wire types fit the three low bits of a tag. -/

theorem varint_lt : (0 : UInt8).toNat < 8 := by decide

theorem fixed64_lt : (1 : UInt8).toNat < 8 := by decide

theorem len_lt : (2 : UInt8).toNat < 8 := by decide

theorem fixed32_lt : (5 : UInt8).toNat < 8 := by decide

theorem pushLen_eq (payload buf : List UInt8) : pushLen payload buf = buf ++ delimited payload := by
  rw [pushLen, twEncodeVarint_eq, UInt64.toNat_ofNat', delimited, List.append_assoc]

/-- The value that `BytesStr` writes for a text. -/
theorem bytesStrEncodeTo_nil (s : String) :
    bytesStrEncodeTo s [] = if s.isEmpty then [] else delimited (Utf8.encode s) := by
  rw [bytesStrEncodeTo, pushLen_eq, List.nil_append]

@[simp] theorem bytesStrEncodeTo_eq_nil {s : String} : bytesStrEncodeTo s [] = [] ↔ s = "" := by
  rw [bytesStrEncodeTo_nil]
  simp [delimited, List.ne_nil_of_length_pos (Base128.encode_length_pos _)]

theorem genEncodeOptionalInner_eq {k : CodecKind ι} (tag : UInt32) (v : FieldValue Γ k)
    (buf : List UInt8) :
    genEncodeOptionalInner tag (wireTypeForKind k) v buf =
      buf ++ if k.writesOptional then tagBytes tag (wireTypeForKind k) ++ content v else [] := by
  have hwt := wireTypeForKind_lt k
  cases v <;>
    simp [genEncodeOptionalInner, CodecKind.writesOptional, content, emitTagPush_eq hwt, pushLen_eq]

theorem genEncodeRepeatedItem_eq {k : CodecKind ι} (tag : UInt32) (v : FieldValue Γ k)
    (buf : List UInt8) :
    genEncodeRepeatedItem tag (wireTypeForKind k) v buf =
      buf ++ if k.writesItem then tagBytes tag (wireTypeForKind k) ++ content v else [] := by
  have hwt := wireTypeForKind_lt k
  cases v <;>
    simp [genEncodeRepeatedItem, CodecKind.writesItem, content, emitTagPush_eq hwt, pushLen_eq]

theorem genPackedItemWrite_eq {k : CodecKind ι} (packable : isPackable k = true)
    (v : FieldValue Γ k) (buf : List UInt8) : genPackedItemWrite v buf = buf ++ content v := by
  cases v <;>
    simp [genPackedItemWrite, content, encodeVarintLoop_ten, isPackable] at packable ⊢

/-- Appending writers in a row append what each of them writes. -/
theorem foldl_writers {α : Type} {write : List UInt8 → α → List UInt8} {bytes : α → List UInt8}
    (h : ∀ buf a, write buf a = buf ++ bytes a) (l : List α) (buf : List UInt8) :
    l.foldl write buf = buf ++ l.flatMap bytes := by
  induction l generalizing buf with
  | nil => simp
  | cons a l ih => rw [List.foldl_cons, ih, h, List.flatMap_cons, List.append_assoc]

/-- The elements of a packed field. -/
def packedPayload {k : CodecKind ι} (items : List (FieldValue Γ k)) : List UInt8 :=
  items.flatMap content

/-- What a `Vec` field that is no `Vec` of messages puts on the wire. -/
def repeatedBytes (tag : UInt32) {k : CodecKind ι} (items : List (FieldValue Γ k)) : List UInt8 :=
  if isPackable k then
    if items.isEmpty then [] else tagBytes tag 2 ++ delimited (packedPayload items)
  else if k.writesItem then items.flatMap fun item => tagBytes tag (wireTypeForKind k) ++ content item
  else []

theorem packedPayload_length {k : CodecKind ι} (packable : isPackable k = true)
    (fixed : isVarint k = false) (items : List (FieldValue Γ k)) :
    (packedPayload items).length = packedLenExpr items.length k := by
  have each : ∀ item : FieldValue Γ k, (content item).length = packedLenExpr 1 k := by
    intro item
    cases item <;> simp [content, packedLenExpr, isPackable, isVarint] at packable fixed ⊢
  have step : ∀ len, packedLenExpr (len + 1) k = packedLenExpr 1 k + packedLenExpr len k := by
    intro len
    cases k <;> simp [packedLenExpr] <;> omega
  have zero : packedLenExpr 0 k = 0 := by cases k <;> rfl
  induction items with
  | nil => rw [List.length_nil, zero]; rfl
  | cons item items ih =>
    have split : packedPayload (item :: items) = content item ++ packedPayload items := rfl
    rw [split, List.length_append, each item, ih, List.length_cons, ← step]

/-- The placeholder path writes the length and the payload. -/
theorem placeholder_eq (payload buf : List UInt8) :
    (if (buf ++ [0] ++ payload).length - (buf ++ [0]).length < 0x80 then
      (buf ++ [0] ++ payload).set buf.length
        (.ofNat ((buf ++ [0] ++ payload).length - (buf ++ [0]).length))
    else
      twEncodeVarint ((buf ++ [0] ++ payload).take buf.length)
        (.ofNat ((buf ++ [0] ++ payload).length - (buf ++ [0]).length)) ++
        (buf ++ [0] ++ payload).drop (buf ++ [0]).length) = buf ++ delimited payload := by
  have len : (buf ++ [0] ++ payload).length - (buf ++ [0]).length = payload.length := by
    rw [List.length_append]
    omega
  have tail : (buf ++ [0] ++ payload).drop (buf ++ [0]).length = payload := List.drop_left
  have head : (buf ++ [0] ++ payload).take buf.length = buf := by
    rw [List.append_assoc, List.take_left]
  rw [len, tail, head, delimited]
  split
  · rename_i small
    rw [Nat.mod_eq_of_lt (by omega), Base128.encode_of_lt small, List.append_assoc,
      List.set_append_right _ _ (Nat.le_refl _)]
    simp
  · rw [twEncodeVarint_eq, UInt64.toNat_ofNat', List.append_assoc]

theorem genEncodeRepeated_eq (tag : UInt32) {k : CodecKind ι} (items : List (FieldValue Γ k))
    (buf : List UInt8) :
    genEncodeRepeated tag items buf = buf ++ repeatedBytes tag items := by
  rw [genEncodeRepeated, repeatedBytes]
  cases packable : isPackable k with
  | false =>
    rw [if_neg (by simp), if_neg (by simp),
      foldl_writers (fun buf item => genEncodeRepeatedItem_eq tag item buf)]
    cases k.writesItem <;> simp
  | true =>
    rw [if_pos rfl, if_pos rfl]
    cases items with
    | nil => simp
    | cons item items =>
      have write := fun buf =>
        foldl_writers (fun buf item => genPackedItemWrite_eq packable item buf) (item :: items) buf
      simp only [List.isEmpty_cons, Bool.false_eq_true, if_false, write,
        emitTagPush_eq len_lt]
      cases fixed : isVarint k with
      | true =>
        rw [if_pos rfl, ← List.append_assoc]
        exact placeholder_eq (packedPayload (item :: items)) (buf ++ tagBytes tag 2)
      | false =>
        rw [if_neg (by simp), ← packedPayload_length packable fixed]
        simp [delimited, packedPayload]

/-- What a field appends to the buffer. -/
def encodeField (tag : UInt32) {k : CodecKind ι} (v : FieldValue Γ k) : List UInt8 :=
  genEncodeField tag v []

mutual

theorem genEncodeField_append (tag : UInt32) {k : CodecKind ι} (v : FieldValue Γ k)
    (buf : List UInt8) : genEncodeField tag v buf = buf ++ encodeField tag v := by
  rw [encodeField]
  cases v with
  | some val => simp only [genEncodeField, genEncodeOptionalInner_eq, List.nil_append]
  | nil => simp only [genEncodeField, genEncodeRepeated_eq, List.nil_append]
  | cons item items => simp only [genEncodeField, genEncodeRepeated_eq, List.nil_append]
  | message m =>
    simp only [genEncodeField, emitTagPush_eq len_lt, pushLen_eq]
    split <;> simp
  | consMessage m ms =>
    simp only [genEncodeField, emitTagPush_eq len_lt, pushLen_eq]
    rw [genEncodeField_append tag ms, genEncodeField_append tag ms ([] ++ _ ++ _)]
    simp
  | _ =>
    simp only [genEncodeField, emitTagPush_eq len_lt, emitTagPush_eq varint_lt,
      emitTagPush_eq fixed32_lt, emitTagPush_eq fixed64_lt, pushLen_eq,
      twEncodeVarint_eq]
    try split
    all_goals simp

theorem encodeTo_append {n : ι} (m : Message Γ n) (buf : List UInt8) :
    encodeTo m buf = buf ++ encodeToVec m := by
  cases m with
  | mk fields =>
    have write := foldl_writers
      (fun buf i => genEncodeField_append ((Γ n).get i).tag (fields i) buf)
    rw [encodeToVec, encodeTo, encodeTo, write, write, List.nil_append]

end

theorem encodeToVec_mk {n : ι} (fields : (i : Fin (Γ n).length) → FieldValue Γ ((Γ n).get i).kind) :
    encodeToVec (.mk fields) =
      (List.finRange (Γ n).length).flatMap fun i => encodeField ((Γ n).get i).tag (fields i) := by
  rw [encodeToVec, encodeTo,
    foldl_writers (fun buf i => genEncodeField_append ((Γ n).get i).tag (fields i) buf),
    List.nil_append]

mutual

/-- The field writes nothing. -/
def silent : {k : CodecKind ι} → FieldValue Γ k → Bool
  | _, .varint x => x == 0
  | _, .bool b => !b
  | _, .fixed32 x => Ieee.isZero x
  | _, .fixed64 x => Ieee.isZero x
  | _, .lenString s => s.isEmpty
  | _, .lenBytesStr s => s.isEmpty
  | _, .messageStr s => s.isEmpty
  | _, .lenBytes bytes => bytes.isEmpty
  | _, .none => true
  | .optional inner, .some _ => !inner.writesOptional
  | _, .nil => true
  | .repeated inner, .cons _ _ => !(isPackable inner || inner.writesItem)
  | _, .message m => silentMessage m
  | _, .noMessage => true
  | _, .someMessage _ => false
  | _, .nilMessage => true
  | _, .consMessage _ _ => false

def silentMessage : {n : ι} → Message Γ n → Bool
  | n, .mk fields => (List.finRange (Γ n).length).all fun i => silent (fields i)

end

/-- The kinds written as one record unless they are at their zero. -/
def CodecKind.plain : CodecKind ι → Bool
  | .varint _ | .fixed32 | .fixed64 | .lenString | .lenBytesStr | .messageStr | .lenBytes
  | .message _ => true
  | _ => false

/-- A value behind its tag. -/
def record (tag : UInt32) {k : CodecKind ι} (v : FieldValue Γ k) : List UInt8 :=
  tagBytes tag (wireTypeForKind k) ++ content v

theorem tagBytes_ne_nil (tag : UInt32) (wt : UInt8) : tagBytes tag wt ≠ [] :=
  List.ne_nil_of_length_pos (Base128.encode_length_pos _)

theorem record_ne_nil (tag : UInt32) {k : CodecKind ι} (v : FieldValue Γ k) : record tag v ≠ [] :=
  List.append_ne_nil_of_left_ne_nil (tagBytes_ne_nil tag _) _

theorem encodeField_bool (tag : UInt32) (b : Bool) :
    encodeField tag (.bool b : FieldValue Γ .bool) =
      if b then [precomputeTagByte tag 0, 1] else [] := by
  simp [encodeField, genEncodeField]

theorem encodeField_some (tag : UInt32) {k : CodecKind ι} (val : FieldValue Γ k) :
    encodeField tag (.some val) = if k.writesOptional then record tag val else [] := by
  simp [encodeField, genEncodeField, genEncodeOptionalInner_eq, record]

theorem encodeField_repeated (tag : UInt32) {k : CodecKind ι} (v : FieldValue Γ (.repeated k)) :
    encodeField tag v = repeatedBytes tag v.items := by
  cases v <;> simp [encodeField, genEncodeField, genEncodeRepeated_eq, FieldValue.items]

theorem encodeField_someMessage (tag : UInt32) {n : ι} (m : Message Γ n) :
    encodeField tag (.someMessage m) = record tag (.message m) := by
  simp [encodeField, genEncodeField, emitTagPush_eq len_lt, pushLen_eq, record, content,
    encodeToVec, wireTypeForKind]

theorem encodeField_consMessage (tag : UInt32) {n : ι} (m : Message Γ n)
    (ms : FieldValue Γ (.repeatedMessage n)) :
    encodeField tag (.consMessage m ms) = record tag (.message m) ++ encodeField tag ms := by
  rw [encodeField, genEncodeField, genEncodeField_append]
  simp [emitTagPush_eq len_lt, pushLen_eq, record, content, encodeToVec, wireTypeForKind]

theorem encodeField_message (tag : UInt32) {n : ι} (m : Message Γ n) :
    encodeField tag (.message m) =
      if (encodeToVec m).isEmpty then [] else record tag (.message m) := by
  simp [encodeField, genEncodeField, emitTagPush_eq len_lt, pushLen_eq, record, content,
    encodeToVec, wireTypeForKind]

theorem repeatedBytes_eq_nil {tag : UInt32} {k : CodecKind ι} {items : List (FieldValue Γ k)} :
    repeatedBytes tag items = [] ↔
      items = [] ∨ (isPackable k || k.writesItem) = false := by
  rw [repeatedBytes]
  have ne := tagBytes_ne_nil tag
  cases items with
  | nil => cases isPackable k <;> simp
  | cons item items => cases isPackable k <;> cases k.writesItem <;> simp [ne]

mutual

theorem encodeField_eq_nil (tag : UInt32) {k : CodecKind ι} (v : FieldValue Γ k) :
    encodeField tag v = [] ↔ silent v = true := by
  cases v with
  | bool b => cases b <;> simp [encodeField_bool, silent]
  | @some inner val =>
    rw [encodeField_some, silent]
    cases inner.writesOptional <;> simp [record_ne_nil]
  | nil => simp [encodeField_repeated, FieldValue.items, repeatedBytes, silent]
  | cons item items =>
    rw [encodeField_repeated, repeatedBytes_eq_nil, silent, FieldValue.items]
    simp
  | message m =>
    rw [encodeField_message, silent, ← encodeToVec_eq_nil m]
    cases encodeToVec m <;> simp [record_ne_nil]
  | someMessage m => simp [encodeField_someMessage, record_ne_nil, silent]
  | consMessage m ms => simp [encodeField_consMessage, record_ne_nil, silent]
  | _ =>
    simp [encodeField, genEncodeField, silent, emitTagPush_eq len_lt,
      emitTagPush_eq varint_lt, emitTagPush_eq fixed32_lt,
      emitTagPush_eq fixed64_lt, pushLen_eq, tagBytes_ne_nil]

theorem encodeToVec_eq_nil {n : ι} :
    (m : Message Γ n) → (encodeToVec m = [] ↔ silentMessage m = true)
  | .mk fields => by
    have each := fun i => encodeField_eq_nil ((Γ n).get i).tag (fields i)
    rw [encodeToVec_mk, silentMessage, List.flatMap_eq_nil_iff, List.all_eq_true]
    exact forall₂_congr fun i _ => each i

end

/-- A plain field is one record, or nothing. -/
theorem encodeField_plain {tag : UInt32} {k : CodecKind ι} (plain : k.plain = true)
    (v : FieldValue Γ k) : encodeField tag v = if silent v then [] else record tag v := by
  cases quiet : silent v with
  | true => exact (encodeField_eq_nil tag v).2 quiet
  | false =>
    cases v with
    | message m =>
      have loud : ¬ encodeToVec m = [] := by
        rw [encodeToVec_eq_nil]
        simpa [silent] using quiet
      rw [encodeField_message, if_neg (by simpa using loud)]
      simp
    | _ =>
      simp [CodecKind.plain, silent] at plain quiet
      try simp [encodeField, genEncodeField, quiet, record, content, wireTypeForKind,
        emitTagPush_eq len_lt, emitTagPush_eq varint_lt,
        emitTagPush_eq fixed32_lt, emitTagPush_eq fixed64_lt, pushLen_eq]

/-! ## Values that write nothing -/

mutual

/-- A value of the same shape that writes nothing. -/
def zeroed : {k : CodecKind ι} → FieldValue Γ k → FieldValue Γ k
  | .varint _, .varint _ => .varint 0
  | _, .bool _ => .bool false
  | _, .fixed32 _ => .fixed32 0
  | _, .fixed64 _ => .fixed64 0
  | _, .lenString _ => .lenString ""
  | _, .lenBytesStr _ => .lenBytesStr ""
  | _, .messageStr _ => .messageStr ""
  | _, .lenBytes _ => .lenBytes []
  | .optional _, _ => .none
  | .repeated _, _ => .nil
  | _, .message m => .message (zeroedMessage m)
  | .optionalMessage _, _ => .noMessage
  | .repeatedMessage _, _ => .nilMessage

def zeroedMessage : {n : ι} → Message Γ n → Message Γ n
  | _, .mk fields => .mk fun i => zeroed (fields i)

end

mutual

theorem silent_zeroed {k : CodecKind ι} (v : FieldValue Γ k) : silent (zeroed v) = true := by
  cases v with
  | message m => exact silentMessage_zeroed m
  | _ => simp [zeroed, silent]

theorem silentMessage_zeroed {n : ι} :
    (m : Message Γ n) → silentMessage (zeroedMessage m) = true
  | .mk fields => by
    have each := fun i => silent_zeroed (fields i)
    rw [zeroedMessage, silentMessage, List.all_eq_true]
    exact fun i _ => each i

end

variable (S : Schema ι)

/-- Field values of `n` that write nothing. -/
def Schema.zero (n : ι) : S.Fields n :=
  fun i => zeroed (S.fieldDefault (S.field i).kind)

/-- The struct with one field set. -/
def Schema.only {n : ι} (i : S.Pos n) (v : S.Value (S.field i).kind) : S.Msg n :=
  .mk (Function.update (S.zero n) i v)

theorem flatMap_single {α β : Type} {l : List α} {a : α} {f : α → List β} (nodup : l.Nodup)
    (mem : a ∈ l) (h : ∀ b ∈ l, b ≠ a → f b = []) : l.flatMap f = f a := by
  induction l with
  | nil => cases mem
  | cons b l ih =>
    rw [List.nodup_cons] at nodup
    rw [List.flatMap_cons]
    rcases List.mem_cons.1 mem with rfl | mem
    · have rest : l.flatMap f = [] := by
        rw [List.flatMap_eq_nil_iff]
        exact fun b hb => h b (.tail _ hb) fun e => nodup.1 (e ▸ hb)
      rw [rest, List.append_nil]
    · rw [ih nodup.2 mem fun b hb => h b (.tail _ hb), h b (.head _) fun e => nodup.1 (e ▸ mem),
        List.nil_append]

theorem encodeToVec_only {n : ι} (i : S.Pos n) (v : S.Value (S.field i).kind) :
    encodeToVec (S.only i v) = encodeField (S.field i).tag v := by
  rw [Schema.only, encodeToVec_mk, flatMap_single (List.nodup_finRange _) (List.mem_finRange i)]
  · rw [Function.update_self]
  · intro j _ ne
    rw [Function.update_of_ne ne]
    exact (encodeField_eq_nil _ _).2 (silent_zeroed _)

end Typeway.Macros
