import Typeway.Macros.Records

/-!
# What a decoded encoding is

`restored m` is the message that decoding the encoding of `m` gives, as long as what is written
can be read: a boolean under a tag from 16 on that is `true` is written under one wrong byte,
and a text of a `BytesStr` taken for a message is read with its length in front. A struct with
a field named `bytes` is decoded to its defaults. Whether `m` comes back is the comparison of
`restored m` with `m`.
-/

namespace Typeway.Macros

open Checked Protobuf

variable {ι : Type} {Γ : ι → List (CodecField ι)}

mutual

/-- No boolean under a tag of two bytes is `true` and no text stands in a `BytesStr` taken for a
message, nested messages included. -/
def legible (tag : UInt32) : {k : CodecKind ι} → FieldValue Γ k → Bool
  | _, .bool b => !b || tag.toNat < 16
  | _, .messageStr s => s.isEmpty
  | _, .some val => textless val
  | _, .cons item items => textless item && legible tag items
  | _, .message m => legibleMessage m
  | _, .someMessage m => legibleMessage m
  | _, .consMessage m ms => legibleMessage m && legible tag ms
  | _, _ => true

def legibleMessage : {n : ι} → Message Γ n → Bool
  | n, .mk fields =>
    (List.finRange (Γ n).length).all fun i => legible ((Γ n).get i).tag (fields i)

end

/-- The kinds a `Vec` field writes, which are the kinds it reads. -/
def CodecKind.storesItem (k : CodecKind ι) : Bool :=
  isPackable k || k.writesItem

section

variable (S : Schema ι)

mutual

/-- A field's variable after its arm has read the encoding of `v`. -/
def absorb : {k : CodecKind ι} → S.Value k → S.Value k → S.Value k
  | .optional inner, cur, .some val => if inner.readsOptional then .some val else cur
  | .repeated inner, cur, .cons item items =>
    if inner.storesItem then pushAll cur (item :: items.items) else cur
  | _, cur, .message m => if silentMessage m then cur else .message (restored m)
  | _, _, .someMessage m => .someMessage (restored m)
  | .repeatedMessage _, cur, .consMessage m ms => absorb (cur.pushMessage (restored m)) ms
  | _, cur, v => if silent v then cur else v

/-- The message a decoded encoding is. -/
def restored : {n : ι} → S.Msg n → S.Msg n
  | n, .mk fields =>
    .mk fun i => if S.shadowed n then S.fieldDefault _ else absorb (S.fieldDefault _) (fields i)

end

theorem absorb_of_silent {k : CodecKind ι} (cur v : S.Value k) (quiet : silent v = true) :
    absorb S cur v = cur := by
  cases v with
  | @some inner val =>
    have : inner.readsOptional = false := by
      cases inner <;> simp_all [silent, CodecKind.writesOptional, CodecKind.readsOptional]
    simp [absorb, this]
  | @cons inner item items =>
    have : inner.storesItem = false := by simpa [silent, CodecKind.storesItem] using quiet
    simp [absorb, this]
  | message m => simpa [absorb, silent] using fun loud => by simp_all [silent]
  | someMessage m => cases quiet
  | consMessage m ms => cases quiet
  | _ => simp_all [absorb]

/-! ## Decoding an encoding -/

/-- The arm of a field of kind `k` reads the records `l`, all under the field's tag, one after
the other. -/
inductive ArmsRead (k : CodecKind ι) (tag : UInt32) :
    List UInt8 → S.Value k → S.Value k → Prop where
  | done (cur : S.Value k) : ArmsRead k tag [] cur cur
  | record {wireType : UInt8} {l l' : List UInt8} {cur mid new : S.Value k}
      (hwt : wireType.toNat < 8) (arm : ArmReads S k wireType l cur mid)
      (rest : ArmsRead k tag l' mid new) :
      ArmsRead k tag (tagBytes tag wireType ++ l ++ l') cur new

theorem ArmsRead.one {k : CodecKind ι} {tag : UInt32} {wireType : UInt8} {l : List UInt8}
    {cur new : S.Value k} (hwt : wireType.toNat < 8) (arm : ArmReads S k wireType l cur new) :
    ArmsRead S k tag (tagBytes tag wireType ++ l) cur new := by
  have : ArmsRead S k tag (tagBytes tag wireType ++ l ++ []) cur new := .record hwt arm (.done new)
  rwa [List.append_nil] at this

theorem ArmsRead.reads {n : ι} (i : S.Pos n) {l : List UInt8}
    {cur new : S.Value (S.field i).kind} (h : ArmsRead S _ (S.field i).tag l cur new) :
    ∀ {F : S.Fields n}, F i = cur → Reads S n l F (Function.update F i new) := by
  induction h with
  | done cur =>
    rintro F rfl
    rw [Function.update_eq_self]
    exact .nil S F
  | record hwt arm _ ih =>
    rintro F rfl
    have rest := ih (F := Function.update F i _) (Function.update_self i _ F)
    rw [Function.update_idem] at rest
    exact (Reads.record i hwt arm).append rest

theorem armsRead_items {k : CodecKind ι} (tag : UInt32) (single : isPackable k = false)
    (writes : k.writesItem = true) (l : List (S.Value k)) (empty : ∀ v ∈ l, textless v = true) :
    ∀ cur, ArmsRead S (.repeated k) tag
      (l.flatMap fun item => tagBytes tag (wireTypeForKind k) ++ content item) cur
      (pushAll cur l) := by
  induction l with
  | nil => exact fun cur => .done cur
  | cons item l ih =>
    intro cur
    exact .record (wireTypeForKind_lt k)
      (armReads_item S single writes _
        (spelled_content (writesOptional_of_writesItem writes) (empty item List.mem_cons_self)) cur)
      (ih (fun v mem => empty v (List.mem_cons_of_mem _ mem)) _)

theorem armsRead_repeated {k : CodecKind ι} (tag : UInt32) (l : List (S.Value k))
    (empty : ∀ v ∈ l, textless v = true) (cur : S.Value (.repeated k)) :
    ArmsRead S (.repeated k) tag (repeatedBytes tag l) cur
      (if k.storesItem then pushAll cur l else cur) := by
  rw [repeatedBytes, CodecKind.storesItem]
  cases packable : isPackable k with
  | true =>
    cases l with
    | nil => exact .done cur
    | cons item l => exact .one S len_lt (armReads_packed S packable (item :: l) cur)
  | false =>
    cases writes : k.writesItem with
    | true => exact armsRead_items S tag packable writes l empty cur
    | false => exact .done cur

theorem absorb_scalar {k : CodecKind ι} (scalar : k.writesOptional = true) (cur v : S.Value k) :
    absorb S cur v = if silent v then cur else v := by
  cases v <;> simp [absorb, CodecKind.writesOptional] at scalar ⊢

/-- A field turned first, and the others after it. -/
theorem update_turned {n : ι} {new F : S.Fields n} {i : S.Pos n} {l : List (S.Pos n)} :
    (fun j => if j ∈ l then new j else Function.update F i (new i) j) =
      fun j => if j ∈ i :: l then new j else F j := by
  funext j
  by_cases e : j = i
  · subst e
    simp
  · simp [e]

/-- The records of some fields, each field's together. -/
theorem reads_fields {n : ι} {part : S.Pos n → List UInt8} {new : S.Fields n}
    {l : List (S.Pos n)} (nodup : l.Nodup) (F : S.Fields n)
    (each : ∀ i ∈ l, ∀ F' : S.Fields n, F' i = F i →
      Reads S n (part i) F' (Function.update F' i (new i))) :
    Reads S n (l.flatMap part) F fun j => if j ∈ l then new j else F j := by
  induction l generalizing F with
  | nil =>
    simp only [List.not_mem_nil, if_false]
    exact .nil S F
  | cons i l ih =>
    obtain ⟨fresh, nodup⟩ := List.nodup_cons.1 nodup
    have first := each i List.mem_cons_self F rfl
    have rest := ih nodup (Function.update F i (new i)) fun j mem F' same => by
      have ne : j ≠ i := fun e => fresh (e ▸ mem)
      rw [Function.update_of_ne ne] at same
      exact each j (List.mem_cons_of_mem _ mem) F' same
    rw [update_turned S] at rest
    exact first.append rest

/-- The records of all fields, from the defaults on. -/
theorem reads_all {n : ι} {part : S.Pos n → List UInt8} {new : S.Fields n}
    (each : ∀ i, ∀ F : S.Fields n, F i = S.fieldDefaults n i →
      Reads S n (part i) F (Function.update F i (new i))) :
    Reads S n ((List.finRange (S.fields n).length).flatMap part) (S.fieldDefaults n) new := by
  have all := reads_fields S (List.nodup_finRange _) (S.fieldDefaults n) fun i _ => each i
  simp only [List.mem_finRange, if_true] at all
  exact all

/-- Reading the whole input, from the defaults on, is decoding it. -/
theorem typewayDecode_of_reads {n : ι} (clear : S.shadowed n = false) {bytes : List UInt8}
    {F : S.Fields n} (small : bytes.length ≤ isizeMax) (h : Reads S n bytes (S.fieldDefaults n) F) :
    typewayDecode S n bytes = .ok (.mk F) := by
  have run := h bytes 0 small (.whole bytes)
  rw [typewayDecode_eq, S.visible_of_not clear, decodeLoop, DecodeState.start,
    run.runLoop_eq (decodeLoop_lowers S _), runLoop_done (by simp)]
  rfl

theorem textless_of_legible {tag : UInt32} {k : CodecKind ι} (scalar : k.writesOptional = true)
    {v : S.Value k} (clean : legible tag v = true) : textless v = true := by
  cases v with
  | messageStr s => rwa [legible] at clean
  | _ => rfl

theorem textless_items {tag : UInt32} {k : CodecKind ι} :
    (v : S.Value (.repeated k)) → legible tag v = true → ∀ item ∈ v.items, textless item = true
  | .nil, _ => by simp [FieldValue.items]
  | .cons first rest, clean => by
    rw [legible, Bool.and_eq_true] at clean
    rw [FieldValue.items, List.forall_mem_cons]
    exact ⟨clean.1, textless_items rest clean.2⟩

mutual

theorem armsRead_field (tag : UInt32) {k : CodecKind ι} (v : S.Value k)
    (clean : legible tag v = true) (cur : S.Value k) :
    ArmsRead S k tag (encodeField tag v) cur (absorb S cur v) := by
  cases v with
  | bool b =>
    cases b with
    | false =>
      rw [encodeField_bool]
      exact .done cur
    | true =>
      have low : tag.toNat < 16 := by simpa [legible] using clean
      rw [encodeField_bool, if_pos rfl]
      have := precomputeTagByte_eq varint_lt low
      rw [← List.singleton_append, this]
      exact .one S (by decide) (armReads_scalar S 0 (spelled_content (v := .bool true) rfl rfl) cur)
  | @some inner val =>
    rw [encodeField_some, absorb]
    cases writes : inner.writesOptional with
    | true =>
      rw [legible] at clean
      exact .one S (wireTypeForKind_lt inner) (armReads_optional S (spelled_content writes clean) cur)
    | false =>
      have : inner.readsOptional = false := by
        cases inner <;> simp_all [CodecKind.writesOptional, CodecKind.readsOptional]
      rw [this]
      exact .done cur
  | nil =>
    have := armsRead_repeated S tag [] (by simp) cur
    rw [encodeField_repeated, absorb_of_silent S cur _ rfl, FieldValue.items]
    rwa [pushAll, List.foldl_nil, ite_self] at this
  | cons item items =>
    have empty := textless_items S _ clean
    rw [FieldValue.items] at empty
    rw [encodeField_repeated, absorb, FieldValue.items]
    exact armsRead_repeated S tag (item :: items.items) empty cur
  | message m =>
    have nested := typewayDecode_restored m (by simpa [legible] using clean)
    rw [encodeField_message, absorb]
    cases quiet : silentMessage m with
    | true =>
      rw [(encodeToVec_eq_nil m).2 quiet]
      exact .done cur
    | false =>
      have loud : encodeToVec m ≠ [] := fun e => by simp [(encodeToVec_eq_nil m).1 e] at quiet
      rw [if_neg (by simpa using loud)]
      exact .one S len_lt ((armReads_message S (framed_delimited _) nested 2).1 cur)
  | someMessage m =>
    have nested := typewayDecode_restored m (by simpa [legible] using clean)
    rw [encodeField_someMessage, absorb]
    exact .one S len_lt ((armReads_message S (framed_delimited _) nested 2).2.1 cur)
  | consMessage m ms =>
    have parts : legibleMessage m = true ∧ legible tag ms = true := by
      simpa [legible] using clean
    have nested := typewayDecode_restored m parts.1
    rw [encodeField_consMessage, absorb, record]
    exact .record len_lt ((armReads_message S (framed_delimited _) nested 2).2.2 cur) (armsRead_field tag ms parts.2 _)
  | none => exact .done cur
  | noMessage => exact .done cur
  | nilMessage => exact .done cur
  | _ =>
    rw [encodeField_plain rfl, absorb_scalar S rfl]
    split
    · exact .done cur
    · exact .one S (wireTypeForKind_lt _)
        (armReads_scalar S _ (spelled_content rfl (textless_of_legible S rfl clean)) cur)

theorem typewayDecode_restored {n : ι} :
    (m : S.Msg n) → legibleMessage m = true → (encodeToVec m).length ≤ isizeMax →
      typewayDecode S n (encodeToVec m) = .ok (restored S m)
  | .mk fields, clean, fits => by
    have each := fun i => armsRead_field (S.field i).tag (fields i)
    rw [legibleMessage, List.all_eq_true] at clean
    rw [restored]
    cases hidden : S.shadowed n with
    | true =>
      rw [typewayDecode_shadowed S hidden]
      rfl
    | false =>
      simp only [Bool.false_eq_true, if_false]
      refine typewayDecode_of_reads S hidden fits ?_
      rw [encodeToVec_mk]
      exact reads_all S fun i _ same =>
        (each i (clean i (List.mem_finRange i)) (S.fieldDefaults n i)).reads S i same

end

end

/-! ## Comparing messages -/

mutual

/-- The value with every floating-point zero positive. -/
def canon : {k : CodecKind ι} → FieldValue Γ k → FieldValue Γ k
  | _, .fixed32 x => .fixed32 (if Ieee.isZero x then 0 else x)
  | _, .fixed64 x => .fixed64 (if Ieee.isZero x then 0 else x)
  | _, .some val => .some (canon val)
  | _, .cons item items => .cons (canon item) (canon items)
  | _, .message m => .message (canonMessage m)
  | _, .someMessage m => .someMessage (canonMessage m)
  | _, .consMessage m ms => .consMessage (canonMessage m) (canon ms)
  | _, v => v

def canonMessage : {n : ι} → Message Γ n → Message Γ n
  | _, .mk fields => .mk fun i => canon (fields i)

end

/-- Equal messages, floats compared by value. -/
def SameMessage {n : ι} (m w : Message Γ n) : Prop :=
  canonMessage m = canonMessage w

section

variable (S : Schema ι)

mutual

/-- The value comes back: what is set in an `Option` or a `Vec` is of a kind the decoder
stores, and a plain nested message that writes nothing is its type's `Default`. In a struct with
a field named `bytes` everything is at its default. -/
def Restorable : {k : CodecKind ι} → S.Value k → Prop
  | .optional inner, .some _ => inner.readsOptional = true
  | .repeated inner, .cons _ _ => inner.storesItem = true
  | .message n, .message m =>
    (silentMessage m = true → SameMessage (S.default n) m) ∧
      (silentMessage m = false → RestorableMessage m)
  | _, .someMessage m => RestorableMessage m
  | _, .consMessage m ms => RestorableMessage m ∧ Restorable ms
  | _, _ => True

def RestorableMessage : {n : ι} → S.Msg n → Prop
  | n, .mk fields => ∀ i,
    (S.shadowed n = true → canon (S.fieldDefault _) = canon (fields i)) ∧
      (S.shadowed n = false → Restorable (fields i))

end

theorem pushAll_cons {k : CodecKind ι} (l : List (FieldValue Γ k)) (item : FieldValue Γ k)
    (items : FieldValue Γ (.repeated k)) :
    pushAll (.cons item items) l = .cons item (pushAll items l) := by
  induction l generalizing items with
  | nil => rfl
  | cons first l ih =>
    rw [pushAll, List.foldl_cons, FieldValue.push]
    exact ih _

theorem pushAll_items {k : CodecKind ι} :
    (v : FieldValue Γ (.repeated k)) → pushAll .nil v.items = v
  | .nil => by rw [FieldValue.items]; rfl
  | .cons item items => by
    rw [FieldValue.items, pushAll, List.foldl_cons, FieldValue.push, ← pushAll, pushAll_cons,
      pushAll_items items]

theorem absorb_consMessage {n : ι} (m : S.Msg n) :
    (ms : S.Value (.repeatedMessage n)) → (cur : S.Value (.repeatedMessage n)) →
      absorb S (.consMessage m cur) ms = .consMessage m (absorb S cur ms)
  | .nilMessage, cur => by rw [absorb_of_silent S _ _ rfl, absorb_of_silent S _ _ rfl]
  | .consMessage m' ms, cur => by
    rw [absorb, absorb, FieldValue.pushMessage, absorb_consMessage m ms]

/-- A scalar in a plain field comes back, up to the sign of a zero. -/
theorem canon_absorb_scalar {k : CodecKind ι} (scalar : k.writesOptional = true)
    (v : S.Value k) : canon (absorb S (S.fieldDefault k) v) = canon v := by
  rw [absorb_scalar S scalar]
  split
  · rename_i quiet
    cases v <;>
      simp_all [CodecKind.writesOptional, silent, Schema.fieldDefault, canon]
  · rfl

mutual

theorem canon_absorb_iff {k : CodecKind ι} (v : S.Value k) :
    canon (absorb S (S.fieldDefault k) v) = canon v ↔ Restorable S v := by
  cases v with
  | @some inner val =>
    rw [absorb, Restorable, Schema.fieldDefault]
    cases inner.readsOptional <;> simp [canon]
  | @cons inner item items =>
    have back := pushAll_items (FieldValue.cons item items)
    rw [FieldValue.items] at back
    rw [absorb, Restorable, Schema.fieldDefault, back]
    cases inner.storesItem <;> simp [canon]
  | message m =>
    have nested := canon_restored_iff m
    rw [absorb, Restorable, Schema.fieldDefault]
    cases quiet : silentMessage m with
    | true => simp [canon, SameMessage]
    | false => simp [canon, nested]
  | someMessage m =>
    rw [absorb, Restorable, ← canon_restored_iff m, canon, canon, FieldValue.someMessage.injEq]
  | consMessage m ms =>
    have rest := canon_absorb_iff ms
    rw [Schema.fieldDefault] at rest ⊢
    rw [absorb, Restorable, ← canon_restored_iff m, ← rest, FieldValue.pushMessage,
      absorb_consMessage, canon, canon, FieldValue.consMessage.injEq]
  | none => exact iff_of_true (by rw [absorb_of_silent S _ _ rfl]; rfl) trivial
  | nil => exact iff_of_true (by rw [absorb_of_silent S _ _ rfl]; rfl) trivial
  | noMessage => exact iff_of_true (by rw [absorb_of_silent S _ _ rfl]; rfl) trivial
  | nilMessage => exact iff_of_true (by rw [absorb_of_silent S _ _ rfl]; rfl) trivial
  | _ => exact iff_of_true (canon_absorb_scalar S rfl _) trivial

theorem canon_restored_iff {n : ι} :
    (m : S.Msg n) → (canonMessage (restored S m) = canonMessage m ↔ RestorableMessage S m)
  | .mk fields => by
    have each := fun i => canon_absorb_iff (fields i)
    rw [restored, canonMessage, canonMessage, RestorableMessage, Message.mk.injEq, funext_iff]
    refine forall_congr' fun i => ?_
    cases hidden : S.shadowed n with
    | true => simp
    | false => simpa using each i

end

/-- `typeway_decode(encode_to_vec(m)) = Ok(m)`. -/
def RoundTrips {n : ι} (m : S.Msg n) : Prop :=
  ∃ w, typewayDecode S n (encodeToVec m) = .ok w ∧ SameMessage w m

/-- Where everything written can be read, the round trip is decided by the value. -/
theorem roundTrips_iff_restorable {n : ι} {m : S.Msg n} (clean : legibleMessage m = true)
    (fits : (encodeToVec m).length ≤ isizeMax) : RoundTrips S m ↔ RestorableMessage S m := by
  rw [RoundTrips, typewayDecode_restored S m clean fits, ← canon_restored_iff]
  constructor
  · rintro ⟨w, e, same⟩
    cases e
    exact same
  · exact fun same => ⟨_, rfl, same⟩

/-! ## Which structs come back on every value -/

/-- The fields all of whose values come back: a boolean under a one-byte tag, an `Option` or a
`Vec` of a kind the decoder stores, a plain struct whose `Default` writes nothing, and every
field of another kind. A `BytesStr` that is taken for a message does not come back. -/
def Faithful (tag : UInt32) : CodecKind ι → Prop
  | .bool => tag.toNat < 16
  | .messageStr => False
  | .optional inner => inner.readsOptional = true ∧ inner ≠ .messageStr
  | .repeated inner => inner.storesItem = true ∧ inner ≠ .messageStr
  | .message n => silentMessage (S.default n) = true
  | _ => True

/-- No struct of the schema hides the input from its decoder, and every field is faithful. -/
structure AllFaithful : Prop where
  clear : ∀ n, S.shadowed n = false
  faithful : ∀ n (i : S.Pos n), Faithful S (S.field i).tag (S.field i).kind

theorem textless_of_ne {k : CodecKind ι} (other : k ≠ .messageStr) (v : S.Value k) :
    textless v = true := by
  cases v with
  | messageStr s => exact (other rfl).elim
  | _ => rfl

mutual

theorem legible_of_faithful (all : AllFaithful S) {tag : UInt32} {k : CodecKind ι}
    (here : Faithful S tag k) (v : S.Value k) : legible tag v = true := by
  cases v with
  | bool b => simp [legible, show tag.toNat < 16 from here]
  | messageStr s => exact here.elim
  | some val => exact textless_of_ne S here.2 val
  | cons item items =>
    rw [legible, textless_of_ne S here.2 item, legible_of_faithful all here items]
    rfl
  | message m => simpa [legible] using legibleMessage_of_faithful all m
  | someMessage m => simpa [legible] using legibleMessage_of_faithful all m
  | consMessage m ms =>
    rw [legible, legibleMessage_of_faithful all m, legible_of_faithful all here ms]
    rfl
  | _ => simp [legible]

theorem legibleMessage_of_faithful (all : AllFaithful S) {n : ι} :
    (m : S.Msg n) → legibleMessage m = true
  | .mk fields => by
    have each := fun i => legible_of_faithful all (all.faithful n i) (fields i)
    rw [legibleMessage, List.all_eq_true]
    exact fun i _ => each i

end

theorem some_loud {inner : CodecKind ι} (reads : inner.readsOptional = true)
    (val : FieldValue Γ inner) : silent (.some val) = false := by
  cases inner <;> simp_all [silent, CodecKind.writesOptional, CodecKind.readsOptional]

theorem cons_loud {inner : CodecKind ι} (stores : inner.storesItem = true)
    (item : FieldValue Γ inner) (items : FieldValue Γ (.repeated inner)) :
    silent (.cons item items) = false := by
  rw [silent, Bool.not_eq_false']
  exact stores

mutual

/-- Values that write nothing are equal where nothing is lost. -/
theorem canon_eq_of_silent (all : AllFaithful S) {tag : UInt32} {k : CodecKind ι}
    (here : Faithful S tag k) (v w : S.Value k) (hv : silent v = true) (hw : silent w = true) :
    canon v = canon w := by
  cases v with
  | some val => simp [some_loud here.1 val] at hv
  | cons item items => simp [cons_loud here.1 item items] at hv
  | message m =>
    cases w with
    | message m' =>
      rw [canon, canon, canonMessage_eq_of_silent all m m' hv hw]
  | someMessage m => cases hv
  | consMessage m ms => cases hv
  | none =>
    cases w with
    | none => rfl
    | some val => simp [some_loud here.1 val] at hw
  | nil =>
    cases w with
    | nil => rfl
    | cons item items => simp [cons_loud here.1 item items] at hw
  | noMessage =>
    cases w with
    | noMessage => rfl
    | someMessage m => cases hw
  | nilMessage =>
    cases w with
    | nilMessage => rfl
    | consMessage m ms => cases hw
  | _ =>
    cases w
    simp_all [silent, canon]

theorem canonMessage_eq_of_silent (all : AllFaithful S) {n : ι} :
    (m m' : S.Msg n) → silentMessage m = true → silentMessage m' = true →
      canonMessage m = canonMessage m'
  | .mk fields, .mk fields', hm, hm' => by
    have each := fun i => canon_eq_of_silent all (all.faithful n i) (fields i) (fields' i)
    rw [silentMessage, List.all_eq_true] at hm hm'
    rw [canonMessage, canonMessage, Message.mk.injEq]
    funext i
    exact each i (hm i (List.mem_finRange i)) (hm' i (List.mem_finRange i))

end

mutual

theorem restorable_of_faithful (all : AllFaithful S) {tag : UInt32} {k : CodecKind ι}
    (here : Faithful S tag k) (v : S.Value k) : Restorable S v := by
  cases v with
  | some val => exact here.1
  | cons item items => exact here.1
  | message m =>
    exact ⟨fun quiet => canonMessage_eq_of_silent S all _ _ here quiet,
      fun _ => restorableMessage_of_faithful all m⟩
  | someMessage m => exact restorableMessage_of_faithful all m
  | consMessage m ms =>
    exact ⟨restorableMessage_of_faithful all m, restorable_of_faithful all here ms⟩
  | _ => trivial

theorem restorableMessage_of_faithful (all : AllFaithful S) {n : ι} :
    (m : S.Msg n) → RestorableMessage S m
  | .mk fields => fun i =>
    ⟨fun hidden => (Bool.false_ne_true ((all.clear n).symm.trans hidden)).elim,
      fun _ => restorable_of_faithful all (all.faithful n i) (fields i)⟩

end

mutual

theorem legible_zeroed (tag : UInt32) {k : CodecKind ι} (v : S.Value k) :
    legible tag (zeroed v) = true := by
  cases v with
  | message m => simpa [zeroed, legible] using legibleMessage_zeroed m
  | _ => simp [zeroed, legible]

theorem legibleMessage_zeroed {n : ι} :
    (m : S.Msg n) → legibleMessage (zeroedMessage m) = true
  | .mk fields => by
    have each := fun i => legible_zeroed (S.field i).tag (fields i)
    rw [zeroedMessage, legibleMessage, List.all_eq_true]
    exact fun i _ => each i

end

theorem legible_only {n : ι} (i : S.Pos n) {v : S.Value (S.field i).kind}
    (clean : legible (S.field i).tag v = true) :
    legibleMessage (S.only i v) = true := by
  rw [Schema.only, legibleMessage, List.all_eq_true]
  intro j _
  by_cases e : j = i
  · subst e
    rwa [Function.update_self]
  · rw [Function.update_of_ne e]
    exact legible_zeroed S _ _

theorem restorable_only {n : ι} (clear : S.shadowed n = false) (i : S.Pos n)
    {v : S.Value (S.field i).kind} (h : RestorableMessage S (S.only i v)) : Restorable S v := by
  have := (h i).2 clear
  rwa [Function.update_self] at this

mutual

theorem silent_canon {k : CodecKind ι} (v : FieldValue Γ k) : silent (canon v) = silent v := by
  cases v with
  | fixed32 x => cases zero : Ieee.isZero x <;> simp [canon, silent, zero]
  | fixed64 x => cases zero : Ieee.isZero x <;> simp [canon, silent, zero]
  | message m => simpa [canon, silent] using silentMessage_canon m
  | _ => simp [canon, silent]

theorem silentMessage_canon {n : ι} :
    (m : Message Γ n) → silentMessage (canonMessage m) = silentMessage m
  | .mk fields => by
    have each := fun i => silent_canon (fields i)
    rw [canonMessage, silentMessage, silentMessage]
    simp only [each]

end

/-- Where the first varint of the two bytes of such a boolean ends, and its field number. -/
theorem wideFlag_tag {tag : UInt32} (wide : 16 ≤ tag.toNat) {tagWire : UInt64} {start : Nat}
    (h : readVarint [precomputeTagByte tag 0, 1] 0 = .ok (tagWire, start)) :
    start = 1 ∧ tag ≠ (tagWire >>> 3).toUInt32 ∨ start = 2 := by
  rw [readVarint, sliceFrom_eq_ok (by simp), ok_bind, List.drop_zero] at h
  by_cases low : (precomputeTagByte tag 0).toNat < 128
  · rw [twDecodeVarint_one low] at h
    cases h
    refine .inl ⟨rfl, ?_⟩
    rintro e
    have number := congrArg UInt32.toNat e
    rw [UInt64.toNat_toUInt32, UInt64.toNat_shiftRight, UInt8.toNat_toUInt64,
      show (3 : UInt64).toNat % 64 = 3 from rfl, Nat.shiftRight_eq_div_pow] at number
    omega
  · rw [twDecodeVarint_two (by omega) (by decide)] at h
    cases h
    exact .inr rfl

/-- The two bytes of a `true` boolean under a tag from 16 on never decode to it: the first is
cut down to another field's tag, or takes the second one into the tag. -/
theorem wideFlag_lost {n : ι} (clear : S.shadowed n = false) (i : S.Pos n)
    (wide : 16 ≤ (S.field i).tag.toNat) {w : S.Msg n}
    (run : typewayDecode S n [precomputeTagByte (S.field i).tag 0, 1] = .ok w) :
    ∃ F : S.Fields n, w = .mk F ∧ F i = S.fieldDefault (S.field i).kind := by
  rw [typewayDecode_eq, S.visible_of_not clear] at run
  obtain ⟨s, loop, run⟩ := bind_eq_ok.1 run
  cases run
  have keep : ∀ s : DecodeState S n,
      s.fields i = S.fieldDefault (S.field i).kind ∧ (s.offset = 0 ∨ s.offset = 2) →
      decide (s.offset < [precomputeTagByte (S.field i).tag 0, 1].length) = true →
      Ensures (decodeStep S (typewayDecode S) n [precomputeTagByte (S.field i).tag 0, 1] s)
        fun s => s.fields i = S.fieldDefault (S.field i).kind ∧ (s.offset = 0 ∨ s.offset = 2) := by
    rintro s ⟨same, at_⟩ go s' step
    obtain ⟨tagWire, start, turn⟩ := decodeStep_turn S step
    have zero : s.offset = 0 := by
      rcases at_ with zero | two
      · exact zero
      · simp [two] at go
    have past := turn.past
    have bound : s'.offset ≤ 2 := turn.bound
    have tag := turn.tag
    rw [zero] at tag
    rcases wideFlag_tag wide tag with ⟨rfl, ne⟩ | rfl
    · exact ⟨by rw [turn.frame i ne, same], by omega⟩
    · omega
  have final := Ensures.runLoop (decodeLoop_lowers S (typewayDecode S)) keep ⟨rfl, .inl rfl⟩ _ loop
  exact ⟨s.fields, rfl, final.1.1⟩

theorem tagBytes_length_le (tag : UInt32) {wt : UInt8} (hwt : wt.toNat < 8) :
    (tagBytes tag wt).length ≤ 5 := by
  have := tag.toNat_lt
  exact Base128.encode_length_le (by omega) (by omega)

/-- A value is lost if the decoder finds another one in its place. -/
theorem lost_of_canon {n : ι} {i : S.Pos n} {v : S.Value (S.field i).kind} {F : S.Fields n}
    (run : typewayDecode S n (encodeToVec (S.only i v)) = .ok (.mk F))
    (other : canon (F i) ≠ canon v) : ¬ RoundTrips S (S.only i v) := by
  rintro ⟨w, same, equal⟩
  rw [run] at same
  cases same
  rw [SameMessage, Schema.only, canonMessage, canonMessage, Message.mk.injEq] at equal
  have here := congrFun equal i
  rw [Function.update_self] at here
  exact other here

/-- A struct with a field named `bytes` loses what is set in this field. -/
theorem shadowed_loses {n : ι} (hidden : S.shadowed n = true) :
    ∃ m : S.Msg n, (encodeToVec m).length ≤ isizeMax ∧ ¬ RoundTrips S m := by
  obtain ⟨i, kind⟩ := S.exists_of_shadowed hidden
  have lost : ∀ v : S.Value (S.field i).kind, (encodeField (S.field i).tag v).length ≤ isizeMax →
      canon (S.fieldDefault (S.field i).kind) ≠ canon v →
      ∃ m : S.Msg n, (encodeToVec m).length ≤ isizeMax ∧ ¬ RoundTrips S m := by
    intro v fits other
    refine ⟨S.only i v, by rwa [encodeToVec_only], ?_⟩
    exact lost_of_canon S (typewayDecode_shadowed S hidden _) other
  generalize (S.field i).kind = k at kind lost
  generalize (S.field i).tag = tag at lost
  subst kind
  have short := tagBytes_length_le tag len_lt
  refine lost (.lenBytes [0]) ?_ (by simp [canon, Schema.fieldDefault])
  rw [encodeField_plain rfl]
  simp [silent, record, content, wireTypeForKind, delimited, Base128.encode_of_lt, isizeMax]
  omega

/-- What a text of one letter comes back as from a `BytesStr` that is taken for a message. -/
theorem readMessage_letter {bytes : List UInt8} {offset : Nat} (small : bytes.length ≤ isizeMax)
    (h : At bytes offset (content (.messageStr "a" : FieldValue Γ .messageStr))) :
    readMessage bytesStrDecode bytes offset =
      .ok ("\u0001a", offset + (content (.messageStr "a" : FieldValue Γ .messageStr)).length) := by
  rw [content] at h ⊢
  rw [readMessage_framed _ small (framed_delimited _) h]
  rfl

theorem armReads_letter (wireType : UInt8) (cur : S.Value .messageStr) :
    ArmReads S .messageStr wireType (content (.messageStr "a" : S.Value .messageStr)) cur
      (.messageStr "\u0001a") := by
  intro ident bytes offset small h
  rw [genDecodeArm, readMessage_letter small h]
  rfl

theorem armReads_someLetter (wireType : UInt8) (cur : S.Value (.optional .messageStr)) :
    ArmReads S (.optional .messageStr) wireType (content (.messageStr "a" : S.Value .messageStr))
      cur (.some (.messageStr "\u0001a")) := by
  intro ident bytes offset small h
  rw [genDecodeArm, genDecodeOptionalInner, readMessage_letter small h]
  rfl

theorem armReads_letterItem (wireType : UInt8) :
    ArmReads S (.repeated .messageStr) wireType (content (.messageStr "a" : S.Value .messageStr))
      .nil (.cons (.messageStr "\u0001a") .nil) := by
  intro ident bytes offset small h
  rw [genDecodeArm, genDecodeRepeated, genDecodeRepeatedItem, readMessage_letter small h, store,
    ok_bind]
  · simp only [FieldValue.push]
    rfl
  all_goals simp

section Lost

variable {n : ι} (clear : S.shadowed n = false) (i : S.Pos n) (v : S.Value (S.field i).kind)
include clear

/-- A value that keeps to clean booleans is decided by what can be restored. -/
theorem unrestorable_loses (clean : legible (S.field i).tag v = true)
    (fits : (encodeField (S.field i).tag v).length ≤ isizeMax) (stuck : ¬ Restorable S v) :
    ∃ m : S.Msg n, (encodeToVec m).length ≤ isizeMax ∧ ¬ RoundTrips S m := by
  rw [← encodeToVec_only] at fits
  refine ⟨S.only i v, fits, fun trip => stuck ?_⟩
  exact restorable_only S clear i ((roundTrips_iff_restorable S (legible_only S i clean) fits).1 trip)

/-- A boolean behind a wide tag is written under the first byte of the tag. -/
theorem wideFlag_loses (wide : 16 ≤ (S.field i).tag.toNat)
    (bytes : encodeField (S.field i).tag v = [precomputeTagByte (S.field i).tag 0, 1])
    (quiet : silent (S.fieldDefault (S.field i).kind) = true) (loud : silent v = false) :
    ∃ m : S.Msg n, (encodeToVec m).length ≤ isizeMax ∧ ¬ RoundTrips S m := by
  refine ⟨S.only i v, ?_, ?_⟩
  · rw [encodeToVec_only, bytes]
    exact (by decide : 2 ≤ isizeMax)
  · rintro ⟨w, run, same⟩
    rw [encodeToVec_only, bytes] at run
    obtain ⟨F, rfl, unset⟩ := wideFlag_lost S clear i wide run
    rw [SameMessage, Schema.only, canonMessage, canonMessage, Message.mk.injEq] at same
    have here := congrArg silent (congrFun same i)
    rw [Function.update_self, silent_canon, silent_canon, loud, unset, quiet] at here
    cases here

/-- A text of one letter that is taken for a message comes back as another value. -/
theorem letter_loses {new : S.Value (S.field i).kind}
    (bytes : encodeField (S.field i).tag v =
      tagBytes (S.field i).tag 2 ++ content (.messageStr "a" : S.Value .messageStr))
    (arm : ArmReads S (S.field i).kind 2 (content (.messageStr "a" : S.Value .messageStr))
      (S.fieldDefault _) new)
    (other : canon new ≠ canon v) :
    ∃ m : S.Msg n, (encodeToVec m).length ≤ isizeMax ∧ ¬ RoundTrips S m := by
  have fits : (encodeToVec (S.only i v)).length ≤ isizeMax := by
    have tag := tagBytes_length_le (S.field i).tag len_lt
    have three : (content (.messageStr "a" : S.Value .messageStr)).length = 3 := by
      simp [content, bytesStrEncodeTo_nil, delimited, Base128.encode_of_lt,
        show Utf8.encode "a" = [97] from rfl]
    rw [encodeToVec_only, bytes, List.length_append, three]
    unfold isizeMax
    omega
  have reads := Reads.record i len_lt (F := S.fieldDefaults n) arm
  rw [← bytes, ← encodeToVec_only] at reads
  refine ⟨S.only i v, fits, lost_of_canon S (typewayDecode_of_reads S clear fits reads) ?_⟩
  rwa [Function.update_self]

end Lost

/-- An unfaithful field loses a value in a struct with nothing else set. -/
theorem unfaithful_loses {n : ι} (clear : S.shadowed n = false) (i : S.Pos n)
    (h : ¬ Faithful S (S.field i).tag (S.field i).kind) :
    ∃ m : S.Msg n, (encodeToVec m).length ≤ isizeMax ∧ ¬ RoundTrips S m := by
  have lost := unrestorable_loses S clear i
  have miswritten := wideFlag_loses S clear i
  have garbled := @letter_loses _ S n clear i
  generalize (S.field i).kind = k at h lost miswritten garbled
  cases k with
  | messageStr =>
    exact garbled (.messageStr "a") (encodeField_plain rfl _) (armReads_letter S 2 _) (by simp [canon])
  | bool => exact miswritten (.bool true) (Nat.le_of_not_lt h) (encodeField_bool _ true) rfl rfl
  | optional inner =>
    by_cases text : inner = .messageStr
    · subst text
      exact garbled (.some (.messageStr "a")) (encodeField_some _ _) (armReads_someLetter S 2 _)
        (by simp [canon])
    have h : ¬ inner.readsOptional = true := fun reads => h ⟨reads, text⟩
    refine lost (.some (S.fieldDefault inner)) (textless_of_ne S text _) ?_ h
    have tag := tagBytes_length_le (S.field i).tag (wireTypeForKind_lt inner)
    rw [encodeField_some]
    cases inner <;>
      simp_all [CodecKind.writesOptional, Faithful, CodecKind.readsOptional, record, content,
        Schema.fieldDefault, delimited, Base128.encode_of_lt, isizeMax]
    omega
  | repeated inner =>
    by_cases text : inner = .messageStr
    · subst text
      refine garbled (.cons (.messageStr "a") .nil) ?_ (armReads_letterItem S 2) (by simp [canon])
      rw [encodeField_repeated]
      simp [repeatedBytes, FieldValue.items, isPackable, CodecKind.writesItem, wireTypeForKind]
    have h : ¬ inner.storesItem = true := fun stores => h ⟨stores, text⟩
    have quiet : silent (.cons (S.fieldDefault inner) .nil : S.Value (.repeated inner)) = true := by
      rw [silent, Bool.not_eq_true']
      exact Bool.not_eq_true _ ▸ h
    refine lost (.cons (S.fieldDefault inner) .nil) ?_ ?_ h
    · rw [legible, textless_of_ne S text]
      rfl
    rw [(encodeField_eq_nil _ _).2 quiet]
    exact Nat.zero_le _
  | message n =>
    have quiet : silent (.message (zeroedMessage (S.default n)) : S.Value _) = true :=
      silentMessage_zeroed (S.default n)
    refine lost (.message (zeroedMessage (S.default n))) ?_ ?_ ?_
    · simpa [legible] using legibleMessage_zeroed S (S.default n)
    · rw [(encodeField_eq_nil _ _).2 quiet]
      exact Nat.zero_le _
    · rintro ⟨same, -⟩
      have := congrArg silentMessage (same quiet)
      rw [silentMessage_canon, silentMessage_canon, silentMessage_zeroed] at this
      exact h this
  | _ => exact (h trivial).elim

/-- Every value comes back if and only if nothing in the schema loses one. -/
theorem allRoundTrip_iff :
    (∀ n (m : S.Msg n), (encodeToVec m).length ≤ isizeMax → RoundTrips S m) ↔ AllFaithful S := by
  constructor
  · intro trips
    have clear : ∀ n, S.shadowed n = false := by
      intro n
      by_contra hidden
      obtain ⟨m, fits, lost⟩ := shadowed_loses S (Bool.not_eq_false _ ▸ hidden)
      exact lost (trips n m fits)
    refine ⟨clear, fun n i => ?_⟩
    by_contra unfaithful
    obtain ⟨m, fits, lost⟩ := unfaithful_loses S (clear n) i unfaithful
    exact lost (trips n m fits)
  · intro all n m fits
    exact (roundTrips_iff_restorable S (legibleMessage_of_faithful S all m) fits).2
      (restorableMessage_of_faithful S all m)

end

/-! ## The round trip -/

/-- On a value without a `true` boolean under a tag from 16 on and without a text in a
`BytesStr` that is taken for a message, decoding the encoding gives the value back if and only
if everything set in it is of a kind the decoder stores (and a plain nested message that writes
nothing is the `Default` it is replaced with, and nothing is set beside a field named `bytes`).
Every value of every struct comes back if and only if no struct has a field named `bytes` and
every field is faithful. -/
theorem typewayDecode_encodeToVec_iff (S : Schema ι) :
    (∀ n (m : S.Msg n), (encodeToVec m).length ≤ isizeMax → legibleMessage m = true →
        (RoundTrips S m ↔ RestorableMessage S m)) ∧
      ((∀ n (m : S.Msg n), (encodeToVec m).length ≤ isizeMax → RoundTrips S m) ↔
        AllFaithful S) :=
  ⟨fun _ _ fits clean => roundTrips_iff_restorable S clean fits, allRoundTrip_iff S⟩

/-- A node with a child comes back. -/
theorem roundTrips_node :
    RoundTrips nodeSchema
      (node 300 (.consMessage (node 1 .nilMessage false) .nilMessage) false) := by
  refine ((typewayDecode_encodeToVec_iff nodeSchema).1 () _ (by decide) (by decide)).2 ?_
  intro i
  refine ⟨fun hidden => (Bool.false_ne_true hidden).elim, fun _ => ?_⟩
  match i with
  | ⟨0, _⟩ => trivial
  | ⟨1, _⟩ =>
    refine ⟨fun j => ⟨fun hidden => (Bool.false_ne_true hidden).elim, fun _ => ?_⟩, trivial⟩
    match j with
    | ⟨0, _⟩ => trivial
    | ⟨1, _⟩ => trivial
    | ⟨2, _⟩ => trivial
  | ⟨2, _⟩ => trivial

/-- A `true` flag under the tag 16 is written as `[0x80, 1]`, which does not decode. -/
theorem not_roundTrips_flag : ¬ RoundTrips nodeSchema (node 0 .nilMessage true) := by
  rintro ⟨w, run, -⟩
  have eof : typewayDecode nodeSchema () (encodeToVec (node 0 .nilMessage true)) =
      .error (.err .unexpectedEof) := rfl
  rw [eof] at run
  cases run

end Typeway.Macros
