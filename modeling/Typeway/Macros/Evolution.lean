import Typeway.Macros.RoundTrip
import Typeway.Macros.WireFields

/-!
# Fields a struct does not expect

The encoding of a message with fields of other numbers put between its own, at any depth, decodes
to what the encoding alone decodes to. A field of a known number whose wire type is not one of its
kind is another matter: the arms read what their kind asks for, and so may run past its end.
-/

namespace Typeway.Macros

open Checked Protobuf

variable {ι : Type} {Γ : ι → List (CodecField ι)}

/-! ## Encodings with other fields in between -/

/-- The records of a field that holds no message. Strings of a `Vec` take one record each. -/
def fieldRecords (tag : UInt32) : {k : CodecKind ι} → FieldValue Γ k → List (List UInt8)
  | .repeated k, v =>
    if isPackable k then [encodeField tag v]
    else if k.writesItem then v.items.map (record tag)
    else []
  | _, v => [encodeField tag v]

section

variable (S : Schema ι)

/-- The records in their order, with fields the struct `n` does not have in between. The flag
says whether one of these is a group. -/
inductive Inserted (n : ι) : List (List UInt8) → List UInt8 → Bool → Prop where
  | done : Inserted n [] [] false
  | record {records : List (List UInt8)} {bytes : List UInt8} {grouped : Bool} (r : List UInt8)
      (rest : Inserted n records bytes grouped) : Inserted n (r :: records) (r ++ bytes) grouped
  | unknown {records : List (List UInt8)} {l bytes : List UInt8} {group grouped : Bool}
      (field : UnknownField S n group l) (rest : Inserted n records bytes grouped) :
      Inserted n records (l ++ bytes) (group || grouped)

mutual

/-- The records of a field, its nested messages padded. -/
def PaddedField (tag : UInt32) : {k : CodecKind ι} → S.Value k → List (List UInt8) → Bool → Prop
  | _, .message m, records, grouped =>
    if silentMessage m then records = [] ∧ grouped = false
    else ∃ bytes, Padded m bytes grouped ∧ records = [tagBytes tag 2 ++ delimited bytes]
  | _, .someMessage m, records, grouped =>
    ∃ bytes, Padded m bytes grouped ∧ records = [tagBytes tag 2 ++ delimited bytes]
  | _, .nilMessage, records, grouped => records = [] ∧ grouped = false
  | _, .consMessage m ms, records, grouped =>
    ∃ bytes group records' grouped', Padded m bytes group ∧ PaddedField tag ms records' grouped' ∧
      records = (tagBytes tag 2 ++ delimited bytes) :: records' ∧ grouped = (group || grouped')
  | _, v, records, grouped => records = fieldRecords tag v ∧ grouped = false

/-- The encoding of a message with unknown fields put between its own, and between those of its
nested messages. The flag says whether a decoder meets a group among them, which it does not
within a struct whose input is hidden from it. -/
def Padded : {n : ι} → S.Msg n → List UInt8 → Bool → Prop
  | n, .mk fields, bytes, grouped =>
    ∃ (records : S.Pos n → List (List UInt8)) (groups : S.Pos n → Bool) (group : Bool),
      (∀ i, PaddedField (S.field i).tag (fields i) (records i) (groups i)) ∧
        Inserted S n ((List.finRange (S.fields n).length).flatMap records) bytes group ∧
        grouped = (!S.shadowed n && (group || (List.finRange (S.fields n).length).any groups))

end

/-! ## Records that are read or refused -/

/-- The records one after the other turn the variables `F` into `F'`, or the flag is set and the
loop fails on one of them. -/
inductive RecordsRead (n : ι) : List (List UInt8) → Bool → S.Fields n → S.Fields n → Prop where
  | done (F : S.Fields n) : RecordsRead n [] false F F
  | read {r : List UInt8} {records : List (List UInt8)} {grouped : Bool} {F mid F' : S.Fields n}
      (here : Reads S n r F mid) (rest : RecordsRead n records grouped mid F') :
      RecordsRead n (r :: records) grouped F F'
  | breaks {r : List UInt8} {F : S.Fields n} (here : Breaks S n r F)
      (records : List (List UInt8)) (F' : S.Fields n) : RecordsRead n (r :: records) true F F'

variable {S} {n : ι}

theorem RecordsRead.append {records records' : List (List UInt8)} {grouped grouped' : Bool}
    {F mid F' : S.Fields n} (h : RecordsRead S n records grouped F mid)
    (h' : RecordsRead S n records' grouped' mid F') :
    RecordsRead S n (records ++ records') (grouped || grouped') F F' := by
  induction h with
  | done F => exact h'
  | read here _ ih => exact .read here (ih h')
  | breaks here records _ => exact .breaks here (records ++ records') F'

/-- The bytes read or refused as the records are. -/
theorem RecordsRead.inserted {records : List (List UInt8)} {bytes : List UInt8}
    {group : Bool} (ins : Inserted S n records bytes group) :
    ∀ {grouped : Bool} {F F' : S.Fields n}, RecordsRead S n records grouped F F' →
      if group || grouped then Breaks S n bytes F else Reads S n bytes F F' := by
  induction ins with
  | done =>
    intro grouped F F' h
    cases h
    exact .nil S F
  | @record records bytes group r _ ih =>
    intro grouped F F' h
    cases h with
    | read here rest =>
      have rest := ih rest
      split at rest
      · rename_i broken
        rw [if_pos broken]
        exact here.breaks rest
      · rename_i whole
        rw [if_neg whole]
        exact here.append rest
    | breaks here =>
      rw [Bool.or_true, if_pos rfl]
      exact here.left
  | @unknown records l bytes group grouped' field _ ih =>
    intro grouped F F' h
    cases group with
    | true => exact (Breaks.unknown field F).left
    | false =>
      have rest := ih h
      rw [Bool.false_or]
      split at rest
      · rename_i broken
        rw [if_pos broken]
        exact (Reads.unknown field F).breaks rest
      · rename_i whole
        rw [if_neg whole]
        exact (Reads.unknown field F).append rest

/-! ## One field of an encoding -/

variable (S) in
/-- `RecordsRead` for the records of one field. -/
inductive FieldRead (k : CodecKind ι) (tag : UInt32) :
    List (List UInt8) → Bool → S.Value k → S.Value k → Prop where
  | done (cur : S.Value k) : FieldRead k tag [] false cur cur
  | read {r : List UInt8} {records : List (List UInt8)} {grouped : Bool} {cur mid new : S.Value k}
      (here : ArmsRead S k tag r cur mid) (rest : FieldRead k tag records grouped mid new) :
      FieldRead k tag (r :: records) grouped cur new
  | breaks {wireType : UInt8} {l : List UInt8} {cur : S.Value k} (hwt : wireType.toNat < 8)
      (here : ArmRefuses S k wireType l cur) (records : List (List UInt8)) (new : S.Value k) :
      FieldRead k tag ((tagBytes tag wireType ++ l) :: records) true cur new

theorem FieldRead.one {k : CodecKind ι} {tag : UInt32} {r : List UInt8} {cur new : S.Value k}
    (h : ArmsRead S k tag r cur new) : FieldRead S k tag [r] false cur new :=
  .read h (.done new)

theorem FieldRead.records (i : S.Pos n) {records : List (List UInt8)} {grouped : Bool}
    {cur new : S.Value (S.field i).kind}
    (h : FieldRead S _ (S.field i).tag records grouped cur new) :
    ∀ {F : S.Fields n}, F i = cur → RecordsRead S n records grouped F (Function.update F i new) := by
  induction h with
  | done cur =>
    intro F here
    subst here
    rw [Function.update_eq_self]
    exact .done F
  | read here _ ih =>
    intro F start
    have first := here.reads S i start
    have rest := ih (Function.update_self i _ F)
    rw [Function.update_idem] at rest
    exact .read first rest
  | breaks hwt here records new =>
    intro F start
    subst start
    exact .breaks (.tagged i hwt (spells_tagBytes hwt _) here) records _

theorem fieldRead_items {k : CodecKind ι} (tag : UInt32) (single : isPackable k = false)
    (writes : k.writesItem = true) (l : List (S.Value k)) (empty : ∀ v ∈ l, textless v = true) :
    ∀ cur, FieldRead S (.repeated k) tag (l.map (record tag)) false cur (pushAll cur l) := by
  induction l with
  | nil => exact fun cur => .done cur
  | cons item l ih =>
    intro cur
    have spelled := spelled_content (writesOptional_of_writesItem writes)
      (empty item List.mem_cons_self)
    have arm := armReads_item S single writes (wireTypeForKind k) spelled cur
    exact .read (.one S (wireTypeForKind_lt k) arm)
      (ih (fun v mem => empty v (List.mem_cons_of_mem _ mem)) _)

theorem fieldRead_repeated {k : CodecKind ι} (tag : UInt32) (v cur : S.Value (.repeated k))
    (clean : legible tag v = true) :
    FieldRead S (.repeated k) tag (fieldRecords tag v) false cur (absorb S cur v) := by
  rw [fieldRecords]
  cases packable : isPackable k with
  | true =>
    rw [if_pos rfl]
    exact .one (armsRead_field S tag v clean cur)
  | false =>
    rw [if_neg (by simp)]
    have stores : k.storesItem = k.writesItem := by rw [CodecKind.storesItem, packable, Bool.false_or]
    cases writes : k.writesItem with
    | true =>
      have read := fieldRead_items tag packable writes v.items (textless_items S v clean) cur
      cases v with
      | nil =>
        rw [FieldValue.items] at read
        rw [absorb_of_silent S cur _ rfl, if_pos rfl, FieldValue.items]
        exact read
      | cons item items =>
        rw [FieldValue.items] at read
        rw [absorb, stores, writes, if_pos rfl, FieldValue.items]
        exact read
    | false =>
      have same : absorb S cur v = cur := by
        cases v with
        | nil => exact absorb_of_silent S cur _ rfl
        | cons item items => rw [absorb, stores, writes, if_neg (by simp)]
      rw [same]
      exact .done cur

/-- The arms of a nested message, padded or with a group in it. -/
theorem fieldRead_message {tag : UInt32} {payload : List UInt8} {grouped : Bool} {w : S.Msg n}
    (nested : payload.length ≤ isizeMax → typewayDecode S n payload = outcome grouped w) :
    (∀ cur, FieldRead S (.message n) tag [tagBytes tag 2 ++ delimited payload] grouped cur
        (.message w)) ∧
      (∀ cur, FieldRead S (.optionalMessage n) tag [tagBytes tag 2 ++ delimited payload] grouped cur
        (.someMessage w)) ∧
      ∀ (cur new : S.Value (.repeatedMessage n)) records grouped',
        FieldRead S (.repeatedMessage n) tag records grouped' (cur.pushMessage w) new →
        FieldRead S (.repeatedMessage n) tag ((tagBytes tag 2 ++ delimited payload) :: records)
          (grouped || grouped') cur new := by
  cases grouped with
  | true =>
    obtain ⟨plain, optional, repeated⟩ := armRefuses_message (framed_delimited _) nested 2
    refine ⟨fun cur => ?_, fun cur => ?_, fun cur new records grouped' _ => ?_⟩
    · exact .breaks len_lt (plain cur) [] _
    · exact .breaks len_lt (optional cur) [] _
    · exact .breaks len_lt (repeated cur) records new
  | false =>
    obtain ⟨plain, optional, repeated⟩ := armReads_message S (framed_delimited _) nested 2
    refine ⟨fun cur => ?_, fun cur => ?_, fun cur new records grouped' rest => ?_⟩
    · exact .one (.one S len_lt (plain cur))
    · exact .one (.one S len_lt (optional cur))
    · exact .read (.one S len_lt (repeated cur)) (by rwa [Bool.false_or])

/-- The records of some fields, each field's together. -/
theorem recordsRead_fields {records : S.Pos n → List (List UInt8)} {groups : S.Pos n → Bool}
    {new : S.Fields n} {l : List (S.Pos n)} (nodup : l.Nodup) (F : S.Fields n)
    (each : ∀ i ∈ l, FieldRead S _ (S.field i).tag (records i) (groups i) (F i) (new i)) :
    RecordsRead S n (l.flatMap records) (l.any groups) F fun j => if j ∈ l then new j else F j := by
  induction l generalizing F with
  | nil =>
    simp only [List.not_mem_nil, if_false]
    exact .done F
  | cons i l ih =>
    obtain ⟨fresh, nodup⟩ := List.nodup_cons.1 nodup
    have first := (each i List.mem_cons_self).records i rfl
    have rest := ih nodup (Function.update F i (new i)) fun j mem => by
      have ne : j ≠ i := fun e => fresh (e ▸ mem)
      rw [Function.update_of_ne ne]
      exact each j (List.mem_cons_of_mem _ mem)
    rw [update_turned S] at rest
    rw [List.flatMap_cons, List.any_cons]
    exact first.append rest

mutual

theorem fieldRead_padded (tag : UInt32) {k : CodecKind ι} (v : S.Value k)
    (clean : legible tag v = true) {records : List (List UInt8)} {grouped : Bool}
    (padded : PaddedField S tag v records grouped) (cur : S.Value k) :
    FieldRead S k tag records grouped cur (absorb S cur v) := by
  cases v with
  | nil =>
    obtain ⟨rfl, rfl⟩ := padded
    exact fieldRead_repeated tag _ cur clean
  | cons item items =>
    obtain ⟨rfl, rfl⟩ := padded
    exact fieldRead_repeated tag _ cur clean
  | message m =>
    rw [PaddedField] at padded
    rw [absorb]
    split at padded
    · rename_i quiet
      obtain ⟨rfl, rfl⟩ := padded
      rw [if_pos quiet]
      exact .done cur
    · rename_i loud
      obtain ⟨bytes, inner, rfl⟩ := padded
      have nested := typewayDecode_padded m (by simpa [legible] using clean) inner
      rw [if_neg loud]
      exact (fieldRead_message nested).1 cur
  | someMessage m =>
    rw [PaddedField] at padded
    obtain ⟨bytes, inner, rfl⟩ := padded
    have nested := typewayDecode_padded m (by simpa [legible] using clean) inner
    rw [absorb]
    exact (fieldRead_message nested).2.1 cur
  | nilMessage =>
    rw [PaddedField] at padded
    obtain ⟨rfl, rfl⟩ := padded
    rw [absorb_of_silent S cur _ rfl]
    exact .done cur
  | consMessage m ms =>
    rw [PaddedField] at padded
    obtain ⟨bytes, group, records', grouped', inner, others, rfl, rfl⟩ := padded
    have parts : legibleMessage m = true ∧ legible tag ms = true := by
      simpa [legible] using clean
    have nested := typewayDecode_padded m parts.1 inner
    rw [absorb]
    exact (fieldRead_message nested).2.2 cur _ records' grouped'
      (fieldRead_padded tag ms parts.2 others _)
  | _ =>
    obtain ⟨rfl, rfl⟩ := padded
    exact .one (armsRead_field S tag _ clean cur)

theorem typewayDecode_padded {n : ι} :
    (m : S.Msg n) → legibleMessage m = true → ∀ {bytes : List UInt8} {grouped : Bool},
      Padded S m bytes grouped → bytes.length ≤ isizeMax →
        typewayDecode S n bytes = outcome grouped (restored S m)
  | .mk fields, clean, bytes, grouped, padded, small => by
    have each := fun i => fieldRead_padded (S.field i).tag (fields i)
    rw [legibleMessage, List.all_eq_true] at clean
    rw [Padded] at padded
    obtain ⟨records, groups, group, nested, inserted, rfl⟩ := padded
    rw [restored]
    cases hidden : S.shadowed n with
    | true =>
      rw [typewayDecode_shadowed S hidden]
      rfl
    | false =>
    simp only [Bool.not_false, Bool.true_and, Bool.false_eq_true, if_false]
    have all := recordsRead_fields (List.nodup_finRange _) (S.fieldDefaults n) fun i _ =>
      each i (clean i (List.mem_finRange i)) (nested i) (S.fieldDefaults n i)
    simp only [List.mem_finRange, if_true] at all
    have run := RecordsRead.inserted inserted all
    rw [outcome]
    split at run
    · rename_i broken
      rw [if_pos broken, typewayDecode_eq, S.visible_of_not hidden, DecodeState.start,
        run bytes 0 small (.whole bytes), error_bind]
    · rename_i whole
      rw [if_neg whole]
      exact typewayDecode_of_reads S hidden small run

end

/-! ## The encoding itself -/

theorem Inserted.nothing (records : List (List UInt8)) :
    Inserted S n records records.flatten false := by
  induction records with
  | nil => exact .done
  | cons r records ih => exact .record r ih

theorem fieldRecords_flatten (tag : UInt32) {k : CodecKind ι} (v : FieldValue Γ k) :
    (fieldRecords tag v).flatten = encodeField tag v := by
  cases k with
  | repeated k =>
    rw [fieldRecords, encodeField_repeated, repeatedBytes]
    cases isPackable k with
    | true => simp
    | false =>
      cases k.writesItem with
      | true => simp [List.flatten_eq_flatMap, List.flatMap_map, record]
      | false => rfl
  | _ => simp [fieldRecords]

mutual

theorem paddedField_encodeField (tag : UInt32) {k : CodecKind ι} (v : S.Value k) :
    ∃ records, PaddedField S tag v records false ∧ records.flatten = encodeField tag v := by
  cases v with
  | message m =>
    have inner := padded_encodeToVec m
    rw [encodeField_message]
    simp only [PaddedField]
    cases quiet : silentMessage m with
    | true =>
      rw [(encodeToVec_eq_nil m).2 quiet]
      exact ⟨[], by simp, rfl⟩
    | false =>
      have loud : encodeToVec m ≠ [] := fun e => by simp [(encodeToVec_eq_nil m).1 e] at quiet
      rw [if_neg (by simpa using loud)]
      simp only [if_neg Bool.false_ne_true]
      exact ⟨_, ⟨_, inner, rfl⟩, List.append_nil _⟩
  | someMessage m =>
    have inner := padded_encodeToVec m
    rw [encodeField_someMessage]
    simp only [PaddedField]
    exact ⟨_, ⟨_, inner, rfl⟩, List.append_nil _⟩
  | nilMessage => exact ⟨[], by simp [PaddedField], rfl⟩
  | consMessage m ms =>
    have inner := padded_encodeToVec m
    obtain ⟨records, others, flat⟩ := paddedField_encodeField tag ms
    rw [encodeField_consMessage, ← flat]
    simp only [PaddedField]
    exact ⟨_, ⟨_, _, _, _, inner, others, rfl, rfl⟩, rfl⟩
  | _ => exact ⟨_, ⟨rfl, rfl⟩, fieldRecords_flatten tag _⟩

theorem padded_encodeToVec {n : ι} : (m : S.Msg n) → Padded S m (encodeToVec m) false
  | .mk fields => by
    have each := fun i => paddedField_encodeField (S.field i).tag (fields i)
    choose records padded flat using each
    have inserted := Inserted.nothing (S := S) (n := n)
      ((List.finRange (S.fields n).length).flatMap records)
    rw [Padded]
    refine ⟨records, fun _ => false, false, padded, ?_, by simp⟩
    rw [encodeToVec_mk]
    rw [List.flatten_eq_flatMap, List.flatMap_assoc] at inserted
    simpa only [← List.flatten_eq_flatMap, flat] using inserted

end

/-- One more field in front. -/
theorem Padded.front {m : S.Msg n} {l bytes : List UInt8} {grouped : Bool}
    (padded : Padded S m bytes grouped) (field : UnknownField S n false l) :
    Padded S m (l ++ bytes) grouped := by
  cases m with
  | mk fields =>
    rw [Padded] at padded ⊢
    obtain ⟨records, groups, group', nested, inserted, rfl⟩ := padded
    exact ⟨records, groups, group', nested, .unknown field inserted, rfl⟩

/-- Decoding the bytes gives the message, floats compared by value. -/
def DecodesTo {n : ι} (m : S.Msg n) (bytes : List UInt8) : Prop :=
  ∃ w, typewayDecode S n bytes = .ok w ∧ SameMessage w m

/-- Fields of other numbers change nothing, and a group among them is an error. -/
theorem decodesTo_padded_iff {m : S.Msg n} (clean : legibleMessage m = true)
    {bytes : List UInt8} {grouped : Bool} (padded : Padded S m bytes grouped)
    (small : bytes.length ≤ isizeMax) :
    DecodesTo m bytes ↔ grouped = false ∧ RestorableMessage S m := by
  rw [DecodesTo, typewayDecode_padded m clean padded small, ← canon_restored_iff, outcome]
  cases grouped with
  | true => simp
  | false => simp [SameMessage]

/-! ## Known numbers under other wire types -/

/-- The wire types a field of the kind can have. -/
def CodecKind.admits (k : CodecKind ι) (wireType : UInt8) : Bool :=
  match k with
  | .repeated inner => wireType == wireTypeForKind inner || (isPackable inner && wireType == 2)
  | k => wireType == wireTypeForKind k

/-- The kinds whose arm stores what it reads. The other arms skip a value of any wire type. -/
def CodecKind.stores : CodecKind ι → Bool
  | .optional inner => inner.readsOptional
  | .repeated inner => inner.storesItem
  | _ => true

variable (S) in
/-- No turn of the loop that starts within the field with the value `l` ends behind it, whatever
stands in front of the field and behind it. -/
def KeepsStep (i : S.Pos n) (wireType : UInt8) (l : List UInt8) : Prop :=
  ∀ pre t post bytes : List UInt8, Spells t (tagWord (S.field i).tag wireType) →
    bytes = S.visible n (pre ++ (t ++ l) ++ post) → (pre ++ (t ++ l) ++ post).length ≤ isizeMax →
    ∀ (F : S.Fields n) (s : DecodeState S n),
      Passes (fun s : DecodeState S n => decide (s.offset < bytes.length))
        (decodeStep S (typewayDecode S) n bytes) ⟨pre.length, F⟩ s →
      s.offset < bytes.length → s.offset < pre.length + (t ++ l).length →
      Ensures (decodeStep S (typewayDecode S) n bytes s) fun s' =>
        s'.offset ≤ pre.length + (t ++ l).length

/-- The arms that store nothing are the skipping one. -/
theorem genDecodeArm_skips {k : CodecKind ι} (skips : k.stores = false) (ident : String)
    (wireType : UInt8) (bytes : List UInt8) (offset : Nat) (cur : S.Value k) :
    genDecodeArm (typewayDecode S) ident wireType bytes offset k cur =
      store (skipValue wireType bytes offset) fun _ => cur := by
  cases k with
  | optional inner => cases inner <;> first | rfl | cases skips
  | repeated inner => cases inner <;> first | rfl | cases skips
  | _ => cases skips

/-- Behind the first turn, the loop is where it ended or further on. -/
theorem passes_first {bytes : List UInt8} {s t : DecodeState S n}
    (h : Passes (fun s : DecodeState S n => decide (s.offset < bytes.length))
      (decodeStep S (typewayDecode S) n bytes) s t) :
    t = s ∨ ∃ s', decodeStep S (typewayDecode S) n bytes s = .ok s' ∧ s'.offset ≤ t.offset := by
  induction h with
  | start => exact .inl rfl
  | @next t t' _ _ run ih =>
    right
    rcases ih with rfl | ⟨s', first, le⟩
    · exact ⟨t', run, le_refl _⟩
    · obtain ⟨tagWire, start, turn⟩ := decodeStep_turn S run
      have low := turn.low
      have past := turn.past
      exact ⟨s', first, by omega⟩

/-- A decoder that does not see its input makes no turn. -/
theorem keepsStep_of_shadowed (hidden : S.shadowed n = true) (i : S.Pos n) (wireType : UInt8)
    (l : List UInt8) : KeepsStep S i wireType l := by
  intro pre t post bytes _ e _ F s _ going
  rw [S.visible_of_shadowed hidden] at e
  subst e
  cases going

theorem keepsStep_of_skips {i : S.Pos n} (skips : (S.field i).kind.stores = false)
    {wireType : UInt8} {l : List UInt8} (value : WireValue (S.field i).tag wireType l) :
    KeepsStep S i wireType l := by
  cases hidden : S.shadowed n with
  | true => exact keepsStep_of_shadowed hidden i wireType l
  | false =>
  intro pre t post bytes spells e small F s passes _ within
  rw [S.visible_of_not hidden] at e
  subst e
  have here := At.middle pre (t ++ l) post
  -- the first turn ends behind the field or not at all
  have first : Ensures (decodeStep S (typewayDecode S) n (pre ++ (t ++ l) ++ post) ⟨pre.length, F⟩)
      fun s' => s'.offset = pre.length + (t ++ l).length := by
    rw [decodeStep_tagged value.lt spells small here.left, findField_tag]
    dsimp only
    rw [genDecodeArm_skips skips]
    by_cases group : wireType = 3
    · have low : pre.length + t.length ≤ (pre ++ (t ++ l) ++ post).length := here.left.bound
      subst group
      rw [skipValue_group low]
      exact .error _
    · rw [skipValue_value small value group here.right]
      exact .ok (by simp only [List.length_append]; omega)
  rcases passes_first passes with rfl | ⟨s', run, le⟩
  · exact first.mono fun s' e => e.le
  · have := first s' run
    omega

variable (S) in
/-- The arm of the kind reads past the end of some value it does not expect. -/
def Overreads (k : CodecKind ι) : Prop :=
  ∃ wireType l x, k.admits wireType = false ∧ (∀ tag, WireValue tag wireType l) ∧ x ≠ [] ∧
    l.length + x.length ≤ 9 ∧ ∀ cur : S.Value k, ∃ new, ArmReads S k wireType (l ++ x) cur new

variable (S) in
/-- The arm of the kind stores what `read` gives under the wire type. -/
def ArmStores {α : Type} (k : CodecKind ι) (wireType : UInt8)
    (read : String → List UInt8 → Nat → Run TypewayDecodeError (α × Nat)) : Prop :=
  ∀ cur : S.Value k, ∃ f : α → S.Value k, ∀ ident bytes offset,
    genDecodeArm (typewayDecode S) ident wireType bytes offset k cur =
      store (read ident bytes offset) f

theorem overreads_of {α : Type} {k : CodecKind ι} {wireType : UInt8} {l x : List UInt8} {a : α}
    {read : String → List UInt8 → Nat → Run TypewayDecodeError (α × Nat)}
    (refused : k.admits wireType = false) (value : ∀ tag, WireValue tag wireType l) (ne : x ≠ [])
    (short : l.length + x.length ≤ 9)
    (reads : ∀ ident bytes offset, bytes.length ≤ isizeMax → At bytes offset (l ++ x) →
      read ident bytes offset = .ok (a, offset + (l ++ x).length))
    (stores : ArmStores S k wireType read) : Overreads S k := by
  refine ⟨wireType, l, x, refused, value, ne, short, fun cur => ?_⟩
  obtain ⟨f, arm⟩ := stores cur
  refine ⟨f a, fun ident bytes offset small h => ?_⟩
  rw [arm, reads ident bytes offset small h]
  rfl

/-- Four or eight bytes none of which ends a varint. -/
theorem overreads_varint {k : CodecKind ι} {wireType : UInt8} {l : List UInt8} {v : UInt64}
    (refused : k.admits wireType = false) (value : ∀ tag, WireValue tag wireType l)
    (short : l.length ≤ 8) (spells : Spells (l ++ [0]) v)
    (stores : ArmStores S k wireType fun _ => readVarint) : Overreads S k :=
  overreads_of refused value (x := [0]) (by simp) (by rw [List.length_singleton]; omega)
    (fun _ _ _ small h => readVarint_spelled small spells h) stores

theorem spells_wide32 : Spells ([0x80, 0x80, 0x80, 0x80] ++ [0]) 0 :=
  ⟨.more (by decide) (.more (by decide) (.more (by decide) (.more (by decide)
    (.last (by decide))))), by decide, by decide⟩

theorem spells_wide64 : Spells ([0x80, 0x80, 0x80, 0x80, 0x80, 0x80, 0x80, 0x80] ++ [0]) 0 :=
  ⟨.more (by decide) (.more (by decide) (.more (by decide) (.more (by decide)
    (.more (by decide) (.more (by decide) (.more (by decide) (.more (by decide)
      (.last (by decide))))))))), by decide, by decide⟩

/-- A varint of one byte where a word stands. -/
theorem overreads_word {k : CodecKind ι} (width : Nat) (more : 0 < width) (short : width ≤ 7)
    (refused : k.admits 0 = false)
    (stores : ArmStores S k 0 fun _ => readFixed (width + 1)) : Overreads S k := by
  have some : List.replicate width (0 : UInt8) ≠ [] := by
    rw [← List.length_pos_iff, List.length_replicate]
    exact more
  refine overreads_of (a := [0] ++ List.replicate width 0) refused (fun _ => .varint spells_zero)
    some (by rw [List.length_replicate, List.length_singleton]; omega) ?_ stores
  intro ident bytes offset small h
  have := readFixed_at small h
  simpa [Nat.add_comm 1 width] using this

/-- The varint of a length where a delimited value stands. -/
theorem overreads_len {α : Type} {k : CodecKind ι} (payload : List UInt8) {a : α}
    {read : String → List UInt8 → Nat → Run TypewayDecodeError (α × Nat)} (some : payload ≠ [])
    (short : payload.length ≤ 8) (refused : k.admits 0 = false)
    (reads : ∀ ident bytes offset, bytes.length ≤ isizeMax → At bytes offset (delimited payload) →
      read ident bytes offset = .ok (a, offset + (delimited payload).length))
    (stores : ArmStores S k 0 read) : Overreads S k := by
  have low : payload.length % 2 ^ 64 < 128 := by omega
  have spelled : delimited payload = [UInt8.ofNat (payload.length % 2 ^ 64)] ++ payload := by
    rw [delimited, Base128.encode_of_lt low]
  rw [spelled] at reads
  refine overreads_of refused (fun _ => ?_) some (by rw [List.length_singleton]; omega) reads stores
  rw [← Base128.encode_of_lt low]
  have word := spells_encode (UInt64.ofNat (payload.length % 2 ^ 64))
  rw [UInt64.toNat_ofNat', Nat.mod_mod] at word
  exact .varint word

theorem overreads_string {k : CodecKind ι} (refused : k.admits 0 = false)
    (stores : ArmStores S k 0 readString) : Overreads S k :=
  overreads_len (Utf8.encode "a") (by decide) (by decide) refused
    (fun ident _ _ small h => readString_framed small (framed_delimited _) h ident) stores

theorem overreads_text {k : CodecKind ι} (refused : k.admits 0 = false)
    (stores : ArmStores S k 0 fun _ => readMessage bytesStrDecode) : Overreads S k :=
  overreads_len (Utf8.encode "a") (by decide) (by decide) refused
    (fun _ _ _ small h => readMessage_text small (framed_delimited _) h) stores

theorem overreads_message {k : CodecKind ι} {n : ι} (refused : k.admits 0 = false)
    (stores : ArmStores S k 0 fun _ => readMessage (typewayDecode S n)) : Overreads S k := by
  have nested : typewayDecode S n [0, 0] = .ok (.mk (S.fieldDefaults n)) := by
    cases hidden : S.shadowed n with
    | true => exact typewayDecode_shadowed S hidden _
    | false =>
      exact typewayDecode_of_reads S hidden (by decide)
        (.unknown (unknownField_zero spells_zero) _)
  refine overreads_len [0, 0] (a := .mk (S.fieldDefaults n)) (by decide) (by decide)
    refused ?_ stores
  intro ident bytes offset small h
  rw [(readMessage_nested S n small (framed_delimited _) h).2, nested]
  rfl

/-- Every arm that stores what it reads does so as its kind asks for. -/
theorem overreads_of_stores {k : CodecKind ι} (stores : k.stores = true) : Overreads S k := by
  have four : ∀ tag, WireValue tag 5 [0x80, 0x80, 0x80, 0x80] := fun _ => .fixed32 rfl
  have eight : ∀ tag, WireValue tag 1 [0x80, 0x80, 0x80, 0x80, 0x80, 0x80, 0x80, 0x80] :=
    fun _ => .fixed64 rfl
  cases k with
  | varint ty | bool =>
    apply overreads_varint rfl four (by decide) spells_wide32
    exact fun cur => ⟨_, fun _ _ _ => by rw [genDecodeArm]⟩
  | fixed32 =>
    apply overreads_word 3 (by omega) (by omega) rfl
    exact fun cur => ⟨_, fun _ _ _ => by rw [genDecodeArm]⟩
  | fixed64 =>
    apply overreads_word 7 (by omega) (by omega) rfl
    exact fun cur => ⟨_, fun _ _ _ => by rw [genDecodeArm]⟩
  | lenString | lenBytesStr =>
    apply overreads_string rfl
    exact fun cur => ⟨_, fun _ _ _ => by rw [genDecodeArm]⟩
  | messageStr =>
    apply overreads_text rfl
    exact fun cur => ⟨_, fun _ _ _ => by rw [genDecodeArm]⟩
  | lenBytes =>
    apply overreads_len [0] (by decide) (by decide) rfl
      fun _ _ _ small h => readLen_at small h
    exact fun cur => ⟨_, fun _ _ _ => by rw [genDecodeArm]⟩
  | message n | optionalMessage n | repeatedMessage n =>
    apply overreads_message (n := n) rfl
    exact fun cur => ⟨_, fun _ _ _ => by rw [genDecodeArm]⟩
  | optional inner =>
    cases inner with
    | varint ty | bool =>
      apply overreads_varint rfl four (by decide) spells_wide32
      exact fun cur => ⟨_, fun _ _ _ => by rw [genDecodeArm, genDecodeOptionalInner]⟩
    | fixed32 =>
      apply overreads_word 3 (by omega) (by omega) rfl
      exact fun cur => ⟨_, fun _ _ _ => by rw [genDecodeArm, genDecodeOptionalInner]⟩
    | fixed64 =>
      apply overreads_word 7 (by omega) (by omega) rfl
      exact fun cur => ⟨_, fun _ _ _ => by rw [genDecodeArm, genDecodeOptionalInner]⟩
    | lenString | lenBytesStr =>
      apply overreads_string rfl
      exact fun cur => ⟨_, fun _ _ _ => by rw [genDecodeArm, genDecodeOptionalInner]⟩
    | messageStr =>
      apply overreads_text rfl
      exact fun cur => ⟨_, fun _ _ _ => by rw [genDecodeArm, genDecodeOptionalInner]⟩
    | _ => cases stores
  | repeated inner =>
    cases inner with
    | varint ty | bool | fixed64 =>
      apply overreads_varint rfl four (by decide) spells_wide32
      exact fun cur => ⟨_, fun _ _ _ => by
        rw [genDecodeArm, genDecodeRepeated, decodePacked, if_neg (by decide)]⟩
    | fixed32 =>
      apply overreads_varint rfl eight (by decide) spells_wide64
      exact fun cur => ⟨_, fun _ _ _ => by
        rw [genDecodeArm, genDecodeRepeated, decodePacked, if_neg (by decide)]⟩
    | lenString | lenBytesStr =>
      apply overreads_string rfl
      exact fun cur => ⟨_, fun _ _ _ => by
        rw [genDecodeArm, genDecodeRepeated, genDecodeRepeatedItem]
        all_goals simp⟩
    | messageStr =>
      apply overreads_text rfl
      exact fun cur => ⟨_, fun _ _ _ => by
        rw [genDecodeArm, genDecodeRepeated, genDecodeRepeatedItem]
        all_goals simp⟩
    | _ => cases stores

theorem not_keepsStep_of_stores (clear : S.shadowed n = false) {i : S.Pos n} (stores : (S.field i).kind.stores = true) :
    ∃ wireType l, (S.field i).kind.admits wireType = false ∧
      WireValue (S.field i).tag wireType l ∧ ¬ KeepsStep S i wireType l := by
  obtain ⟨wireType, l, x, refused, value, ne, short, arm⟩ := overreads_of_stores (S := S) stores
  refine ⟨wireType, l, refused, value _, fun keeps => ?_⟩
  have hwt := (value (S.field i).tag).lt
  have spells := spells_tagBytes hwt (S.field i).tag
  have tag := tagBytes_length_le (S.field i).tag hwt
  obtain ⟨new, arm⟩ := arm (S.fieldDefaults n i)
  have small : ([] ++ (tagBytes (S.field i).tag wireType ++ l) ++ x).length ≤ isizeMax := by
    simp only [List.length_append, List.length_nil, isizeMax]
    omega
  have here : At ([] ++ (tagBytes (S.field i).tag wireType ++ l) ++ x) 0
      (tagBytes (S.field i).tag wireType ++ (l ++ x)) := by
    rw [List.nil_append, List.append_assoc]
    exact .whole _
  have run := decodeStep_known i hwt spells (s := .start S n) arm small here
  have pos := spells.length_pos
  have ends := keeps [] _ x _ spells (S.visible_of_not clear _).symm small _ (.start S n) .start
    (by simp only [DecodeState.start, List.length_append]; omega)
    (by simp only [DecodeState.start, List.length_append]; omega) _ run
  have more := List.length_pos_iff.2 ne
  simp only [DecodeState.start, List.length_append, List.length_nil] at ends
  omega

end

/-! ## Fields between others -/

/-- Put between the fields of an encoding, at any depth,
fields of other numbers leave the result `Ok(m)` if and only if none of them is a group and `m`
comes back without them, and for every message if and only if no struct of the schema has a field
named `bytes` and every field is faithful. A field of a known number under a wire type its kind
cannot have never makes the loop run past the field's end if and only if the kind's arm stores
nothing, or the loop makes no turn at all. -/
theorem evolves_iff (S : Schema ι) :
    (∀ n (m : S.Msg n) bytes grouped, bytes.length ≤ isizeMax → legibleMessage m = true →
        Padded S m bytes grouped →
        (DecodesTo m bytes ↔ grouped = false ∧ RestorableMessage S m)) ∧
      ((∀ n (m : S.Msg n) bytes, bytes.length ≤ isizeMax → Padded S m bytes false →
        DecodesTo m bytes) ↔ AllFaithful S) ∧
      ∀ n (i : S.Pos n),
        (∀ wireType l, (S.field i).kind.admits wireType = false →
          WireValue (S.field i).tag wireType l → KeepsStep S i wireType l) ↔
        (S.shadowed n = true ∨ (S.field i).kind.stores = false) := by
  refine ⟨fun n m bytes grouped small clean padded => decodesTo_padded_iff clean padded small,
    ⟨?_, ?_⟩, fun n i => ⟨?_, ?_⟩⟩
  · intro all
    exact (allRoundTrip_iff S).1 fun n m fits => all n m _ fits (padded_encodeToVec m)
  · intro faithful n m bytes small padded
    have clean := legibleMessage_of_faithful S faithful m
    exact (decodesTo_padded_iff clean padded small).2
      ⟨rfl, restorableMessage_of_faithful S faithful m⟩
  · intro keeps
    by_contra stores
    rw [not_or] at stores
    obtain ⟨wireType, l, refused, value, lost⟩ :=
      not_keepsStep_of_stores (by simpa using stores.1) (i := i) (by simpa using stores.2)
    exact lost (keeps wireType l refused value)
  · rintro (hidden | skips) wireType l _ value
    · exact keepsStep_of_shadowed hidden i wireType l
    · exact keepsStep_of_skips skips value

/-- A leaf of the node behind a field with the number 3. -/
theorem decodesTo_node :
    DecodesTo (node 300 .nilMessage false)
      ([0x18, 5] ++ encodeToVec (node 300 .nilMessage false)) := by
  have unknown : UnknownField nodeSchema () false [0x18, 5] :=
    @UnknownField.mk _ nodeSchema () 3 0 [0x18] [5] (by decide)
      ⟨.last (by decide), by decide, by decide⟩
      (.varint ⟨.last (by decide), by decide, rfl⟩)
  have padded := (padded_encodeToVec (node 300 .nilMessage false)).front unknown
  refine ((evolves_iff nodeSchema).1 () _ _ false (by decide) (by decide) padded).2 ⟨rfl, ?_⟩
  intro i
  refine ⟨fun hidden => (Bool.false_ne_true hidden).elim, fun _ => ?_⟩
  match i with
  | ⟨0, _⟩ => trivial
  | ⟨1, _⟩ => trivial
  | ⟨2, _⟩ => trivial

/-- The `id` of a node as a 32-bit word whose bytes all carry the continuation bit: its arm takes
the byte behind the word. -/
theorem not_keepsStep_id :
    (CodecKind.varint .u32 : CodecKind Unit).admits 5 = false ∧
      WireValue 1 5 [0x80, 0x80, 0x80, 0x80] ∧
      ¬ KeepsStep nodeSchema (n := ()) ⟨0, by decide⟩ 5 [0x80, 0x80, 0x80, 0x80] := by
  refine ⟨rfl, .fixed32 rfl, fun keeps => ?_⟩
  have ends := keeps [] [0x0D] [0] _ ⟨.last (by decide), by decide, rfl⟩ rfl (by decide) _
    (.start nodeSchema ()) .start (by decide) (by decide) ⟨6, _⟩ rfl
  exact absurd ends (by decide)

end Typeway.Macros
