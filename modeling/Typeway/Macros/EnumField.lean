import Mathlib.Algebra.BigOperators.Fin
import Mathlib.Algebra.Order.BigOperators.Group.Finset
import Typeway.Macros.EnumCodec
import Typeway.Macros.RoundTrip

/-!
# Enums as fields of a derived struct

A field of an enum type, of an `Option` or of a `Vec` of one is encoded as a nested message is,
with the enum's own two traits. A `Host` is a struct with such fields between fields of the other
kinds.
-/

namespace Typeway.Macros

open Checked Protobuf

variable {ι : Type}

/-! ## The generated functions -/

inductive HostKind (ι : Type) : Type 1 where
  | plain (k : CodecKind ι)
  | enum (E : EnumTy)
  | optionalEnum (E : EnumTy)
  | repeatedEnum (E : EnumTy)

namespace HostKind

abbrev Val (S : Schema ι) : HostKind ι → Type
  | plain k => S.Value k
  | enum E => E.codec.Val
  | optionalEnum E => Option E.codec.Val
  | repeatedEnum E => List E.codec.Val

def default (S : Schema ι) : (k : HostKind ι) → k.Val S
  | plain k => S.fieldDefault k
  | enum E => E.codec.default
  | optionalEnum _ => none
  | repeatedEnum _ => []

def isEnum : HostKind ι → Bool
  | plain _ => false
  | _ => true

end HostKind

structure HostField (ι : Type) where
  ident : String
  tag : UInt32
  kind : HostKind ι

def isLenBytes : CodecKind ι → Bool
  | .lenBytes => true
  | _ => false

/-- A variable for the field fits into the generated decoder. -/
def HostField.compiles (f : HostField ι) : Bool :=
  !takenNames.contains f.ident &&
    match f.kind with
    | .plain k => (f.ident != "bytes" || isLenBytes k) && !(armNames k).contains f.ident
    | _ => f.ident != "bytes" && !("msg_len" :: loopNames).contains f.ident

/-- A struct that the macro accepts and whose code compiles. -/
structure Host (S : Schema ι) where
  fields : List (HostField ι)
  tag_ne_zero : ∀ f ∈ fields, f.tag ≠ 0
  nodup : (fields.map (·.tag)).Nodup
  compiles : ∀ f ∈ fields, f.compiles = true

section

variable {S : Schema ι}

def hostEncodeField (tag : UInt32) : (k : HostKind ι) → k.Val S → List UInt8 → List UInt8
  | .plain _, v, buf => genEncodeField tag v buf
  | .enum E, v, buf =>
    let nested := E.codec.encodeToVec v
    if nested.isEmpty then buf else pushLen nested (emitTagPush tag 2 buf)
  | .optionalEnum _, none, buf => buf
  | .optionalEnum E, some v, buf => pushLen (E.codec.encodeToVec v) (emitTagPush tag 2 buf)
  | .repeatedEnum E, vs, buf =>
    vs.foldl (fun buf v => pushLen (E.codec.encodeToVec v) (emitTagPush tag 2 buf)) buf

/-- What the statement of a field adds to `len`. -/
def hostEncodedLenField (tag : UInt32) : (k : HostKind ι) → k.Val S → Nat
  | .plain _, v => genEncodedLenField tag v
  | .enum E, v =>
    let nestedLen := E.codec.encodedLen v
    if nestedLen > 0 then tagByteCount tag + twVarintLen (.ofNat nestedLen) + nestedLen else 0
  | .optionalEnum _, none => 0
  | .optionalEnum E, some v =>
    tagByteCount tag + twVarintLen (.ofNat (E.codec.encodedLen v)) + E.codec.encodedLen v
  | .repeatedEnum E, vs =>
    vs.foldl (fun len v =>
      len + (tagByteCount tag + twVarintLen (.ofNat (E.codec.encodedLen v)) +
        E.codec.encodedLen v)) 0

def hostDecodeArm (ident : String) (wireType : UInt8) (bytes : List UInt8) (offset : Nat) :
    (k : HostKind ι) → k.Val S → Run TypewayDecodeError (Nat × k.Val S)
  | .plain k, value => genDecodeArm (typewayDecode S) ident wireType bytes offset k value
  | .enum E, _ => store (readMessage E.codec.typewayDecode bytes offset) fun v => v
  | .optionalEnum E, _ => store (readMessage E.codec.typewayDecode bytes offset) fun v => some v
  | .repeatedEnum E, items =>
    store (readMessage E.codec.typewayDecode bytes offset) fun v => items ++ [v]

namespace Host

variable (H : Host S)

abbrev Pos := Fin H.fields.length

abbrev field (i : H.Pos) : HostField ι :=
  H.fields.get i

abbrev Val := (i : H.Pos) → (H.field i).kind.Val S

def findField (fieldNumber : UInt32) : Option H.Pos :=
  (List.finRange H.fields.length).find? fun i => (H.field i).tag == fieldNumber

def decodeArms (fieldNumber : UInt32) : Option (Arm H.Val) :=
  (H.findField fieldNumber).map fun i wireType bytes offset fields => do
    let (offset, value) ← hostDecodeArm (H.field i).ident wireType bytes offset (H.field i).kind
      (fields i)
    pure (offset, Function.update fields i value)

def fieldDefaults : H.Val :=
  fun i => (H.field i).kind.default S

/-- A field of this name hides the parameter `bytes` of `typeway_decode`. -/
def shadowed : Bool :=
  H.fields.any (·.ident == "bytes")

/-- What the decoder finds in its variable `bytes`. -/
def visible (bytes : List UInt8) : List UInt8 :=
  if H.shadowed then [] else bytes

def encodeTo (fields : H.Val) (buf : List UInt8) : List UInt8 :=
  (List.finRange H.fields.length).foldl
    (fun buf i => hostEncodeField (H.field i).tag (H.field i).kind (fields i) buf) buf

def encodedLen (fields : H.Val) : Nat :=
  (List.finRange H.fields.length).foldl
    (fun len i => len + hostEncodedLenField (H.field i).tag (H.field i).kind (fields i)) 0

def codec (default : H.Val) : TypewayCodec where
  Val := H.Val
  default := default
  encodedLen := H.encodedLen
  encodeToVec fields := H.encodeTo fields []
  typewayDecode bytes := decodeFields H.decodeArms H.fieldDefaults (H.visible bytes)

end Host

end

/-! ## The bytes of a field -/

section

variable {S : Schema ι}

def hostBytes (tag : UInt32) : (k : HostKind ι) → k.Val S → List UInt8
  | .plain _, v => encodeField tag v
  | .enum E, v => tagBytes tag 2 ++ delimited (E.codec.encodeToVec v)
  | .optionalEnum E, v => v.toList.flatMap fun v => tagBytes tag 2 ++ delimited (E.codec.encodeToVec v)
  | .repeatedEnum E, vs => vs.flatMap fun v => tagBytes tag 2 ++ delimited (E.codec.encodeToVec v)

/-- An enum always writes something. -/
theorem EnumTy.encodeToVec_ne_nil (E : EnumTy) (v : E.codec.Val) : E.codec.encodeToVec v ≠ [] := by
  intro empty
  cases E with
  | simple E =>
    have word := (E.encodeToVec_eq v).symm.trans empty
    exact List.length_pos_iff.1 (spells_encode _).length_pos word
  | oneof E =>
    have record := (E.encodeToVec_eq v).symm.trans empty
    exact tagBytes_ne_nil _ _ (List.append_eq_nil_iff.1 record).1

theorem pushRecord_eq (tag : UInt32) (payload buf : List UInt8) :
    pushLen payload (emitTagPush tag 2 buf) = buf ++ (tagBytes tag 2 ++ delimited payload) := by
  rw [pushLen_eq, emitTagPush_eq len_lt, List.append_assoc]

theorem hostEncodeField_eq (tag : UInt32) (k : HostKind ι) (v : k.Val S) (buf : List UInt8) :
    hostEncodeField tag k v buf = buf ++ hostBytes tag k v := by
  cases k with
  | plain k => exact genEncodeField_append tag v buf
  | enum E =>
    rw [hostEncodeField, if_neg (by simpa using E.encodeToVec_ne_nil v), pushRecord_eq]
    rfl
  | optionalEnum E =>
    cases v with
    | none => exact (List.append_nil buf).symm
    | some v =>
      rw [hostEncodeField, pushRecord_eq, hostBytes, Option.toList_some, List.flatMap_singleton]
  | repeatedEnum E => exact foldl_writers (fun buf v => pushRecord_eq tag (E.codec.encodeToVec v) buf) v buf

theorem Host.encodeToVec_eq (H : Host S) (default m : H.Val) :
    (H.codec default).encodeToVec m =
      (List.finRange H.fields.length).flatMap fun i =>
        hostBytes (H.field i).tag (H.field i).kind (m i) :=
  (foldl_writers (fun buf i => hostEncodeField_eq (H.field i).tag _ (m i) buf) _ []).trans
    (List.nil_append _)

theorem Host.encodedLen_eq (H : Host S) (default m : H.Val) :
    (H.codec default).encodedLen m =
      ((List.finRange H.fields.length).map fun i =>
        hostEncodedLenField (H.field i).tag (H.field i).kind (m i)).sum := by
  show H.encodedLen m = _
  rw [Host.encodedLen, foldl_count, Nat.zero_add]

/-! ## What the loop makes of a field -/

/-- The variable of a field after its records, or the error that one of them ends in. -/
def landField : (k : HostKind ι) → k.Val S → k.Val S → Run TypewayDecodeError (k.Val S)
  | .plain _, v, cur => .ok (absorb S cur v)
  | .enum E, v, _ => E.codec.typewayDecode (E.codec.encodeToVec v)
  | .optionalEnum _, none, cur => .ok cur
  | .optionalEnum E, some v, _ => do
    let w ← E.codec.typewayDecode (E.codec.encodeToVec v)
    pure (some w)
  | .repeatedEnum E, vs, cur =>
    vs.foldlM (fun ws v => do
      let w ← E.codec.typewayDecode (E.codec.encodeToVec v)
      pure (ws ++ [w])) cur

/-- What a field of another kind writes can be read. -/
def HostKind.legible (tag : UInt32) : (k : HostKind ι) → k.Val S → Bool
  | .plain _, v => Macros.legible tag v
  | _, _ => true

end


/-! ## The loop over the fields -/

/-- A variable of the loop: it can be read and set, and setting it leaves the others. -/
structure Variable (σ α : Type) where
  get : σ → α
  set : σ → α → σ
  get_set : ∀ s a, get (set s a) = a
  set_get : ∀ s, set s (get s) = s
  set_set : ∀ s a b, set (set s a) b = set s b

def Host.variable {S : Schema ι} (H : Host S) (i : H.Pos) :
    Variable H.Val ((H.field i).kind.Val S) where
  get fields := fields i
  set fields value := Function.update fields i value
  get_set fields a := Function.update_self (β := fun i => (H.field i).kind.Val S) i a fields
  set_get fields := Function.update_eq_self (β := fun i => (H.field i).kind.Val S) i fields
  set_set fields a b := Function.update_idem (β := fun i => (H.field i).kind.Val S) a b fields

section

variable {S : Schema ι} {σ : Type}

/-- The arm of a field over its variable. -/
def variableArm (ident : String) (k : HostKind ι) (V : Variable σ (k.Val S)) : Arm σ :=
  fun wireType bytes offset s =>
    hostDecodeArm ident wireType bytes offset k (V.get s) >>= fun r => pure (r.1, V.set s r.2)

variable {arms : UInt32 → Option (Arm σ)} (advancing : Advancing arms) {tag : UInt32}
  {ident : String}

include advancing

/-- The records of a field of another kind. -/
theorem lands_armsRead {k : CodecKind ι} {V : Variable σ (S.Value k)}
    (found : arms tag = some (variableArm ident (.plain k) V)) {l : List UInt8}
    {cur new : S.Value k} (reads : ArmsRead S k tag l cur new) (s : σ) (here : V.get s = cur) :
    Lands arms l s (.ok (V.set s new)) := by
  induction reads generalizing s with
  | done cur =>
    subst here
    rw [V.set_get]
    exact .nil s
  | @record wireType l l' cur mid new hwt arm rest ih =>
    subst here
    have first : Lands arms (tagBytes tag wireType ++ l) s (.ok (V.set s mid)) := by
      apply Lands.record advancing hwt found
      intro bytes offset small h
      have read : hostDecodeArm ident wireType bytes offset (.plain k) (V.get s) =
          .ok (offset + l.length, mid) := arm ident bytes offset small h
      rw [variableArm, read]
      rfl
    have both : Lands arms (tagBytes tag wireType ++ l ++ l') s
        ((.ok (V.set s mid) : Run TypewayDecodeError σ) >>= fun s => .ok (V.set s new)) := by
      refine first.append fun s' passed => ?_
      cases passed
      exact ih _ (V.get_set s mid)
    rwa [ok_bind, V.set_set] at both

/-- One record of an enum. -/
theorem lands_enum {E : EnumTy} {k : HostKind ι} {V : Variable σ (k.Val S)}
    (found : arms tag = some (variableArm ident k V)) {s : σ} {f : E.codec.Val → k.Val S}
    (arm : ∀ wireType bytes offset, hostDecodeArm ident wireType bytes offset k (V.get s) =
      store (readMessage E.codec.typewayDecode bytes offset) f) (v : E.codec.Val) :
    Lands arms (tagBytes tag 2 ++ delimited (E.codec.encodeToVec v)) s
      (E.codec.typewayDecode (E.codec.encodeToVec v) >>= fun w => .ok (V.set s (f w))) := by
  apply Lands.record advancing len_lt found
  intro bytes offset small h
  rw [variableArm, arm, store, readMessage_framed _ small (framed_delimited _) h]
  cases E.codec.typewayDecode (E.codec.encodeToVec v) <;> rfl

/-- The records of a field. -/
theorem lands_field {k : HostKind ι} {V : Variable σ (k.Val S)}
    (found : arms tag = some (variableArm ident k V)) (v : k.Val S)
    (clean : k.legible tag v = true) (s : σ) :
    Lands arms (hostBytes tag k v) s
      (landField k v (V.get s) >>= fun new => .ok (V.set s new)) := by
  cases k with
  | plain k => exact lands_armsRead advancing found (armsRead_field S tag v clean _) s rfl
  | enum E => exact lands_enum advancing found (fun _ _ _ => rfl) v
  | optionalEnum E =>
    cases v with
    | none =>
      rw [landField, ok_bind, V.set_get]
      exact .nil s
    | some v =>
      have record := lands_enum advancing found (s := s) (fun _ _ _ => rfl) v
      rw [hostBytes, Option.toList_some, List.flatMap_singleton, landField]
      cases read : E.codec.typewayDecode (E.codec.encodeToVec v) with
      | error st => rwa [read] at record
      | ok w => rwa [read] at record
  | repeatedEnum E =>
    -- one record an item, each read from the variable that the records before it left
    clear clean
    induction v generalizing s with
    | nil =>
      rw [landField, List.foldlM_nil]
      show Lands arms [] s (.ok (V.set s (V.get s)))
      rw [V.set_get]
      exact .nil s
    | cons v vs ih =>
      have record := lands_enum advancing found (s := s) (f := fun w => V.get s ++ [w])
        (fun _ _ _ => rfl) v
      have both := record.append fun s' _ => ih s'
      rw [hostBytes, List.flatMap_cons, landField, List.foldlM_cons]
      cases read : E.codec.typewayDecode (E.codec.encodeToVec v) with
      | error st => rwa [read] at both
      | ok w =>
        rw [read, ok_bind, ok_bind, V.get_set] at both
        simp only [V.set_set] at both
        exact both

end

section

variable {S : Schema ι} (H : Host S)

theorem hostDecodeArm_advances (ident : String) (wireType : UInt8) (bytes : List UInt8)
    (offset : Nat) (k : HostKind ι) (cur : k.Val S) :
    Advances bytes offset (hostDecodeArm ident wireType bytes offset k cur) := by
  cases k with
  | plain k => exact genDecodeArm_advances _ ident wireType k cur
  | enum E | optionalEnum E | repeatedEnum E =>
    rw [hostDecodeArm]
    exact store_advances (readMessage_ensures _) _

theorem Host.decodeArms_advancing : Advancing H.decodeArms := by
  intro number arm found wireType bytes offset fields
  obtain ⟨i, -, rfl⟩ := Option.map_eq_some_iff.1 found
  exact (hostDecodeArm_advances _ wireType bytes offset _ _).bind fun r past => .ok past

theorem Host.decodeArms_tag (i : H.Pos) :
    H.decodeArms (H.field i).tag =
      some (variableArm (H.field i).ident (H.field i).kind (H.variable i)) := by
  have first : Unshadowed (fun j => (H.field j).tag) i := by
    intro j less same
    have nodup := List.nodup_iff_injective_get.1 H.nodup
    have equal := @nodup ⟨j, by simp⟩ ⟨i, by simp⟩ (by simpa using same)
    have equal : j.val = i.val := by simpa using equal
    exact absurd less (by omega)
  rw [Host.decodeArms, Host.findField, (find_tag_iff fun j => (H.field j).tag).2 ⟨rfl, first⟩]
  rfl

/-- The fields in order, each from its own bytes. -/
def Host.landed (m : H.Val) (l : List H.Pos) (fields : H.Val) : Run TypewayDecodeError H.Val :=
  l.foldlM (fun fields i => do
    let new ← landField (H.field i).kind (m i) (fields i)
    pure (Function.update fields i new)) fields

/-- What the fields of the other kinds write can be read. -/
def Host.legible (m : H.Val) : Prop :=
  ∀ i, (H.field i).kind.legible (H.field i).tag (m i) = true

theorem Host.lands_fields {m : H.Val} (clean : H.legible m) (l : List H.Pos)
    (fields : H.Val) :
    Lands H.decodeArms (l.flatMap fun i => hostBytes (H.field i).tag (H.field i).kind (m i)) fields
      (H.landed m l fields) := by
  induction l generalizing fields with
  | nil => exact .nil fields
  | cons i l ih =>
    have first := lands_field H.decodeArms_advancing (H.decodeArms_tag i) (m i) (clean i) fields
    have both := first.append fun fields' _ => ih fields'
    rw [List.flatMap_cons, Host.landed, List.foldlM_cons]
    exact both

/-- A struct whose input is hidden is decoded to its defaults. -/
theorem Host.typewayDecode_shadowed (hidden : H.shadowed = true) (default : H.Val)
    (bytes : List UInt8) : (H.codec default).typewayDecode bytes = .ok H.fieldDefaults := by
  show decodeFields H.decodeArms H.fieldDefaults (H.visible bytes) = _
  rw [Host.visible, if_pos hidden]
  exact Lands.decodeFields (Nat.zero_le _) (.nil H.fieldDefaults)

theorem Host.typewayDecode_encoded (clear : H.shadowed = false) (default : H.Val) {m : H.Val} (clean : H.legible m)
    (small : ((H.codec default).encodeToVec m).length ≤ isizeMax) :
    (H.codec default).typewayDecode ((H.codec default).encodeToVec m) =
      H.landed m (List.finRange H.fields.length) H.fieldDefaults := by
  show decodeFields H.decodeArms H.fieldDefaults (H.visible _) = _
  rw [Host.visible, clear, if_neg Bool.false_ne_true]
  apply Lands.decodeFields small
  rw [Host.encodeToVec_eq]
  exact H.lands_fields clean _ _

/-- All fields arrive, each where its own bytes take it from its start. -/
theorem Host.landed_eq_ok {m fields fields' : H.Val} {l : List H.Pos} (nodup : l.Nodup) :
    H.landed m l fields = .ok fields' ↔
      (∀ i ∈ l, landField (H.field i).kind (m i) (fields i) = .ok (fields' i)) ∧
        ∀ i, i ∉ l → fields' i = fields i := by
  induction l generalizing fields with
  | nil =>
    rw [Host.landed, List.foldlM_nil]
    constructor
    · intro same
      cases same
      exact ⟨by simp, fun _ _ => rfl⟩
    · rintro ⟨-, same⟩
      rw [show fields' = fields from funext fun i => same i List.not_mem_nil]
      rfl
  | cons i l ih =>
    obtain ⟨fresh, nodup⟩ := List.nodup_cons.1 nodup
    have step : H.landed m (i :: l) fields =
        (do
          let new ← landField (H.field i).kind (m i) (fields i)
          H.landed m l (Function.update fields i new)) := by
      rw [Host.landed, List.foldlM_cons]
      cases landField (H.field i).kind (m i) (fields i) <;> rfl
    rw [step]
    have others {new : (H.field i).kind.Val S} {j : H.Pos} (mem : j ∈ l) :
        Function.update fields i new j = fields j :=
      Function.update_of_ne (fun same : j = i => fresh (same ▸ mem)) _ _
    constructor
    · intro run
      obtain ⟨new, here, rest⟩ := bind_eq_ok.1 run
      obtain ⟨each, kept⟩ := (ih nodup).1 rest
      have placed : fields' i = new := (kept i fresh).trans (Function.update_self i new fields)
      constructor
      · intro j mem
        rcases List.mem_cons.1 mem with rfl | mem
        · rw [here, placed]
        · have next := each j mem
          rwa [others mem] at next
      · intro j away
        rw [List.mem_cons, not_or] at away
        exact (kept j away.2).trans (Function.update_of_ne away.1 _ _)
    · rintro ⟨each, kept⟩
      rw [each i List.mem_cons_self, ok_bind]
      refine (ih nodup).2 ⟨fun j mem => ?_, fun j away => ?_⟩
      · rw [others mem]
        exact each j (List.mem_cons_of_mem i mem)
      · by_cases same : j = i
        · subst same
          exact (Function.update_self j _ fields).symm
        · rw [Function.update_of_ne same]
          exact kept j (by simp [same, away])

end


/-! ## Enum fields come back and are counted -/

section

variable {S : Schema ι}

/-- The enum values in a field all have the property `P`. -/
def HostKind.EnumsAll (P : (E : EnumTy) → E.codec.Val → Prop) : (k : HostKind ι) → k.Val S → Prop
  | .plain _, _ => True
  | .enum E, v => P E v
  | .optionalEnum E, v => ∀ w ∈ v, P E w
  | .repeatedEnum E, vs => ∀ w ∈ vs, P E w

/-- The field writes a record. -/
def HostKind.Written : (k : HostKind ι) → k.Val S → Prop
  | .plain _, v => silent v = false
  | .enum _, _ => True
  | .optionalEnum _, v => v ≠ none
  | .repeatedEnum _, vs => vs ≠ []

theorem foldlM_decode_eq_ok {E : EnumTy} {vs ws cur : List E.codec.Val} :
    vs.foldlM (fun ws v => do
        let w ← E.codec.typewayDecode (E.codec.encodeToVec v)
        pure (ws ++ [w])) cur = .ok ws ↔
      ∃ new, ws = cur ++ new ∧
        List.Forall₂ (fun v w => E.codec.typewayDecode (E.codec.encodeToVec v) = .ok w) vs new := by
  induction vs generalizing cur with
  | nil =>
    rw [List.foldlM_nil]
    constructor
    · intro same
      cases same
      exact ⟨[], (List.append_nil _).symm, .nil⟩
    · rintro ⟨new, rfl, each⟩
      cases each
      rw [List.append_nil]
      rfl
  | cons v vs ih =>
    rw [List.foldlM_cons]
    constructor
    · intro run
      obtain ⟨ws', first, rest⟩ := bind_eq_ok.1 run
      obtain ⟨w, read, same⟩ := bind_eq_ok.1 first
      cases same
      obtain ⟨new, rfl, each⟩ := ih.1 rest
      exact ⟨w :: new, by simp, .cons read each⟩
    · rintro ⟨new, rfl, each⟩
      cases each with
      | @cons _ w _ new read each =>
        rw [read]
        exact ih.2 ⟨new, by simp, each⟩

/-- An enum field arrives as it was sent if its values come back. -/
theorem landField_iff {k : HostKind ι} (enum : k.isEnum = true) (v : k.Val S) :
    landField k v (k.default S) = .ok v ↔ k.EnumsAll (fun E w => E.codec.ComesBack w) v := by
  cases k with
  | plain k => cases enum
  | enum E => exact Iff.rfl
  | optionalEnum E =>
    cases v with
    | none => exact iff_of_true rfl (by simp [HostKind.EnumsAll])
    | some v =>
      constructor
      · intro run w mem
        obtain ⟨w', read, same⟩ := bind_eq_ok.1 run
        cases same
        cases Option.mem_some_iff.1 mem
        exact read
      · intro back
        have read : E.codec.typewayDecode (E.codec.encodeToVec v) = .ok v := back v rfl
        rw [landField, read]
        rfl
  | repeatedEnum E =>
    refine foldlM_decode_eq_ok.trans ?_
    have same (vs : List E.codec.Val) :
        List.Forall₂ (fun v w => E.codec.typewayDecode (E.codec.encodeToVec v) = .ok w) vs vs ↔
          ∀ w ∈ vs, E.codec.ComesBack w := List.forall₂_same
    constructor
    · rintro ⟨_, rfl, each⟩
      exact (same _).1 each
    · intro back
      exact ⟨v, rfl, (same v).2 back⟩

/-- The fields of the other kinds arrive in any case. -/
theorem landField_plain {k : HostKind ι} (plain : k.isEnum = false) (v cur : k.Val S) :
    ∃ new, landField k v cur = .ok new := by
  cases k with
  | plain k => exact ⟨_, rfl⟩
  | _ => cases plain

namespace Host

variable (H : Host S)

/-- A message decodes to one with the same enum fields. -/
def EnumsComeBack (default m : H.Val) : Prop :=
  ∃ m', (H.codec default).typewayDecode ((H.codec default).encodeToVec m) = .ok m' ∧
    ∀ i, (H.field i).kind.isEnum = true → m' i = m i

theorem enumsComeBack_iff_default (hidden : H.shadowed = true) (default m : H.Val) :
    H.EnumsComeBack default m ↔
      ∀ i, (H.field i).kind.isEnum = true → m i = (H.field i).kind.default S := by
  rw [EnumsComeBack, H.typewayDecode_shadowed hidden]
  constructor
  · rintro ⟨m', run, same⟩ i enum
    cases run
    exact (same i enum).symm
  · exact fun unset => ⟨_, rfl, fun i enum => (unset i enum).symm⟩

theorem enumsComeBack_iff (clear : H.shadowed = false) (default : H.Val) {m : H.Val}
    (clean : H.legible m)
    (small : ((H.codec default).encodeToVec m).length ≤ isizeMax) :
    H.EnumsComeBack default m ↔
      ∀ i, (H.field i).kind.EnumsAll (fun E w => E.codec.ComesBack w) (m i) := by
  have decoded := H.typewayDecode_encoded clear default clean small
  constructor
  · rintro ⟨m', run, same⟩ i
    obtain ⟨each, -⟩ := (H.landed_eq_ok (List.nodup_finRange _)).1 (decoded.symm.trans run)
    have here := each i (List.mem_finRange i)
    cases enum : (H.field i).kind.isEnum with
    | true =>
      rw [same i enum] at here
      exact (landField_iff enum (m i)).1 here
    | false =>
      generalize m i = v
      generalize (H.field i).kind = k at enum v
      cases k with
      | plain k => trivial
      | _ => cases enum
  · intro back
    have each (i : H.Pos) : ∃ new, landField (H.field i).kind (m i) (H.fieldDefaults i) = .ok new ∧
        ((H.field i).kind.isEnum = true → new = m i) := by
      cases enum : (H.field i).kind.isEnum with
      | true => exact ⟨m i, (landField_iff enum (m i)).2 (back i), fun _ => rfl⟩
      | false =>
        obtain ⟨new, land⟩ := landField_plain enum (m i) (H.fieldDefaults i)
        exact ⟨new, land, by simp⟩
    choose new land same using each
    refine ⟨new, decoded.trans ?_, same⟩
    exact (H.landed_eq_ok (List.nodup_finRange _)).2
      ⟨fun i _ => land i, fun i away => absurd (List.mem_finRange i) away⟩

end Host

/-- The share of an enum field whose values are counted right is right if its tag fits in three
bytes, or nothing is written. -/
theorem hostEncodedLenField_iff {tag : UInt32} {k : HostKind ι} (enum : k.isEnum = true)
    {v : k.Val S} (counted : k.EnumsAll (fun E w => E.codec.Counted w) v) :
    hostEncodedLenField tag k v = (hostBytes tag k v).length ↔
      (k.Written v → tag.toNat < wideTag) := by
  have one {E : EnumTy} {w : E.codec.Val} (exact : E.codec.Counted w) :
      twVarintLen (.ofNat (E.codec.encodedLen w)) + E.codec.encodedLen w =
        (delimited (E.codec.encodeToVec w)).length := by
    rw [delimited_length, show E.codec.encodedLen w = _ from exact]
  cases k with
  | plain k => cases enum
  | enum E =>
    have exact : E.codec.Counted v := counted
    have loud : 0 < E.codec.encodedLen v := by
      rw [show E.codec.encodedLen v = _ from exact]
      exact List.length_pos_iff.2 (E.encodeToVec_ne_nil v)
    rw [hostEncodedLenField, if_pos loud, hostBytes, List.length_append, Nat.add_assoc, one exact,
      Nat.add_right_cancel_iff, count_eq_iff len_lt]
    exact ⟨fun narrow _ => narrow, fun narrow => narrow trivial⟩
  | optionalEnum E =>
    cases v with
    | none => exact iff_of_true rfl fun written => absurd rfl written
    | some v =>
      rw [hostEncodedLenField, hostBytes, Option.toList_some, List.flatMap_singleton,
        List.length_append, Nat.add_assoc, one (counted v rfl), Nat.add_right_cancel_iff,
        count_eq_iff len_lt]
      exact ⟨fun narrow _ => narrow, fun narrow => narrow nofun⟩
  | repeatedEnum E =>
    rw [hostEncodedLenField, foldl_count, Nat.zero_add, hostBytes, List.length_flatMap]
    have shares : v.map (fun w =>
        tagByteCount tag + twVarintLen (.ofNat (E.codec.encodedLen w)) + E.codec.encodedLen w) =
        v.map fun w => tagByteCount tag + (delimited (E.codec.encodeToVec w)).length :=
      List.map_congr_left fun w mem => by rw [Nat.add_assoc, one (counted w mem)]
    simp only [List.length_append]
    rw [shares, counts_eq_iff len_lt]
    constructor
    · rintro (none | narrow) written
      · exact absurd none written
      · exact narrow
    · intro narrow
      by_cases none : v = []
      · exact .inl none
      · exact .inr (narrow none)

end


section

variable {S : Schema ι}

theorem length_le_flatMap {α β : Type} {f : α → List β} {l : List α} {a : α} (mem : a ∈ l) :
    (f a).length ≤ (l.flatMap f).length := by
  rw [List.flatMap_def]
  exact (List.sublist_flatten_of_mem (List.mem_map_of_mem mem)).length_le

/-- An enum in a field writes no more than the field. -/
theorem enumsAll_congr {P Q : (E : EnumTy) → E.codec.Val → Prop} (tag : UInt32) {k : HostKind ι}
    {v : k.Val S} (same : ∀ (E : EnumTy) (w : E.codec.Val),
      (E.codec.encodeToVec w).length ≤ (hostBytes tag k v).length → (P E w ↔ Q E w)) :
    k.EnumsAll P v ↔ k.EnumsAll Q v := by
  have less (payload : List UInt8) : payload.length ≤ (tagBytes tag 2 ++ delimited payload).length := by
    rw [delimited, List.length_append, List.length_append]
    omega
  cases k with
  | plain k => exact Iff.rfl
  | enum E => exact same E v (less _)
  | optionalEnum E =>
    refine forall₂_congr fun w mem => same E w ?_
    cases Option.mem_def.1 mem
    rw [hostBytes, Option.toList_some, List.flatMap_singleton]
    exact less _
  | repeatedEnum E =>
    refine forall₂_congr fun w mem => same E w ?_
    exact (less _).trans (length_le_flatMap (f := fun w =>
      tagBytes tag 2 ++ delimited (E.codec.encodeToVec w)) mem)

/-- A share is never too large. -/
theorem hostEncodedLenField_le {tag : UInt32} {k : HostKind ι} (enum : k.isEnum = true)
    {v : k.Val S} (counted : k.EnumsAll (fun E w => E.codec.Counted w) v) :
    hostEncodedLenField tag k v ≤ (hostBytes tag k v).length := by
  have short : tagByteCount tag ≤ (tagBytes tag 2).length := by
    by_cases narrow : tag.toNat < wideTag
    · exact (tagBytes_length_narrow len_lt narrow).ge
    · exact (tagBytes_length_wide len_lt (Nat.le_of_not_lt narrow)).le
  have one {E : EnumTy} {w : E.codec.Val} (exact : E.codec.Counted w) :
      tagByteCount tag + twVarintLen (.ofNat (E.codec.encodedLen w)) + E.codec.encodedLen w ≤
        (tagBytes tag 2 ++ delimited (E.codec.encodeToVec w)).length := by
    rw [List.length_append, delimited_length, show E.codec.encodedLen w = _ from exact]
    omega
  cases k with
  | plain k => cases enum
  | enum E =>
    rw [hostEncodedLenField]
    split
    · exact one counted
    · exact Nat.zero_le _
  | optionalEnum E =>
    cases v with
    | none => exact Nat.le_refl 0
    | some v =>
      rw [hostBytes, Option.toList_some, List.flatMap_singleton]
      exact one (counted v rfl)
  | repeatedEnum E =>
    rw [hostEncodedLenField, foldl_count, Nat.zero_add, hostBytes, List.length_flatMap]
    exact List.sum_le_sum fun w mem => one (counted w mem)

namespace Host

variable (H : Host S)

/-- The fields of the other kinds, and the values of the enum fields, are counted right. -/
def PartsCounted (m : H.Val) : Prop :=
  ∀ i, (H.field i).kind.EnumsAll (fun E w => E.codec.Counted w) (m i) ∧
    ((H.field i).kind.isEnum = false →
      hostEncodedLenField (H.field i).tag (H.field i).kind (m i) =
        (hostBytes (H.field i).tag (H.field i).kind (m i)).length)

theorem counted_iff (default : H.Val) {m : H.Val} (parts : H.PartsCounted m) :
    (H.codec default).Counted m ↔
      ∀ i, (H.field i).kind.isEnum = true → (H.field i).kind.Written (m i) →
        (H.field i).tag.toNat < wideTag := by
  have below (i : H.Pos) : hostEncodedLenField (H.field i).tag (H.field i).kind (m i) ≤
      (hostBytes (H.field i).tag (H.field i).kind (m i)).length := by
    cases enum : (H.field i).kind.isEnum with
    | true => exact hostEncodedLenField_le enum (parts i).1
    | false => exact ((parts i).2 enum).le
  show (H.codec default).encodedLen m = ((H.codec default).encodeToVec m).length ↔ _
  rw [encodedLen_eq, encodeToVec_eq, List.length_flatMap, ← Fin.sum_univ_def,
    ← Fin.sum_univ_def, Finset.sum_eq_sum_iff_of_le fun i _ => below i]
  constructor
  · intro each i enum
    exact (hostEncodedLenField_iff enum (parts i).1).1 (each i (Finset.mem_univ i))
  · intro narrow i _
    cases enum : (H.field i).kind.isEnum with
    | true => exact (hostEncodedLenField_iff enum (parts i).1).2 (narrow i enum)
    | false => exact (parts i).2 enum

end Host

end

/-! ## Enums by themselves and in a struct -/

/-- A value of an enum comes back if no earlier variant has the tag of its own and the message it
carries comes back. It is counted right, if the message it carries is, where its tag fits in three
bytes. In a struct the enum fields come back if their values do, and beside a field named `bytes`
if they are at their defaults. The struct is counted right where the tags of those that are
written fit in three bytes. -/
theorem enumCodec_iff :
    (∀ (E : EnumTy) (v : E.codec.Val), (E.codec.encodeToVec v).length ≤ isizeMax →
      (E.codec.ComesBack v ↔ E.Selected v ∧ E.CarriedBack v) ∧
        (E.CarriedCounted v → (E.codec.Counted v ↔ E.Narrow v))) ∧
      ∀ (S : Schema ι) (H : Host S) (default m : H.Val),
        ((H.codec default).encodeToVec m).length ≤ isizeMax →
        (H.shadowed = false → H.legible m → (H.EnumsComeBack default m ↔
          ∀ i, (H.field i).kind.EnumsAll (fun E w => E.Selected w ∧ E.CarriedBack w) (m i))) ∧
        (H.shadowed = true → (H.EnumsComeBack default m ↔
          ∀ i, (H.field i).kind.isEnum = true → m i = (H.field i).kind.default S)) ∧
        (H.PartsCounted m → ((H.codec default).Counted m ↔
          ∀ i, (H.field i).kind.isEnum = true → (H.field i).kind.Written (m i) →
            (H.field i).tag.toNat < wideTag)) := by
  refine ⟨fun E v small => ⟨EnumTy.comesBack_iff small, EnumTy.counted_iff⟩, ?_⟩
  intro S H default m small
  refine ⟨fun clear clean => ?_, fun hidden => H.enumsComeBack_iff_default hidden default m,
    H.counted_iff default⟩
  rw [H.enumsComeBack_iff clear default clean small]
  refine forall_congr' fun i => enumsAll_congr (H.field i).tag fun E w le => ?_
  refine EnumTy.comesBack_iff (le.trans (Nat.le_trans ?_ small))
  rw [H.encodeToVec_eq]
  exact length_le_flatMap (f := fun i => hostBytes (H.field i).tag _ (m i)) (List.mem_finRange i)


/-! ### An enum with a tag that is used twice -/

/-- `enum Amount { Exact(u32), #[proto(tag = 1)] Rough(u32), #[proto(tag = 262144)] Wide(u32) }`. -/
def amount : OneofEnum where
  variants := [⟨1, .int .u32⟩, ⟨1, .int .u32⟩, ⟨262144, .int .u32⟩]
  nonempty := by decide
  default := ⟨⟨0, by decide⟩, (0 : BitVec 32)⟩

def exactAmount (x : BitVec 32) : OneofValue amount.variants :=
  ⟨⟨0, by decide⟩, x⟩

/-- `struct Price { amount: Amount, rebate: Option<Amount> }`. -/
def price : Host nodeSchema where
  fields := [⟨"amount", 1, .enum (.oneof amount)⟩, ⟨"rebate", 2, .optionalEnum (.oneof amount)⟩]
  tag_ne_zero := by simp
  nodup := by simp
  compiles := by decide

def priceOf (x : BitVec 32) : price.Val
  | ⟨0, _⟩ => exactAmount x
  | ⟨1, _⟩ => none

theorem amount_small (v : OneofValue amount.variants) :
    (amount.codec.encodeToVec v).length ≤ 20 := by
  have tag := (spells_tagBytes (PayloadTy.wireType_lt (amount.variantOf v.variant).ty)
    (amount.tagOf v.variant)).short
  have word : (payloadBytes (amount.variantOf v.variant).ty v.payload).length ≤ 10 := by
    rcases v with ⟨⟨_ | _ | _ | i, bound⟩, x⟩
    · exact (spells_encode _).short
    · exact (spells_encode _).short
    · exact (spells_encode _).short
    · exact absurd bound (by show ¬ i + 3 < 3; omega)
  rw [amount.encodeToVec_eq, List.length_append]
  omega

theorem lawful_price : amount.codec.Lawful (exactAmount 5) ∧
    price.EnumsComeBack (priceOf 0) (priceOf 5) ∧ (price.codec (priceOf 0)).Counted (priceOf 5) := by
  obtain ⟨enums, hosts⟩ := enumCodec_iff (ι := Unit)
  have first : Unshadowed amount.tagOf (exactAmount 5).variant :=
    unshadowed_first amount.tagOf amount.nonempty
  have small := amount_small (exactAmount 5)
  obtain ⟨back, counted⟩ := enums (.oneof amount) (exactAmount 5) (small.trans (by decide))
  have lawful : amount.codec.Lawful (exactAmount 5) :=
    ⟨back.2 ⟨first, rfl⟩, (counted trivial).2 (by show (1 : UInt32).toNat < wideTag; decide)⟩
  have whole : ((price.codec (priceOf 0)).encodeToVec (priceOf 5)).length ≤ isizeMax := by
    have tag := (spells_tagBytes len_lt 1).short
    have length := (spells_encode (.ofNat (amount.codec.encodeToVec (exactAmount 5)).length)).short
    rw [price.encodeToVec_eq]
    show (tagBytes 1 2 ++ delimited (amount.codec.encodeToVec (exactAmount 5)) ++ []).length ≤ _
    rw [List.append_nil, List.length_append, delimited_length, twVarintLen_eq]
    exact (Nat.add_le_add tag (Nat.add_le_add length small)).trans (by decide)
  obtain ⟨together, -, total⟩ := hosts nodeSchema price (priceOf 0) (priceOf 5) whole
  refine ⟨lawful, (together rfl ?_).2 ?_, (total ?_).2 ?_⟩
  · rintro ⟨_ | _ | i, bound⟩
    · rfl
    · rfl
    · exact absurd bound (by show ¬ i + 2 < 2; omega)
  · rintro ⟨_ | _ | i, bound⟩
    · exact ⟨first, rfl⟩
    · exact nofun
    · exact absurd bound (by show ¬ i + 2 < 2; omega)
  · rintro ⟨_ | _ | i, bound⟩
    · exact ⟨lawful.2, nofun⟩
    · exact ⟨nofun, nofun⟩
    · exact absurd bound (by show ¬ i + 2 < 2; omega)
  · rintro ⟨_ | _ | i, bound⟩ _ _
    · show (1 : UInt32).toNat < wideTag
      decide
    · show (2 : UInt32).toNat < wideTag
      decide
    · exact absurd bound (by show ¬ i + 2 < 2; omega)

/-- `Rough(5)` comes back as `Exact(5)`, and `Wide(0)` is one byte longer than it says. -/
theorem not_lawful_amount :
    ¬ amount.codec.Lawful ⟨⟨1, by decide⟩, (5 : BitVec 32)⟩ ∧
      ¬ amount.codec.Lawful ⟨⟨2, by decide⟩, (0 : BitVec 32)⟩ := by
  constructor
  · intro ⟨back, _⟩
    have small := amount_small ⟨⟨1, by decide⟩, (5 : BitVec 32)⟩
    have first := ((amount.comesBack_iff _ (small.trans (by decide))).1 back).1
    exact first ⟨0, by decide⟩ (by decide) rfl
  · intro ⟨_, counted⟩
    have narrow := (amount.counted_iff ⟨⟨2, by decide⟩, (0 : BitVec 32)⟩ trivial).1 counted
    exact absurd narrow (by decide)

end Typeway.Macros
