import Typeway.Grpc.StaticReads

/-!
# Mixing the two codecs

A family of structs has the derived codec on one end of a connection and the dynamic codec on the
other. On some fields every value gets through, and on each of the others one value does not: a
`true` under a wide tag and a list of byte strings on the way to the dynamic decoder, `Some` of a
default and a list of floats on the way to the derived one.
-/

namespace Typeway.Grpc

open Checked Typeway.Core Json Protobuf Macros

variable {ι : Type} (S : Schema ι)

/-- Each codec reads what the other writes of the value. -/
def Agrees (E : Externals) {n : ι} (defs : List ProtoFieldDef) (m : S.Msg n) : Prop :=
  (∃ bytes w, jsonToProtoBinary E (messageJson true m) defs = .ok bytes ∧
    typewayDecode S n bytes = .ok w ∧ SameMessage w m) ∧
  protoBinaryToJson E (encodeToVec m) defs = .ok (messageJson false m)

/-- Both encodings of the value fit in a `Vec`. -/
def Fits (E : Externals) {n : ι} (defs : List ProtoFieldDef) (m : S.Msg n) : Prop :=
  (encodeToVec m).length ≤ isizeMax ∧
    ∀ bytes, jsonToProtoBinary E (messageJson true m) defs = .ok bytes → bytes.length ≤ isizeMax

/-- The fields on all of whose values the codecs agree. -/
def Sound (tag : UInt32) : CodecKind ι → Prop
  | .bool => tag.toNat < 16
  | .optional _ => False
  | .repeated inner => inner.isFixed = false ∧ inner.storesItem = true
  | _ => True

/-- Some value of the struct does not get through. -/
def Loses (E : Externals) (n : ι) (defs : List ProtoFieldDef) : Prop :=
  ∃ m : S.Msg n, FiniteMessage m ∧ Fits S E defs m ∧ ¬ Agrees S E defs m

variable {S}

theorem agrees_of_safe (E : Externals) (clear : Clear S) {n : ι} {defs : List ProtoFieldDef}
    (defines : Defines S.fields n defs) {m : S.Msg n} (finite : FiniteMessage m)
    (safe : SafeMessage m) (fits : Fits S E defs m) : Agrees S E defs m := by
  obtain ⟨bytes, w, run, same, read⟩ := staticReads E defines m finite safe
  obtain ⟨depth, within⟩ := exists_withinMessage m
  exact ⟨⟨bytes, w, run, read (fits.2 bytes run), same clear⟩,
    dynamicReads E defines depth m within (writtenMessage_of_safe m safe) fits.1⟩

/-! ## Sound fields -/

theorem safe_consMessages {tag : UInt32} {n : ι} (nested : ∀ m : S.Msg n, SafeMessage m) :
    (v : S.Value (.repeatedMessage n)) → Safe tag v
  | .nilMessage => trivial
  | .consMessage m ms => ⟨nested m, safe_consMessages nested ms⟩

theorem safe_of_sound {f : CodecField ι} {d : ProtoFieldDef} {made : Scalar ⊕ ι}
    (describes : Describes f d made) (sound : Sound f.tag f.kind)
    (nested : ∀ n, made = .inr n → ∀ m : S.Msg n, SafeMessage m) (v : S.Value f.kind) :
    Safe f.tag v := by
  obtain ⟨-, -, -, common, -, -⟩ := describes
  generalize f.kind = k at common sound v
  generalize d.repeated = isList at common
  cases common with
  | scalar scalar =>
    cases v with
    | bool b => exact fun _ => sound
    | _ => trivial
  | optional scalar => exact sound.elim
  | repeated scalar =>
    cases v with
    | nil => trivial
    | cons item items => exact sound
  | message n =>
    cases v with
    | message m => exact nested n rfl m
  | optionalMessage n =>
    cases v with
    | noMessage => trivial
    | someMessage m => exact nested n rfl m
  | repeatedMessage n => exact safe_consMessages (nested n rfl) v

theorem safeMessage_of_sound
    (sound : ∀ n defs, Defines S.fields n defs → ∀ i : S.Pos n,
      Sound (S.field i).tag (S.field i).kind)
    {n : ι} {defs : List ProtoFieldDef} (defines : Defines S.fields n defs) (m : S.Msg n) :
    SafeMessage m := by
  induction defines with
  | @intro n defs made names describes nested ih =>
    obtain ⟨fields⟩ := m
    intro i
    refine safe_of_sound (describes i) (sound n _ (.intro names describes nested) i) ?_ (fields i)
    intro k here
    obtain ⟨-, inner, some⟩ := (describes i).message k here
    exact ih i k inner here some

/-! ## A struct with one field set -/

mutual

theorem finite_zeroed {k : CodecKind ι} (v : S.Value k) : Finite (zeroed v) := by
  cases v with
  | message m => exact finite_zeroedMessage m
  | _ => trivial

theorem finite_zeroedMessage {n : ι} : (m : S.Msg n) → FiniteMessage (zeroedMessage m)
  | .mk fields => by
    have each := fun i => finite_zeroed (fields i)
    rw [zeroedMessage]
    exact each

end

mutual

theorem safe_zeroed (tag : UInt32) {k : CodecKind ι} (v : S.Value k) : Safe tag (zeroed v) := by
  cases v with
  | message m => exact safe_zeroedMessage m
  | bool b => exact fun h => absurd h (by simp)
  | _ => trivial

theorem safe_zeroedMessage {n : ι} : (m : S.Msg n) → SafeMessage (zeroedMessage m)
  | .mk fields => by
    have each := fun i => safe_zeroed (S.field i).tag (fields i)
    rw [zeroedMessage]
    exact each

end

theorem finite_only {n : ι} {i : S.Pos n} {v : S.Value (S.field i).kind} (finite : Finite v) :
    FiniteMessage (S.only i v) := by
  intro j
  by_cases e : j = i
  · subst e
    rwa [Function.update_self]
  · rw [Function.update_of_ne e]
    exact finite_zeroed _

theorem flatMap_update_length {α β : Type} [DecidableEq α] {l : List α} (nodup : l.Nodup)
    (f : α → List β) (a : α) (here : List β) :
    (l.flatMap (Function.update f a here)).length ≤ (l.flatMap f).length + here.length := by
  induction l with
  | nil => exact Nat.zero_le _
  | cons b l ih =>
    obtain ⟨fresh, nodup⟩ := List.nodup_cons.1 nodup
    rw [List.flatMap_cons, List.flatMap_cons, List.length_append, List.length_append]
    by_cases e : b = a
    · subst e
      have rest : l.flatMap (Function.update f b here) = l.flatMap f :=
        List.flatMap_congr fun c mem =>
          Function.update_of_ne (fun e : c = b => fresh (e ▸ mem)) _ _
      rw [Function.update_self, rest]
      omega
    · rw [Function.update_of_ne e]
      have := ih nodup
      omega

/-- What `Defines` says of the definitions of a struct. -/
structure Described (S : Schema ι) {n : ι} (defs : S.Pos n → ProtoFieldDef)
    (made : S.Pos n → Scalar ⊕ ι) : Prop where
  names : ∀ i j, (defs i).name = (defs j).name → i = j
  describes : ∀ i, Describes (S.field i) (defs i) (made i)
  nested : ∀ i m inner, made i = .inr m → (defs i).nestedFields = some inner →
    Defines S.fields m inner

/-- The dynamic encoder writes at most 2^62 bytes of the zeros of a struct. -/
def Short (E : Externals) (S : Schema ι) (n : ι) (defs : List ProtoFieldDef) : Prop :=
  ∀ bytes, jsonToProtoBinary E (messageJson true (.mk (S.zero n) : S.Msg n)) defs = .ok bytes →
    bytes.length ≤ 2 ^ 62

theorem Described.idents {n : ι} {defs : S.Pos n → ProtoFieldDef} {made : S.Pos n → Scalar ⊕ ι}
    (described : Described S defs made) (i j : S.Pos n)
    (same : (S.field i).ident.toList = (S.field j).ident.toList) : i = j := by
  rw [← (described.describes i).name, ← (described.describes j).name] at same
  exact described.names i j same

section Only

variable {E : Externals} {n : ι} {defs : S.Pos n → ProtoFieldDef} {made : S.Pos n → Scalar ⊕ ι}
  {i : S.Pos n} {v : S.Value (S.field i).kind} {here : List UInt8}

/-- The dynamic encoder writes the records of the field that is set between those of zeros. -/
theorem only_written (described : Described S defs made)
    (bytes : ∀ map, SortedMap.lookup (defs i).name map = memberJson true v →
      memberBytes E (nestedEncoder E (defs i).nestedFields) (defs i) map = .ok here) :
    ∃ zeros, ∃ part : S.Pos n → List UInt8,
      jsonToProtoBinary E (messageJson true (.mk (S.zero n) : S.Msg n))
        ((List.finRange (S.fields n).length).map defs) = .ok zeros ∧
      jsonToProtoBinary E (messageJson true (S.only i v))
        ((List.finRange (S.fields n).length).map defs) =
          .ok ((List.finRange (S.fields n).length).flatMap part) ∧
      ((List.finRange (S.fields n).length).flatMap part).length ≤ zeros.length + here.length ∧
      part i = here ∧ ∀ j, j ≠ i → ∃ new,
        ArmsRead S (S.field j).kind (S.field j).tag (part j) (S.fieldDefault _) new := by
  have describes := described.describes
  have back (map : List (Str × Value)) (j : S.Pos n)
      (member : SortedMap.lookup (S.field j).ident.toList map = memberJson true (S.zero n j)) :
      ReadBack E S (defs j) map (S.zero n j) := by
    apply readBack_field (describes j) _ _ (finite_zeroed _) (safe_zeroed _ _)
    · rwa [(describes j).name]
    · exact fun m inner here some => staticReads E (described.nested j m inner here some)
  obtain ⟨zeroMap, zeroObject, -, zeroMembers, -⟩ := messageJson_members true (S.zero n) described.idents
  obtain ⟨map, object, -, members, -⟩ :=
    messageJson_members true (Function.update (S.zero n) i v) described.idents
  have zeroBack := fun j => back zeroMap j (zeroMembers j)
  choose zeroPart zeroNew zeroBytes zeroArms _ using zeroBack
  refine ⟨(List.finRange (S.fields n).length).flatMap zeroPart, Function.update zeroPart i here,
    ?_, ?_, flatMap_update_length (List.nodup_finRange _) zeroPart i here,
    Function.update_self i here zeroPart, ?_⟩
  · rw [zeroObject, jsonToProtoBinary_obj]
    exact concatM_map fun j _ => zeroBytes j
  · rw [Schema.only, object, jsonToProtoBinary_obj]
    apply concatM_map
    intro j _
    by_cases e : j = i
    · subst e
      rw [Function.update_self]
      apply bytes
      rw [(describes j).name, members, Function.update_self]
    · have same : SortedMap.lookup (defs j).name map = SortedMap.lookup (defs j).name zeroMap := by
        rw [(describes j).name, members, zeroMembers, Function.update_of_ne e]
      rw [Function.update_of_ne e, ← zeroBytes j, memberBytes, memberBytes, same]
  · intro j e
    rw [Function.update_of_ne e]
    have arms := zeroArms j
    rw [(describes j).tag] at arms
    exact ⟨_, arms⟩

theorem fits_only (described : Described S defs made)
    (short : Short E S n ((List.finRange (S.fields n).length).map defs))
    (bytes : ∀ map, SortedMap.lookup (defs i).name map = memberJson true v →
      memberBytes E (nestedEncoder E (defs i).nestedFields) (defs i) map = .ok here)
    (small : here.length ≤ 2 ^ 61)
    (fits : (Macros.encodeField (S.field i).tag v).length ≤ isizeMax) :
    Fits S E ((List.finRange (S.fields n).length).map defs) (S.only i v) := by
  obtain ⟨zeros, part, zero, run, bound, -, -⟩ :=
    only_written described bytes
  refine ⟨by rwa [encodeToVec_only], ?_⟩
  intro written same
  cases run.symm.trans same
  have := short zeros zero
  unfold isizeMax
  omega

/-- The derived decoder takes the value for another one. -/
theorem not_agrees_of_reads (clear : S.shadowed n = false) (described : Described S defs made)
    (short : Short E S n ((List.finRange (S.fields n).length).map defs)) {part rest : List UInt8}
    (bytes : ∀ map, SortedMap.lookup (defs i).name map = memberJson true v →
      memberBytes E (nestedEncoder E (defs i).nestedFields) (defs i) map = .ok (part ++ rest))
    (small : (part ++ rest).length ≤ 2 ^ 61) {new : S.Value (S.field i).kind}
    (arms : ArmsRead S (S.field i).kind (S.field i).tag part (S.fieldDefault (S.field i).kind) new)
    (beyond : ∀ F : S.Fields n, Reads S n rest F F) (differ : canon new ≠ canon v) :
    ¬ Agrees S E ((List.finRange (S.fields n).length).map defs) (S.only i v) := by
  obtain ⟨zeros, part', zero, run, bound, mine, others⟩ := only_written described bytes
  have each (j : S.Pos n) : ∃ new' : S.Value (S.field j).kind,
      (∀ F : S.Fields n, F j = S.fieldDefaults n j →
        Reads S n (part' j) F (Function.update F j new')) ∧ (∀ e : j = i, new' = e ▸ new) := by
    by_cases e : j = i
    · subst e
      refine ⟨new, fun F start => ?_, fun _ => rfl⟩
      rw [mine]
      exact (arms.reads S j start).append (beyond _)
    · obtain ⟨new', arms⟩ := others j e
      exact ⟨new', fun F start => arms.reads S j start, fun same => absurd same e⟩
  choose all reads last using each
  intro ⟨⟨written, w, encoded, decoded, same⟩, _⟩
  cases run.symm.trans encoded
  have bounded := short zeros zero
  rw [typewayDecode_of_reads S clear (by unfold isizeMax; omega) (reads_all S reads)] at decoded
  cases decoded
  rw [SameMessage, Schema.only, canonMessage, canonMessage, Message.mk.injEq] at same
  have here := congrFun same i
  rw [Function.update_self, last i rfl] at here
  exact differ here

theorem loses_of_reads (clear : S.shadowed n = false) (described : Described S defs made)
    (short : Short E S n ((List.finRange (S.fields n).length).map defs)) (finite : Finite v)
    (fits : (Macros.encodeField (S.field i).tag v).length ≤ isizeMax) {part rest : List UInt8}
    (bytes : ∀ map, SortedMap.lookup (defs i).name map = memberJson true v →
      memberBytes E (nestedEncoder E (defs i).nestedFields) (defs i) map = .ok (part ++ rest))
    (small : (part ++ rest).length ≤ 2 ^ 61) {new : S.Value (S.field i).kind}
    (arms : ArmsRead S (S.field i).kind (S.field i).tag part (S.fieldDefault (S.field i).kind) new)
    (beyond : ∀ F : S.Fields n, Reads S n rest F F) (differ : canon new ≠ canon v) :
    Loses S E n ((List.finRange (S.fields n).length).map defs) :=
  ⟨S.only i v, finite_only finite, fits_only described short bytes small fits,
    not_agrees_of_reads clear described short bytes small arms beyond differ⟩

/-- The dynamic decoder does not make the member of the value. -/
theorem loses_of_missing (described : Described S defs made)
    (short : Short E S n ((List.finRange (S.fields n).length).map defs)) (finite : Finite v)
    (fits : (Macros.encodeField (S.field i).tag v).length ≤ isizeMax)
    (bytes : ∀ map, SortedMap.lookup (defs i).name map = memberJson true v →
      memberBytes E (nestedEncoder E (defs i).nestedFields) (defs i) map = .ok here)
    (small : here.length ≤ 2 ^ 61)
    (missing : ∀ map, protoBinaryToJson E (Macros.encodeField (S.field i).tag v)
      ((List.finRange (S.fields n).length).map defs) = .ok (.obj map) →
        SortedMap.lookup (defs i).name map = none) (present : memberJson false v ≠ none) :
    Loses S E n ((List.finRange (S.fields n).length).map defs) := by
  refine ⟨S.only i v, finite_only finite, fits_only described short bytes small fits, ?_⟩
  intro ⟨_, read⟩
  obtain ⟨map, object, -, members, -⟩ :=
    messageJson_members false (Function.update (S.zero n) i v) described.idents
  rw [encodeToVec_only, Schema.only, object] at read
  have none := missing map read
  rw [(described.describes i).name, members, Function.update_self] at none
  exact present none

end Only

/-! ## Unsound fields -/

theorem isDefault_fieldDefault {k : CodecKind ι} {s : Scalar} (scalar : protoScalar k = some s) :
    isDefault (S.fieldDefault k) = true := by
  cases k with
  | varint ty => exact beq_self_eq_true _
  | _ => first | rfl | cases scalar

theorem finite_fieldDefault {k : CodecKind ι} {s : Scalar} (scalar : protoScalar k = some s) :
    Finite (S.fieldDefault k) := by
  cases k <;> trivial

theorem content_fieldDefault_le {k : CodecKind ι} {s : Scalar} (scalar : protoScalar k = some s) :
    (content (S.fieldDefault k)).length ≤ 8 := by
  cases k with
  | varint ty =>
    have zero : ty.asU64 0 = 0 := by cases ty <;> decide
    rw [Schema.fieldDefault, content, zero, UInt64.toNat_zero, Base128.encode_of_lt (by decide)]
    exact (by decide : 1 ≤ 8)
  | lenString | lenBytesStr | lenBytes =>
    have empty : Utf8.encode "" = [] := rfl
    rw [Schema.fieldDefault, content, delimited]
    simp [empty, Base128.encode_of_lt]
  | _ => first | exact (by decide : 1 ≤ 8) | exact (by decide : 4 ≤ 8) | exact (by decide : 8 ≤ 8) | cases scalar

/-- `Some` of a default. -/
theorem encodeField_someDefault_le (tag : UInt32) {k : CodecKind ι} {s : Scalar}
    (scalar : protoScalar k = some s) :
    (Macros.encodeField tag (.some (S.fieldDefault k) : S.Value (.optional k))).length ≤
      isizeMax := by
  have short_tag := tagBytes_length_le tag (wireTypeForKind_lt k)
  have value := content_fieldDefault_le (S := S) scalar
  rw [encodeField_some, if_pos (writesOptional_of_scalar scalar), Macros.record, List.length_append]
  exact le_trans (Nat.add_le_add short_tag value) (by decide)

/-- A record of a word, cut behind its first byte. -/
theorem cutRecord_le (tag : UInt32) {wireType : UInt8} (lt : wireType.toNat < 8)
    {rest : List UInt8} (word : rest.length ≤ 8) :
    ((tagBytes tag wireType ++ [0]) ++ rest).length ≤ 2 ^ 61 := by
  have short_tag := tagBytes_length_le tag lt
  simp only [List.length_append, List.length_singleton]
  omega

/-- A packed list of one element. -/
theorem encodeField_single_le (tag : UInt32) {k : CodecKind ι} (packable : isPackable k = true)
    (item : S.Value k) (word : (content item).length ≤ 8) :
    (Macros.encodeField tag (.cons item .nil : S.Value (.repeated k))).length ≤ isizeMax := by
  have payload : packedPayload [item] = content item := List.flatMap_singleton _ _
  have short_tag := tagBytes_length_le tag len_lt
  rw [encodeField_repeated, FieldValue.items, FieldValue.items, repeatedBytes, if_pos packable,
    if_neg (by simp), payload, delimited, Nat.mod_eq_of_lt (by omega),
    Base128.encode_of_lt (by omega)]
  simp only [List.length_append, List.length_singleton]
  unfold isizeMax
  omega

/-- An unsound field has a value that one codec writes and the other does not read. -/
theorem unsound_loses (E : Externals) {n : ι} {defs : S.Pos n → ProtoFieldDef}
    {made : S.Pos n → Scalar ⊕ ι} (described : Described S defs made)
    (short : Short E S n ((List.finRange (S.fields n).length).map defs))
    (clear : S.shadowed n = false) (i : S.Pos n)
    (unsound : ¬ Sound (S.field i).tag (S.field i).kind) :
    Loses S E n ((List.finRange (S.fields n).length).map defs) := by
  have own : ∀ f ∈ (List.finRange (S.fields n).length).map defs, f.name = (defs i).name →
      f.tag = (defs i).tag := by
    intro f mem same
    obtain ⟨j, -, rfl⟩ := List.mem_map.1 mem
    rw [described.names j i same]
  obtain ⟨-, tag, plain, common, isScalar, -⟩ := described.describes i
  have misread := @loses_of_reads ι S E n defs made i
  have missed := @loses_of_missing ι S E n defs made i
  rw [← tag] at unsound misread missed
  have tag_le {wt : UInt8} (hwt : wt.toNat < 8) := tagBytes_length_le (defs i).tag hwt
  generalize (S.field i).kind = k at common unsound misread missed
  generalize many : (defs i).repeated = isList at common
  generalize made i = of at common isScalar
  cases common with
  | @scalar _ s scalar =>
    cases k with
    | bool =>
      have wide : 16 ≤ (defs i).tag.toNat := Nat.le_of_not_lt unsound
      have short_tag := tag_le varint_lt
      have finite : Finite (.bool true : S.Value .bool) := by trivial
      refine @missed (.bool true) _ described short finite ?_
        (fun map here => memberBytes_scalar plain many (isScalar _ rfl) scalar _ finite here) ?_ ?_
        (Option.some_ne_none _)
      · rw [encodeField_bool]
        exact (by decide : 2 ≤ isizeMax)
      · rw [isDefault, if_neg (by simp), Macros.record, List.length_append, content,
          List.length_singleton]
        exact le_trans (Nat.add_le_add_right short_tag 1) (by decide)
      · rw [encodeField_bool]
        exact fun map => wideFlag_missing E own wide
    | _ => first | exact absurd trivial unsound | cases scalar
  | @optional k s scalar =>
    -- `Some` of a default is left out of the dynamic encoding
    have finite := finite_fieldDefault (S := S) scalar
    refine @misread (.some (S.fieldDefault k)) clear described short finite
      (encodeField_someDefault_le _ scalar) [] [] ?_ ?_ .none (.done _) (Reads.nil S) ?_
    · intro map here
      rw [memberBytes_scalar plain many (isScalar _ rfl) scalar (S.fieldDefault k) finite here,
        isDefault_fieldDefault scalar]
      rfl
    · exact Nat.zero_le _
    · rw [canon]
      intro same
      cases same
  | @repeated k s scalar =>
    cases k with
    | fixed32 =>
      have finite : Finite (.cons (.fixed32 0x3F800000) .nil : S.Value (.repeated .fixed32)) := by
        exact ⟨by trivial, by trivial⟩
      refine @misread (.cons (.fixed32 0x3F800000) .nil) clear described short finite
        (encodeField_single_le _ rfl _ (by rw [content, word_one32]; decide))
        (tagBytes (defs i).tag 5 ++ [0]) [0, 0x80, 0x3F] ?_ (cutRecord_le _ fixed32_lt (by decide)) _
        (.one S fixed32_lt (armReads_zero32 .nil)) (reads_rest32 n) ?_
      · intro map here
        rw [memberBytes_single plain many (isScalar _ rfl) scalar _ finite here, Macros.record,
          content, word_one32, List.append_assoc]
        rfl
      · rw [FieldValue.push, canon, canon, canon]
        intro same
        cases same
    | fixed64 =>
      have finite : Finite (.cons (.fixed64 0x3FF0000000000000) .nil : S.Value (.repeated .fixed64)) := by
        exact ⟨by trivial, by trivial⟩
      refine @misread (.cons (.fixed64 0x3FF0000000000000) .nil) clear described short finite
        (encodeField_single_le _ rfl _ (by rw [content, word_one64]; decide))
        (tagBytes (defs i).tag 1 ++ [0]) [0, 0, 0, 0, 0, 0xF0, 0x3F] ?_ (cutRecord_le _ fixed64_lt (by decide)) _
        (.one S fixed64_lt (armReads_zero64 .nil)) (reads_rest64 n) ?_
      · intro map here
        rw [memberBytes_single plain many (isScalar _ rfl) scalar _ finite here, Macros.record,
          content, word_one64, List.append_assoc]
        rfl
      · rw [FieldValue.push, canon, canon, canon]
        intro same
        cases same
    | lenBytes =>
      have finite : Finite (.cons (.lenBytes []) .nil : S.Value (.repeated .lenBytes)) := by
        exact ⟨by trivial, by trivial⟩
      have silent : Macros.encodeField (defs i).tag
          (.cons (.lenBytes []) .nil : S.Value (.repeated .lenBytes)) = [] :=
        (encodeField_eq_nil _ _).2 rfl
      refine @missed (.cons (.lenBytes []) .nil) _ described short finite ?_
        (fun map here => memberBytes_single plain many (isScalar _ rfl) scalar _ finite here) ?_ ?_
        (Option.some_ne_none _)
      · rw [silent]
        exact Nat.zero_le _
      · have short_tag := tag_le len_lt
        rw [Macros.record, List.length_append]
        exact le_trans (Nat.add_le_add short_tag (content_fieldDefault_le (S := S) scalar))
          (by decide)
      · rw [silent]
        exact fun map run => nothing_missing E run _
    | varint ty => exact absurd ⟨rfl, rfl⟩ unsound
    | bool => exact absurd ⟨rfl, rfl⟩ unsound
    | lenString => exact absurd ⟨rfl, rfl⟩ unsound
    | lenBytesStr => exact absurd ⟨rfl, rfl⟩ unsound
    | _ => cases scalar
  | message m => exact absurd trivial unsound
  | optionalMessage m => exact absurd trivial unsound
  | repeatedMessage m => exact absurd trivial unsound

/-- A struct that hides its input from its decoder loses the bytes of the field that hides it. -/
theorem shadowed_loses_bytes (E : Externals) {n : ι} {defs : S.Pos n → ProtoFieldDef}
    {made : S.Pos n → Scalar ⊕ ι} (described : Described S defs made)
    (short : Short E S n ((List.finRange (S.fields n).length).map defs))
    (hidden : S.shadowed n = true) :
    Loses S E n ((List.finRange (S.fields n).length).map defs) := by
  obtain ⟨i, kind⟩ := S.exists_of_shadowed hidden
  obtain ⟨-, tag, plain, common, isScalar, -⟩ := described.describes i
  have lost : ∀ {v : S.Value (S.field i).kind} {here : List UInt8}, Finite v →
      (Macros.encodeField (defs i).tag v).length ≤ isizeMax →
      (∀ map, SortedMap.lookup (defs i).name map = memberJson true v →
        memberBytes E (nestedEncoder E (defs i).nestedFields) (defs i) map = .ok here) →
      here.length ≤ 2 ^ 61 → canon (S.fieldDefault (S.field i).kind) ≠ canon v →
      Loses S E n ((List.finRange (S.fields n).length).map defs) := by
    intro v here finite fits bytes small differ
    rw [tag] at fits
    refine ⟨S.only i v, finite_only finite, fits_only described short bytes small fits, ?_⟩
    rintro ⟨⟨written, w, -, decoded, same⟩, -⟩
    rw [typewayDecode_shadowed S hidden] at decoded
    cases decoded
    rw [SameMessage, Schema.only, canonMessage, canonMessage, Message.mk.injEq] at same
    have here := congrFun same i
    rw [Function.update_self] at here
    exact differ here
  have short_tag := tagBytes_length_le (defs i).tag len_lt
  generalize (S.field i).kind = k at common kind lost
  generalize many : (defs i).repeated = isList at common
  generalize made i = of at common isScalar
  subst kind
  cases common with
  | scalar scalar =>
    have finite : Finite (.lenBytes [0] : S.Value .lenBytes) := by trivial
    have word : (content (.lenBytes [0] : S.Value .lenBytes)).length = 2 := by
      rw [content, delimited, Base128.encode_of_lt (by decide)]
      rfl
    refine lost finite ?_
      (fun map here => memberBytes_scalar plain many (isScalar _ rfl) scalar _ finite here) ?_ ?_
    · rw [encodeField_plain rfl, if_neg (by simp [silent]), Macros.record, List.length_append, word]
      exact le_trans (Nat.add_le_add_right short_tag 2) (by decide)
    · rw [isDefault, if_neg (by simp), Macros.record, List.length_append, word]
      exact le_trans (Nat.add_le_add_right short_tag 2) (by decide)
    · simp [canon, Schema.fieldDefault]

/-! ## Both ways at once -/

/-- In structs that do not hide their input, each codec reads what the other writes of a safe
value. They do so of every value of every struct if and only if no struct hides its input and
every field is sound: no flag under a tag from 16 on, no `Option` of a scalar, no list of floats or
of byte strings. -/
theorem agrees_iff (E : Externals) (S : Schema ι)
    (short : ∀ n defs, Defines S.fields n defs → Short E S n defs) :
    (Clear S → ∀ n defs, Defines S.fields n defs → ∀ m : S.Msg n, FiniteMessage m →
        SafeMessage m → Fits S E defs m → Agrees S E defs m) ∧
      ((∀ n defs, Defines S.fields n defs → ∀ m : S.Msg n, FiniteMessage m → Fits S E defs m →
          Agrees S E defs m) ↔
        Clear S ∧ ∀ n defs, Defines S.fields n defs → ∀ i : S.Pos n,
          Sound (S.field i).tag (S.field i).kind) := by
  refine ⟨fun clear n defs defines m finite safe fits =>
    agrees_of_safe E clear defines finite safe fits, ?_, ?_⟩
  · intro all
    have clear : Clear S := by
      intro n defs defines
      by_contra hidden
      obtain ⟨m, finite, fits, lost⟩ : Loses S E n defs := by
        cases defines with
        | intro names describes nested =>
          exact shadowed_loses_bytes E ⟨names, describes, nested⟩
            (short n _ (.intro names describes nested)) (by simpa using hidden)
      exact lost (all n defs defines m finite fits)
    refine ⟨clear, fun n defs defines i => ?_⟩
    by_contra unsound
    have seen := clear n defs defines
    obtain ⟨m, finite, fits, lost⟩ : Loses S E n defs := by
      cases defines with
      | intro names describes nested =>
        exact unsound_loses E ⟨names, describes, nested⟩
          (short n _ (.intro names describes nested)) seen i unsound
    exact lost (all n defs defines m finite fits)
  · rintro ⟨clear, sound⟩ n defs defines m finite fits
    exact agrees_of_safe E clear defines finite (safeMessage_of_sound sound defines m) fits

/-- Only a plain nested message writes its zero. -/
theorem memberBytes_zeroed {E : Externals} {f : CodecField ι} {d : ProtoFieldDef}
    {made : Scalar ⊕ ι} (describes : Describes f d made) (flat : ∀ m, f.kind ≠ .message m)
    (v : S.Value f.kind) {map : List (Str × Value)}
    (member : SortedMap.lookup d.name map = memberJson true (zeroed v)) :
    memberBytes E (nestedEncoder E d.nestedFields) d map = .ok [] := by
  obtain ⟨-, -, plain, common, isScalar, -⟩ := describes
  generalize f.kind = k at common flat v
  generalize many : d.repeated = isList at common
  cases common with
  | scalar scalar =>
    have default : isDefault (zeroed v) = true := by
      rw [← silent_scalar scalar]
      exact silent_zeroed v
    rw [memberJson, isNone_scalar scalar] at member
    rw [memberBytes_scalar plain many (isScalar _ rfl) scalar _ (finite_zeroed v) member, default,
      if_pos rfl]
  | optional scalar =>
    rw [show zeroed v = .none by cases v <;> rfl] at member
    exact memberBytes_absent member
  | repeated scalar =>
    rw [show zeroed v = .nil by cases v <;> rfl, memberJson, fieldJson] at member
    exact memberBytes_list plain many member
  | message m => exact absurd rfl (flat m)
  | optionalMessage m =>
    rw [show zeroed v = .noMessage by cases v <;> rfl] at member
    exact memberBytes_absent member
  | repeatedMessage m =>
    rw [show zeroed v = .nilMessage by cases v <;> rfl, memberJson, fieldJson] at member
    exact memberBytes_list plain many member

/-- Without a plain nested message the zeros of a struct are written as nothing. -/
theorem short_of_flat (E : Externals) {n : ι} (flat : ∀ (i : S.Pos n) m, (S.field i).kind ≠ .message m)
    {defs : List ProtoFieldDef} (defines : Defines S.fields n defs) : Short E S n defs := by
  cases defines with
  | @intro _ defs made names describes nested =>
    have described : Described S defs made := ⟨names, describes, nested⟩
    obtain ⟨map, object, -, members, -⟩ := messageJson_members true (S.zero n) described.idents
    have nothing : jsonToProtoBinary E (.obj map) ((List.finRange (S.fields n).length).map defs) =
        .ok ((List.finRange (S.fields n).length).flatMap fun _ => []) := by
      rw [jsonToProtoBinary_obj]
      refine concatM_map fun i _ => ?_
      apply memberBytes_zeroed (describes i) (flat i) (S.fieldDefault (S.field i).kind)
      rw [(describes i).name, members]
      rfl
    intro bytes run
    rw [object] at run
    cases nothing.symm.trans run
    rw [List.flatMap_eq_nil_iff.2 fun _ _ => rfl]
    exact Nat.zero_le _

theorem Described.defines {n : ι} {defs : S.Pos n → ProtoFieldDef} {made : S.Pos n → Scalar ⊕ ι}
    (described : Described S defs made) :
    Defines S.fields n ((List.finRange (S.fields n).length).map defs) :=
  .intro described.names described.describes described.nested

/-- The definition of a struct with one field, a scalar. -/
theorem described_single {n : ι} (one : (S.fields n).length = 1) {d : ProtoFieldDef} {s : Scalar}
    (describes : ∀ i : S.Pos n, Describes (S.field i) d (.inl s)) :
    Described S (fun _ : S.Pos n => d) fun _ => .inl s where
  names i j _ := by
    apply Fin.ext
    omega
  describes := describes
  nested i m inner same := by cases same

/-- `struct Topic { label: String }`. -/
def topic : Schema Unit where
  fields _ := [⟨"label", .string, 1⟩]
  accepted _ := ⟨[⟨"label", .string, none⟩], rfl⟩
  compiles _ := rfl
  default _ := .mk fun | ⟨0, _⟩ => .lenString ""

def topicDefs : List ProtoFieldDef := [entryField "label".toList (.scalar .string) 1]

def topicOf (label : String) : topic.Msg () :=
  topic.only ⟨0, by decide⟩ (.lenString label)

theorem described_topic : Described topic (n := ())
    (fun _ => entryField "label".toList (.scalar .string) 1) fun _ => .inl .string := by
  apply described_single rfl
  intro ⟨0, _⟩
  exact ⟨rfl, rfl, rfl, .scalar rfl, fun s same => by cases same; rfl, fun m same => by cases same⟩

theorem short_topic (n : Unit) (defs : List ProtoFieldDef) (defines : Defines topic.fields n defs) :
    Short readsNothing topic n defs := by
  apply short_of_flat readsNothing _ defines
  intro ⟨0, _⟩ m same
  cases same

/-- A topic gets through. -/
theorem agrees_topic : Agrees topic readsNothing topicDefs (topicOf "news") := by
  apply (agrees_iff readsNothing topic short_topic).1 (fun _ _ _ => rfl) () topicDefs
    described_topic.defines
  · exact finite_only (by trivial)
  · intro ⟨0, _⟩
    trivial
  · apply fits_only described_topic (short_topic () _ described_topic.defines)
    · exact fun map here => memberBytes_scalar rfl rfl rfl rfl (.lenString "news") (by trivial) here
    · have short_tag := tagBytes_length_le 1 len_lt
      have text : Utf8.encode "news" = [110, 101, 119, 115] := rfl
      have value : (content (.lenString "news" : topic.Value .lenString)).length ≤ 8 := by
        rw [content, text, delimited, Base128.encode_of_lt (by decide)]
        decide
      rw [isDefault, if_neg (by decide), Macros.record, List.length_append]
      exact le_trans (Nat.add_le_add short_tag value) (by decide)
    · decide

/-- `struct Page { limit: Option<u32> }`. -/
def page : Schema Unit where
  fields _ := [⟨"limit", .option (.int .u32), 1⟩]
  accepted _ := ⟨[⟨"limit", .option (.int .u32), none⟩], rfl⟩
  compiles _ := rfl
  default _ := .mk fun | ⟨0, _⟩ => .none

def pageDefs : List ProtoFieldDef := [entryField "limit".toList (.scalar .uint32) 1]

def pageOf (limit : BitVec 32) : page.Msg () :=
  page.only ⟨0, by decide⟩ (.some (.varint limit))

theorem described_page : Described page (n := ())
    (fun _ => entryField "limit".toList (.scalar .uint32) 1) fun _ => .inl .uint32 := by
  apply described_single rfl
  intro ⟨0, _⟩
  exact ⟨rfl, rfl, rfl, .optional rfl, fun s same => by cases same; rfl, fun m same => by cases same⟩

/-- `Some(0)` is left out of the dynamic encoding, which decodes to `None`. -/
theorem not_agrees_page : Defines page.fields () pageDefs ∧ FiniteMessage (pageOf 0) ∧
    Fits page readsNothing pageDefs (pageOf 0) ∧ ¬ Agrees page readsNothing pageDefs (pageOf 0) := by
  have short : Short readsNothing page () pageDefs := by
    apply short_of_flat readsNothing _ described_page.defines
    intro ⟨0, _⟩ m same
    cases same
  have finite : Finite (.some (.varint 0) : page.Value (.optional (.varint .u32))) := by trivial
  have bytes : ∀ map, SortedMap.lookup "limit".toList map =
      memberJson true (.some (.varint 0) : page.Value (.optional (.varint .u32))) →
      memberBytes readsNothing (nestedEncoder readsNothing none) (entryField "limit".toList (.scalar .uint32) 1) map =
        .ok ([] ++ []) :=
    fun map here => memberBytes_scalar rfl rfl rfl rfl (.varint 0 : page.Value (.varint .u32))
      (by trivial) here
  refine ⟨described_page.defines, finite_only finite, ?_, ?_⟩
  · apply fits_only (i := ⟨0, by decide⟩) described_page short bytes (Nat.zero_le _)
    decide
  · refine not_agrees_of_reads (i := ⟨0, by decide⟩) rfl described_page short bytes (Nat.zero_le _)
      (.done .none) (Reads.nil page) ?_
    intro same
    cases same

end Typeway.Grpc
