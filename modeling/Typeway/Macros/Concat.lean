import Typeway.Macros.RoundTrip

/-!
# Decoding one input behind another

What the decoder reads does not depend on what follows: a reader that has read some bytes reads
them again wherever they stand. A decoded input is therefore a change of the variables that can
be made from any values of them, and a second input is decoded behind the first.
-/

namespace Typeway.Macros

open Checked Protobuf

variable {ι : Type} {Γ : ι → List (CodecField ι)}

/-! ## Readers -/

/-- The reader reads `a` from these bytes, wherever they stand. -/
def ReadsAt {α : Type} (read : String → List UInt8 → Nat → Run TypewayDecodeError (α × Nat))
    (l : List UInt8) (a : α) : Prop :=
  ∀ ident bytes offset, bytes.length ≤ isizeMax → At bytes offset l →
    read ident bytes offset = .ok (a, offset + l.length)

theorem ReadsAt.store {α β : Type}
    {read : String → List UInt8 → Nat → Run TypewayDecodeError (α × Nat)} {l : List UInt8} {a : α}
    (h : ReadsAt read l a) (ident : String) {bytes : List UInt8} {offset : Nat}
    (small : bytes.length ≤ isizeMax) (here : At bytes offset l) (f : α → β) :
    store (read ident bytes offset) f = .ok (offset + l.length, f a) := by
  rw [Macros.store, h ident bytes offset small here]
  rfl

/-- What a reader reads depends on nothing behind it. -/
def Local {α : Type} (read : String → List UInt8 → Nat → Run TypewayDecodeError (α × Nat)) : Prop :=
  ∀ ident bytes offset, Ensures (read ident bytes offset) fun r =>
    ∃ l, At bytes offset l ∧ r.2 = offset + l.length ∧ ReadsAt read l r.1

/-- A varint that was read is spelled there. -/
theorem readVarint_spells (bytes : List UInt8) (offset : Nat) :
    Ensures (readVarint bytes offset) fun r =>
      ∃ l, At bytes offset l ∧ r.2 = offset + l.length ∧ Spells l r.1 := by
  refine (Ensures.sliceFrom bytes offset).bind fun rest cut => ?_
  obtain ⟨low, rfl⟩ := cut
  refine (Ensures.lift fun r (word : twDecodeVarint (bytes.drop offset) = .ok r) => word).bind ?_
  intro ⟨val, consumed⟩ word
  obtain ⟨l, rest, tail, terminated, short, rfl, rfl⟩ := twDecodeVarint_sound word
  refine (Ensures.add _ _).bind fun stop sum => .ok ?_
  exact ⟨l, .of_drop low tail, sum, terminated, short, rfl⟩

theorem readVarint_local : Local fun _ => readVarint := by
  intro ident bytes offset r run
  obtain ⟨l, here, stop, spells⟩ := readVarint_spells bytes offset r run
  exact ⟨l, here, stop, fun _ _ _ small h => readVarint_spelled small spells h⟩

/-- A payload that was read stands there behind its length. -/
theorem readLen_frames (bytes : List UInt8) (offset : Nat) :
    Ensures (readLen bytes offset) fun r =>
      ∃ l, At bytes offset l ∧ r.2 = offset + l.length ∧ Framed r.1 l := by
  refine (readVarint_spells bytes offset).bind ?_
  intro ⟨len, start⟩ ⟨header, here, behind, spells⟩
  dsimp only at behind spells ⊢
  subst behind
  refine (Ensures.add _ _).bind fun stop sum => ?_
  subst sum
  split
  · exact .fail _
  · rename_i enough
    refine (Ensures.slice _ _ _).bind fun payload cut => .ok ?_
    obtain ⟨order, fits, rfl⟩ := cut
    have ahead := At.of_slice order fits
    have size := ahead.bound
    have length : ((bytes.drop (offset + header.length)).take
        (offset + header.length + len.toNat - (offset + header.length))).length = len.toNat := by
      rw [List.length_take, List.length_drop]
      omega
    refine ⟨_, here.append ahead, by rw [List.length_append, length]; omega, header, rfl, ?_⟩
    rw [length, UInt64.ofNat_toNat]
    exact spells

theorem readLen_local : Local fun _ => readLen := by
  intro ident bytes offset r run
  obtain ⟨l, here, stop, framed⟩ := readLen_frames bytes offset r run
  exact ⟨l, here, stop, fun _ _ _ small h => readLen_framed small framed h⟩

theorem readFixed_local (width : Nat) : Local fun _ => readFixed width := by
  intro ident bytes offset
  refine (Ensures.add _ _).bind fun stop sum => ?_
  subst sum
  split
  · exact .fail _
  · refine (Ensures.slice _ _ _).bind fun word cut => .ok ?_
    obtain ⟨order, fits, rfl⟩ := cut
    have here := At.of_slice order fits
    have length : ((bytes.drop offset).take (offset + width - offset)).length = width := by
      rw [List.length_take, List.length_drop]
      omega
    refine ⟨_, here, by rw [length], ?_⟩
    intro _ bytes' offset' small h
    have read := readFixed_at small h
    rwa [length] at read ⊢

theorem readString_local : Local readString := by
  intro ident bytes offset
  refine (readLen_frames bytes offset).bind ?_
  intro ⟨payload, stop⟩ ⟨l, here, behind, framed⟩
  dsimp only at behind framed ⊢
  cases text : Utf8.decode payload with
  | none => exact .fail _
  | some s =>
    refine .ok ⟨l, here, behind, ?_⟩
    intro ident' bytes' offset' small h
    rw [readString, readLen_framed small framed h, ok_bind]
    dsimp only
    rw [text]
    rfl

theorem readMessage_local {α : Type} (decode : List UInt8 → Run TypewayDecodeError α) :
    Local fun _ => readMessage decode := by
  intro ident bytes offset
  refine (readLen_frames bytes offset).bind ?_
  intro ⟨payload, stop⟩ ⟨l, here, behind, framed⟩
  dsimp only at behind framed ⊢
  cases nested : decode payload with
  | error st => exact .error st
  | ok m =>
    refine .ok ⟨l, here, behind, ?_⟩
    intro _ bytes' offset' small h
    show readMessage decode bytes' offset' = _
    rw [readMessage, readLen_framed small framed h, ok_bind]
    dsimp only
    rw [nested]
    rfl

/-- Skipping a value reads as much as the value has, whatever follows. -/
theorem skipValue_local (wireType : UInt8) : Local fun _ => skipValue wireType := by
  intro ident bytes offset
  refine (Ensures.sliceFrom bytes offset).bind fun rest cut => ?_
  obtain ⟨low, rfl⟩ := cut
  -- the value is a prefix that is skipped alike in front of anything
  suffices Ensures (twSkipWireValue (bytes.drop offset) wireType) fun skipped =>
      ∃ l rest, bytes.drop offset = l ++ rest ∧ skipped = l.length ∧
        ∀ rest', l.length + rest'.length ≤ isizeMax →
          twSkipWireValue (l ++ rest') wireType = .ok l.length by
    refine this.bind fun skipped prefixed => ?_
    obtain ⟨l, rest, tail, rfl, again⟩ := prefixed
    refine (Ensures.add _ _).bind fun stop sum => .ok ?_
    refine ⟨l, .of_drop low tail, sum, ?_⟩
    intro _ bytes' offset' small h
    obtain ⟨rest', tail'⟩ := h.drop
    have bound := h.bound
    have length := congrArg List.length tail'
    rw [List.length_drop, List.length_append] at length
    unfold isizeMax at small
    show skipValue wireType bytes' offset' = _
    rw [skipValue, sliceFrom_eq_ok (by omega), ok_bind, tail',
      again rest' (by unfold isizeMax; omega), ok_bind, add_eq_ok (by unfold usizeBound; omega)]
    rfl
  unfold twSkipWireValue
  split
  · refine (Ensures.lift fun r (word : twDecodeVarint (bytes.drop offset) = .ok r) => word).bind ?_
    rintro ⟨val, consumed⟩ word
    obtain ⟨l, rest, tail, terminated, short, -, rfl⟩ := twDecodeVarint_sound word
    refine .ok ⟨l, rest, tail, rfl, fun rest' _ => ?_⟩
    rw [twDecodeVarint_terminated terminated short]
    rfl
  · split
    · exact .fail _
    · rename_i enough
      have eight : ((bytes.drop offset).take 8).length = 8 := by
        rw [List.length_take]
        omega
      refine .ok ⟨_, _, (List.take_append_drop 8 _).symm, eight.symm, fun rest' _ => ?_⟩
      rw [if_neg (by rw [List.length_append]; omega), eight]
      rfl
  · refine (Ensures.lift fun r (word : twDecodeVarint (bytes.drop offset) = .ok r) => word).bind ?_
    rintro ⟨len, hdr⟩ word
    obtain ⟨header, rest, tail, terminated, short, value, rfl⟩ := twDecodeVarint_sound word
    dsimp only
    refine (Ensures.add _ _).bind fun total sum => ?_
    subst sum
    split
    · exact .fail _
    · rename_i enough
      have length : ((bytes.drop offset).take (header.length + len.toNat)).length =
          header.length + len.toNat := by
        rw [List.length_take]
        omega
      refine .ok ⟨_, _, (List.take_append_drop _ _).symm, length.symm, fun rest' fits => ?_⟩
      have front : (bytes.drop offset).take (header.length + len.toNat) =
          header ++ rest.take len.toNat := by
        rw [tail, List.take_append, List.take_of_length_le (Nat.le_add_right _ _),
          Nat.add_sub_cancel_left]
      rw [length] at fits ⊢
      rw [front, List.append_assoc, twDecodeVarint_terminated terminated short, lift_ok, ok_bind]
      dsimp only
      unfold isizeMax at fits
      rw [← value, add_eq_ok (by unfold usizeBound; omega), ok_bind, ← List.append_assoc, ← front,
        if_neg (by rw [List.length_append, length]; omega)]
      rfl
  · split
    · exact .fail _
    · rename_i enough
      have four : ((bytes.drop offset).take 4).length = 4 := by
        rw [List.length_take]
        omega
      refine .ok ⟨_, _, (List.take_append_drop 4 _).symm, four.symm, fun rest' _ => ?_⟩
      rw [if_neg (by rw [List.length_append]; omega), four]
      rfl
  · exact .fail _

/-! ## Packed fields -/

/-- A turn of a packed loop reads one element, and reads it again elsewhere. -/
def PackedLocal {k : CodecKind ι}
    (step : List UInt8 → PackedState Γ k → Run TypewayDecodeError (PackedState Γ k)) : Prop :=
  ∀ bytes s, Ensures (step bytes s) fun s' =>
    ∃ l item, At bytes s.1 l ∧ s' = (s.1 + l.length, s.2.push item) ∧
      ∀ bytes' offset items, bytes'.length ≤ isizeMax → At bytes' offset l →
        step bytes' (offset, items) = .ok (offset + l.length, items.push item)

theorem packedVarintStep_local {k : CodecKind ι} (ofVal : UInt64 → FieldValue Γ k) :
    PackedLocal (packedVarintStep ofVal) := by
  intro bytes ⟨offset, items⟩
  -- both paths read one varint
  suffices Ensures (packedVarintStep ofVal bytes (offset, items)) fun s' =>
      ∃ l v, At bytes offset l ∧ s' = (offset + l.length, items.push (ofVal v)) ∧ Spells l v by
    refine this.mono fun s' read => ?_
    obtain ⟨l, v, here, same, spells⟩ := read
    exact ⟨l, _, here, same, fun _ _ _ small h => packedVarintStep_spelled small spells h ofVal _⟩
  refine (Ensures.index bytes offset).bind fun b head => ?_
  have low := (List.getElem?_eq_some_iff.1 head).1
  split
  · rename_i short
    refine (Ensures.add _ _).bind fun stop sum => .ok ?_
    subst sum
    have tail : bytes.drop offset = [b] ++ bytes.drop (offset + 1) := by
      rw [List.drop_eq_getElem_cons low, (List.getElem?_eq_some_iff.1 head).2]
      rfl
    refine ⟨[b], _, .of_drop (Nat.le_of_lt low) tail, rfl, .last (byte_below.1 short), by simp, ?_⟩
    have word := twDecodeVarint_one (byte_below.1 short) []
    rw [← List.append_nil [b], twDecodeVarint_terminated (.last (byte_below.1 short)) (by simp)]
      at word
    exact congrArg Prod.fst (Except.ok.inj word)
  · refine (readVarint_spells bytes offset).bind fun r read => .ok ?_
    obtain ⟨l, here, behind, spells⟩ := read
    exact ⟨l, r.1, here, by rw [behind], spells⟩

theorem packedFixedStep_local {k : CodecKind ι} (width : Nat) (ofWord : List UInt8 → FieldValue Γ k) :
    PackedLocal (packedFixedStep width ofWord) := by
  intro bytes ⟨offset, items⟩
  refine (readFixed_local width "" bytes offset).bind fun r read => .ok ?_
  obtain ⟨l, here, behind, again⟩ := read
  refine ⟨l, ofWord r.1, here, by rw [behind], ?_⟩
  intro bytes' offset' items' small h
  rw [packedFixedStep]
  exact again.store "" small h _

/-- The elements that a packed loop has read it reads again elsewhere. -/
theorem packedLoop_local {k : CodecKind ι}
    {step : List UInt8 → PackedState Γ k → Run TypewayDecodeError (PackedState Γ k)}
    (local_ : PackedLocal step) (advances : ∀ bytes, PackedAdvances bytes (step bytes))
    (bytes : List UInt8) (room offset : Nat) (items : FieldValue Γ (.repeated k))
    (inside : offset ≤ bytes.length) :
    Ensures (packedLoop (step bytes) (offset + room) (offset, items)) fun t =>
      ∃ l new, At bytes offset l ∧ room ≤ l.length ∧ t = (offset + l.length, pushAll items new) ∧
        ∀ bytes' offset' items', bytes'.length ≤ isizeMax → At bytes' offset' l →
          packedLoop (step bytes') (offset' + room) (offset', items') =
            .ok (offset' + l.length, pushAll items' new) := by
  induction room using Nat.strongRecOn generalizing offset items with
  | ind room ih =>
    intro t run
    rcases Nat.eq_zero_or_pos room with rfl | pos
    · rw [packedLoop, runLoop_done (by simp)] at run
      cases run
      refine ⟨[], [], ⟨inside, rfl⟩, Nat.le_refl _, rfl, ?_⟩
      intro bytes' offset' items' _ _
      exact runLoop_done (by simp)
    · rw [packedLoop, runLoop_next (packedLoop_lowers (advances bytes) _) (by simpa using pos)] at run
      obtain ⟨s, first, rest⟩ := bind_eq_ok.1 run
      obtain ⟨l, item, here, rfl, again⟩ := local_ bytes _ s first
      have moved := (advances bytes _ _ first).1
      have bound := here.bound
      dsimp only at moved here
      have room_eq : offset + room = offset + l.length + (room - l.length) ∨ room < l.length := by
        omega
      rcases room_eq with split | past
      · rw [split] at rest
        obtain ⟨l', new, behind, enough, rfl, more⟩ :=
          ih (room - l.length) (by omega) (offset + l.length) (items.push item) bound t rest
        refine ⟨l ++ l', item :: new, here.append behind, ?_, ?_, ?_⟩
        · rw [List.length_append]
          omega
        · rw [List.length_append, ← Nat.add_assoc]
          rfl
        · intro bytes' offset' items' small h
          have step' := again bytes' offset' items' small h.left
          have next := more bytes' (offset' + l.length) (items'.push item) small h.right
          rw [packedLoop, runLoop_step (packedLoop_lowers (advances bytes') _)
            (by simpa using pos) step', ← packedLoop,
            show offset' + room = offset' + l.length + (room - l.length) by omega, next,
            List.length_append, ← Nat.add_assoc]
          rfl
      · -- the element ends behind the declared end
        rw [runLoop_done (by simp; omega)] at rest
        cases rest
        refine ⟨l, [item], here, by omega, rfl, ?_⟩
        intro bytes' offset' items' small h
        have step' := again bytes' offset' items' small h
        rw [packedLoop, runLoop_step (packedLoop_lowers (advances bytes') _)
          (by simpa using pos) step', runLoop_done (by simp; omega)]
        rfl

theorem readPackedLen_spells (bytes : List UInt8) (offset : Nat) :
    Ensures (readPackedLen bytes offset) fun r =>
      ∃ l len, At bytes offset l ∧ Spells l len ∧
        r = (offset + l.length, offset + l.length + len.toNat) ∧ r.2 ≤ bytes.length := by
  refine (readVarint_spells bytes offset).bind ?_
  intro ⟨len, start⟩ ⟨l, here, behind, spells⟩
  dsimp only at behind spells ⊢
  subst behind
  refine (Ensures.add _ _).bind fun stop sum => ?_
  subst sum
  split
  · exact .fail _
  · rename_i enough
    exact .ok ⟨l, len, here, spells, rfl, Nat.le_of_not_lt enough⟩

/-- The packed arm reads its elements again elsewhere. -/
theorem decodePacked_local {k : CodecKind ι}
    {step : List UInt8 → PackedState Γ k → Run TypewayDecodeError (PackedState Γ k)}
    (local_ : PackedLocal step) (advances : ∀ bytes, PackedAdvances bytes (step bytes))
    (ofVal : UInt64 → FieldValue Γ k) (wireType : UInt8) (bytes : List UInt8) (offset : Nat)
    (items : FieldValue Γ (.repeated k)) :
    Ensures (decodePacked step ofVal wireType bytes offset items) fun t =>
      ∃ l new, At bytes offset l ∧ t = (offset + l.length, pushAll items new) ∧
        ∀ bytes' offset' items', bytes'.length ≤ isizeMax → At bytes' offset' l →
          decodePacked step ofVal wireType bytes' offset' items' =
            .ok (offset' + l.length, pushAll items' new) := by
  rw [decodePacked]
  split
  · rename_i packed
    subst packed
    refine (readPackedLen_spells bytes offset).bind fun r header => ?_
    obtain ⟨l, len, here, spells, rfl, fits⟩ := header
    dsimp only at fits ⊢
    refine (packedLoop_local local_ advances bytes len.toNat _ items (by omega)).mono ?_
    intro t elements
    obtain ⟨l', new, behind, enough, rfl, again⟩ := elements
    refine ⟨l ++ l', new, here.append behind, by rw [List.length_append, ← Nat.add_assoc], ?_⟩
    intro bytes' offset' items' small h
    have ahead := h.right.bound
    unfold isizeMax at small
    rw [decodePacked, if_pos rfl, readPackedLen, readVarint_spelled small spells h.left, ok_bind]
    dsimp only
    rw [add_eq_ok (by unfold usizeBound; omega), ok_bind, if_neg (by omega), pure, Applicative.toPure,
      List.length_append, ← Nat.add_assoc]
    exact again bytes' _ items' small h.right
  · rename_i single
    refine (readVarint_local "" bytes offset).bind fun r read => .ok ?_
    obtain ⟨l, here, behind, again⟩ := read
    refine ⟨l, [ofVal r.1], here, by rw [behind]; rfl, ?_⟩
    intro bytes' offset' items' small h
    rw [decodePacked, if_neg single]
    exact again.store "" small h _

/-! ## Values -/

/-- An `Option` that no arm stores is `None`. -/
def Kept : {k : CodecKind ι} → FieldValue Γ k → Prop
  | .optional inner, v => inner.readsOptional = false → v = .none
  | _, _ => True

/-- A variable that had the value `a` when the input was decoded that sets it to `b` alone: a list
goes on with the elements of the other, and any other value is replaced if the field was seen. -/
def joined (seen : Bool) : {k : CodecKind ι} → FieldValue Γ k → FieldValue Γ k → FieldValue Γ k
  | .repeated _, a, b => pushAll a b.items
  | .repeatedMessage _, a, b => b.messages.foldl FieldValue.pushMessage a
  | _, a, b => if seen then b else a

theorem items_push {k : CodecKind ι} (item : FieldValue Γ k) :
    (v : FieldValue Γ (.repeated k)) → (v.push item).items = v.items ++ [item]
  | .nil => by rw [FieldValue.push, FieldValue.items, FieldValue.items, FieldValue.items]; rfl
  | .cons first items => by
    rw [FieldValue.push, FieldValue.items, items_push item items, FieldValue.items]
    rfl

theorem items_pushAll {k : CodecKind ι} (l : List (FieldValue Γ k)) (v : FieldValue Γ (.repeated k)) :
    (pushAll v l).items = v.items ++ l := by
  induction l generalizing v with
  | nil => exact (List.append_nil _).symm
  | cons item l ih =>
    rw [pushAll, List.foldl_cons, ← pushAll, ih, items_push, List.append_assoc]
    rfl

theorem messages_push {n : ι} (m : Message Γ n) :
    (v : FieldValue Γ (.repeatedMessage n)) → (v.pushMessage m).messages = v.messages ++ [m]
  | .nilMessage => by
    rw [FieldValue.pushMessage, FieldValue.messages, FieldValue.messages, FieldValue.messages]
    rfl
  | .consMessage first ms => by
    rw [FieldValue.pushMessage, FieldValue.messages, messages_push m ms, FieldValue.messages]
    rfl

theorem messages_foldl {n : ι} (l : List (Message Γ n)) (v : FieldValue Γ (.repeatedMessage n)) :
    (l.foldl FieldValue.pushMessage v).messages = v.messages ++ l := by
  induction l generalizing v with
  | nil => exact (List.append_nil _).symm
  | cons m l ih =>
    rw [List.foldl_cons, ih, messages_push, List.append_assoc]
    rfl

theorem foldl_pushMessage {n : ι} (m : Message Γ n) (l : List (Message Γ n))
    (v : FieldValue Γ (.repeatedMessage n)) :
    l.foldl FieldValue.pushMessage (.consMessage m v) =
      .consMessage m (l.foldl FieldValue.pushMessage v) := by
  induction l generalizing v with
  | nil => rfl
  | cons first l ih =>
    rw [List.foldl_cons, FieldValue.pushMessage]
    exact ih _

theorem pushAll_messages {n : ι} :
    (v : FieldValue Γ (.repeatedMessage n)) → v.messages.foldl FieldValue.pushMessage .nilMessage = v
  | .nilMessage => by rw [FieldValue.messages]; rfl
  | .consMessage m ms => by
    rw [FieldValue.messages, List.foldl_cons, FieldValue.pushMessage, foldl_pushMessage,
      pushAll_messages ms]

/-- Decoding twice is decoding the two inputs joined. -/
theorem joined_joined (seen seen' : Bool) {k : CodecKind ι} (a b c : FieldValue Γ k) :
    joined seen' (joined seen a b) c = joined (seen || seen') a (joined seen' b c) := by
  cases k with
  | repeated k => rw [joined, joined, joined, joined, items_pushAll, pushAll, pushAll, ← List.foldl_append]; rfl
  | repeatedMessage n =>
    rw [joined, joined, joined, joined, messages_foldl, List.foldl_append]
  | _ => cases seen <;> cases seen' <;> rfl

theorem kept_joined (seen : Bool) {k : CodecKind ι} {a b : FieldValue Γ k} (ha : Kept a)
    (hb : Kept b) : Kept (joined seen a b) := by
  cases k with
  | optional inner => cases seen <;> assumption
  | _ => trivial

section Arms

variable (S : Schema ι)

theorem kept_fieldDefault (k : CodecKind ι) : Kept (S.fieldDefault k) := by
  cases k with
  | optional inner => exact fun _ => rfl
  | _ => trivial

theorem joined_default (k : CodecKind ι) (a : S.Value k) :
    joined false a (S.fieldDefault k) = a := by
  cases k with
  | repeated k => rw [Schema.fieldDefault, joined, FieldValue.items]; rfl
  | repeatedMessage n => rw [Schema.fieldDefault, joined, FieldValue.messages]; rfl
  | _ => rfl

theorem default_joined (seen : Bool) {k : CodecKind ι} (b : S.Value k)
    (unseen : seen = false → b = S.fieldDefault k) : joined seen (S.fieldDefault k) b = b := by
  cases seen with
  | false => rw [unseen rfl, joined_default]
  | true =>
    cases k with
    | repeated k => exact pushAll_items b
    | repeatedMessage n => exact pushAll_messages b
    | _ => rfl

/-! ## Arms -/

/-- What the arm of a field reads it reads again elsewhere, and joins to any value. -/
def ArmLocal (k : CodecKind ι) (wireType : UInt8) : Prop :=
  ∀ ident bytes offset (cur : S.Value k),
    Ensures (genDecodeArm (typewayDecode S) ident wireType bytes offset k cur) fun r =>
      ∃ l d, At bytes offset l ∧ r.1 = offset + l.length ∧ Kept d ∧
        (Kept cur → r.2 = joined true cur d) ∧
        ∀ cur', Kept cur' → ArmReads S k wireType l cur' (joined true cur' d)

variable {S}

/-- An arm that stores what a reader reads. -/
theorem armLocal_of_read {α : Type} {k : CodecKind ι} {wireType : UInt8}
    {read : String → List UInt8 → Nat → Run TypewayDecodeError (α × Nat)} (reads : Local read)
    (of : α → S.Value k) (set : α → S.Value k → S.Value k)
    (arm : ∀ ident bytes offset cur,
      genDecodeArm (typewayDecode S) ident wireType bytes offset k cur =
        store (read ident bytes offset) fun a => set a cur)
    (kept : ∀ a, Kept (of a)) (joins : ∀ a cur, Kept cur → set a cur = joined true cur (of a)) :
    ArmLocal S k wireType := by
  intro ident bytes offset cur
  rw [arm]
  refine (reads ident bytes offset).bind fun r here => .ok ?_
  obtain ⟨l, stands, behind, again⟩ := here
  refine ⟨l, of r.1, stands, behind, kept _, joins _ _, ?_⟩
  intro cur' kept' ident' bytes' offset' small h
  rw [arm, ← joins _ _ kept']
  exact again.store ident' small h _

/-- An arm that replaces the value. -/
theorem armLocal_set {α : Type} {k : CodecKind ι} {wireType : UInt8}
    {read : String → List UInt8 → Nat → Run TypewayDecodeError (α × Nat)} (reads : Local read)
    (of : α → S.Value k)
    (arm : ∀ ident bytes offset cur,
      genDecodeArm (typewayDecode S) ident wireType bytes offset k cur =
        store (read ident bytes offset) of)
    (kept : ∀ a, Kept (of a)) (replaces : ∀ a cur, joined true cur (of a) = of a) :
    ArmLocal S k wireType :=
  armLocal_of_read reads of (fun a _ => of a) arm kept fun a cur _ => (replaces a cur).symm

theorem armLocal_of_packed {k : CodecKind ι} {wireType : UInt8}
    {step : List UInt8 → PackedState S.fields k → Run TypewayDecodeError (PackedState S.fields k)}
    (reads : PackedLocal step) (advances : ∀ bytes, PackedAdvances bytes (step bytes))
    (ofVal : UInt64 → S.Value k)
    (arm : ∀ ident bytes offset cur,
      genDecodeArm (typewayDecode S) ident wireType bytes offset (.repeated k) cur =
        decodePacked step ofVal wireType bytes offset cur) : ArmLocal S (.repeated k) wireType := by
  intro ident bytes offset cur
  rw [arm]
  refine (decodePacked_local reads advances ofVal wireType bytes offset cur).mono fun r here => ?_
  obtain ⟨l, new, stands, rfl, again⟩ := here
  have joins (cur' : S.Value (.repeated k)) : joined true cur' (pushAll .nil new) = pushAll cur' new := by
    rw [joined, items_pushAll, FieldValue.items, List.nil_append]
  refine ⟨l, pushAll .nil new, stands, rfl, trivial, fun _ => (joins cur).symm, ?_⟩
  intro cur' _ ident' bytes' offset' small h
  rw [arm, joins]
  exact again bytes' offset' cur' small h

theorem armLocal_optional (inner : CodecKind ι) (wireType : UInt8) :
    ArmLocal S (.optional inner) wireType := by
  cases inner with
  | varint ty =>
    exact armLocal_set readVarint_local (fun val => .some (.varint (ty.ofU64 val)))
      (fun _ _ _ _ => rfl) (fun _ no => nomatch no) fun _ _ => rfl
  | bool =>
    exact armLocal_set readVarint_local (fun val => .some (.bool (val != 0)))
      (fun _ _ _ _ => rfl) (fun _ no => nomatch no) fun _ _ => rfl
  | fixed32 =>
    exact armLocal_set (readFixed_local 4) (fun word => .some (.fixed32 (Ieee.fromLeBytes 4 word)))
      (fun _ _ _ _ => rfl) (fun _ no => nomatch no) fun _ _ => rfl
  | fixed64 =>
    exact armLocal_set (readFixed_local 8) (fun word => .some (.fixed64 (Ieee.fromLeBytes 8 word)))
      (fun _ _ _ _ => rfl) (fun _ no => nomatch no) fun _ _ => rfl
  | lenString =>
    exact armLocal_set readString_local (fun s => .some (.lenString s))
      (fun _ _ _ _ => rfl) (fun _ no => nomatch no) fun _ _ => rfl
  | lenBytesStr =>
    exact armLocal_set readString_local (fun s => .some (.lenBytesStr s))
      (fun _ _ _ _ => rfl) (fun _ no => nomatch no) fun _ _ => rfl
  | messageStr =>
    exact armLocal_set (readMessage_local bytesStrDecode) (fun s => .some (.messageStr s))
      (fun _ _ _ _ => rfl) (fun _ no => nomatch no) fun _ _ => rfl
  | _ =>
    -- the value is passed over
    exact armLocal_of_read (skipValue_local wireType) (fun _ => .none) (fun _ cur => cur)
      (fun _ _ _ _ => rfl) (fun _ _ => rfl) fun _ cur kept => kept rfl

theorem armLocal_repeated (inner : CodecKind ι) (wireType : UInt8) :
    ArmLocal S (.repeated inner) wireType := by
  have pushes (item : S.Value inner) (cur : S.Value (.repeated inner)) :
      cur.push item = joined true cur (.cons item .nil) := by
    rw [joined, FieldValue.items, FieldValue.items]
    rfl
  cases inner with
  | varint ty =>
    exact armLocal_of_packed (packedVarintStep_local _) (packedVarintStep_advances _) _
      fun _ _ _ _ => rfl
  | bool =>
    exact armLocal_of_packed (packedVarintStep_local _) (packedVarintStep_advances _) _
      fun _ _ _ _ => rfl
  | fixed32 =>
    exact armLocal_of_packed (packedFixedStep_local 4 _) (packedFixedStep_advances (by decide) _) _
      fun _ _ _ _ => rfl
  | fixed64 =>
    exact armLocal_of_packed (packedFixedStep_local 8 _) (packedFixedStep_advances (by decide) _) _
      fun _ _ _ _ => rfl
  | lenString =>
    exact armLocal_of_read readString_local (fun s => .cons (.lenString s) .nil)
      (fun s cur => cur.push (.lenString s)) (fun _ _ _ _ => rfl) (fun _ => trivial)
      fun s cur _ => pushes (.lenString s) cur
  | lenBytesStr =>
    exact armLocal_of_read readString_local (fun s => .cons (.lenBytesStr s) .nil)
      (fun s cur => cur.push (.lenBytesStr s)) (fun _ _ _ _ => rfl) (fun _ => trivial)
      fun s cur _ => pushes (.lenBytesStr s) cur
  | messageStr =>
    exact armLocal_of_read (readMessage_local bytesStrDecode) (fun s => .cons (.messageStr s) .nil)
      (fun s cur => cur.push (.messageStr s)) (fun _ _ _ _ => rfl) (fun _ => trivial)
      fun s cur _ => pushes (.messageStr s) cur
  | _ =>
    exact armLocal_of_read (skipValue_local wireType) (fun _ => .nil) (fun _ cur => cur)
      (fun _ _ _ _ => rfl) (fun _ => trivial) fun _ cur _ => by rw [joined, FieldValue.items]; rfl

/-- Every arm reads again elsewhere what it has read. -/
theorem armLocal (k : CodecKind ι) (wireType : UInt8) : ArmLocal S k wireType := by
  cases k with
  | varint ty =>
    exact armLocal_set readVarint_local (fun val => .varint (ty.ofU64 val))
      (fun _ _ _ _ => rfl) (fun _ => trivial) fun _ _ => rfl
  | bool =>
    exact armLocal_set readVarint_local (fun val => .bool (val != 0))
      (fun _ _ _ _ => rfl) (fun _ => trivial) fun _ _ => rfl
  | fixed32 =>
    exact armLocal_set (readFixed_local 4) (fun word => .fixed32 (Ieee.fromLeBytes 4 word))
      (fun _ _ _ _ => rfl) (fun _ => trivial) fun _ _ => rfl
  | fixed64 =>
    exact armLocal_set (readFixed_local 8) (fun word => .fixed64 (Ieee.fromLeBytes 8 word))
      (fun _ _ _ _ => rfl) (fun _ => trivial) fun _ _ => rfl
  | lenString =>
    exact armLocal_of_read readString_local (fun s => .lenString s) (fun s _ => .lenString s)
      (fun _ _ _ _ => rfl) (fun _ => trivial) fun _ _ _ => rfl
  | lenBytesStr =>
    exact armLocal_of_read readString_local (fun s => .lenBytesStr s) (fun s _ => .lenBytesStr s)
      (fun _ _ _ _ => rfl) (fun _ => trivial) fun _ _ _ => rfl
  | messageStr =>
    exact armLocal_set (readMessage_local bytesStrDecode) (fun s => .messageStr s)
      (fun _ _ _ _ => rfl) (fun _ => trivial) fun _ _ => rfl
  | lenBytes =>
    exact armLocal_set readLen_local (fun payload => .lenBytes payload)
      (fun _ _ _ _ => rfl) (fun _ => trivial) fun _ _ => rfl
  | optional inner => exact armLocal_optional inner wireType
  | repeated inner => exact armLocal_repeated inner wireType
  | message n =>
    exact armLocal_set (readMessage_local (typewayDecode S n)) (fun m => .message m)
      (fun _ _ _ _ => rfl) (fun _ => trivial) fun _ _ => rfl
  | optionalMessage n =>
    exact armLocal_set (readMessage_local (typewayDecode S n)) (fun m => .someMessage m)
      (fun _ _ _ _ => rfl) (fun _ => trivial) fun _ _ => rfl
  | repeatedMessage n =>
    exact armLocal_of_read (readMessage_local (typewayDecode S n))
      (fun m => .consMessage m .nilMessage) (fun m cur => cur.pushMessage m) (fun _ _ _ _ => rfl) (fun _ => trivial)
      fun _ cur _ => by rw [joined, FieldValue.messages, FieldValue.messages]; rfl

end Arms

/-! ## The loop -/

section Loop

variable (S : Schema ι)

/-- The loop over the input reads a tag of the field. -/
def Occurs (n : ι) (y : List UInt8) (i : S.Pos n) : Prop :=
  ∃ s tagWire start,
    Passes (fun s : DecodeState S n => decide (s.offset < y.length))
      (decodeStep S (typewayDecode S) n y) (.start S n) s ∧
    s.offset < y.length ∧ readVarint y s.offset = .ok (tagWire, start) ∧
    findField S n (tagWire >>> 3).toUInt32 = some i

/-- The loop comes to the state and has read tags of these fields. -/
inductive Turned (n : ι) (y : List UInt8) : DecodeState S n → List (S.Pos n) → Prop where
  | start : Turned n y (.start S n) []
  | next {s s' : DecodeState S n} {seen : List (S.Pos n)} {tagWire : UInt64} {start : Nat}
      (here : Turned n y s seen) (go : s.offset < y.length)
      (tag : readVarint y s.offset = .ok (tagWire, start))
      (run : decodeStep S (typewayDecode S) n y s = .ok s') :
      Turned n y s' (seen ++ (findField S n (tagWire >>> 3).toUInt32).toList)

variable {S} {n : ι} {y : List UInt8}

theorem Turned.passes {s t : DecodeState S n} {seen : List (S.Pos n)} (h : Turned S n y s seen)
    (rest : Passes (fun s : DecodeState S n => decide (s.offset < y.length))
      (decodeStep S (typewayDecode S) n y) s t) : ∃ more, Turned S n y t (seen ++ more) := by
  induction rest with
  | start => exact ⟨[], by rwa [List.append_nil]⟩
  | next _ go run ih =>
    obtain ⟨more, here⟩ := ih
    obtain ⟨tagWire, start, turn⟩ := decodeStep_turn S run
    have next := Turned.next here (of_decide_eq_true go) turn.tag run
    rw [List.append_assoc] at next
    exact ⟨_, next⟩

/-- One turn joins what it has read to any variables. -/
theorem decodeStep_local {bytes : List UInt8} {s s' : DecodeState S n} {tagWire : UInt64}
    {start : Nat} (tag : readVarint bytes s.offset = .ok (tagWire, start))
    (run : decodeStep S (typewayDecode S) n bytes s = .ok s') (kept : ∀ i, Kept (s.fields i)) :
    ∃ (l : List UInt8) (d : S.Fields n), At bytes s.offset l ∧ s'.offset = s.offset + l.length ∧
      (∀ i, Kept (d i)) ∧
      (∀ i, findField S n (tagWire >>> 3).toUInt32 ≠ some i → d i = S.fieldDefaults n i) ∧
      (∀ i, s'.fields i =
        joined (findField S n (tagWire >>> 3).toUInt32 == some i) (s.fields i) (d i)) ∧
      ∀ F : S.Fields n, (∀ i, Kept (F i)) → Reads S n l F fun i =>
        joined (findField S n (tagWire >>> 3).toUInt32 == some i) (F i) (d i) := by
  obtain ⟨t, here, behind, spells⟩ := readVarint_spells bytes s.offset _ tag
  dsimp only at behind spells
  subst behind
  rw [decodeStep, tag, ok_bind] at run
  dsimp only at run
  cases found : findField S n (tagWire >>> 3).toUInt32 with
  | some i =>
    rw [found] at run
    obtain ⟨⟨stop, value⟩, arm, run⟩ := bind_eq_ok.1 run
    cases run
    obtain ⟨l, d, ahead, stop_eq, keeps, value_eq, again⟩ := armLocal _ _ _ _ _ _ _ arm
    dsimp only at stop_eq value_eq ⊢
    -- the turn changes the field `i` alone
    have update (F : S.Fields n) :
        Function.update F i (joined true (F i) d) = fun j =>
          joined (some i == some j) (F j) (Function.update (S.fieldDefaults n) i d j) := by
      funext j
      by_cases same : j = i
      · subst same
        rw [Function.update_self, Function.update_self, beq_self_eq_true]
      · have other : (some i == some j) = false := by simpa using fun e => same e.symm
        rw [Function.update_of_ne same, Function.update_of_ne same, other]
        exact (joined_default S _ _).symm
    refine ⟨t ++ l, Function.update (S.fieldDefaults n) i d, here.append ahead, ?_, ?_, ?_, ?_, ?_⟩
    · rw [stop_eq, List.length_append, Nat.add_assoc]
    · intro j
      by_cases same : j = i
      · subst same
        rwa [Function.update_self]
      · rw [Function.update_of_ne same]
        exact kept_fieldDefault S _
    · intro j ne
      exact Function.update_of_ne (fun same => ne (congrArg some same.symm)) _ _
    · intro j
      rw [value_eq (kept i)]
      exact congrFun (update s.fields) j
    · intro F keptF
      rw [← update]
      intro bytes' offset' small h
      refine .next .start (h.goes_on spells.length_pos) ?_
      rw [decodeStep, readVarint_spelled small spells h.left, ok_bind]
      dsimp only
      rw [found]
      dsimp only
      rw [again (F i) (keptF i) _ _ _ small h.right, ok_bind, List.length_append, Nat.add_assoc]
      rfl
  | none =>
    rw [found] at run
    obtain ⟨⟨⟨⟩, stop⟩, skip, run⟩ := bind_eq_ok.1 run
    cases run
    obtain ⟨l, ahead, stop_eq, again⟩ := skipValue_local _ "" _ _ _ skip
    dsimp only at stop_eq ⊢
    have same (F : S.Fields n) : (fun j => joined (none == some j) (F j) (S.fieldDefaults n j)) = F :=
      funext fun j => joined_default S _ _
    refine ⟨t ++ l, S.fieldDefaults n, here.append ahead, ?_, ?_, ?_, ?_, ?_⟩
    · rw [stop_eq, List.length_append, Nat.add_assoc]
    · exact fun j => kept_fieldDefault S _
    · exact fun _ _ => rfl
    · exact fun j => (congrFun (same s.fields) j).symm
    · intro F _
      rw [same]
      intro bytes' offset' small h
      refine .next .start (h.goes_on spells.length_pos) ?_
      have skipped := again "" _ _ small h.right
      dsimp only at skipped
      rw [decodeStep, readVarint_spelled small spells h.left, ok_bind]
      dsimp only
      rw [found]
      dsimp only
      rw [skipped, ok_bind, List.length_append, Nat.add_assoc]
      rfl

/-- What the loop has read so far can be read behind any variables. -/
structure Joins (n : ι) (y : List UInt8) (s : DecodeState S n) (seen : List (S.Pos n)) : Prop where
  bound : s.offset ≤ y.length
  kept : ∀ i, Kept (s.fields i)
  unseen : ∀ i, i ∉ seen → s.fields i = S.fieldDefaults n i
  reads : ∀ F : S.Fields n, (∀ i, Kept (F i)) →
    Reads S n (y.take s.offset) F fun i => joined (decide (i ∈ seen)) (F i) (s.fields i)

theorem Turned.joins {s : DecodeState S n} {seen : List (S.Pos n)} (h : Turned S n y s seen) :
    Joins n y s seen := by
  induction h with
  | start =>
    refine ⟨Nat.zero_le _, fun i => kept_fieldDefault S _, fun _ _ => rfl, ?_⟩
    intro F _
    have same : (fun i => joined (decide (i ∈ ([] : List (S.Pos n)))) (F i)
        ((DecodeState.start S n).fields i)) = F := by
      funext i
      rw [decide_eq_false List.not_mem_nil]
      exact joined_default S _ _
    rw [same]
    exact Reads.nil S F
  | @next s s' seen tagWire start _ go tag run ih =>
    obtain ⟨bound, kept, unseen, reads⟩ := ih
    obtain ⟨l, d, here, behind, keeps, untouched, turned, again⟩ := decodeStep_local tag run kept
    have size := here.bound
    have prefix_eq : y.take s'.offset = y.take s.offset ++ l := by
      rw [behind, List.take_add, here.here]
    have mem (i : S.Pos n) : decide (i ∈ seen ++ (findField S n (tagWire >>> 3).toUInt32).toList) =
        (decide (i ∈ seen) || (findField S n (tagWire >>> 3).toUInt32 == some i)) := by
      rw [Bool.eq_iff_iff]
      simp
    refine ⟨by omega, ?_, ?_, ?_⟩
    · intro i
      rw [turned]
      exact kept_joined _ (kept i) (keeps i)
    · intro i new
      rw [List.mem_append, not_or] at new
      have other : findField S n (tagWire >>> 3).toUInt32 ≠ some i := by simpa using new.2
      rw [turned, unseen i new.1, untouched i other, beq_false_of_ne other]
      exact joined_default S _ _
    · intro F keptF
      rw [prefix_eq]
      have first := reads F keptF
      have second := again _ fun i => kept_joined (decide (i ∈ seen)) (keptF i) (kept i)
      have whole := first.append second
      simp only [joined_joined] at whole
      simp only [turned, mem]
      exact whole

/-! ## One input behind the other -/

theorem Turned.visited {s : DecodeState S n} {seen : List (S.Pos n)} (h : Turned S n y s seen) :
    Passes (fun s : DecodeState S n => decide (s.offset < y.length))
      (decodeStep S (typewayDecode S) n y) (.start S n) s := by
  induction h with
  | start => exact .start
  | next _ go _ run ih => exact .next ih (decide_eq_true go) run

theorem Turned.occurs {s : DecodeState S n} {seen : List (S.Pos n)} (h : Turned S n y s seen)
    {i : S.Pos n} (mem : i ∈ seen) : Occurs S n y i := by
  induction h with
  | start => cases mem
  | next here go tag _ ih =>
    rcases List.mem_append.1 mem with earlier | now
    · exact ih earlier
    · exact ⟨_, _, _, here.visited, go, tag, by simpa using now⟩

/-- An input that is decoded has been read to its end. -/
theorem turned_of_ok (clear : S.shadowed n = false) {F : S.Fields n}
    (run : typewayDecode S n y = .ok (.mk F)) : ∃ seen, Turned S n y ⟨y.length, F⟩ seen := by
  rw [typewayDecode_eq, S.visible_of_not clear] at run
  obtain ⟨⟨offset, fields⟩, loop, run⟩ := bind_eq_ok.1 run
  cases run
  obtain ⟨passes, done⟩ := Ensures.passes (decodeLoop_lowers S _) _ _ loop
  obtain ⟨seen, turned⟩ := Turned.start.passes passes
  have bound := turned.joins.bound
  have last : offset = y.length := by
    have := of_decide_eq_false done
    dsimp only at this bound
    omega
  subst last
  exact ⟨_, turned⟩

/-- A field that occurs was seen on the way to the end. -/
theorem Occurs.turned {t : DecodeState S n} {seen : List (S.Pos n)} {i : S.Pos n}
    (h : Occurs S n y i) (last : Turned S n y t seen) (done : ¬ t.offset < y.length) :
    ∃ seen', Turned S n y t seen' ∧ i ∈ seen' := by
  obtain ⟨u, tagWire, start, visited, go, tag, found⟩ := h
  obtain ⟨before, here⟩ := Turned.start.passes visited
  rcases (visited.to_end last.visited (decide_eq_false done)).head with rfl | ⟨u', _, run, rest⟩
  · exact absurd go done
  · obtain ⟨more, turned⟩ := (here.next go tag run).passes rest
    refine ⟨_, turned, ?_⟩
    simp [found]

/-- The value of a field in the whole: the elements of both lists, or the second value if the
field occurs in the second input. -/
def Concatenated (occurs : Prop) : {k : CodecKind ι} → (a b c : FieldValue Γ k) → Prop
  | .repeated _, a, b, c => c.items = a.items ++ b.items
  | .repeatedMessage _, a, b, c => c.messages = a.messages ++ b.messages
  | _, a, b, c => (occurs → c = b) ∧ (¬ occurs → c = a)

theorem concatenated_joined {occurs : Prop} {seen : Bool} (same : seen = true ↔ occurs)
    {k : CodecKind ι} (a b : FieldValue Γ k) : Concatenated occurs a b (joined seen a b) := by
  cases k with
  | repeated k => exact items_pushAll b.items a
  | repeatedMessage n => exact messages_foldl b.messages a
  | _ =>
    constructor
    · intro yes
      rw [same.2 yes]
      rfl
    · intro no
      rw [Bool.eq_false_iff.2 fun seen => no (same.1 seen)]
      rfl

/-- Two inputs that are decoded are decoded one behind the other, to the values
of the second one and those of the first that it does not set. -/
theorem typewayDecode_append (S : Schema ι) (n : ι) {x y : List UInt8} {a b : S.Fields n}
    (small : (x ++ y).length ≤ isizeMax) (first : typewayDecode S n x = .ok (.mk a))
    (second : typewayDecode S n y = .ok (.mk b)) :
    ∃ c : S.Fields n, typewayDecode S n (x ++ y) = .ok (.mk c) ∧
      ∀ i, Concatenated (Occurs S n y i) (a i) (b i) (c i) := by
  cases hidden : S.shadowed n with
  | true =>
    -- all three are the defaults
    rw [typewayDecode_shadowed S hidden] at first second ⊢
    cases first
    cases second
    refine ⟨_, rfl, fun i => ?_⟩
    classical
    have same := concatenated_joined (decide_eq_true_iff (p := Occurs S n y i))
      (S.fieldDefault (S.field i).kind) (S.fieldDefault (S.field i).kind)
    rwa [default_joined S _ _ fun _ => rfl] at same
  | false =>
  obtain ⟨seenX, turnedX⟩ := turned_of_ok hidden first
  obtain ⟨seenY, turnedY⟩ := turned_of_ok hidden second
  obtain ⟨-, keptA, unseenA, readsA⟩ := turnedX.joins
  dsimp only at keptA unseenA readsA
  have readA : Reads S n x (S.fieldDefaults n) a := by
    have reads := readsA (S.fieldDefaults n) fun i => kept_fieldDefault S _
    have same : (fun i => joined (decide (i ∈ seenX)) (S.fieldDefaults n i) (a i)) = a := by
      funext i
      exact default_joined S _ _ fun unseen => unseenA i (of_decide_eq_false unseen)
    rwa [List.take_length, same] at reads
  -- every account of what was seen in `y` tells the same values
  have whole (seen : List (S.Pos n)) (turned : Turned S n y ⟨y.length, b⟩ seen) :
      typewayDecode S n (x ++ y) = .ok (.mk fun i => joined (decide (i ∈ seen)) (a i) (b i)) := by
    have readB := turned.joins.reads a keptA
    rw [List.take_length] at readB
    exact typewayDecode_of_reads S hidden small (readA.append readB)
  refine ⟨_, whole seenY turnedY, fun i => ?_⟩
  by_cases occurs : Occurs S n y i
  · obtain ⟨seen, turned, mem⟩ := occurs.turned turnedY (Nat.lt_irrefl _)
    have same := (whole seenY turnedY).symm.trans (whole seen turned)
    have fields := congrFun (Message.mk.inj (Except.ok.inj same)) i
    rw [fields]
    exact concatenated_joined (iff_of_true (decide_eq_true mem) occurs) _ _
  · have unseen : ¬ i ∈ seenY := fun mem => occurs (turnedY.occurs mem)
    exact concatenated_joined (iff_of_false (by simpa using unseen) occurs) _ _

/-- The variables of a `Node` with the number set. -/
def idFields (id : BitVec 32) : nodeSchema.Fields () :=
  Function.update (nodeSchema.fieldDefaults ()) ⟨0, by decide⟩ (.varint id)

/-- Two encodings of an `id`, one behind the other. -/
theorem typewayDecode_append_ids : ∃ c : nodeSchema.Fields (),
    typewayDecode nodeSchema () ([0x08, 0x05] ++ [0x08, 0x07]) = .ok (.mk c) ∧
      ∀ i, Concatenated (Occurs nodeSchema () [0x08, 0x07] i) (idFields 5 i) (idFields 7 i) (c i) :=
  typewayDecode_append nodeSchema () (by decide) rfl rfl

end Loop

end Typeway.Macros
