import Typeway.Macros.Decode

/-!
# Hostile input

Which inputs make the decoder panic. The lengths on the wire go up to `2^64 - 1`, and the
decoder adds them to an offset before it compares the sum with the length of the input; these
sums are the only place where it can fail other than by an `Err`.
-/

namespace Typeway.Macros

open Checked Protobuf

variable {ι : Type} {Γ : ι → List (CodecField ι)}

/-- The sum a turn of the loop forms with a length from the wire: an arm adds it to the
offset behind the varint, the skipping of a value to the size of the varint. -/
inductive LenUse where
  | none | arm | skip
  deriving DecidableEq

def skipUse (wireType : UInt8) : LenUse :=
  if wireType = 2 then .skip else .none

def lenUse (k : CodecKind ι) (wireType : UInt8) : LenUse :=
  match k with
  | .varint _ | .bool | .fixed32 | .fixed64 => .none
  | .lenString | .lenBytesStr | .messageStr | .lenBytes => .arm
  | .message _ | .optionalMessage _ | .repeatedMessage _ => .arm
  | .optional inner =>
    match inner with
    | .varint _ | .bool | .fixed32 | .fixed64 => .none
    | .lenString | .lenBytesStr | .messageStr => .arm
    | _ => skipUse wireType
  | .repeated inner =>
    match inner with
    | .varint _ | .bool | .fixed32 | .fixed64 => if wireType = 2 then .arm else .none
    | .lenString | .lenBytesStr | .messageStr => .arm
    | _ => skipUse wireType

/-- The struct whose decoder the arm of a field calls. -/
def CodecKind.nested : CodecKind ι → Option ι
  | .message n | .optionalMessage n | .repeatedMessage n => some n
  | _ => .none

/-- The two terms of that sum, where the varint stands at `start` and ends at `stop`. -/
def LenUse.base (start stop : Nat) : LenUse → Option Nat
  | .none => .none
  | .arm => some stop
  | .skip => some (stop - start)

/-- The sum fits `usize`, if it is formed at all. -/
def SumFits (use : LenUse) (bytes : List UInt8) (start : Nat) : Prop :=
  ∀ len stop base, readVarint bytes start = .ok (len, stop) → use.base start stop = some base →
    base + len.toNat < usizeBound

section Readers

variable {bytes : List UInt8} {offset : Nat}

theorem readVarint_returns (small : bytes.length ≤ isizeMax) (low : offset ≤ bytes.length) :
    Returns (readVarint bytes offset) fun _ => True := by
  refine .bind (.sliceFrom low) ?_
  intro rest e
  subst e
  refine .bind (.lift fun r h => twDecodeVarint_bounds h) ?_
  intro r h
  obtain ⟨val, consumed⟩ := r
  have bound := h.2.2
  rw [List.length_drop] at bound
  unfold isizeMax at small
  dsimp only at bound ⊢
  exact .bind (.add (by unfold usizeBound; omega)) fun _ _ => .ok trivial

theorem readFixed_returns {width : Nat} (small : bytes.length ≤ isizeMax)
    (low : offset ≤ bytes.length) (narrow : width ≤ 8) :
    Returns (readFixed width bytes offset) fun _ => True := by
  unfold isizeMax at small
  refine .bind (.add (by unfold usizeBound; omega)) ?_
  intro stop e
  split
  · exact .fail _
  · exact .bind (.slice (by omega) (by omega)) fun _ _ => .ok trivial

/-- The length prefix of an arm, once its sum fits. -/
theorem readLen_returns (small : bytes.length ≤ isizeMax) (low : offset ≤ bytes.length)
    (fits : SumFits .arm bytes offset) : Returns (readLen bytes offset) fun _ => True := by
  refine .bind ((readVarint_returns small low).with_ensures (readVarint_ensures _ _)) ?_
  intro r h
  obtain ⟨len, start⟩ := r
  refine .bind (.add (fits len start start h.1 rfl)) ?_
  intro stop e
  split
  · exact .fail _
  · exact .bind (.slice (by omega) (by omega)) fun _ _ => .ok trivial

theorem readString_returns (ident : String) (small : bytes.length ≤ isizeMax)
    (low : offset ≤ bytes.length) (fits : SumFits .arm bytes offset) :
    Returns (readString ident bytes offset) fun _ => True := by
  refine .bind (readLen_returns small low fits) ?_
  intro r _
  obtain ⟨payload, stop⟩ := r
  dsimp only
  split
  · exact .ok trivial
  · exact .fail _

theorem readMessageStr_returns (small : bytes.length ≤ isizeMax) (low : offset ≤ bytes.length)
    (fits : SumFits .arm bytes offset) :
    Returns (readMessage bytesStrDecode bytes offset) fun _ => True := by
  have decodes (payload : List UInt8) : Returns (bytesStrDecode payload) fun _ => True := by
    unfold bytesStrDecode
    split
    · exact .ok trivial
    · exact .fail _
  exact .bind (readLen_returns small low fits) fun r _ => .bind (decodes r.1) fun _ _ => .ok trivial

theorem readPackedLen_returns (small : bytes.length ≤ isizeMax) (low : offset ≤ bytes.length)
    (fits : SumFits .arm bytes offset) :
    Returns (readPackedLen bytes offset) fun _ => True := by
  refine .bind ((readVarint_returns small low).with_ensures (readVarint_ensures _ _)) ?_
  intro r h
  obtain ⟨len, start⟩ := r
  refine .bind (.add (fits len start start h.1 rfl)) ?_
  intro stop e
  split
  · exact .fail _
  · exact .ok trivial

/-- The varint a skipped value starts with, as the decoder of the enclosing field sees it. -/
theorem readVarint_of_drop (small : bytes.length ≤ isizeMax) (low : offset ≤ bytes.length)
    {len : UInt64} {hdr : Nat} (h : twDecodeVarint (bytes.drop offset) = .ok (len, hdr)) :
    readVarint bytes offset = .ok (len, offset + hdr) := by
  have bound := (twDecodeVarint_bounds h).2.2
  rw [List.length_drop] at bound
  unfold isizeMax at small
  rw [readVarint, sliceFrom_eq_ok low, ok_bind, h, lift_ok, ok_bind]
  dsimp only
  rw [add_eq_ok (by unfold usizeBound; omega)]
  rfl

theorem skipValue_returns (wireType : UInt8) (small : bytes.length ≤ isizeMax)
    (low : offset ≤ bytes.length) (fits : SumFits (skipUse wireType) bytes offset) :
    Returns (skipValue wireType bytes offset) fun _ => True := by
  have skip : Returns (twSkipWireValue (bytes.drop offset) wireType) fun _ => True := by
    unfold twSkipWireValue
    split
    · exact .bind (.lift fun _ _ => trivial) fun _ (_ : True) => .ok trivial
    · split
      · exact .fail _
      · exact .ok trivial
    · refine .bind (.lift fun r h => h) ?_
      intro r h
      obtain ⟨len, hdr⟩ := r
      have sum := fits len (offset + hdr) hdr (readVarint_of_drop small low h)
        (by simp [skipUse, LenUse.base])
      refine .bind (.add sum) ?_
      intro total _
      split
      · exact .fail _
      · exact .ok trivial
    · split
      · exact .fail _
      · exact .ok trivial
    · exact .fail _
  refine .bind (.sliceFrom low) ?_
  intro rest e
  subst e
  refine .bind (skip.with_ensures (twSkipWireValue_ensures _ _)) ?_
  intro skipped h
  have bound := h.2.2.2
  rw [List.length_drop] at bound
  unfold isizeMax at small
  exact .bind (.add (by unfold usizeBound; omega)) fun _ _ => .ok trivial

end Readers

/-! ## Safe arms -/

section Arms

variable {bytes : List UInt8} {offset : Nat}

theorem store_returns {α β : Type} {read : Run TypewayDecodeError (α × Nat)} {f : α → β}
    (h : Returns read fun _ => True) : Returns (store read f) fun _ => True :=
  .bind h fun _ _ => .ok trivial

/-- The loop over a packed payload stays inside the input. -/
theorem packedLoop_returns {k : CodecKind ι}
    {step : PackedState Γ k → Run TypewayDecodeError (PackedState Γ k)}
    (advances : PackedAdvances bytes step) {packedEnd : Nat} (inside : packedEnd ≤ bytes.length)
    (safe : ∀ s : PackedState Γ k, s.1 < bytes.length → Returns (step s) fun _ => True)
    (s : PackedState Γ k) : Returns (packedLoop step packedEnd s) fun _ => True := by
  refine (Returns.runLoop (packedLoop_lowers advances packedEnd) (I := fun _ => True) ?_
    trivial).mono fun _ _ => trivial
  intro s _ go
  have := of_decide_eq_true go
  exact safe s (by omega)

theorem packedVarintStep_returns {k : CodecKind ι} (ofVal : UInt64 → FieldValue Γ k)
    (small : bytes.length ≤ isizeMax) (s : PackedState Γ k) (inside : s.1 < bytes.length) :
    Returns (packedVarintStep ofVal bytes s) fun _ => True := by
  obtain ⟨offset, items⟩ := s
  refine .bind (.index inside) ?_
  intro b _
  unfold isizeMax at small
  dsimp only at inside ⊢
  split
  · exact .bind (.add (by unfold usizeBound; omega)) fun _ _ => .ok trivial
  · exact store_returns (readVarint_returns small (by omega))

theorem packedFixedStep_returns {k : CodecKind ι} {width : Nat} (narrow : width ≤ 8)
    (ofWord : List UInt8 → FieldValue Γ k) (small : bytes.length ≤ isizeMax)
    (s : PackedState Γ k) (inside : s.1 < bytes.length) :
    Returns (packedFixedStep width ofWord bytes s) fun _ => True := by
  obtain ⟨offset, items⟩ := s
  rw [packedFixedStep]
  exact store_returns (readFixed_returns small (Nat.le_of_lt inside) narrow)

theorem decodePacked_returns {k : CodecKind ι}
    {step : List UInt8 → PackedState Γ k → Run TypewayDecodeError (PackedState Γ k)}
    (advances : PackedAdvances bytes (step bytes))
    (safe : ∀ s : PackedState Γ k, s.1 < bytes.length → Returns (step bytes s) fun _ => True)
    (ofVal : UInt64 → FieldValue Γ k) (wireType : UInt8) (items : FieldValue Γ (.repeated k))
    (small : bytes.length ≤ isizeMax) (low : offset ≤ bytes.length)
    (fits : SumFits (if wireType = 2 then .arm else .none) bytes offset) :
    Returns (decodePacked step ofVal wireType bytes offset items) fun _ => True := by
  rw [decodePacked]
  split
  · rename_i packed
    rw [if_pos packed] at fits
    refine .bind ((readPackedLen_returns small low fits).with_ensures
      (readPackedLen_ensures _ _)) ?_
    intro r h
    obtain ⟨start, packedEnd⟩ := r
    exact packedLoop_returns advances h.2.2.2.2 safe _
  · exact store_returns (readVarint_returns small low)

theorem genDecodeOptionalInner_returns (ident : String) (wireType : UInt8) (k : CodecKind ι)
    (value : FieldValue Γ (.optional k)) (small : bytes.length ≤ isizeMax)
    (low : offset ≤ bytes.length) (fits : SumFits (lenUse (.optional k) wireType) bytes offset) :
    Returns (genDecodeOptionalInner ident wireType bytes offset k value) fun _ => True := by
  cases k with
  | varint ty =>
    rw [genDecodeOptionalInner]
    exact store_returns (readVarint_returns small low)
  | bool =>
    rw [genDecodeOptionalInner]
    exact store_returns (readVarint_returns small low)
  | fixed32 =>
    rw [genDecodeOptionalInner]
    exact store_returns (readFixed_returns small low (by decide))
  | fixed64 =>
    rw [genDecodeOptionalInner]
    exact store_returns (readFixed_returns small low (by decide))
  | lenString =>
    rw [genDecodeOptionalInner]
    exact store_returns (readString_returns ident small low fits)
  | lenBytesStr =>
    rw [genDecodeOptionalInner]
    exact store_returns (readString_returns ident small low fits)
  | messageStr =>
    rw [genDecodeOptionalInner]
    exact store_returns (readMessageStr_returns small low fits)
  | _ =>
    simp only [genDecodeOptionalInner]
    exact store_returns (skipValue_returns wireType small low fits)

theorem genDecodeRepeated_returns (ident : String) (wireType : UInt8) (k : CodecKind ι)
    (items : FieldValue Γ (.repeated k)) (small : bytes.length ≤ isizeMax)
    (low : offset ≤ bytes.length) (fits : SumFits (lenUse (.repeated k) wireType) bytes offset) :
    Returns (genDecodeRepeated ident wireType bytes offset k items) fun _ => True := by
  cases k with
  | varint ty =>
    rw [genDecodeRepeated]
    exact decodePacked_returns (packedVarintStep_advances _ _) (packedVarintStep_returns _ small)
      _ _ _ small low fits
  | bool =>
    rw [genDecodeRepeated]
    exact decodePacked_returns (packedVarintStep_advances _ _) (packedVarintStep_returns _ small)
      _ _ _ small low fits
  | fixed32 =>
    rw [genDecodeRepeated]
    exact decodePacked_returns (packedFixedStep_advances (by decide) _ _)
      (packedFixedStep_returns (by decide) _ small) _ _ _ small low fits
  | fixed64 =>
    rw [genDecodeRepeated]
    exact decodePacked_returns (packedFixedStep_advances (by decide) _ _)
      (packedFixedStep_returns (by decide) _ small) _ _ _ small low fits
  | lenString =>
    simp only [genDecodeRepeated, genDecodeRepeatedItem]
    exact store_returns (readString_returns ident small low fits)
  | lenBytesStr =>
    simp only [genDecodeRepeated, genDecodeRepeatedItem]
    exact store_returns (readString_returns ident small low fits)
  | messageStr =>
    simp only [genDecodeRepeated, genDecodeRepeatedItem]
    exact store_returns (readMessageStr_returns small low fits)
  | _ =>
    simp only [genDecodeRepeated, genDecodeRepeatedItem]
    exact store_returns (skipValue_returns wireType small low fits)

theorem genDecodeArm_returns
    {decode : (n : ι) → List UInt8 → Run TypewayDecodeError (Message Γ n)} (ident : String)
    (wireType : UInt8) (k : CodecKind ι) (value : FieldValue Γ k) (small : bytes.length ≤ isizeMax)
    (low : offset ≤ bytes.length) (fits : SumFits (lenUse k wireType) bytes offset)
    (nested : ∀ n payload stop, k.nested = some n → readLen bytes offset = .ok (payload, stop) →
      Returns (decode n payload) fun _ => True) :
    Returns (genDecodeArm decode ident wireType bytes offset k value) fun _ => True := by
  have message : ∀ n, k.nested = some n → SumFits .arm bytes offset →
      Returns (readMessage (decode n) bytes offset) fun _ => True := by
    intro n e fits
    refine .bind ((readLen_returns small low fits).with_ensures (readLen_ensures _ _)) ?_
    intro r h
    obtain ⟨payload, stop⟩ := r
    exact .bind (nested n payload stop e h.1) fun _ _ => .ok trivial
  cases k with
  | varint ty =>
    rw [genDecodeArm]
    exact store_returns (readVarint_returns small low)
  | bool =>
    rw [genDecodeArm]
    exact store_returns (readVarint_returns small low)
  | fixed32 =>
    rw [genDecodeArm]
    exact store_returns (readFixed_returns small low (by decide))
  | fixed64 =>
    rw [genDecodeArm]
    exact store_returns (readFixed_returns small low (by decide))
  | lenString =>
    rw [genDecodeArm]
    exact store_returns (readString_returns ident small low fits)
  | lenBytesStr =>
    rw [genDecodeArm]
    exact store_returns (readString_returns ident small low fits)
  | messageStr =>
    rw [genDecodeArm]
    exact store_returns (readMessageStr_returns small low fits)
  | lenBytes =>
    rw [genDecodeArm]
    exact store_returns (readLen_returns small low fits)
  | message n =>
    rw [genDecodeArm]
    exact store_returns (message n rfl fits)
  | optional k => exact genDecodeOptionalInner_returns ident wireType k value small low fits
  | optionalMessage n =>
    rw [genDecodeArm]
    exact store_returns (message n rfl fits)
  | repeated k => exact genDecodeRepeated_returns ident wireType k value small low fits
  | repeatedMessage n =>
    rw [genDecodeArm]
    exact store_returns (message n rfl fits)

end Arms

/-! ## Overflowing sums -/

section Overflow

variable {bytes : List UInt8} {start stop : Nat} {len : UInt64}

theorem store_panics {α β : Type} {read : Run TypewayDecodeError (α × Nat)} {f : α → β}
    {p : Panic} (h : read = .error (.panic p)) : store read f = .error (.panic p) := by
  rw [store, h, error_bind]

theorem readLen_overflows (read : readVarint bytes start = .ok (len, stop))
    (beyond : ¬ stop + len.toNat < usizeBound) :
    readLen bytes start = .error (.panic .addOverflow) := by
  rw [readLen, read, ok_bind]
  dsimp only
  rw [add_overflows beyond, error_bind]

theorem readString_overflows (ident : String) (read : readVarint bytes start = .ok (len, stop))
    (beyond : ¬ stop + len.toNat < usizeBound) :
    readString ident bytes start = .error (.panic .addOverflow) := by
  rw [readString, readLen_overflows read beyond, error_bind]

theorem readMessage_overflows {α : Type} (decode : List UInt8 → Run TypewayDecodeError α)
    (read : readVarint bytes start = .ok (len, stop)) (beyond : ¬ stop + len.toNat < usizeBound) :
    readMessage decode bytes start = .error (.panic .addOverflow) := by
  rw [readMessage, readLen_overflows read beyond, error_bind]

theorem decodePacked_overflows {k : CodecKind ι}
    {step : List UInt8 → PackedState Γ k → Run TypewayDecodeError (PackedState Γ k)}
    {ofVal : UInt64 → FieldValue Γ k} {items : FieldValue Γ (.repeated k)}
    (read : readVarint bytes start = .ok (len, stop)) (beyond : ¬ stop + len.toNat < usizeBound) :
    decodePacked step ofVal 2 bytes start items = .error (.panic .addOverflow) := by
  rw [decodePacked, if_pos rfl, readPackedLen, read, ok_bind]
  dsimp only
  rw [add_overflows beyond, error_bind, error_bind]

theorem skipValue_overflows (read : readVarint bytes start = .ok (len, stop))
    (beyond : ¬ stop - start + len.toNat < usizeBound) :
    skipValue 2 bytes start = .error (.panic .addOverflow) := by
  rw [readVarint] at read
  obtain ⟨rest, slice, read⟩ := bind_eq_ok.1 read
  obtain ⟨⟨len', hdr⟩, word, read⟩ := bind_eq_ok.1 read
  obtain ⟨stop', sum, read⟩ := bind_eq_ok.1 read
  cases read
  have sum := (Ensures.add _ _) _ sum
  have size : stop - start = hdr := by omega
  rw [size] at beyond
  rw [skipValue, slice, ok_bind, twSkipWireValue, word, ok_bind]
  dsimp only
  rw [add_overflows beyond, error_bind, error_bind]

theorem skip_overflows {wireType : UInt8} {base : Nat}
    (read : readVarint bytes start = .ok (len, stop))
    (sum : (skipUse wireType).base start stop = some base)
    (beyond : ¬ base + len.toNat < usizeBound) :
    skipValue wireType bytes start = .error (.panic .addOverflow) := by
  rw [skipUse] at sum
  split at sum
  · rename_i two
    cases sum
    rw [two]
    exact skipValue_overflows read beyond
  · cases sum

theorem genDecodeOptionalInner_overflows (ident : String) {wireType : UInt8} {k : CodecKind ι}
    (value : FieldValue Γ (.optional k)) {base : Nat}
    (read : readVarint bytes start = .ok (len, stop))
    (sum : (lenUse (.optional k) wireType).base start stop = some base)
    (beyond : ¬ base + len.toNat < usizeBound) :
    genDecodeOptionalInner ident wireType bytes start k value = .error (.panic .addOverflow) := by
  cases k with
  | varint ty => cases sum
  | bool => cases sum
  | fixed32 => cases sum
  | fixed64 => cases sum
  | lenString =>
    cases sum
    rw [genDecodeOptionalInner]
    exact store_panics (readString_overflows ident read beyond)
  | lenBytesStr =>
    cases sum
    rw [genDecodeOptionalInner]
    exact store_panics (readString_overflows ident read beyond)
  | messageStr =>
    cases sum
    rw [genDecodeOptionalInner]
    exact store_panics (readMessage_overflows _ read beyond)
  | _ =>
    simp only [genDecodeOptionalInner]
    exact store_panics (skip_overflows read sum beyond)

theorem genDecodeRepeated_overflows (ident : String) {wireType : UInt8} {k : CodecKind ι}
    (items : FieldValue Γ (.repeated k)) {base : Nat}
    (read : readVarint bytes start = .ok (len, stop))
    (sum : (lenUse (.repeated k) wireType).base start stop = some base)
    (beyond : ¬ base + len.toNat < usizeBound) :
    genDecodeRepeated ident wireType bytes start k items = .error (.panic .addOverflow) := by
  have packed : (if wireType = 2 then LenUse.arm else .none).base start stop = some base →
      ∀ {step : List UInt8 → PackedState Γ k → Run TypewayDecodeError (PackedState Γ k)}
        {ofVal : UInt64 → FieldValue Γ k},
        decodePacked step ofVal wireType bytes start items = .error (.panic .addOverflow) := by
    intro sum step ofVal
    split at sum
    · rename_i two
      cases sum
      rw [two]
      exact decodePacked_overflows read beyond
    · cases sum
  cases k with
  | varint ty => exact packed sum
  | bool => exact packed sum
  | fixed32 => exact packed sum
  | fixed64 => exact packed sum
  | lenString =>
    cases sum
    simp only [genDecodeRepeated, genDecodeRepeatedItem]
    exact store_panics (readString_overflows ident read beyond)
  | lenBytesStr =>
    cases sum
    simp only [genDecodeRepeated, genDecodeRepeatedItem]
    exact store_panics (readString_overflows ident read beyond)
  | messageStr =>
    cases sum
    simp only [genDecodeRepeated, genDecodeRepeatedItem]
    exact store_panics (readMessage_overflows _ read beyond)
  | _ =>
    simp only [genDecodeRepeated, genDecodeRepeatedItem]
    exact store_panics (skip_overflows read sum beyond)

/-- An overflowing sum panics, in whatever arm it is formed. -/
theorem genDecodeArm_overflows
    (decode : (n : ι) → List UInt8 → Run TypewayDecodeError (Message Γ n)) (ident : String)
    (wireType : UInt8) (k : CodecKind ι) (value : FieldValue Γ k)
    (read : readVarint bytes start = .ok (len, stop)) {base : Nat}
    (sum : (lenUse k wireType).base start stop = some base)
    (beyond : ¬ base + len.toNat < usizeBound) :
    genDecodeArm decode ident wireType bytes start k value = .error (.panic .addOverflow) := by
  cases k with
  | varint ty => cases sum
  | bool => cases sum
  | fixed32 => cases sum
  | fixed64 => cases sum
  | lenString =>
    cases sum
    rw [genDecodeArm]
    exact store_panics (readString_overflows ident read beyond)
  | lenBytesStr =>
    cases sum
    rw [genDecodeArm]
    exact store_panics (readString_overflows ident read beyond)
  | messageStr =>
    cases sum
    rw [genDecodeArm]
    exact store_panics (readMessage_overflows _ read beyond)
  | lenBytes =>
    cases sum
    rw [genDecodeArm]
    exact store_panics (readLen_overflows read beyond)
  | message n =>
    cases sum
    rw [genDecodeArm]
    exact store_panics (readMessage_overflows _ read beyond)
  | optional k => exact genDecodeOptionalInner_overflows ident value read sum beyond
  | optionalMessage n =>
    cases sum
    rw [genDecodeArm]
    exact store_panics (readMessage_overflows _ read beyond)
  | repeated k => exact genDecodeRepeated_overflows ident value read sum beyond
  | repeatedMessage n =>
    cases sum
    rw [genDecodeArm]
    exact store_panics (readMessage_overflows _ read beyond)

end Overflow

end Typeway.Macros
