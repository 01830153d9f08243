import Typeway.Macros.DecodeSafety
import Typeway.Macros.PackedEnd

/-!
# Runs of the decoder on any input

`Visited` collects the states of a call and of all the nested calls it makes, in the order the
decoder comes to them. The decoder is safe on an input iff no turn in such a state adds a length
to an offset past `usize`, and every packed payload it gets through is cut at an element.
-/

namespace Typeway.Macros

open Checked Protobuf

section

variable {ι : Type} (S : Schema ι)

/-- A call of `typeway_decode` for `n` on `b` comes to this state, itself or in a nested call
for `m` that finds `bytes` in its variable. -/
inductive Visited (n : ι) (b : List UInt8) :
    (m : ι) → List UInt8 → DecodeState S m → Prop where
  | start : Visited n b n (S.visible n b) (.start S n)
  | next {m : ι} {bytes : List UInt8} {s s' : DecodeState S m} (here : Visited n b m bytes s)
      (go : s.offset < bytes.length) (run : decodeStep S (typewayDecode S) m bytes s = .ok s') :
      Visited n b m bytes s'
  | enter {m k : ι} {bytes payload : List UInt8} {s : DecodeState S m} {tagWire : UInt64}
      {start stop : Nat} {i : S.Pos m} (here : Visited n b m bytes s)
      (go : s.offset < bytes.length) (tag : readVarint bytes s.offset = .ok (tagWire, start))
      (found : findField S m (tagWire >>> 3).toUInt32 = some i)
      (nested : (S.field i).kind.nested = some k)
      (read : readLen bytes start = .ok (payload, stop)) :
      Visited n b k (S.visible k payload) (.start S k)

/-- A turn of the loop of such a call has read this tag, which ends at `start`. -/
def TagRead (n : ι) (b : List UInt8) (m : ι) (bytes : List UInt8) (tagWire : UInt64)
    (start : Nat) : Prop :=
  ∃ s, Visited S n b m bytes s ∧ s.offset < bytes.length ∧
    readVarint bytes s.offset = .ok (tagWire, start)

/-- The sum that the rest of a turn forms. -/
def turnUse (m : ι) (tagWire : UInt64) : LenUse :=
  match findField S m (tagWire >>> 3).toUInt32 with
  | some i => lenUse (S.field i).kind (tagWire &&& 7).toUInt8
  | none => skipUse (tagWire &&& 7).toUInt8

/-- A turn of such a call has read the header of a packed field with elements of kind `k`. -/
structure PackedRead (n : ι) (b : List UInt8) (bytes : List UInt8) (k : CodecKind ι)
    (first packedEnd : Nat) : Prop where
  packable : isPackable k = true
  turn : ∃ m tagWire start i, TagRead S n b m bytes tagWire start ∧
    findField S m (tagWire >>> 3).toUInt32 = some i ∧ (S.field i).kind = .repeated k ∧
    (tagWire &&& 7).toUInt8 = 2 ∧ readPackedLen bytes start = .ok (first, packedEnd)

/-- `typeway_decode` returns, every loop moves its offset on and keeps it in the input, and the
loop of a packed field never stands behind the declared end, whatever elements it holds. -/
structure SafeOn (n : ι) (b : List UInt8) : Prop where
  returns : Returns (typewayDecode S n b) fun _ => True
  grows : ∀ {m bytes s s'}, Visited S n b m bytes s →
    decodeStep S (typewayDecode S) m bytes s = .ok s' →
    s.offset < s'.offset ∧ s'.offset ≤ bytes.length
  packedGrows : ∀ {bytes k first packedEnd}, PackedRead S n b bytes k first packedEnd →
    ∀ s s' : PackedState S.fields k, packedStep k bytes s = .ok s' →
      s.1 < s'.1 ∧ s'.1 ≤ bytes.length
  confined : ∀ {bytes k first packedEnd}, PackedRead S n b bytes k first packedEnd →
    ∀ (items : FieldValue S.fields (.repeated k)) (t : PackedState S.fields k),
      Passes (fun s : PackedState S.fields k => decide (s.1 < packedEnd)) (packedStep k bytes)
        (first, items) t → t.1 ≤ packedEnd

/-- The condition on the input. -/
structure SoundInput (n : ι) (b : List UInt8) : Prop where
  sums : ∀ {m bytes tagWire start}, TagRead S n b m bytes tagWire start →
    SumFits (turnUse S m tagWire) bytes start
  whole : ∀ {bytes k first packedEnd}, PackedRead S n b bytes k first packedEnd →
    ∀ (items : FieldValue S.fields (.repeated k)) (t : PackedState S.fields k),
      packedLoop (packedStep k bytes) packedEnd (first, items) = .ok t →
      WholePayload k bytes first packedEnd

variable {S} {n m : ι} {b bytes : List UInt8}

/-! ## Calls inside calls -/

/-- What a nested call comes to, the outer call comes to. -/
theorem Visited.trans (h : Visited S n b m (S.visible m bytes) (.start S m)) {m' : ι}
    {bytes' : List UInt8} {s : DecodeState S m'} (h' : Visited S m bytes m' bytes' s) :
    Visited S n b m' bytes' s := by
  induction h' with
  | start => exact h
  | next _ go run ih => exact .next ih go run
  | enter _ go tag found nested read ih => exact .enter ih go tag found nested read

theorem Visited.of_passes {t : DecodeState S n}
    (h : Passes (fun s : DecodeState S n => decide (s.offset < (S.visible n b).length))
      (decodeStep S (typewayDecode S) n (S.visible n b)) (.start S n) t) :
    Visited S n b n (S.visible n b) t := by
  induction h with
  | start => exact .start
  | next _ go run ih => exact .next ih (of_decide_eq_true go) run

/-- A turn returns if its sum fits and the nested call it makes returns. -/
theorem decodeStep_returns {s : DecodeState S n} (small : bytes.length ≤ isizeMax)
    (go : s.offset < bytes.length)
    (fits : ∀ tagWire start, readVarint bytes s.offset = .ok (tagWire, start) →
      SumFits (turnUse S n tagWire) bytes start)
    (nested : ∀ tagWire start i k payload stop, readVarint bytes s.offset = .ok (tagWire, start) →
      findField S n (tagWire >>> 3).toUInt32 = some i → (S.field i).kind.nested = some k →
      readLen bytes start = .ok (payload, stop) →
      Returns (typewayDecode S k payload) fun _ => True) :
    Returns (decodeStep S (typewayDecode S) n bytes s) fun _ => True := by
  refine .bind ((readVarint_returns small (Nat.le_of_lt go)).with_ensures
    (readVarint_ensures _ _)) ?_
  intro r h
  obtain ⟨tagWire, start⟩ := r
  obtain ⟨tag, -, -, low⟩ := h
  have fits := fits tagWire start tag
  rw [turnUse] at fits
  dsimp only at low ⊢
  split
  · rename_i i found
    rw [found] at fits
    refine .bind (genDecodeArm_returns _ _ _ _ small low fits ?_) fun _ _ => .ok trivial
    intro k payload stop e read
    exact nested tagWire start i k payload stop tag found e read
  · rename_i missing
    rw [missing] at fits
    exact .bind (skipValue_returns _ small low fits) fun _ _ => .ok trivial

/-- The decoder returns once no turn forms an overflowing sum. -/
theorem typewayDecode_returns (small : b.length ≤ isizeMax)
    (sums : ∀ {m bytes tagWire start}, TagRead S n b m bytes tagWire start →
      SumFits (turnUse S m tagWire) bytes start) :
    Returns (typewayDecode S n b) fun _ => True := by
  -- a nested call gets a shorter slice
  generalize size : b.length = l
  induction l using Nat.strongRecOn generalizing n b with
  | ind l ih =>
    rw [typewayDecode_eq]
    refine .bind (Returns.of_passes (decodeLoop_lowers S _) ?_) fun _ _ => .ok trivial
    intro t passes go
    have here := Visited.of_passes passes
    have go := of_decide_eq_true go
    have most := S.visible_length_le n b
    apply decodeStep_returns (Nat.le_trans most small) go
    · intro tagWire start tag
      exact sums ⟨t, here, go, tag⟩
    · intro tagWire start i k payload stop tag found e read
      have short : payload.length < (S.visible n b).length := (readLen_ensures _ _ _ read).2.2
      have entered := Visited.enter here go tag found e read
      apply ih payload.length (by omega) (by omega) _ rfl
      intro m bytes tagWire start h
      obtain ⟨s, inner, rest⟩ := h
      exact sums ⟨s, entered.trans inner, rest⟩

/-! ## Panics -/

theorem readMessage_panics {α : Type} {decode : List UInt8 → Run TypewayDecodeError α}
    {start stop : Nat} {payload : List UInt8} {p : Panic}
    (read : readLen bytes start = .ok (payload, stop))
    (panics : decode payload = .error (.panic p)) :
    readMessage decode bytes start = .error (.panic p) := by
  rw [readMessage, read, ok_bind]
  dsimp only
  rw [panics, error_bind]

/-- A panic of a nested call is a panic of the arm that makes it. -/
theorem genDecodeArm_panics {Γ : ι → List (CodecField ι)}
    {decode : (n : ι) → List UInt8 → Run TypewayDecodeError (Message Γ n)} {k : CodecKind ι}
    {start stop : Nat} {payload : List UInt8} {p : Panic} (nested : k.nested = some m)
    (read : readLen bytes start = .ok (payload, stop))
    (panics : decode m payload = .error (.panic p)) (ident : String) (wireType : UInt8)
    (value : FieldValue Γ k) :
    genDecodeArm decode ident wireType bytes start k value = .error (.panic p) := by
  cases k with
  | message n =>
    cases nested
    rw [genDecodeArm]
    exact store_panics (readMessage_panics read panics)
  | optionalMessage n =>
    cases nested
    rw [genDecodeArm]
    exact store_panics (readMessage_panics read panics)
  | repeatedMessage n =>
    cases nested
    rw [genDecodeArm]
    exact store_panics (readMessage_panics read panics)
  | _ => cases nested

/-- A panic in a visited state is a panic of the call it is visited from. -/
theorem Visited.panics {s : DecodeState S m} (h : Visited S n b m bytes s)
    (go : s.offset < bytes.length) {p : Panic}
    (panics : decodeStep S (typewayDecode S) m bytes s = .error (.panic p)) :
    typewayDecode S n b = .error (.panic p) := by
  suffices Passes (fun s : DecodeState S m => decide (s.offset < bytes.length))
        (decodeStep S (typewayDecode S) m bytes) (.start S m) s ∧
      (decodeLoop S (typewayDecode S) m bytes (.start S m) = .error (.panic p) →
        typewayDecode S n b = .error (.panic p)) by
    apply this.2
    rw [decodeLoop, this.1.panics (decodeLoop_lowers S _) (decide_eq_true go) panics]
  clear go panics
  induction h with
  | start =>
    refine ⟨.start, fun panics => ?_⟩
    rw [typewayDecode_eq, panics, error_bind]
  | next _ go run ih => exact ⟨.next ih.1 (decide_eq_true go) run, ih.2⟩
  | @enter m k bytes payload s tagWire start stop i _ go tag found nested read ih =>
    refine ⟨.start, fun panics => ih.2 ?_⟩
    have inner : typewayDecode S k payload = .error (.panic p) := by
      rw [typewayDecode_eq, panics, error_bind]
    rw [decodeLoop, ih.1.panics (decodeLoop_lowers S _) (decide_eq_true go)]
    rw [decodeStep, tag, ok_bind]
    dsimp only
    rw [found]
    dsimp only
    rw [genDecodeArm_panics nested read inner, error_bind]

/-- An overflowing sum panics. -/
theorem decodeStep_overflows {s : DecodeState S m} {tagWire len : UInt64} {start stop base : Nat}
    (tag : readVarint bytes s.offset = .ok (tagWire, start))
    (read : readVarint bytes start = .ok (len, stop))
    (sum : (turnUse S m tagWire).base start stop = some base)
    (beyond : ¬ base + len.toNat < usizeBound)
    (decode : (n : ι) → List UInt8 → Run TypewayDecodeError (S.Msg n)) :
    decodeStep S decode m bytes s = .error (.panic .addOverflow) := by
  rw [turnUse] at sum
  rw [decodeStep, tag, ok_bind]
  dsimp only
  cases found : findField S m (tagWire >>> 3).toUInt32 with
  | some i =>
    rw [found] at sum
    dsimp only
    rw [genDecodeArm_overflows decode _ _ _ _ read sum beyond, error_bind]
  | none =>
    rw [found] at sum
    dsimp only
    rw [skip_overflows read sum beyond, error_bind]

theorem sumFits_of_returns (returns : Returns (typewayDecode S n b) fun _ => True)
    {tagWire : UInt64} {start : Nat} (h : TagRead S n b m bytes tagWire start) :
    SumFits (turnUse S m tagWire) bytes start := by
  intro len stop base read sum
  obtain ⟨s, here, go, tag⟩ := h
  apply Decidable.byContradiction
  intro beyond
  have panics := decodeStep_overflows tag read sum beyond (typewayDecode S)
  exact returns.not_panic _ (here.panics go panics)

/-! ## The runs -/

/-- A loop of the decoder gets through a packed field inside its end iff its payload is whole. -/
theorem PackedRead.stays_iff {k : CodecKind ι} {first packedEnd : Nat}
    (h : PackedRead S n b bytes k first packedEnd) (items : FieldValue S.fields (.repeated k)) :
    (∀ t, Passes (fun s : PackedState S.fields k => decide (s.1 < packedEnd)) (packedStep k bytes)
        (first, items) t → t.1 ≤ packedEnd) ↔
      ∀ t, packedLoop (packedStep k bytes) packedEnd (first, items) = .ok t →
        WholePayload k bytes first packedEnd := by
  obtain ⟨m, tagWire, start, i, -, -, -, -, header⟩ := h.turn
  have order := (readPackedLen_ensures _ _ _ header).2.1
  exact packed_confined_iff (packedStep_ends h.packable bytes first)
    (wholePayload_nil k bytes first) order (packedStep_advances h.packable bytes)

/-- Exactly which inputs the decoder is safe on. -/
theorem typewayDecode_safeOn_iff (S : Schema ι) (n : ι) (b : List UInt8)
    (small : b.length ≤ isizeMax) : SafeOn S n b ↔ SoundInput S n b := by
  constructor
  · intro safe
    constructor
    · intro m bytes tagWire start h
      exact sumFits_of_returns safe.returns h
    · intro bytes k first packedEnd h items
      exact (h.stays_iff items).1 (safe.confined h items)
  · intro sound
    constructor
    · exact typewayDecode_returns small sound.sums
    · intro m bytes s s' _ run
      obtain ⟨tagWire, start, turn⟩ := decodeStep_turn S run
      exact ⟨turn.low.trans turn.past, turn.bound⟩
    · intro bytes k first packedEnd h s s' run
      exact packedStep_advances h.packable bytes s s' run
    · intro bytes k first packedEnd h items
      exact (h.stays_iff items).2 (sound.whole h items)

end

/-! ## Two inputs for a `Node` -/

/-- The encoding of an `id` of 5. -/
def idBytes : List UInt8 := [0x08, 0x05]

theorem visited_id {m : Unit} {bytes : List UInt8} {s : DecodeState nodeSchema m}
    (h : Visited nodeSchema () idBytes m bytes s) :
    bytes = idBytes ∧ (s.offset = 0 ∨ s.offset = 2) := by
  induction h with
  | start => exact ⟨rfl, .inl rfl⟩
  | next _ go run ih =>
    obtain ⟨rfl, offset⟩ := ih
    obtain ⟨tagWire, start, turn⟩ := decodeStep_turn nodeSchema run
    have size : idBytes.length = 2 := rfl
    have := turn.low
    have := turn.past
    have := turn.bound
    refine ⟨rfl, .inr ?_⟩
    omega
  | @enter _ _ _ _ s _ _ _ _ _ go tag _ _ read ih =>
    obtain ⟨rfl, offset⟩ := ih
    have size : idBytes.length = 2 := rfl
    rw [show s.offset = 0 by omega] at tag
    cases tag
    cases read

/-- A `Node` that is an `id` alone. -/
theorem safeOn_id : SafeOn nodeSchema () idBytes := by
  have turns : ∀ {m bytes tagWire start}, TagRead nodeSchema () idBytes m bytes tagWire start →
      bytes = idBytes ∧ start = 1 := by
    intro m bytes tagWire start h
    obtain ⟨s, here, go, tag⟩ := h
    obtain ⟨rfl, offset⟩ := visited_id here
    have size : idBytes.length = 2 := rfl
    rw [show s.offset = 0 by omega] at tag
    cases tag
    exact ⟨rfl, rfl⟩
  apply (typewayDecode_safeOn_iff nodeSchema () idBytes (by decide)).2
  constructor
  · intro m bytes tagWire start h len stop base read sum
    obtain ⟨rfl, rfl⟩ := turns h
    cases read
    cases use : turnUse nodeSchema m tagWire with
    | none => rw [use] at sum; cases sum
    | arm => rw [use] at sum; cases sum; decide
    | skip => rw [use] at sum; cases sum; decide
  · intro bytes k first packedEnd h
    obtain ⟨m, tagWire, start, i, tag, -, -, -, header⟩ := h.turn
    obtain ⟨rfl, rfl⟩ := turns tag
    cases header

/-- The length `2^64 - 1` of a child overflows the addition to the offset. -/
theorem not_safeOn_child :
    ¬ SafeOn nodeSchema ()
      [0x12, 0xFF, 0xFF, 0xFF, 0xFF, 0xFF, 0xFF, 0xFF, 0xFF, 0xFF, 0x01] := by
  intro safe
  exact safe.returns.not_panic .addOverflow rfl

end Typeway.Macros
