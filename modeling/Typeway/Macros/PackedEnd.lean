import Typeway.Macros.Decode

/-!
# Where a packed field ends

The loop over a packed payload compares its offset with the declared end before each element,
while the reader of an element compares it with the length of the whole input only. The
positions an element can end at decide where the loop stops: at the declared end if that is
such a position, and behind it otherwise.
-/

namespace Typeway.Macros

open Checked Protobuf

variable {ι : Type} {Γ : ι → List (CodecField ι)}

/-- An element of a packed payload that starts at `first` ends at `stop`, or none is there. -/
def WholePayload (k : CodecKind ι) (bytes : List UInt8) (first stop : Nat) : Prop :=
  match k with
  | .fixed32 => (stop - first) % 4 = 0
  | .fixed64 => (stop - first) % 8 = 0
  | _ => stop = first ∨ ∃ b, bytes[stop - 1]? = some b ∧ b < 0x80

/-- The body of the loop over the packed payload of a field. -/
def packedStep (k : CodecKind ι) (bytes : List UInt8) :
    PackedState Γ k → Run TypewayDecodeError (PackedState Γ k) :=
  match k with
  | .varint ty => packedVarintStep (fun val => .varint (ty.ofU64 val)) bytes
  | .bool => packedVarintStep (fun val => .bool (val != 0)) bytes
  | .fixed32 => packedFixedStep 4 (fun word => .fixed32 (Ieee.fromLeBytes 4 word)) bytes
  | .fixed64 => packedFixedStep 8 (fun word => .fixed64 (Ieee.fromLeBytes 8 word)) bytes
  | _ => pure

theorem packedStep_advances {k : CodecKind ι} (packable : isPackable k = true)
    (bytes : List UInt8) : PackedAdvances bytes (packedStep (Γ := Γ) k bytes) := by
  cases k with
  | varint ty => exact packedVarintStep_advances _ bytes
  | bool => exact packedVarintStep_advances _ bytes
  | fixed32 =>
    exact packedFixedStep_advances (by decide) (fun word => .fixed32 (Ieee.fromLeBytes 4 word))
      bytes
  | fixed64 =>
    exact packedFixedStep_advances (by decide) (fun word => .fixed64 (Ieee.fromLeBytes 8 word))
      bytes
  | _ => cases packable

/-! ## The ends of the elements -/

/-- A turn of the packed loop goes from one end to the next. -/
def StepsToEnd {k : CodecKind ι} (step : PackedState Γ k → Run TypewayDecodeError (PackedState Γ k))
    (first : Nat) (ends : Nat → Prop) : Prop :=
  ∀ s s', first ≤ s.1 → ends s.1 → step s = .ok s' →
    ends s'.1 ∧ ∀ j, s.1 < j → j < s'.1 → ¬ ends j

theorem readVarint_ends {bytes : List UInt8} {offset stop : Nat} {val : UInt64}
    (read : readVarint bytes offset = .ok (val, stop)) {j : Nat} (low : offset < j)
    (high : j ≤ stop) : (∃ b, bytes[j - 1]? = some b ∧ b < 0x80) ↔ j = stop := by
  obtain ⟨rest, slice, read⟩ := bind_eq_ok.1 read
  obtain ⟨⟨val', consumed⟩, word, read⟩ := bind_eq_ok.1 read
  obtain ⟨stop', sum, read⟩ := bind_eq_ok.1 read
  cases read
  have stop_eq : stop = offset + consumed := Ensures.add _ _ _ sum
  obtain ⟨-, rest_eq⟩ := Ensures.sliceFrom _ _ _ slice
  obtain ⟨l, tail, split, term, -, -, consumed_eq⟩ := twDecodeVarint_sound (lift_eq_ok.1 word)
  have inside : j - 1 - offset < l.length := by omega
  have here : bytes[j - 1]? = some l[j - 1 - offset] := by
    have drop : (bytes.drop offset)[j - 1 - offset]? = bytes[offset + (j - 1 - offset)]? :=
      List.getElem?_drop
    have position : offset + (j - 1 - offset) = j - 1 := by omega
    rw [← rest_eq, split, List.getElem?_append_left inside, List.getElem?_eq_getElem inside,
      position] at drop
    exact drop.symm
  have ends := term.low_iff (List.getElem?_eq_getElem inside)
  rw [here]
  constructor
  · intro h
    obtain ⟨b, e, low⟩ := h
    cases e
    have := ends.1 (byte_below.1 low)
    omega
  · intro e
    exact ⟨_, rfl, byte_below.2 (ends.2 (by omega))⟩

theorem store_ok {α β : Type} {read : Run TypewayDecodeError (α × Nat)} {f : α → β} {r : Nat × β}
    (h : store read f = .ok r) : ∃ a, read = .ok (a, r.1) := by
  obtain ⟨⟨a, stop⟩, read, h⟩ := bind_eq_ok.1 h
  cases h
  exact ⟨a, read⟩

theorem packedVarintStep_ends {k : CodecKind ι} (ofVal : UInt64 → FieldValue Γ k)
    (bytes : List UInt8) (first : Nat) :
    StepsToEnd (packedVarintStep ofVal bytes) first
      fun j => j = first ∨ ∃ b, bytes[j - 1]? = some b ∧ b < 0x80 := by
  intro s s' low _ run
  obtain ⟨offset, items⟩ := s
  obtain ⟨b, here, run⟩ := bind_eq_ok.1 run
  have here := Ensures.index _ _ _ here
  dsimp only at low run ⊢
  split at run
  · rename_i small
    obtain ⟨stop, sum, run⟩ := bind_eq_ok.1 run
    have := Ensures.add _ _ _ sum
    cases run
    subst this
    constructor
    · exact .inr ⟨b, here, small⟩
    · intro j _ _
      omega
  · obtain ⟨val, read⟩ := store_ok run
    have past := (readVarint_ensures _ _ _ read).1
    constructor
    · exact .inr ((readVarint_ends read past (Nat.le_refl _)).2 rfl)
    · intro j above below ends
      rcases ends with e | ends
      · omega
      · have := (readVarint_ends read above (Nat.le_of_lt below)).1 ends
        omega

theorem packedFixedStep_ends {k : CodecKind ι} {width : Nat} (pos : 0 < width)
    (ofWord : List UInt8 → FieldValue Γ k) (bytes : List UInt8) (first : Nat) :
    StepsToEnd (packedFixedStep width ofWord bytes) first fun j => (j - first) % width = 0 := by
  intro s s' low ends run
  obtain ⟨offset, items⟩ := s
  rw [packedFixedStep] at run
  obtain ⟨word, read⟩ := store_ok run
  have stop := (readFixed_ensures _ _ _ _ read).1
  dsimp only at low ends stop ⊢
  rw [stop]
  constructor
  · rw [show offset + width - first = offset - first + width by omega, Nat.add_mod_right, ends]
  · intro j above below whole
    have gap : (j - first) - (offset - first) < width := by omega
    obtain ⟨c, hc⟩ := Nat.dvd_of_mod_eq_zero ends
    obtain ⟨d, hd⟩ := Nat.dvd_of_mod_eq_zero whole
    have order : c < d := by
      apply Nat.lt_of_mul_lt_mul_left (a := width)
      omega
    have := Nat.mul_le_mul_left width (Nat.succ_le_of_lt order)
    rw [Nat.mul_succ] at this
    omega

theorem packedStep_ends {k : CodecKind ι} (packable : isPackable k = true) (bytes : List UInt8)
    (first : Nat) :
    StepsToEnd (packedStep (Γ := Γ) k bytes) first (WholePayload k bytes first) := by
  cases k with
  | varint ty => exact packedVarintStep_ends _ bytes first
  | bool => exact packedVarintStep_ends _ bytes first
  | fixed32 =>
    exact packedFixedStep_ends (by decide) (fun word => .fixed32 (Ieee.fromLeBytes 4 word))
      bytes first
  | fixed64 =>
    exact packedFixedStep_ends (by decide) (fun word => .fixed64 (Ieee.fromLeBytes 8 word))
      bytes first
  | _ => cases packable

theorem wholePayload_nil (k : CodecKind ι) (bytes : List UInt8) (first : Nat) :
    WholePayload k bytes first first := by
  cases k <;> simp [WholePayload]

/-! ## The loop -/

section Loop

variable {k : CodecKind ι} {step : PackedState Γ k → Run TypewayDecodeError (PackedState Γ k)}
  {first packedEnd : Nat} {ends : Nat → Prop} {items : FieldValue Γ (.repeated k)}

/-- The loop stops on the ends of elements, and it runs over the declared end only if that is
no end of an element. -/
theorem packed_passes (steps : StepsToEnd step first ends) (start : ends first)
    (order : first ≤ packedEnd) (advances : ∀ s s', step s = .ok s' → s.1 < s'.1)
    {t : PackedState Γ k}
    (here : Passes (fun s : PackedState Γ k => decide (s.1 < packedEnd)) step (first, items) t) :
    first ≤ t.1 ∧ ends t.1 ∧ (packedEnd < t.1 → ¬ ends packedEnd) := by
  induction here with
  | start => exact ⟨Nat.le_refl _, start, fun beyond => by omega⟩
  | @next t t' _ go run ih =>
    have go := of_decide_eq_true go
    have past := advances t t' run
    obtain ⟨stop, between⟩ := steps t t' ih.1 ih.2.1 run
    exact ⟨by omega, stop, fun beyond => between packedEnd go beyond⟩

/-- A packed field stays inside its declared end iff the loop, if it gets through, has found an
element ending there. -/
theorem packed_confined_iff (steps : StepsToEnd step first ends) (start : ends first)
    (order : first ≤ packedEnd) {bytes : List UInt8} (advances : PackedAdvances bytes step) :
    (∀ t, Passes (fun s : PackedState Γ k => decide (s.1 < packedEnd)) step (first, items) t →
        t.1 ≤ packedEnd) ↔
      ∀ t, packedLoop step packedEnd (first, items) = .ok t → ends packedEnd := by
  have lowers := packedLoop_lowers advances packedEnd
  have moves : ∀ s s', step s = .ok s' → s.1 < s'.1 := fun s s' run => (advances s s' run).1
  constructor
  · intro confined t run
    obtain ⟨here, stop⟩ := Ensures.passes lowers _ t run
    have := of_decide_eq_false stop
    have := confined t here
    have at_end : t.1 = packedEnd := by omega
    exact at_end ▸ (packed_passes steps start order moves here).2.1
  · intro whole t here
    apply Nat.le_of_not_lt
    intro beyond
    apply (packed_passes steps start order moves here).2.2 beyond
    apply whole t
    rw [packedLoop, here.runLoop_eq lowers]
    exact runLoop_done (decide_eq_false (by omega))

end Loop

end Typeway.Macros
