import Typeway.Macros.Records

/-!
# A generated loop over the fields of an input

The decoders of oneof enums and of structs walk over the input alike: they read a tag, and a
`match` on the field number selects the arm that reads on or the skipping of the value. The arms
are a parameter here. `Lands` says what the loop makes of some bytes of its input, as an equation,
so that it also covers what an arm refuses.
-/

namespace Typeway.Macros

open Checked Protobuf

variable {σ : Type}

/-- What an arm does behind the tag: from the wire type, the input, the offset and the variables
to the new offset and variables. -/
abbrev Arm (σ : Type) := UInt8 → List UInt8 → Nat → σ → Run TypewayDecodeError (Nat × σ)

structure LoopState (σ : Type) where
  offset : Nat
  vars : σ

/-- The body of the `while offset < bytes.len()` loop. -/
def fieldStep (arms : UInt32 → Option (Arm σ)) (bytes : List UInt8) (s : LoopState σ) :
    Run TypewayDecodeError (LoopState σ) := do
  let (tagWire, offset) ← readVarint bytes s.offset
  let fieldNumber := (tagWire >>> 3).toUInt32
  let wireType := (tagWire &&& 7).toUInt8
  match arms fieldNumber with
  | some arm =>
    let (offset, vars) ← arm wireType bytes offset s.vars
    pure ⟨offset, vars⟩
  | none =>
    let (_, offset) ← skipValue wireType bytes offset
    pure ⟨offset, s.vars⟩

def fieldLoop (arms : UInt32 → Option (Arm σ)) (bytes : List UInt8) :
    LoopState σ → Run TypewayDecodeError (LoopState σ) :=
  runLoop (fun s => decide (s.offset < bytes.length)) (fieldStep arms bytes)
    (fun s => bytes.length - s.offset)

def decodeFields (arms : UInt32 → Option (Arm σ)) (vars : σ) (bytes : List UInt8) :
    Run TypewayDecodeError σ := do
  let s ← fieldLoop arms bytes ⟨0, vars⟩
  pure s.vars

/-- Every arm moves the offset, and not past the input. -/
def Advancing (arms : UInt32 → Option (Arm σ)) : Prop :=
  ∀ number arm, arms number = some arm → ∀ wireType bytes offset vars,
    Advances bytes offset (arm wireType bytes offset vars)

section

variable {arms : UInt32 → Option (Arm σ)} (advancing : Advancing arms)

include advancing

theorem fieldStep_ensures (bytes : List UInt8) (s : LoopState σ) :
    Ensures (fieldStep arms bytes s) fun s' => s.offset < s'.offset ∧ s'.offset ≤ bytes.length := by
  rw [fieldStep]
  refine (readVarint_ensures bytes s.offset).bind fun tag low => ?_
  dsimp only
  cases found : arms (tag.1 >>> 3).toUInt32 with
  | some arm =>
    refine (advancing _ arm found _ bytes tag.2 s.vars).bind fun stop past => .ok ?_
    exact ⟨Nat.lt_trans low.1 past.1, past.2⟩
  | none =>
    refine (skipValue_ensures _ bytes tag.2).bind fun stop past => .ok ?_
    exact ⟨Nat.lt_trans low.1 past.1, past.2⟩

theorem fieldLoop_lowers (bytes : List UInt8) :
    Lowers (fun s : LoopState σ => decide (s.offset < bytes.length)) (fieldStep arms bytes)
      (fun s => bytes.length - s.offset) where
  pos s go := by
    have := of_decide_eq_true go
    omega
  less s s' go run := by
    have := of_decide_eq_true go
    have := fieldStep_ensures advancing bytes s s' run
    omega

/-- An invariant of every arm holds of the variables that the decoder returns. -/
theorem decodeFields_ensures {I : σ → Prop} {vars : σ} (start : I vars)
    (keep : ∀ number arm, arms number = some arm → ∀ wireType bytes offset vars, I vars →
      Ensures (arm wireType bytes offset vars) fun r => I r.2) (bytes : List UInt8) :
    Ensures (decodeFields arms vars bytes) I := by
  have run := Ensures.runLoop (fieldLoop_lowers advancing bytes) (I := fun s => I s.vars)
    (s := ⟨0, vars⟩) ?_ start
  · exact run.bind fun s done => .ok done.1
  · intro s inv _
    rw [fieldStep]
    refine Ensures.any.bind fun tag _ => ?_
    dsimp only
    cases found : arms (tag.1 >>> 3).toUInt32 with
    | some arm => exact (keep _ arm found _ bytes tag.2 s.vars inv).bind fun stop inv => .ok inv
    | none => exact Ensures.any.bind fun stop _ => .ok inv

end

/-! ## What the loop makes of its input -/

/-- Wherever the loop finds the bytes `l` ahead it goes on behind them with what `outcome`
computes, or ends in the error that `outcome` is. -/
def Lands (arms : UInt32 → Option (Arm σ)) (l : List UInt8) (vars : σ)
    (outcome : Run TypewayDecodeError σ) : Prop :=
  ∀ bytes offset, bytes.length ≤ isizeMax → At bytes offset l →
    fieldLoop arms bytes ⟨offset, vars⟩ =
      outcome >>= fun vars => fieldLoop arms bytes ⟨offset + l.length, vars⟩

namespace Lands

variable {arms : UInt32 → Option (Arm σ)}

theorem nil (vars : σ) : Lands arms [] vars (.ok vars) :=
  fun _ _ _ _ => rfl

theorem append {l l' : List UInt8} {vars : σ} {outcome : Run TypewayDecodeError σ}
    {k : σ → Run TypewayDecodeError σ} (first : Lands arms l vars outcome)
    (second : ∀ vars', outcome = .ok vars' → Lands arms l' vars' (k vars')) :
    Lands arms (l ++ l') vars (outcome >>= k) := by
  intro bytes offset small h
  rw [first bytes offset small h.left]
  cases outcome with
  | error st => rfl
  | ok vars' =>
    rw [ok_bind, ok_bind, second vars' rfl bytes _ small h.right, List.length_append, Nat.add_assoc]

/-- A tag and what the arm of its number makes of the bytes behind it. -/
theorem record (advancing : Advancing arms) {tag : UInt32} {wireType : UInt8}
    (hwt : wireType.toNat < 8) {arm : Arm σ} (found : arms tag = some arm) {l : List UInt8}
    {vars : σ} {outcome : Run TypewayDecodeError σ}
    (reads : ∀ bytes offset, bytes.length ≤ isizeMax → At bytes offset l →
      arm wireType bytes offset vars = outcome >>= fun vars => .ok (offset + l.length, vars)) :
    Lands arms (tagBytes tag wireType ++ l) vars outcome := by
  intro bytes offset small h
  have spells := spells_tagBytes hwt tag
  have step : fieldStep arms bytes ⟨offset, vars⟩ =
      outcome >>= fun vars => .ok ⟨offset + (tagBytes tag wireType ++ l).length, vars⟩ := by
    rw [fieldStep, readVarint_spelled small spells h.left, ok_bind]
    dsimp only
    rw [tagWord_number hwt, tagWord_wire hwt, found]
    dsimp only
    rw [reads bytes _ small h.right, List.length_append, ← Nat.add_assoc]
    cases outcome <;> rfl
  have go := h.goes_on spells.length_pos
  rw [fieldLoop, runLoop_next (fieldLoop_lowers advancing bytes) go, step]
  cases outcome <;> rfl

/-- What the loop makes of the whole input is what the decoder returns. -/
theorem decodeFields {bytes : List UInt8} {vars : σ} {outcome : Run TypewayDecodeError σ}
    (small : bytes.length ≤ isizeMax) (lands : Lands arms bytes vars outcome) :
    decodeFields arms vars bytes = outcome := by
  rw [Macros.decodeFields, lands bytes 0 small (.whole bytes)]
  cases outcome with
  | error st => rfl
  | ok vars' =>
    have done : fieldLoop arms bytes ⟨0 + bytes.length, vars'⟩ =
        .ok ⟨0 + bytes.length, vars'⟩ := runLoop_done (by simp)
    rw [ok_bind, done]
    rfl

end Lands

end Typeway.Macros
