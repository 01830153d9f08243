import Typeway.Grpc.Framing

/-!
# Sequences of frames

`decode_grpc_frames` of `framing.rs` splits a text of bytes at the lengths of its frames, whatever
their flags, and stops at a trailers frame or at a frame that is cut off. Every text of bytes is a
sequence of whole frames with what is cut off behind them.
-/

namespace Typeway.Grpc

/-- `TRAILERS_FRAME_FLAG` -/
def trailersFrameFlag : UInt8 := 0x80

/-- The loop of `decode_grpc_frames` at an offset. -/
def framesLoop : Nat → List UInt8 → List (List UInt8) × Option (List UInt8)
  | fuel + 1, flag :: a :: b :: c :: d :: rest =>
    let len := LittleEndian.value [d, c, b, a]
    if rest.length < len then ([], none)
    else
      let frame := rest.take len
      if flag = trailersFrameFlag then ([], some frame)
      else
        let (frames, trailers) := framesLoop fuel (rest.drop len)
        (frame :: frames, trailers)
  | _, _ => ([], none)

/-- Every turn of the loop takes bytes. -/
def decodeGrpcFrames (data : List UInt8) : List (List UInt8) × Option (List UInt8) :=
  framesLoop data.length data

/-- A whole frame with any flag. -/
structure WireFrame where
  flag : UInt8
  payload : List UInt8
  fits : payload.length < 2 ^ 32

def WireFrame.bytes (frame : WireFrame) : List UInt8 :=
  frame.flag :: (frameLength frame.payload ++ frame.payload)

/-- Whole frames and what comes behind the last of them. -/
def wire (frames : List WireFrame) (cut : List UInt8) : List UInt8 :=
  frames.flatMap WireFrame.bytes ++ cut

/-- The bytes do not have a whole frame in front. -/
inductive CutOff : List UInt8 → Prop
  | short {data : List UInt8} (short : data.length < 5) : CutOff data
  | incomplete {flag a b c d : UInt8} {rest : List UInt8}
      (beyond : rest.length < LittleEndian.value [d, c, b, a]) :
      CutOff (flag :: a :: b :: c :: d :: rest)

/-- The payloads before the first trailers frame, and its payload. -/
def untilTrailers : List WireFrame → List (List UInt8) × Option (List UInt8)
  | [] => ([], none)
  | frame :: frames =>
    if frame.flag = trailersFrameFlag then ([], some frame.payload)
    else (frame.payload :: (untilTrailers frames).1, (untilTrailers frames).2)

variable {data cut rest : List UInt8} {frame : WireFrame} {frames : List WireFrame}

/-- The bytes of a frame, with the length its header gives. -/
theorem WireFrame.bytes_append (frame : WireFrame) (rest : List UInt8) :
    ∃ a b c d, frame.bytes ++ rest = frame.flag :: a :: b :: c :: d :: (frame.payload ++ rest) ∧
      LittleEndian.value [d, c, b, a] = frame.payload.length := by
  obtain ⟨a, b, c, d, header⟩ : ∃ a b c d, frameLength frame.payload = [a, b, c, d] := by
    have four := frameLength_length frame.payload
    match h : frameLength frame.payload, four with
    | [a, b, c, d], _ => exact ⟨a, b, c, d, rfl⟩
  refine ⟨a, b, c, d, ?_, (frameLength_eq_iff frame.fits).1 header⟩
  rw [WireFrame.bytes, header]
  rfl

theorem framesLoop_frame (fuel : Nat) (frame : WireFrame) (rest : List UInt8) :
    framesLoop (fuel + 1) (frame.bytes ++ rest) =
      if frame.flag = trailersFrameFlag then ([], some frame.payload)
      else (frame.payload :: (framesLoop fuel rest).1, (framesLoop fuel rest).2) := by
  obtain ⟨a, b, c, d, eq, len⟩ := frame.bytes_append rest
  rw [eq, framesLoop]
  dsimp only
  rw [len, if_neg (by rw [List.length_append]; omega), List.take_left, List.drop_left]

theorem framesLoop_cutOff (fuel : Nat) (off : CutOff data) : framesLoop fuel data = ([], none) := by
  cases fuel with
  | zero => rw [framesLoop]; simp
  | succ fuel =>
    cases off with
    | short short =>
      match data, short with
      | [], _ | [_], _ | [_, _], _ | [_, _, _], _ | [_, _, _, _], _ => rfl
    | incomplete beyond =>
      rw [framesLoop]
      exact if_pos beyond

theorem WireFrame.length_pos (frame : WireFrame) : 0 < frame.bytes.length := by
  rw [WireFrame.bytes, List.length_cons]
  omega

theorem framesLoop_wire (off : CutOff cut) {fuel : Nat} (enough : (wire frames cut).length ≤ fuel) :
    framesLoop fuel (wire frames cut) = untilTrailers frames := by
  induction frames generalizing fuel with
  | nil => exact framesLoop_cutOff fuel off
  | cons frame frames ih =>
    have unfolded : wire (frame :: frames) cut = frame.bytes ++ wire frames cut := by
      rw [wire, List.flatMap_cons, List.append_assoc]
      rfl
    have some := frame.length_pos
    rw [unfolded, List.length_append] at enough
    obtain ⟨fuel, rfl⟩ : ∃ n, fuel = n + 1 := ⟨fuel - 1, by omega⟩
    rw [unfolded, framesLoop_frame, ih (by omega), untilTrailers]

/-- The splitter finds the frames up to the trailers, and says nothing of what is cut off. -/
theorem decodeGrpcFrames_wire (off : CutOff cut) :
    decodeGrpcFrames (wire frames cut) = untilTrailers frames :=
  framesLoop_wire off (Nat.le_refl _)

theorem CutOff.nil : CutOff [] :=
  .short (by simp)

/-- Whatever a body is, it is whole frames and what is cut off. -/
theorem exists_wire (data : List UInt8) :
    ∃ frames cut, CutOff cut ∧ data = wire frames cut := by
  induction h : data.length using Nat.strongRecOn generalizing data with
  | ind n ih =>
    match data, h with
    | [], _ | [_], _ | [_, _], _ | [_, _, _], _ | [_, _, _, _], _ =>
      exact ⟨[], _, .short (by simp), rfl⟩
    | flag :: a :: b :: c :: d :: rest, h =>
      by_cases beyond : rest.length < LittleEndian.value [d, c, b, a]
      · exact ⟨[], _, .incomplete beyond, rfl⟩
      · have bound := LittleEndian.value_lt [d, c, b, a]
        have len : (rest.take (LittleEndian.value [d, c, b, a])).length =
            LittleEndian.value [d, c, b, a] := by
          rw [List.length_take]
          omega
        have fits : (rest.take (LittleEndian.value [d, c, b, a])).length < 2 ^ 32 := by
          rw [len]
          simpa using bound
        obtain ⟨frames, cut, off, split⟩ := ih _ (by
          simp only [List.length_cons] at h
          rw [List.length_drop]
          omega) (rest.drop (LittleEndian.value [d, c, b, a])) rfl
        refine ⟨⟨flag, _, fits⟩ :: frames, cut, off, ?_⟩
        rw [wire, List.flatMap_cons, List.append_assoc, ← wire, ← split, WireFrame.bytes,
          (frameLength_eq_iff fits).2 len.symm]
        simp

end Typeway.Grpc
