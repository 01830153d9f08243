import Typeway.Grpc.Web

/-!
# Splitting at the frames

What `decode_grpc_frames` returns of any bytes: frames that stand in front of them, and no others
when more bytes arrive. It does not look at the flags of the frames before the trailers.
-/

namespace Typeway.Grpc

/-- The frame of the trailers, if there are any. -/
def trailersFrame (trailers : Option (List UInt8)) : List UInt8 :=
  match trailers with
  | some payload => trailersFrameFlag :: (frameLength payload ++ payload)
  | none => []

/-- `decode_grpc_frame` takes every flag but 0 for a mark of compression. -/
def WireFrame.Compressed (frame : WireFrame) : Prop :=
  frame.flag ≠ 0

/-- The frames are those that are returned as data, with the headers they have in the bytes. -/
structure Returned (data : List UInt8) (frames : List WireFrame) : Prop where
  payloads : frames.map WireFrame.payload = (decodeGrpcFrames data).1
  front : wire frames [] ++ trailersFrame (decodeGrpcFrames data).2 <+: data

/-- A split is the beginning of a split. Behind trailers there is nothing more. -/
structure SplitPrefix (front whole : List (List UInt8) × Option (List UInt8)) : Prop where
  frames : front.1 <+: whole.1
  trailers : front.2 ≠ none → front = whole

structure SplitsExactly (data : List UInt8) : Prop where
  reencoded : ∃ frames, Returned data frames
  plain : ∀ frames, Returned data frames → ∀ frame ∈ frames, ¬ frame.Compressed
  growing : ∀ front, front <+: data → SplitPrefix (decodeGrpcFrames front) (decodeGrpcFrames data)

/-- No whole frame before the trailers is compressed. -/
def Uncompressed (data : List UInt8) : Prop :=
  ∀ frames cut, CutOff cut → data = wire frames cut →
    ∀ frame ∈ frames.takeWhile (·.flag ≠ trailersFrameFlag), ¬ frame.Compressed

variable {data cut cut' rest rest' : List UInt8} {frame frame' : WireFrame}
  {frames frames' : List WireFrame}

theorem wire_cons (frame : WireFrame) (frames : List WireFrame) (cut : List UInt8) :
    wire (frame :: frames) cut = frame.bytes ++ wire frames cut := by
  rw [wire, List.flatMap_cons, List.append_assoc]
  rfl

/-- A frame knows where it ends. -/
theorem bytes_prefix (front : frame.bytes ++ rest <+: frame'.bytes ++ rest') :
    frame = frame' ∧ rest <+: rest' := by
  obtain ⟨a, b, c, d, eq, len⟩ := frame.bytes_append rest
  obtain ⟨a', b', c', d', eq', len'⟩ := frame'.bytes_append rest'
  rw [eq, eq'] at front
  simp only [List.cons_prefix_cons] at front
  obtain ⟨flag, rfl, rfl, rfl, rfl, more, same⟩ := front
  rw [List.append_assoc] at same
  obtain ⟨payload, behind⟩ := List.append_inj same (len.symm.trans len')
  refine ⟨?_, more, behind⟩
  obtain ⟨flag, payload, fits⟩ := frame
  obtain ⟨flag', payload', fits'⟩ := frame'
  simp_all

theorem not_cutOff (frame : WireFrame) (rest : List UInt8) : ¬ CutOff (frame.bytes ++ rest) := by
  obtain ⟨a, b, c, d, eq, len⟩ := frame.bytes_append rest
  rw [eq]
  intro off
  cases off with
  | short short =>
    simp only [List.length_cons] at short
    omega
  | incomplete beyond =>
    rw [len, List.length_append] at beyond
    omega

/-- The frames of a beginning are a beginning of the frames. -/
theorem prefix_of_wire (off : CutOff cut') (front : wire frames cut <+: wire frames' cut') :
    frames <+: frames' := by
  induction frames generalizing frames' with
  | nil => exact List.nil_prefix
  | cons frame frames ih =>
    rw [wire_cons] at front
    cases frames' with
    | nil =>
      obtain ⟨more, same⟩ := front
      rw [List.append_assoc] at same
      have off' : CutOff (wire [] cut') := off
      rw [← same] at off'
      exact absurd off' (not_cutOff frame _)
    | cons frame' frames' =>
      rw [wire_cons] at front
      obtain ⟨rfl, behind⟩ := bytes_prefix front
      exact List.cons_prefix_cons.2 ⟨rfl, ih behind⟩

theorem untilTrailers_prefix (front : frames <+: frames') :
    SplitPrefix (untilTrailers frames) (untilTrailers frames') := by
  induction frames generalizing frames' with
  | nil => exact ⟨List.nil_prefix, fun some => absurd rfl some⟩
  | cons frame frames ih =>
    cases frames' with
    | nil => simp at front
    | cons frame' frames' =>
      obtain ⟨rfl, behind⟩ := List.cons_prefix_cons.1 front
      obtain ⟨payloads, trailers⟩ := ih behind
      rw [untilTrailers, untilTrailers]
      split
      · exact ⟨List.prefix_refl _, fun _ => rfl⟩
      · refine ⟨List.cons_prefix_cons.2 ⟨rfl, payloads⟩, ?_⟩
        intro some
        rw [trailers some]

/-- More bytes add to the split, and take nothing from it. -/
theorem decodeGrpcFrames_prefix {front : List UInt8} (h : front <+: data) :
    SplitPrefix (decodeGrpcFrames front) (decodeGrpcFrames data) := by
  obtain ⟨frames, cut, off, rfl⟩ := exists_wire front
  obtain ⟨frames', cut', off', rfl⟩ := exists_wire data
  rw [decodeGrpcFrames_wire off, decodeGrpcFrames_wire off']
  exact untilTrailers_prefix (prefix_of_wire off' h)

/-- The frames before the trailers, and the trailers. -/
theorem untilTrailers_eq (frames : List WireFrame) (cut : List UInt8) :
    (frames.takeWhile (·.flag ≠ trailersFrameFlag)).map WireFrame.payload = (untilTrailers frames).1 ∧
      wire (frames.takeWhile (·.flag ≠ trailersFrameFlag)) [] ++ trailersFrame (untilTrailers frames).2 <+:
        wire frames cut := by
  induction frames with
  | nil => exact ⟨rfl, List.nil_prefix⟩
  | cons frame frames ih =>
    rw [untilTrailers, wire_cons]
    split
    · rename_i flag
      rw [List.takeWhile_cons_of_neg (by simpa using flag)]
      refine ⟨rfl, wire frames cut, ?_⟩
      rw [trailersFrame, WireFrame.bytes, flag]
      rfl
    · rename_i other
      rw [List.takeWhile_cons_of_pos (by simpa using other), wire_cons, List.append_assoc]
      refine ⟨?_, (List.prefix_append_right_inj _).2 ih.2⟩
      rw [List.map_cons, ih.1]

/-- The frames that are returned are those before the trailers. -/
theorem returned_iff (off : CutOff cut) :
    Returned (wire frames cut) frames' ↔
      frames' = frames.takeWhile (·.flag ≠ trailersFrameFlag) := by
  obtain ⟨payloads, front⟩ := untilTrailers_eq frames cut
  constructor
  · intro returned
    have payloads' := returned.payloads
    rw [decodeGrpcFrames_wire off, ← payloads] at payloads'
    have front := returned.front
    rw [wire, List.append_nil, ← wire] at front
    have inside : frames' <+: frames := prefix_of_wire off front
    have same : frames'.length = (frames.takeWhile (·.flag ≠ trailersFrameFlag)).length := by
      simpa using congrArg List.length payloads'
    exact (List.prefix_of_prefix_length_le inside (List.takeWhile_prefix _) same.le).eq_of_length same
  · rintro rfl
    constructor
    · rw [decodeGrpcFrames_wire off, payloads]
    · rwa [decodeGrpcFrames_wire off]

theorem splitsExactly_iff_uncompressed (data : List UInt8) :
    SplitsExactly data ↔ Uncompressed data := by
  constructor
  · intro exact frames cut off same
    exact exact.plain _ (same ▸ (returned_iff off).2 rfl)
  · intro uncompressed
    obtain ⟨frames, cut, off, same⟩ := exists_wire data
    refine ⟨⟨_, same ▸ (returned_iff off).2 rfl⟩, ?_, fun front h => decodeGrpcFrames_prefix h⟩
    intro frames' returned
    rw [same, returned_iff off] at returned
    rw [returned]
    exact uncompressed frames cut off same

/-! ## What is written -/

theorem exists_wire_encode {messages : List (List UInt8)}
    (fits : ∀ message ∈ messages, message.length < 2 ^ 32) :
    ∃ frames : List WireFrame, messages.flatMap encodeGrpcFrame = wire frames [] ∧
      frames.map WireFrame.payload = messages ∧ ∀ frame ∈ frames, frame.flag = 0 := by
  induction messages with
  | nil => exact ⟨[], rfl, rfl, by simp⟩
  | cons message messages ih =>
    rw [List.forall_mem_cons] at fits
    obtain ⟨frames, written, payloads, plain⟩ := ih fits.2
    refine ⟨⟨0, message, fits.1⟩ :: frames, ?_, ?_, List.forall_mem_cons.2 ⟨rfl, plain⟩⟩
    · rw [List.flatMap_cons, written, wire_cons]
      rfl
    · rw [List.map_cons, payloads]

theorem untilTrailers_plain (data : ∀ frame ∈ frames, frame.flag ≠ trailersFrameFlag) :
    untilTrailers frames = (frames.map WireFrame.payload, none) := by
  induction frames with
  | nil => rfl
  | cons frame frames ih =>
    rw [List.forall_mem_cons] at data
    rw [untilTrailers, if_neg data.1, ih data.2]
    rfl

/-- Messages and trailers that fit into frames come back. -/
theorem decodeGrpcFrames_encode {messages : List (List UInt8)} {trailers : Option (List UInt8)}
    (fits : ∀ message ∈ messages, message.length < 2 ^ 32)
    (fit : ∀ payload, trailers = some payload → payload.length < 2 ^ 32) :
    decodeGrpcFrames (messages.flatMap encodeGrpcFrame ++ trailersFrame trailers) =
      (messages, trailers) := by
  obtain ⟨frames, written, payloads, plain⟩ := exists_wire_encode fits
  have data : ∀ frame ∈ frames, frame.flag ≠ trailersFrameFlag := by
    intro frame mem
    rw [plain frame mem]
    decide
  rw [written]
  cases trailers with
  | none =>
    rw [trailersFrame, List.append_nil, decodeGrpcFrames_wire .nil, untilTrailers_plain data, payloads]
  | some payload =>
    have last : wire frames [] ++ trailersFrame (some payload) =
        wire (frames ++ [⟨trailersFrameFlag, payload, fit payload rfl⟩]) [] := by
      simp [wire, trailersFrame, WireFrame.bytes]
    rw [last, decodeGrpcFrames_wire .nil, untilTrailers_append data rfl, payloads]

/-- **The splitter is exact where no frame before the trailers is compressed.** -/
theorem splitsExactly_iff (data : List UInt8) :
    (∀ (messages : List (List UInt8)) (trailers : Option (List UInt8)),
      (∀ message ∈ messages, message.length < 2 ^ 32) →
      (∀ payload, trailers = some payload → payload.length < 2 ^ 32) →
      decodeGrpcFrames (messages.flatMap encodeGrpcFrame ++ trailersFrame trailers) =
        (messages, trailers)) ∧
      (SplitsExactly data ↔ Uncompressed data) :=
  ⟨fun _ _ fits fit => decodeGrpcFrames_encode fits fit, splitsExactly_iff_uncompressed data⟩

/-- A compressed frame without a message is returned as data. -/
theorem not_splitsExactly_compressed : ¬ ∀ data, SplitsExactly data := by
  intro exact
  have compressed := (exact [1, 0, 0, 0, 0]).plain [⟨1, [], nothing_fits⟩]
    ⟨by decide, by decide⟩ _ List.mem_cons_self
  exact compressed (show (1 : UInt8) ≠ 0 by decide)

end Typeway.Grpc
