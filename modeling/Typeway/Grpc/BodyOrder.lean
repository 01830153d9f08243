import Typeway.Base.Polling
import Typeway.Grpc.Delivery

/-!
# The order of the frames

The bodies of `trailer_body.rs` and `grpc_stream.rs` as machines that are polled while the senders
go on sending: data frames in the order in which the items were sent, then the status as trailers,
then the end.
-/

namespace Typeway.Grpc

open Typeway.Core Polling

/-! ## The bodies, polled -/

section

variable (H : HeaderParse)

/-- `GrpcBody` has its data and reads no channel. -/
def GrpcBody.machine (body : GrpcBody) : Machine Empty Frame where
  State := GrpcBody
  start := body
  poll c body :=
    let (frame, body) := body.pollFrame
    (.ready frame, c, body)
  isEndStream body := body.data.isNone && body.trailers.isNone

/-- `GrpcStreamBody`; the state is its `done`. -/
def GrpcStreamBody.machine (status : GrpcStatus) : Machine (List UInt8) Frame where
  State := Bool
  start := false
  poll c done :=
    if done then (.ready none, c, done)
    else
      match c.pollRecv with
      | (.ready (some data), c) => (.ready (some (.data data)), c, done)
      | (.ready none, c) => (.ready (some (.trailers (statusToTrailers H status))), c, true)
      | (.pending, c) => (.pending, c, done)
      | (.panicked, c) => (.panicked, c, done)
  isEndStream done := done

variable {T : Type} (toVec : T → List UInt8) (exhausted : Polled Frame)

/-- The response of a `GrpcStream`. The state is the `done` of its `StreamState`, which
`futures::stream::unfold` does not have any more once it has returned `None`: a poll is then
`exhausted`. A body made of a stream never says that it is at its end. -/
def GrpcStream.machine : Machine (Except GrpcStatus T) Frame where
  State := Option Bool
  start := some false
  poll c
    | none => (exhausted, c, none)
    | some true => (.ready none, c, none)
    | some false =>
      match c.pollRecv with
      | (.ready (some (.ok item)), c) =>
        (.ready (some (.data (encodeGrpcFrame (toVec item)))), c, some false)
      | (.ready (some (.error status)), c) =>
        (.ready (some (.trailers (buildTrailers H status))), c, some true)
      | (.ready none, c) => (.ready (some (.trailers (buildTrailers H ⟨.ok, []⟩))), c, some true)
      | (.pending, c) => (.pending, c, some false)
      | (.panicked, c) => (.panicked, c, some false)
  isEndStream _ := false

/-! ## What is to come -/

/-- The data, unless there is none, and the trailers. -/
def GrpcBody.script (body : GrpcBody) : Script Empty Frame where
  frames _ _ :=
    (body.data.filter fun data => !data.isEmpty).toList.map Frame.data ++
      body.trailers.toList.map Frame.trailers
  finished _ _ := True

/-- The messages, and the status when the channel is closed. -/
def GrpcStreamBody.script (status : GrpcStatus) : Script (List UInt8) Frame where
  frames sent closed :=
    sent.map Frame.data ++ if closed then [.trailers (statusToTrailers H status)] else []
  finished _ closed := closed = true

def isError : Except GrpcStatus T → Bool
  | .ok _ => false
  | .error _ => true

/-- The items up to the first error, and its status, or `OK` when the channel is closed without
one. -/
def GrpcStream.script : Script (Except GrpcStatus T) Frame where
  frames sent closed :=
    (StreamState.items sent).map (fun item => .data (encodeGrpcFrame (toVec item))) ++
      if sent.any isError ∨ closed = true then
        [.trailers (buildTrailers H (StreamState.finalStatus sent))]
      else []
  finished sent closed := sent.any isError = true ∨ closed = true

end

/-! ## Unary bodies -/

section

variable (H : HeaderParse)

/-- What is left of a body, which is nothing at its end. -/
def GrpcBody.Left (body : GrpcBody) : Invariant body.machine :=
  fun _ left sent yielded ended =>
    yielded ++ left.script.frames [] true = body.script.frames sent true ∧
      (ended = true → left = ⟨none, none⟩)

theorem GrpcBody.keeps (body : GrpcBody) : Keeps body.script True body.Left where
  start := ⟨rfl, nofun⟩
  send a := a.elim
  close kept := kept
  poll := by
    intro c left sent yielded ended kept _
    obtain ⟨all, last⟩ := kept
    obtain ⟨data, trailers⟩ := left
    have running : data ≠ none ∨ trailers ≠ none → ended = false := by
      intro some
      cases ended with
      | false => rfl
      | true =>
        obtain ⟨rfl, rfl⟩ := GrpcBody.mk.inj (last rfl)
        simp at some
    cases full : data.filter fun data => !data.isEmpty with
    | some bytes =>
      have polled : body.machine.poll c ⟨data, trailers⟩ =
          (.ready (some (.data bytes)), c, ⟨none, trailers⟩) := by
        simp [machine, pollFrame, full]
      have opened := running (.inl (by rintro rfl; simp at full))
      rw [polled]
      refine .frame ⟨?_, ?_⟩ rfl opened
      · rw [← all]
        simp [script, full]
      · rw [opened]
        exact nofun
    | none =>
      cases trailers with
      | some trailers =>
        have polled : body.machine.poll c ⟨data, some trailers⟩ =
            (.ready (some (.trailers trailers)), c, ⟨none, none⟩) := by
          simp [machine, pollFrame, full]
        rw [polled]
        refine .frame ⟨?_, fun _ => rfl⟩ rfl (running (.inr (by simp)))
        rw [← all]
        simp [script, full]
      | none =>
        have polled : body.machine.poll c ⟨data, none⟩ = (.ready none, c, ⟨none, none⟩) := by
          simp [machine, pollFrame, full]
        rw [polled]
        refine .finish ⟨?_, fun _ => rfl⟩ rfl
        rw [← all]
        simp [script, full]
  front kept := ⟨_, kept.1⟩
  last := by
    intro c left sent yielded ended kept last
    obtain ⟨all, empty⟩ := kept
    have none : left = ⟨none, none⟩ := by
      obtain last | last := last
      · exact empty last
      · obtain ⟨data, trailers⟩ := left
        simp_all [machine]
    refine ⟨?_, trivial⟩
    rw [none] at all
    rw [← List.append_nil yielded]
    exact all

/-! ## Streaming bodies -/

/-- The items that were read are those in front of the queue. While the body is not done, it has
yielded a frame for each. -/
def GrpcStreamBody.Left (status : GrpcStatus) : Invariant (machine H status) :=
  fun c (done : Bool) sent yielded ended =>
    if done = true then yielded = (script H status).frames sent c.closed ∧ c.closed = true
    else ended = false ∧ ∃ read, sent = read ++ c.queue ∧ yielded = read.map Frame.data

theorem GrpcStreamBody.keeps (status : GrpcStatus) : Keeps (script H status) True (Left H status) where
  start := ⟨rfl, [], rfl, rfl⟩
  send := by
    intro c done sent yielded ended data kept opened
    cases done with
    | true =>
      have closed := kept.2
      rw [opened] at closed
      cases closed
    | false =>
      obtain ⟨running, read, rfl, rfl⟩ := kept
      exact ⟨running, read, by simp, rfl⟩
  close := by
    intro c done sent yielded ended kept
    cases done with
    | true =>
      obtain ⟨all, closed⟩ := kept
      rw [closed] at all
      exact ⟨all, rfl⟩
    | false => exact kept
  poll := by
    intro c done sent yielded ended kept _
    obtain ⟨queue, closed⟩ := c
    cases done with
    | true => exact .finish kept rfl
    | false =>
      obtain ⟨running, read, rfl, rfl⟩ := kept
      cases queue with
      | cons data queue =>
        refine .frame ⟨running, read ++ [data], ?_, ?_⟩ rfl running
        · simp
        · simp
      | nil =>
        cases closed with
        | true =>
          refine .frame ⟨?_, rfl⟩ rfl running
          simp [script]
        | false =>
          refine .pending ⟨running, read, rfl, rfl⟩ rfl ?_ ?_
          · simp [script]
          · simp [script]
  front := by
    intro c done sent yielded ended kept
    cases done with
    | true => exact kept.1 ▸ List.prefix_refl _
    | false =>
      obtain ⟨running, read, rfl, rfl⟩ := kept
      simp only [script, List.map_append, List.append_assoc]
      exact List.prefix_append _ _
  last := by
    intro c done sent yielded ended kept last
    cases done with
    | true => exact kept
    | false =>
      obtain ⟨running, -⟩ := kept
      obtain last | last := last
      · rw [running] at last
        cases last
      · cases last

/-! ## Streams of a handler -/

variable {T : Type} (toVec : T → List UInt8) (exhausted : Polled Frame)

theorem items_append_of_error {sent : List (Except GrpcStatus T)} (error : sent.any isError = true)
    (rest : List (Except GrpcStatus T)) :
    StreamState.items (sent ++ rest) = StreamState.items sent ∧
      StreamState.finalStatus (sent ++ rest) = StreamState.finalStatus sent := by
  induction sent with
  | nil => cases error
  | cons first sent ih =>
    cases first with
    | ok item =>
      obtain ⟨items, status⟩ := ih (by simpa [isError] using error)
      exact ⟨congrArg (item :: ·) items, status⟩
    | error status => exact ⟨rfl, rfl⟩

theorem items_map_ok (read : List T) (rest : List (Except GrpcStatus T)) :
    StreamState.items (read.map Except.ok ++ rest) = read ++ StreamState.items rest ∧
      StreamState.finalStatus (read.map Except.ok ++ rest) = StreamState.finalStatus rest ∧
      (read.map Except.ok ++ rest).any isError = rest.any isError := by
  induction read with
  | nil => exact ⟨rfl, rfl, rfl⟩
  | cons item read ih =>
    obtain ⟨items, status, error⟩ := ih
    refine ⟨congrArg (item :: ·) items, status, ?_⟩
    rw [List.map_cons, List.cons_append, List.any_cons, error]
    rfl

/-- Behind an error nothing changes what is to come. -/
theorem GrpcStream.frames_append {sent : List (Except GrpcStatus T)}
    (error : sent.any isError = true) (rest : List (Except GrpcStatus T)) (closed closed' : Bool) :
    (script H toVec).frames (sent ++ rest) closed' = (script H toVec).frames sent closed := by
  obtain ⟨items, status⟩ := items_append_of_error error rest
  have still : (sent ++ rest).any isError = true := by rw [List.any_append, error, Bool.true_or]
  simp only [script, items, status, error, still, true_or, ↓reduceIte]

/-- A closed channel is as finished as one with an error. -/
theorem GrpcStream.frames_close {sent : List (Except GrpcStatus T)} {closed : Bool}
    (finished : (script H toVec).finished sent closed) :
    (script H toVec).frames sent true = (script H toVec).frames sent closed := by
  have here : sent.any isError = true ∨ closed = true := finished
  simp only [script, or_true, ↓reduceIte]
  rw [if_pos here]

/-- While the stream is not done, the items that were read are no errors and have a frame each. -/
def GrpcStream.Left : Invariant (machine H toVec exhausted) :=
  fun c (state : Option Bool) sent yielded ended =>
    if state = some false then
      ended = false ∧ ∃ read : List T, sent = read.map Except.ok ++ c.queue ∧
        yielded = read.map fun item => .data (encodeGrpcFrame (toVec item))
    else
      ended = state.isNone ∧ yielded = (script H toVec).frames sent c.closed ∧
        (script H toVec).finished sent c.closed

theorem GrpcStream.keeps :
    Keeps (script H toVec) (exhausted = .ready none) (Left H toVec exhausted) where
  start := ⟨rfl, [], rfl, rfl⟩
  send := by
    intro c state sent yielded ended item kept opened
    have gone (finished : (script H toVec).finished sent c.closed) :
        (script H toVec).frames (sent ++ [item]) c.closed = (script H toVec).frames sent c.closed ∧
          (script H toVec).finished (sent ++ [item]) c.closed := by
      have error : sent.any isError = true := by
        obtain error | closed := finished
        · exact error
        · rw [opened] at closed
          cases closed
      exact ⟨frames_append H toVec error _ _ _, .inl (by rw [List.any_append, error, Bool.true_or])⟩
    cases state with
    | none =>
      obtain ⟨last, all, finished⟩ := kept
      exact ⟨last, all.trans (gone finished).1.symm, (gone finished).2⟩
    | some done =>
      cases done with
      | true =>
        obtain ⟨last, all, finished⟩ := kept
        exact ⟨last, all.trans (gone finished).1.symm, (gone finished).2⟩
      | false =>
        obtain ⟨running, read, rfl, rfl⟩ := kept
        exact ⟨running, read, by simp, rfl⟩
  close := by
    intro c state sent yielded ended kept
    cases state with
    | none =>
      obtain ⟨last, all, finished⟩ := kept
      exact ⟨last, all.trans (frames_close H toVec finished).symm, .inr rfl⟩
    | some done =>
      cases done with
      | true =>
        obtain ⟨last, all, finished⟩ := kept
        exact ⟨last, all.trans (frames_close H toVec finished).symm, .inr rfl⟩
      | false => exact kept
  poll := by
    intro c state sent yielded ended kept allowed
    obtain ⟨queue, closed⟩ := c
    cases state with
    | none =>
      obtain ⟨last, all, finished⟩ := kept
      have again : (machine H toVec exhausted).poll ⟨queue, closed⟩ none =
          (.ready none, ⟨queue, closed⟩, none) := by
        rw [← allowed last]
        rfl
      rw [again]
      exact .finish ⟨rfl, all, finished⟩ rfl
    | some done =>
      cases done with
      | true =>
        obtain ⟨last, all, finished⟩ := kept
        exact .finish ⟨rfl, all, finished⟩ rfl
      | false =>
        obtain ⟨running, read, rfl, rfl⟩ := kept
        obtain ⟨items, status, error⟩ := items_map_ok read queue
        cases queue with
        | cons first queue =>
          cases first with
          | ok item =>
            refine .frame ⟨running, read ++ [item], ?_, ?_⟩ rfl running
            · simp
            · simp
          | error last =>
            refine .frame ⟨running, ?_, .inl error⟩ rfl running
            simp only [script, items, status, error]
            simp [StreamState.items, StreamState.finalStatus, isError]
        | nil =>
          cases closed with
          | true =>
            refine .frame ⟨running, ?_, .inr rfl⟩ rfl running
            simp only [script, items, status]
            simp [StreamState.items, StreamState.finalStatus]
          | false =>
            refine .pending ⟨running, read, rfl, rfl⟩ rfl ?_ ?_
            · simp only [script, items, error]
              simp [StreamState.items]
            · simp only [script, error]
              simp
  front := by
    intro c state sent yielded ended kept
    cases state with
    | none => exact kept.2.1 ▸ List.prefix_refl _
    | some done =>
      cases done with
      | true => exact kept.2.1 ▸ List.prefix_refl _
      | false =>
        obtain ⟨running, read, rfl, rfl⟩ := kept
        obtain ⟨items, -, -⟩ := items_map_ok read c.queue
        simp only [script, items, List.map_append, List.append_assoc]
        exact List.prefix_append _ _
  last := by
    intro c state sent yielded ended kept last
    cases state with
    | none => exact kept.2
    | some done =>
      cases done with
      | true => exact kept.2
      | false =>
        obtain ⟨running, -⟩ := kept
        obtain last | last := last
        · rw [running] at last
          cases last
        · cases last

/-- Where `unfold` panics, so does the poll behind the end. -/
theorem GrpcStream.inOrder_iff (events : List (Event (Except GrpcStatus T))) :
    ((World.start (machine H toVec .panicked)).run events).InOrder (script H toVec) ↔
      (World.start (machine H toVec .panicked)).Polite events := by
  have kept := keeps H toVec .panicked
  constructor
  · intro order
    obtain polite | ⟨front, back, rfl, polite, last⟩ := World.polite_or _ events
    · exact polite
    · obtain ⟨ended, holds⟩ := (World.start_holds kept).run kept (.inr polite)
      have gone := holds.ended_iff.2 last
      generalize before : (World.start (machine H toVec .panicked)).run front = w at holds
      have panicked : .panicked ∈ (w.step .poll).results := by
        obtain ⟨c, state, sent, results⟩ := w
        have inv := holds.inv
        cases state with
        | none => exact List.mem_append_right _ List.mem_cons_self
        | some done =>
          cases done with
          | true =>
            have running := inv.1
            rw [gone] at running
            cases running
          | false =>
            have running := inv.1
            rw [gone] at running
            cases running
      have cut : (World.start (machine H toVec .panicked)).run (front ++ .poll :: back) =
          (w.step .poll).run back := by
        rw [World.run_append, before]
        rfl
      rw [cut] at order
      exact absurd (((w.step .poll).results_run back).subset panicked) order.sound
  · intro polite
    exact World.run_inOrder kept (.inr polite)

/-! ## All bodies -/

/-- **Every body yields its frames in order, whatever the interleaving.** A `GrpcStream` does as long
as it is not polled behind its end. -/
theorem bodies_inOrder :
    (∀ (body : GrpcBody) (events : List (Event Empty)),
      ((World.start body.machine).run events).InOrder body.script) ∧
    (∀ (status : GrpcStatus) (events : List (Event (List UInt8))),
      ((World.start (GrpcStreamBody.machine H status)).run events).InOrder
        (GrpcStreamBody.script H status)) ∧
    (∀ (exhausted : Polled Frame) (events : List (Event (Except GrpcStatus T))),
      (World.start (GrpcStream.machine H toVec exhausted)).Polite events →
        ((World.start (GrpcStream.machine H toVec exhausted)).run events).InOrder
          (GrpcStream.script H toVec)) ∧
    (∀ events : List (Event (Except GrpcStatus T)),
      ((World.start (GrpcStream.machine H toVec .panicked)).run events).InOrder
          (GrpcStream.script H toVec) →
        (World.start (GrpcStream.machine H toVec .panicked)).Polite events) ∧
    ∀ status : GrpcStatus, DeliveredAs status (statusToTrailers H status) ∧
      readStatus (buildTrailers H status) = status.code.asI32 ∧
      (status.message = [] ∨ Raw H status.message → DeliveredAs status (buildTrailers H status)) := by
  refine ⟨?_, ?_, ?_, ?_, ?_⟩
  · intro body events
    exact World.run_inOrder body.keeps (.inl trivial)
  · intro status events
    exact World.run_inOrder (GrpcStreamBody.keeps H status) (.inl trivial)
  · intro exhausted events polite
    exact World.run_inOrder (GrpcStream.keeps H toVec exhausted) (.inr polite)
  · intro events order
    exact (GrpcStream.inOrder_iff H toVec events).1 order
  · intro status
    exact ⟨deliveredAs_statusToTrailers, readStatus_cons status.code, deliveredAs_raw_iff.2⟩

/-- Three polls of a stream that is closed: trailers, the end, and behind the end. -/
theorem not_inOrder_polledAgain :
    ¬ ∀ events : List (Event (Except GrpcStatus Unit)),
      ((World.start (GrpcStream.machine .opaqueOctets (fun _ => []) .panicked)).run events).InOrder
        (GrpcStream.script .opaqueOctets fun _ => []) := by
  intro order
  have sound := (order [.close, .poll, .poll, .poll]).sound
  exact sound (List.mem_append_right _ List.mem_cons_self)

end

end Typeway.Grpc
