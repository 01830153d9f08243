import Typeway.Client.Outcome

/-!
# Reading a `ClientStream`

A `ClientStream` holds every message of the response and the number of those that `recv` has
handed out. `recv` and `collect` read the same messages, and only the first of them looks at the
number.
-/

namespace Typeway.Client

open Typeway.Core Grpc

/-- `ClientStream` over the decoded messages `V`. -/
structure ClientStream (V : Type) where
  frames : List V
  index : Nat
  deriving DecidableEq

namespace ClientStream

variable {V : Type}

/-- `recv`, which never fails. -/
def recv (stream : ClientStream V) : Option V × ClientStream V :=
  match stream.frames[stream.index]? with
  | some val => (some val, { stream with index := stream.index + 1 })
  | none => (none, stream)

/-- `collect`, which takes the stream. -/
def collect (stream : ClientStream V) : List V :=
  stream.frames

/-- So many calls of `recv`, with all that they return. -/
def receive : Nat → ClientStream V → List (Option V) × ClientStream V
  | 0, stream => ([], stream)
  | k + 1, stream =>
    let (val, stream) := stream.recv
    let (vals, stream) := receive k stream
    (val :: vals, stream)

/-- What has not been handed out. -/
def remaining (stream : ClientStream V) : List V :=
  stream.frames.drop stream.index

theorem recv_of_cons {stream : ClientStream V} {val : V} {rest : List V}
    (ahead : stream.remaining = val :: rest) :
    ∃ stream', stream.recv = (some val, stream') ∧ stream'.frames = stream.frames ∧
      stream'.remaining = rest := by
  have here : stream.frames[stream.index]? = some val := by
    rw [← List.head?_drop, ← remaining, ahead]
    rfl
  refine ⟨{ stream with index := stream.index + 1 }, ?_, rfl, ?_⟩
  · rw [recv, here]
  · rw [remaining, ← List.tail_drop, ← remaining, ahead]
    rfl

theorem recv_of_nil {stream : ClientStream V} (empty : stream.remaining = []) :
    stream.recv = (none, stream) := by
  have here : stream.frames[stream.index]? = none := by
    rw [← List.head?_drop, ← remaining, empty]
    rfl
  rw [recv, here]

/-- The calls return what is remaining, one by one, and then nothing. -/
theorem receive_eq (k : Nat) (stream : ClientStream V) :
    (receive k stream).1 = (stream.remaining.take k).map some ++
        List.replicate (k - stream.remaining.length) none ∧
      (receive k stream).2.frames = stream.frames := by
  induction k generalizing stream with
  | zero => simp [receive]
  | succ k ih =>
    cases ahead : stream.remaining with
    | nil =>
      obtain ⟨rest, frames⟩ := ih stream
      rw [receive, recv_of_nil ahead]
      dsimp only
      rw [rest, frames, ahead]
      simp [List.replicate_succ]
    | cons val rest =>
      obtain ⟨stream', received, frames, remaining'⟩ := recv_of_cons ahead
      obtain ⟨more, frames'⟩ := ih stream'
      rw [receive, received]
      dsimp only
      rw [more, frames', frames, remaining']
      simp

/-- After so many calls of `recv`, each message was returned once: those in front one by one, and
those behind them by `collect`. -/
structure ConsumedOnce (messages : List V) (k : Nat) (stream : ClientStream V) : Prop where
  received : (receive k stream).1 =
    (messages.take k).map some ++ List.replicate (k - messages.length) none
  collected : (receive k stream).2.collect = messages.drop k

/-- The messages that were received are collected as well. -/
theorem consumedOnce_iff (messages : List V) (k : Nat) :
    ConsumedOnce messages k ⟨messages, 0⟩ ↔ k = 0 ∨ messages = [] := by
  obtain ⟨received, frames⟩ := receive_eq k (⟨messages, 0⟩ : ClientStream V)
  have whole : messages.drop k = messages ↔ k = 0 ∨ messages = [] := by
    constructor
    · intro same
      have length := congrArg List.length same
      rw [List.length_drop] at length
      by_cases none : messages = []
      · exact .inr none
      · have some := List.length_pos_iff.2 none
        exact .inl (by omega)
    · rintro (rfl | rfl)
      · exact List.drop_zero
      · exact List.drop_nil
  rw [← whole]
  constructor
  · intro once
    rw [← once.collected, collect, frames]
  · intro same
    refine ⟨received, ?_⟩
    rw [collect, frames, same]

end ClientStream

/-- The `ClientStream` that `call_server_stream` returns. -/
def GrpcClient.openStream {D V : Type} (client : GrpcClient D V) :
    Except (GrpcClientError D) (ClientStream V) := do
  let items ← client.callServerStream
  pure { frames := items, index := 0 }

theorem openStream_eq_ok {D V : Type} {client : GrpcClient D V} {stream : ClientStream V} :
    client.openStream = .ok stream ↔
      client.callServerStream = .ok stream.frames ∧ stream.index = 0 := by
  rw [GrpcClient.openStream]
  cases client.callServerStream with
  | error e => exact iff_of_false nofun fun h => nomatch h.1
  | ok items =>
    constructor
    · rintro ⟨⟩
      exact ⟨rfl, rfl⟩
    · obtain ⟨frames, index⟩ := stream
      rintro ⟨⟨⟩, rfl : index = 0⟩
      rfl

/-- When the codec reads the frames before the trailers frame, the call opens a stream of their
messages. Reading it by `recv` and then by `collect` returns each of them once if and only if
nothing was received before, or there was nothing to receive. -/
theorem stream_consumedOnce_iff {D V : Type} {client : GrpcClient D V} {response : HttpResponse}
    {messages : List V} (last : client.lastResponse = some response) (accepts : Accepts response)
    (decoded : (untilTrailers response.frames).1.mapM client.decode = .ok messages) :
    ∃ stream, client.openStream = .ok stream ∧
      ∀ k, stream.ConsumedOnce messages k ↔ k = 0 ∨ messages = [] := by
  refine ⟨⟨messages, 0⟩, openStream_eq_ok.2 ⟨?_, rfl⟩, ClientStream.consumedOnce_iff messages⟩
  exact callServerStream_eq_ok.2 ⟨response, last, accepts, decoded⟩

/-- A response of one empty message. -/
def oneMessage : HttpResponse where
  status := 200
  headers := []
  frames := [emptyFrame]
  cut := []
  cutOff := .nil
  trailers := none
  broken := false

/-- A client that gets this response to everything, and whose codec reads everything. -/
def oneMessageClient : GrpcClient Unit Unit where
  retry := none
  allowRequest _ := true
  send _ := .ok oneMessage
  parseRichStatus _ := none
  decode _ := .ok ()

theorem stream_consumedOnce_iff_oneMessage :
    ∃ stream, oneMessageClient.openStream = .ok stream ∧
      ∀ k, stream.ConsumedOnce [()] k ↔ k = 0 ∨ [()] = [] :=
  @stream_consumedOnce_iff _ _ _ oneMessage _ rfl ⟨rfl, rfl⟩ rfl

/-- The one message is received, and collected again. -/
theorem message_twice :
    ¬ ∀ (client : GrpcClient Unit Unit) (messages : List Unit) (stream : ClientStream Unit),
      client.callServerStream = .ok messages → client.openStream = .ok stream →
        ∀ k, stream.ConsumedOnce messages k := by
  intro all
  have once := all oneMessageClient [()] ⟨[()], 0⟩ rfl rfl 1
  exact absurd once.collected (by decide)

end Typeway.Client
