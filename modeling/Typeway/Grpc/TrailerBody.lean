import Typeway.Grpc.Framing
import Typeway.Grpc.Status

/-!
# Response bodies with trailers

`trailer_body.rs` and `grpc_stream.rs`: bodies that yield data frames and then the status as
trailers. A channel is the list of what is sent before it closes; waiting for it takes no step.
-/

namespace Typeway.Grpc

open Typeway.Core

/-- `http_body::Frame` -/
inductive Frame where
  | data (bytes : List UInt8)
  | trailers (trailers : HeaderMap)

/-- The frames a body yields until it ends, polled at most so often. -/
def drain {S : Type} (pollFrame : S → Option Frame × S) : Nat → S → List Frame
  | 0, _ => []
  | polls + 1, body =>
    match pollFrame body with
    | (some frame, body) => frame :: drain pollFrame polls body
    | (none, _) => []

/-- The trailers among the frames. -/
def trailersOf (frames : List Frame) : Option HeaderMap :=
  frames.findSome? fun frame =>
    match frame with
    | .data _ => none
    | .trailers trailers => some trailers

section

variable (H : HeaderParse)

/-- `if let Ok(val) = message.parse() { headers.insert("grpc-message", val) }` -/
def messageHeader (message : Str) : HeaderMap :=
  match H.fromStr message with
  | some value => [(grpcMessageName, value)]
  | none => []

/-- The code is parsed with `expect`, which `fromStr_text` justifies. -/
def statusHeader (code : GrpcCode) : Str × List UInt8 :=
  (grpcStatusName, Utf8.bytes code.text)

theorem fromStr_text (code : GrpcCode) : H.fromStr code.text = some (statusHeader code).2 :=
  H.visible _ (text_visible code)

def statusToTrailers (status : GrpcStatus) : HeaderMap :=
  statusHeader status.code ::
    if status.message.isEmpty then [] else messageHeader H (encodeGrpcMessage status.message)

/-- `build_trailers` of `grpc_stream.rs`, which encodes no message. -/
def buildTrailers (status : GrpcStatus) : HeaderMap :=
  statusHeader status.code ::
    if status.message.isEmpty then [] else messageHeader H status.message

/-! ## Unary bodies -/

structure GrpcBody where
  data : Option (List UInt8)
  trailers : Option HeaderMap

namespace GrpcBody

def ok (data : List UInt8) : GrpcBody where
  data := some data
  trailers := some (statusToTrailers H ⟨.ok, []⟩)

def withStatus (data : List UInt8) (status : GrpcStatus) : GrpcBody where
  data := some data
  trailers := some (statusToTrailers H status)

def error (status : GrpcStatus) : GrpcBody where
  data := none
  trailers := some (statusToTrailers H status)

/-- The data is taken even if it is empty and yields no frame. -/
def pollFrame (body : GrpcBody) : Option Frame × GrpcBody :=
  match body.data.filter fun data => !data.isEmpty with
  | some data => (some (.data data), { body with data := none })
  | none =>
    match body.trailers with
    | some trailers => (some (.trailers trailers), ⟨none, none⟩)
    | none => (none, ⟨none, none⟩)

variable {H}

/-- Three polls are enough. -/
theorem drain_eq (body : GrpcBody) (polls : Nat) :
    drain pollFrame (polls + 3) body =
      (body.data.filter fun data => !data.isEmpty).toList.map Frame.data ++
        body.trailers.toList.map Frame.trailers := by
  obtain ⟨data, trailers⟩ := body
  cases full : data.filter fun data => !data.isEmpty with
  | none => cases trailers <;> simp [drain, pollFrame, full]
  | some bytes => cases trailers <;> simp [drain, pollFrame, full]

end GrpcBody

/-! ## Streaming bodies -/

/-- The receiver holds the framed messages of the channel. -/
structure GrpcStreamBody where
  receiver : List (List UInt8)
  status : GrpcStatus
  done : Bool

namespace GrpcStreamBody

def withStatus (receiver : List (List UInt8)) (status : GrpcStatus) : GrpcStreamBody where
  receiver
  status
  done := false

def new (receiver : List (List UInt8)) : GrpcStreamBody :=
  withStatus receiver ⟨.ok, []⟩

def pollFrame (body : GrpcStreamBody) : Option Frame × GrpcStreamBody :=
  if body.done then (none, body)
  else
    match body.receiver with
    | data :: receiver => (some (.data data), { body with receiver })
    | [] => (some (.trailers (statusToTrailers H body.status)), { body with done := true })

theorem drain_eq (receiver : List (List UInt8)) (status : GrpcStatus) (polls : Nat) :
    drain (pollFrame H) (receiver.length + (polls + 2)) (withStatus receiver status) =
      receiver.map Frame.data ++ [.trailers (statusToTrailers H status)] := by
  induction receiver with
  | nil =>
    rw [List.length_nil, Nat.zero_add]
    rfl
  | cons data receiver ih =>
    rw [List.length_cons, Nat.add_right_comm, drain]
    exact congrArg (Frame.data data :: ·) ih

end GrpcStreamBody

/-! ## Streams of a handler -/

/-- The receiver of a `GrpcStream`, with the items and error statuses sent to it. -/
structure StreamState (T : Type) where
  rx : List (Except GrpcStatus T)
  done : Bool

namespace StreamState

variable {T : Type} (toVec : T → List UInt8)

/-- The stream of `GrpcStream::into_response`. `toVec` is `serde_json::to_vec(_)`, or nothing where
that fails. -/
def pollFrame (state : StreamState T) : Option Frame × StreamState T :=
  if state.done then (none, state)
  else
    match state.rx with
    | .ok item :: rx => (some (.data (encodeGrpcFrame (toVec item))), { state with rx })
    | .error status :: rx => (some (.trailers (buildTrailers H status)), ⟨rx, true⟩)
    | [] => (some (.trailers (buildTrailers H ⟨.ok, []⟩)), { state with done := true })

/-- What is sent before the first error status. -/
def items (rx : List (Except GrpcStatus T)) : List T :=
  match rx with
  | .ok item :: rx => item :: items rx
  | .error _ :: _ => []
  | [] => []

/-- The first error status, or that of a stream that ends. -/
def finalStatus (rx : List (Except GrpcStatus T)) : GrpcStatus :=
  match rx with
  | .ok _ :: rx => finalStatus rx
  | .error status :: _ => status
  | [] => ⟨.ok, []⟩

/-- A stream that its sender ends with an error status. -/
theorem items_append_error (sent : List T) (status : GrpcStatus) :
    items (sent.map Except.ok ++ [.error status]) = sent := by
  induction sent with
  | nil => rfl
  | cons item sent ih => exact congrArg (item :: ·) ih

theorem finalStatus_append_error (sent : List T) (status : GrpcStatus) :
    finalStatus (sent.map Except.ok ++ [.error status]) = status := by
  induction sent with
  | nil => rfl
  | cons item sent ih => exact ih

theorem drain_eq (rx : List (Except GrpcStatus T)) (polls : Nat) :
    drain (pollFrame H toVec) (rx.length + (polls + 2)) ⟨rx, false⟩ =
      (items rx).map (fun item => Frame.data (encodeGrpcFrame (toVec item))) ++
        [.trailers (buildTrailers H (finalStatus rx))] := by
  induction rx with
  | nil =>
    rw [List.length_nil, Nat.zero_add]
    rfl
  | cons sent rx ih =>
    rw [List.length_cons, Nat.add_right_comm, drain]
    cases sent with
    | ok item => exact congrArg (Frame.data (encodeGrpcFrame (toVec item)) :: ·) ih
    | error status => rfl

end StreamState

end

/-- Data frames in front of the trailers. -/
theorem trailersOf_data_append {T : Type} (frame : T → List UInt8) (items : List T)
    (trailers : HeaderMap) :
    trailersOf (items.map (fun item => Frame.data (frame item)) ++ [.trailers trailers]) =
      some trailers := by
  induction items with
  | nil => rfl
  | cons item items ih => exact ih

end Typeway.Grpc
