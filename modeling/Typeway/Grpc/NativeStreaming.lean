import Typeway.Base.Mailbox
import Typeway.Grpc.Status

/-!
# Native streams

A handler of a streaming call and the framework exchange messages through a bounded channel: a
`GrpcSender` at one end, a `GrpcReceiver` at the other. A message is an item or the status that
ends the stream. The channel is any that is as its documentation says.
-/

namespace Typeway.Grpc

open Mailbox

variable {T : Type}

/-- What `GrpcSender::send` puts into the channel. -/
def GrpcSender.send (item : T) : Except GrpcStatus T :=
  .ok item

def GrpcSender.sendError (status : GrpcStatus) : Except GrpcStatus T :=
  .error status

/-- `GrpcReceiver::collect`, with the items it has pushed. -/
def GrpcReceiver.collect (T : Type) : Program (Except GrpcStatus T) (Except GrpcStatus (List T)) where
  State := List T
  start := .inl []
  item
    | items, .ok item => .inl (items ++ [item])
    | _, .error status => .inr (.error status)
  ended := .ok

/-- The condition of the loop of `collect_limit`. -/
def GrpcReceiver.upTo (limit : Nat) (items : List T) : List T ⊕ Except GrpcStatus (List T) :=
  if items.length < limit then .inl items else .inr (.ok items)

def GrpcReceiver.collectLimit (T : Type) (limit : Nat) :
    Program (Except GrpcStatus T) (Except GrpcStatus (List T)) where
  State := List T
  start := upTo limit []
  item
    | items, .ok item => upTo limit (items ++ [item])
    | _, .error status => .inr (.error status)
  ended := .ok

/-- The items of a stream, or the first status in it. -/
def itemsOf : List (Except GrpcStatus T) → Except GrpcStatus (List T)
  | [] => .ok []
  | .error status :: _ => .error status
  | .ok item :: messages => (itemsOf messages).map (item :: ·)

theorem collect_from (items : List T) (messages : List (Except GrpcStatus T)) :
    (GrpcReceiver.collect T).outcome (.inl items) messages = (itemsOf messages).map (items ++ ·) := by
  induction messages generalizing items with
  | nil =>
    show Except.ok items = Except.ok (items ++ [])
    rw [List.append_nil]
  | cons message messages ih =>
    cases message with
    | error status =>
      show (GrpcReceiver.collect T).outcome (.inr (.error status)) messages = .error status
      rw [Program.outcome_inr]
    | ok item =>
      show (GrpcReceiver.collect T).outcome (.inl (items ++ [item])) messages = _
      rw [ih, itemsOf]
      cases itemsOf messages with
      | error status => rfl
      | ok rest =>
        show Except.ok (items ++ [item] ++ rest) = Except.ok (items ++ item :: rest)
        rw [List.append_assoc, List.singleton_append]

theorem collectLimit_from (limit : Nat) (items : List T) (messages : List (Except GrpcStatus T)) :
    (GrpcReceiver.collectLimit T limit).outcome (GrpcReceiver.upTo limit items) messages =
      (itemsOf (messages.take (limit - items.length))).map (items ++ ·) := by
  have stop (items : List T) (messages : List (Except GrpcStatus T)) (full : ¬ items.length < limit) :
      (GrpcReceiver.collectLimit T limit).outcome (GrpcReceiver.upTo limit items) messages =
        (itemsOf (messages.take (limit - items.length))).map (items ++ ·) := by
    have none : limit - items.length = 0 := by omega
    rw [GrpcReceiver.upTo, if_neg full, none, List.take_zero]
    refine (Program.outcome_inr _ _ messages).trans ?_
    show Except.ok items = Except.ok (items ++ [])
    rw [List.append_nil]
  induction messages generalizing items with
  | nil =>
    by_cases more : items.length < limit
    · rw [GrpcReceiver.upTo, if_pos more, List.take_nil]
      show Except.ok items = Except.ok (items ++ [])
      rw [List.append_nil]
    · exact stop items [] more
  | cons message messages ih =>
    by_cases more : items.length < limit
    · obtain ⟨n, some⟩ : ∃ n, limit - items.length = n + 1 := ⟨limit - items.length - 1, by omega⟩
      rw [GrpcReceiver.upTo, if_pos more, some, List.take_succ_cons]
      cases message with
      | error status =>
        show (GrpcReceiver.collectLimit T limit).outcome (.inr (.error status)) messages = _
        rw [Program.outcome_inr]
        rfl
      | ok item =>
        show (GrpcReceiver.collectLimit T limit).outcome
          (GrpcReceiver.upTo limit (items ++ [item])) messages = _
        have fewer : limit - (items ++ [item]).length = n := by
          rw [List.length_append, List.length_singleton]
          omega
        rw [ih, fewer, itemsOf]
        cases itemsOf (messages.take n) with
        | error status => rfl
        | ok rest =>
          show Except.ok (items ++ [item] ++ rest) = Except.ok (items ++ item :: rest)
          rw [List.append_assoc, List.singleton_append]
    · exact stop items (message :: messages) more

/-- **What a stream delivers**: whatever is sent through a channel, and in whatever order the two
ends take their turns, `collect` returns the items or the first status among them, `collect_limit`
the same of the first `limit` messages, and neither end waits for ever. -/
theorem collect_exchanged {C : Channel (Except GrpcStatus T)} {buffer : Nat}
    (documented : C.Documented buffer) (room : 0 < buffer) (limit : Nat)
    (messages : List (Except GrpcStatus T)) (turns : List Actor) :
    Exchanged C (GrpcReceiver.collect T) messages turns (itemsOf messages) ∧
      Exchanged C (GrpcReceiver.collectLimit T limit) messages turns
        (itemsOf (messages.take limit)) := by
  have id_map (result : Except GrpcStatus (List T)) : result.map ([] ++ ·) = result := by
    cases result <;> rfl
  constructor
  · have whole := collect_from [] messages
    rw [id_map] at whole
    rw [← whole]
    exact exchanged documented (GrpcReceiver.collect T) room messages turns
  · have first := collectLimit_from limit [] messages
    rw [id_map] at first
    rw [show messages.take limit = messages.take (limit - ([] : List T).length) from rfl, ← first]
    exact exchanged documented (GrpcReceiver.collectLimit T limit) room messages turns

/-- Through a channel with one place, an item and a status behind it. -/
theorem collect_exchanged_oneSlot :
    let C := Channel.fifo (Except GrpcStatus Nat) 1
    let messages := [GrpcSender.send 7, GrpcSender.sendError ⟨.notFound, []⟩]
    let turns := [Actor.receiver, .sender, .sender, .receiver]
    Exchanged C (GrpcReceiver.collect Nat) messages turns (.error ⟨.notFound, []⟩) ∧
      Exchanged C (GrpcReceiver.collectLimit Nat 1) messages turns (.ok [7]) :=
  collect_exchanged (fifo_documented 1) (by decide) 1 _ _

/-- The receiver finds the channel empty and the sender finds it full, once each. -/
example : (World.start (Channel.fifo _ 1) (GrpcReceiver.collectLimit Nat 1)
    [GrpcSender.send 7, GrpcSender.send 8]).moves
      [.receiver, .sender, .sender, .receiver, .sender] = 3 := rfl

end Typeway.Grpc
