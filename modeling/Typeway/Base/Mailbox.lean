import Mathlib.Data.List.Basic

/-!
# Bounded channels

One task sends items into a channel of a bounded size and drops its end, and another takes them out
until it has what it wants. They take turns in any order; a task whose turn it is may have to wait.
The channel itself is a parameter: the laws are what its documentation promises.
-/

namespace Mailbox

variable {A O : Type}

/-- Channels of one size with their two ends. An operation that has to wait has no result. -/
structure Channel (A : Type) where
  State : Type
  new : State
  /-- Whether the item is accepted. -/
  send : State → A → Option (Bool × State)
  /-- The next item, or the end. -/
  recv : State → Option (Option A × State)
  dropSender : State → State
  dropReceiver : State → State
  /-- The items that were sent and are not received. -/
  queued : State → List A
  hasSender : State → Bool
  hasReceiver : State → Bool

namespace Channel

variable (C : Channel A)

/-- What can be seen of the channel. -/
structure Shows (c : C.State) (queued : List A) (hasSender hasReceiver : Bool) : Prop where
  queued : C.queued c = queued
  hasSender : C.hasSender c = hasSender
  hasReceiver : C.hasReceiver c = hasReceiver

/-- The documentation of a bounded channel. Up to `buffer` items are stored, and what is sent
becomes available in the same order. A send waits for a place, and fails once the receiver is
gone. The receiver waits for an item, and gets the end when there is none and the sender is gone. -/
structure Documented (buffer : Nat) : Prop where
  new : C.Shows C.new [] true true
  send_room : ∀ {c}, C.hasReceiver c = true → (C.queued c).length < buffer → ∀ a, ∃ c',
    C.send c a = some (true, c') ∧ C.Shows c' (C.queued c ++ [a]) (C.hasSender c) true
  send_full : ∀ {c}, C.hasReceiver c = true → ¬ (C.queued c).length < buffer → ∀ a,
    C.send c a = none
  send_dropped : ∀ {c}, C.hasReceiver c = false → ∀ a, ∃ c',
    C.send c a = some (false, c') ∧ C.hasSender c' = C.hasSender c ∧ C.hasReceiver c' = false
  recv_queued : ∀ {c a rest}, C.queued c = a :: rest → ∃ c',
    C.recv c = some (some a, c') ∧ C.Shows c' rest (C.hasSender c) (C.hasReceiver c)
  recv_empty : ∀ {c}, C.queued c = [] → C.hasSender c = true → C.recv c = none
  recv_ended : ∀ {c}, C.queued c = [] → C.hasSender c = false → ∃ c',
    C.recv c = some (none, c') ∧ C.Shows c' [] false (C.hasReceiver c)
  dropSender : ∀ c, C.Shows (C.dropSender c) (C.queued c) false (C.hasReceiver c)
  dropReceiver : ∀ c, C.hasSender (C.dropReceiver c) = C.hasSender c ∧
    C.hasReceiver (C.dropReceiver c) = false

end Channel

/-- A receiving task: what it does with an item and with the end of the channel, going on or
returning. -/
structure Program (A O : Type) where
  State : Type
  start : State ⊕ O
  item : State → A → State ⊕ O
  ended : State → O

/-- The task on all that is to come. -/
def Program.outcome (P : Program A O) : P.State ⊕ O → List A → O
  | .inr result, _ => result
  | .inl s, [] => P.ended s
  | .inl s, a :: items => P.outcome (P.item s a) items

@[simp] theorem Program.outcome_inr (P : Program A O) (result : O) (items : List A) :
    P.outcome (.inr result) items = result := by
  cases items <;> rfl

structure World (C : Channel A) (P : Program A O) where
  toSend : List A
  /-- The sending task is through. -/
  closed : Bool
  chan : C.State
  receiver : P.State ⊕ O
  /-- Whether the sends so far have succeeded. -/
  sent : List Bool

inductive Actor where
  | sender
  | receiver

namespace World

variable {C : Channel A} {P : Program A O}

/-- The receiving task goes on with its end of the channel, or drops it and returns. -/
def receive (w : World C P) (next : P.State ⊕ O) (chan : C.State) : World C P :=
  match next with
  | .inl s => { w with chan := chan, receiver := .inl s }
  | .inr result => { w with chan := C.dropReceiver chan, receiver := .inr result }

variable (C P) in
def start (items : List A) : World C P :=
  receive ⟨items, false, C.new, P.start, []⟩ P.start C.new

/-- The next step of a task, unless it waits or is through. -/
def step (w : World C P) : Actor → Option (World C P)
  | .sender =>
    match w.toSend with
    | a :: rest => (C.send w.chan a).map fun (accepted, chan) =>
      { w with toSend := rest, chan := chan, sent := w.sent ++ [accepted] }
    | [] => if w.closed then none else some { w with closed := true, chan := C.dropSender w.chan }
  | .receiver =>
    match w.receiver with
    | .inl s => (C.recv w.chan).map fun (message, chan) =>
      match message with
      | some a => w.receive (P.item s a) chan
      | none => w.receive (.inr (P.ended s)) chan
    | .inr _ => none

/-- Turns in some order. -/
def run (w : World C P) (turns : List Actor) : World C P :=
  turns.foldl (fun w turn => (w.step turn).getD w) w

/-- The turns on which something happens. -/
def moves (w : World C P) : List Actor → Nat
  | [] => 0
  | turn :: turns =>
    match w.step turn with
    | some w' => w'.moves turns + 1
    | none => w.moves turns

def Returned (w : World C P) : Prop :=
  ∃ result, w.receiver = .inr result

/-- What holds after any turns. -/
structure Sound (items : List A) (w : World C P) : Prop where
  /-- The receiver is on its way to its outcome. -/
  outcome : P.outcome w.receiver (C.queued w.chan ++ w.toSend) = P.outcome P.start items
  closed : w.closed = true → w.toSend = []
  hasSender : C.hasSender w.chan = !w.closed
  hasReceiver : C.hasReceiver w.chan = w.receiver.isLeft
  counted : w.sent.length + w.toSend.length = items.length
  /-- Sends fail once the receiver has returned. -/
  refused : false ∈ w.sent → w.Returned

/-- What is left to do. -/
def left (w : World C P) : Nat :=
  2 * w.toSend.length + (!w.closed).toNat +
    match w.receiver with
    | .inl _ => (C.queued w.chan).length + 1
    | .inr _ => 0

end World

open World

variable {C : Channel A} {P : Program A O} {buffer : Nat} {items : List A} {w w' : World C P}

section

variable (documented : C.Documented buffer)

include documented

/-- The receiver goes on. -/
theorem World.Sound.receive {s : P.State} {next : P.State ⊕ O} {chan : C.State}
    (sound : w.Sound items) (running : w.receiver = .inl s)
    (hasSender : C.hasSender chan = C.hasSender w.chan) (hasReceiver : C.hasReceiver chan = true)
    (outcome : P.outcome next (C.queued chan ++ w.toSend) = P.outcome P.start items)
    (fewer : (C.queued chan).length < (C.queued w.chan).length + next.isRight.toNat) :
    (w.receive next chan).Sound items ∧ (w.receive next chan).left < w.left := by
  have accepted : false ∉ w.sent := by
    intro mem
    obtain ⟨result, returned⟩ := sound.refused mem
    rw [running] at returned
    cases returned
  cases next with
  | inl s' =>
    refine ⟨⟨outcome, sound.closed, hasSender.trans sound.hasSender, hasReceiver, sound.counted,
      fun mem => absurd mem accepted⟩, ?_⟩
    have less : (C.queued chan).length < (C.queued w.chan).length := fewer
    simp only [World.receive, left, running]
    omega
  | inr result =>
    obtain ⟨kept, dropped⟩ := documented.dropReceiver chan
    rw [Program.outcome_inr] at outcome
    refine ⟨⟨?_, sound.closed, (kept.trans hasSender).trans sound.hasSender, dropped, sound.counted,
      fun _ => ⟨result, rfl⟩⟩, ?_⟩
    · rw [← outcome]
      exact Program.outcome_inr _ _ _
    · simp only [World.receive, left, running]
      omega

theorem sound_start (items : List A) :
    (start C P items).Sound items ∧ (start C P items).left ≤ 2 * items.length + 2 := by
  obtain ⟨queued, hasSender, hasReceiver⟩ := documented.new
  rw [start]
  cases begins : P.start with
  | inl s =>
    refine ⟨⟨?_, (fun shut => nomatch shut), hasSender, hasReceiver, Nat.zero_add _,
      (fun mem => nomatch mem)⟩, ?_⟩
    · rw [begins]
      show P.outcome (.inl s) (C.queued C.new ++ items) = _
      rw [queued, List.nil_append]
    · simp [World.receive, left, queued]
  | inr result =>
    obtain ⟨kept, dropped⟩ := documented.dropReceiver C.new
    refine ⟨⟨?_, (fun shut => nomatch shut), kept.trans hasSender, dropped, Nat.zero_add _,
      (fun mem => nomatch mem)⟩, ?_⟩
    · rw [begins]
      exact (Program.outcome_inr _ _ _).trans (Program.outcome_inr _ _ _).symm
    · simp [World.receive, left]

/-- The sender's turn. -/
theorem World.Sound.step_sender (sound : w.Sound items) (moved : w.step .sender = some w') :
    w'.Sound items ∧ w'.left < w.left := by
  obtain ⟨toSend, closed, chan, receiver, sent⟩ := w
  obtain ⟨outcome, shut, hasSender, hasReceiver, counted, refused⟩ := sound
  dsimp only at outcome shut hasSender hasReceiver counted refused
  cases toSend with
  | nil =>
    cases closed with
    | true => cases moved
    | false =>
      cases moved
      obtain ⟨queued, gone, kept⟩ := documented.dropSender chan
      refine ⟨⟨?_, fun _ => rfl, gone, kept.trans hasReceiver, counted, refused⟩, ?_⟩
      · dsimp only
        rw [queued]
        exact outcome
      · simp [left, queued]
  | cons a rest =>
    have opened : closed = false := by
      cases closed with
      | false => rfl
      | true => cases shut rfl
    rw [List.length_cons] at counted
    have counted' (accepted : Bool) : (sent ++ [accepted]).length + rest.length = items.length := by
      rw [List.length_append, List.length_singleton]
      omega
    rw [World.step] at moved
    dsimp only at moved
    cases receiver with
    | inl s =>
      by_cases room : (C.queued chan).length < buffer
      · obtain ⟨chan', accepted, queued, kept, alive⟩ := documented.send_room hasReceiver room a
        rw [accepted] at moved
        cases moved
        refine ⟨⟨?_, ?_, kept.trans hasSender, alive, counted' true, ?_⟩, ?_⟩
        · rw [← outcome]
          dsimp only
          rw [queued, List.append_assoc, List.singleton_append]
        · rw [opened]
          exact fun shut => nomatch shut
        · intro mem
          rcases List.mem_append.1 mem with mem | mem
          · exact refused mem
          · cases List.mem_singleton.1 mem
        · simp only [left, queued, List.length_append, List.length_cons, List.length_nil]
          omega
      · rw [documented.send_full hasReceiver room a] at moved
        cases moved
    | inr result =>
      obtain ⟨chan', refuses, kept, gone⟩ := documented.send_dropped hasReceiver a
      rw [refuses] at moved
      cases moved
      refine ⟨⟨?_, ?_, kept.trans hasSender, gone, counted' false, fun _ => ⟨result, rfl⟩⟩, ?_⟩
      · rw [← outcome]
        exact (Program.outcome_inr _ _ _).trans (Program.outcome_inr _ _ _).symm
      · rw [opened]
        exact fun shut => nomatch shut
      · simp only [left, List.length_cons]
        omega

/-- The receiver's turn. -/
theorem World.Sound.step_receiver (sound : w.Sound items) (moved : w.step .receiver = some w') :
    w'.Sound items ∧ w'.left < w.left := by
  rw [World.step] at moved
  cases running : w.receiver with
  | inr result =>
    rw [running] at moved
    cases moved
  | inl s =>
    rw [running] at moved
    have alive : C.hasReceiver w.chan = true := by rw [sound.hasReceiver, running]; rfl
    have outcome := sound.outcome
    rw [running] at outcome
    cases there : C.queued w.chan with
    | cons a rest =>
      obtain ⟨chan, taken, queued, hasSender, hasReceiver⟩ := documented.recv_queued there
      rw [taken] at moved
      cases moved
      refine sound.receive documented running hasSender (hasReceiver.trans alive) ?_ ?_
      · rw [queued, ← outcome, there]
        rfl
      · rw [queued, there, List.length_cons]
        omega
    | nil =>
      cases hasSender : C.hasSender w.chan with
      | true =>
        rw [documented.recv_empty there hasSender] at moved
        cases moved
      | false =>
        obtain ⟨chan, taken, queued, gone, hasReceiver⟩ := documented.recv_ended there hasSender
        rw [taken] at moved
        cases moved
        have through : w.toSend = [] := by
          apply sound.closed
          rw [sound.hasSender] at hasSender
          simpa using hasSender
        refine sound.receive documented running (gone.trans hasSender.symm)
          (hasReceiver.trans alive) ?_ ?_
        · rw [Program.outcome_inr, ← outcome, there, through]
          rfl
        · rw [queued, there]
          exact Nat.zero_lt_one

/-- **One turn**: the outcome stays the same, and less is left to do. -/
theorem World.Sound.step (sound : w.Sound items) {turn : Actor} (moved : w.step turn = some w') :
    w'.Sound items ∧ w'.left < w.left := by
  cases turn with
  | sender => exact sound.step_sender documented moved
  | receiver => exact sound.step_receiver documented moved

/-- **Somebody can go on** until the receiver has returned. -/
theorem World.Sound.progress (sound : w.Sound items) (room : 0 < buffer) (running : ¬ w.Returned) :
    ∃ turn, (w.step turn).isSome = true := by
  cases receiver : w.receiver with
  | inr result => exact absurd ⟨result, receiver⟩ running
  | inl s =>
    have alive : C.hasReceiver w.chan = true := by rw [sound.hasReceiver, receiver]; rfl
    have receives {message : Option A} {chan : C.State} (taken : C.recv w.chan = some (message, chan)) :
        ∃ turn, (w.step turn).isSome = true := by
      refine ⟨.receiver, ?_⟩
      rw [World.step, receiver]
      dsimp only
      rw [taken]
      rfl
    cases there : C.queued w.chan with
    | cons a rest =>
      obtain ⟨chan, taken, -⟩ := documented.recv_queued there
      exact receives taken
    | nil =>
      cases toSend : w.toSend with
      | cons a rest =>
        have empty : (C.queued w.chan).length < buffer := by rw [there]; exact room
        obtain ⟨chan, accepted, -⟩ := documented.send_room alive empty a
        refine ⟨.sender, ?_⟩
        rw [World.step, toSend]
        dsimp only
        rw [accepted]
        rfl
      | nil =>
        cases closed : w.closed with
        | true =>
          have gone : C.hasSender w.chan = false := by rw [sound.hasSender, closed]; rfl
          obtain ⟨chan, taken, -⟩ := documented.recv_ended there gone
          exact receives taken
        | false =>
          refine ⟨.sender, ?_⟩
          rw [World.step, toSend, closed]
          rfl

/-- Any turns. -/
theorem World.Sound.run (sound : w.Sound items) (turns : List Actor) :
    (w.run turns).Sound items ∧ w.moves turns + (w.run turns).left ≤ w.left := by
  induction turns generalizing w with
  | nil => exact ⟨sound, Nat.le_of_eq (Nat.zero_add _)⟩
  | cons turn turns ih =>
    rw [World.run, List.foldl_cons, moves]
    cases moved : w.step turn with
    | none => exact ih sound
    | some next =>
      obtain ⟨kept, less⟩ := sound.step documented moved
      obtain ⟨final, bound⟩ := ih kept
      refine ⟨final, ?_⟩
      dsimp only [Option.getD_some]
      rw [World.run] at bound
      omega

/-- Nobody has anything left to do. -/
theorem World.Sound.stuck (sound : w.Sound items) (room : 0 < buffer)
    (still : ∀ turn, w.step turn = none) :
    w.receiver = .inr (P.outcome P.start items) ∧ w.sent.length = items.length := by
  have returned : w.Returned := by
    by_contra running
    obtain ⟨turn, moved⟩ := sound.progress documented room running
    rw [still turn] at moved
    cases moved
  obtain ⟨result, there⟩ := returned
  have outcome := sound.outcome
  rw [there, Program.outcome_inr] at outcome
  refine ⟨by rw [there, outcome], ?_⟩
  have counted := sound.counted
  cases toSend : w.toSend with
  | nil =>
    rw [toSend] at counted
    exact counted
  | cons a rest =>
    have gone : C.hasReceiver w.chan = false := by rw [sound.hasReceiver, there]; rfl
    obtain ⟨chan, refuses, -⟩ := documented.send_dropped gone a
    have sends := still .sender
    rw [World.step, toSend] at sends
    dsimp only at sends
    rw [refuses] at sends
    cases sends

end

/-- What is so of an exchange after some turns, if the receiver is to return `result`. -/
structure Exchanged (C : Channel A) (P : Program A O) (items : List A) (turns : List Actor)
    (result : O) : Prop where
  returned : ∀ got, ((start C P items).run turns).receiver = .inr got → got = result
  /-- The two ends do not wait for each other. -/
  progress : ¬ ((start C P items).run turns).Returned →
    ∃ turn, (((start C P items).run turns).step turn).isSome = true
  stuck : (∀ turn, ((start C P items).run turns).step turn = none) →
    ((start C P items).run turns).receiver = .inr result ∧
      ((start C P items).run turns).sent.length = items.length
  moves : (start C P items).moves turns ≤ 2 * items.length + 2
  refused : false ∈ ((start C P items).run turns).sent →
    ((start C P items).run turns).Returned

/-- **What a receiver returns**, in whatever order the tasks take their turns, is its outcome on
all that is sent. -/
theorem exchanged (documented : C.Documented buffer) (P : Program A O) (room : 0 < buffer)
    (items : List A) (turns : List Actor) :
    Exchanged C P items turns (P.outcome P.start items) := by
  obtain ⟨started, first⟩ := sound_start (P := P) documented items
  obtain ⟨sound, bound⟩ := started.run documented turns
  refine ⟨?_, sound.progress documented room, sound.stuck documented room, by omega, sound.refused⟩
  intro got returned
  have same := sound.outcome
  rw [returned, Program.outcome_inr] at same
  exact same

/-! ## A channel as a list -/

/-- The items on their way, and the ends that are left. -/
structure Fifo (A : Type) where
  queued : List A
  hasSender : Bool
  hasReceiver : Bool

def Channel.fifo (A : Type) (buffer : Nat) : Channel A where
  State := Fifo A
  new := ⟨[], true, true⟩
  send c a :=
    if c.hasReceiver then
      if c.queued.length < buffer then some (true, { c with queued := c.queued ++ [a] }) else none
    else some (false, c)
  recv c :=
    match c.queued with
    | a :: rest => some (some a, { c with queued := rest })
    | [] => if c.hasSender then none else some (none, c)
  dropSender c := { c with hasSender := false }
  dropReceiver c := { c with queued := [], hasReceiver := false }
  queued := Fifo.queued
  hasSender := Fifo.hasSender
  hasReceiver := Fifo.hasReceiver

theorem fifo_documented (buffer : Nat) : (Channel.fifo A buffer).Documented buffer where
  new := ⟨rfl, rfl, rfl⟩
  send_room {c} alive room a :=
    ⟨{ c with queued := c.queued ++ [a] }, (if_pos alive).trans (if_pos room), rfl, rfl, alive⟩
  send_full alive full _ := (if_pos alive).trans (if_neg full)
  send_dropped {c} gone _ := ⟨c, by simp [Channel.fifo, show c.hasReceiver = false from gone], rfl, gone⟩
  recv_queued {c a rest} there := by
    obtain ⟨queued, hasSender, hasReceiver⟩ := c
    cases show queued = a :: rest from there
    exact ⟨_, rfl, rfl, rfl, rfl⟩
  recv_empty {c} none open' := by
    obtain ⟨queued, hasSender, hasReceiver⟩ := c
    cases show queued = [] from none
    cases show hasSender = true from open'
    rfl
  recv_ended {c} none ended := by
    obtain ⟨queued, hasSender, hasReceiver⟩ := c
    cases show queued = [] from none
    cases show hasSender = false from ended
    exact ⟨_, rfl, rfl, rfl, rfl⟩
  dropSender _ := ⟨rfl, rfl, rfl⟩
  dropReceiver _ := ⟨rfl, rfl⟩

end Mailbox
