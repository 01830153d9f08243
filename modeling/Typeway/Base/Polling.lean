import Mathlib.Data.List.Basic
import Mathlib.Data.List.Infix

/-!
# Polling a machine that reads a channel

A machine yields frames when it is polled, and may read items from a channel that senders fill and
close meanwhile. A script says which frames are to come of the items sent. A machine is in order if,
whatever the interleaving of sends and polls, its frames are a beginning of the script's, it waits
only where the script does, and its end is the end of the script.
-/

namespace Polling

/-- The items on their way. A channel is closed when no sender is left. -/
structure Channel (A : Type) where
  queue : List A
  closed : Bool

/-- The outcome of a poll. There is no frame at the end. -/
inductive Polled (F : Type) where
  | pending
  | ready (frame : Option F)
  | panicked

variable {A F : Type}

def Polled.frame? : Polled F → Option F
  | ready frame => frame
  | _ => none

def Channel.pollRecv (c : Channel A) : Polled A × Channel A :=
  match c.queue with
  | a :: queue => (.ready (some a), { c with queue })
  | [] => (if c.closed then .ready none else .pending, c)

structure Machine (A F : Type) where
  State : Type
  start : State
  poll : Channel A → State → Polled F × Channel A × State
  isEndStream : State → Bool

inductive Event (A : Type) where
  | send (a : A)
  | close
  | poll

/-- A machine with its channel, and what has happened so far. -/
structure World (M : Machine A F) where
  channel : Channel A
  state : M.State
  sent : List A
  results : List (Polled F)

variable {M : Machine A F}

namespace World

def start (M : Machine A F) : World M where
  channel := ⟨[], false⟩
  state := M.start
  sent := []
  results := []

def after (w : World M) (polled : Polled F × Channel A × M.State) : World M :=
  { w with channel := polled.2.1, state := polled.2.2, results := w.results ++ [polled.1] }

/-- A closed channel takes no items. -/
def step (w : World M) : Event A → World M
  | .send a =>
    if w.channel.closed then w
    else
      { w with
        channel := { w.channel with queue := w.channel.queue ++ [a] }
        sent := w.sent ++ [a] }
  | .close => { w with channel := { w.channel with closed := true } }
  | .poll => w.after (M.poll w.channel w.state)

def run (w : World M) (events : List (Event A)) : World M :=
  events.foldl step w

def yielded (w : World M) : List F :=
  w.results.filterMap Polled.frame?

/-- A poll has found the end. -/
def Ended (w : World M) : Prop :=
  .ready none ∈ w.results

/-- No poll comes after one that found the end. -/
def Polite (w : World M) : List (Event A) → Prop
  | [] => True
  | event :: events => (event = .poll → ¬ w.Ended) ∧ (w.step event).Polite events

end World

/-- The frames that are to come of the items sent, and whether these are all. -/
structure Script (A F : Type) where
  frames : List A → Bool → List F
  finished : List A → Bool → Prop

namespace World

/-- The frames of the script so far. -/
def due (script : Script A F) (w : World M) : List F :=
  script.frames w.sent w.channel.closed

def Finished (script : Script A F) (w : World M) : Prop :=
  script.finished w.sent w.channel.closed

structure InOrder (script : Script A F) (w : World M) : Prop where
  front : w.yielded <+: w.due script
  waiting : ¬ w.Ended → (M.poll w.channel w.state).1 = .pending →
    w.yielded = w.due script ∧ ¬ w.Finished script
  ended : w.Ended → w.yielded = w.due script ∧ w.Finished script
  forever : w.results.Pairwise fun earlier later => earlier = .ready none → later = .ready none
  sound : .panicked ∉ w.results
  endStream : M.isEndStream w.state = true → w.yielded = w.due script ∧ w.Finished script
  complete : w.Finished script →
    (w.run (List.replicate ((w.due script).length - w.yielded.length) .poll)).yielded = w.due script

end World

/-! ## The rule -/

/-- An invariant of a channel, a state, the items sent, the frames yielded, and whether the end has
been found. -/
abbrev Invariant (M : Machine A F) : Type :=
  Channel A → M.State → List A → List F → Bool → Prop

/-- What a poll may make of the invariant. -/
inductive Kept (script : Script A F) (Inv : Invariant M) (sent : List A) (closed : Bool)
    (yielded : List F) (ended : Bool) : Polled F × Channel A × M.State → Prop
  | pending {c : Channel A} {s : M.State} (kept : Inv c s sent yielded ended)
      (same : c.closed = closed) (all : yielded = script.frames sent closed)
      (more : ¬ script.finished sent closed) :
      Kept script Inv sent closed yielded ended (.pending, c, s)
  | frame {c : Channel A} {s : M.State} {frame : F}
      (kept : Inv c s sent (yielded ++ [frame]) ended) (same : c.closed = closed)
      (open_ : ended = false) :
      Kept script Inv sent closed yielded ended (.ready (some frame), c, s)
  | finish {c : Channel A} {s : M.State} (kept : Inv c s sent yielded true)
      (same : c.closed = closed) :
      Kept script Inv sent closed yielded ended (.ready none, c, s)

/-- The invariant holds and is kept. `again` tells whether polls after the end are kept too. -/
structure Keeps (script : Script A F) (again : Prop) (Inv : Invariant M) : Prop where
  start : Inv ⟨[], false⟩ M.start [] [] false
  send {c : Channel A} {s : M.State} {sent : List A} {yielded : List F} {ended : Bool} (a : A)
    (kept : Inv c s sent yielded ended) (opened : c.closed = false) :
    Inv { c with queue := c.queue ++ [a] } s (sent ++ [a]) yielded ended
  close {c : Channel A} {s : M.State} {sent : List A} {yielded : List F} {ended : Bool}
    (kept : Inv c s sent yielded ended) : Inv { c with closed := true } s sent yielded ended
  poll {c : Channel A} {s : M.State} {sent : List A} {yielded : List F} {ended : Bool}
    (kept : Inv c s sent yielded ended) (allowed : ended = true → again) :
    Kept script Inv sent c.closed yielded ended (M.poll c s)
  front {c : Channel A} {s : M.State} {sent : List A} {yielded : List F} {ended : Bool}
    (kept : Inv c s sent yielded ended) : yielded <+: script.frames sent c.closed
  last {c : Channel A} {s : M.State} {sent : List A} {yielded : List F} {ended : Bool}
    (kept : Inv c s sent yielded ended) (last : ended = true ∨ M.isEndStream s = true) :
    yielded = script.frames sent c.closed ∧ script.finished sent c.closed

/-- The invariant of a world. -/
structure World.Holds (Inv : Invariant M) (w : World M) (ended : Bool) : Prop where
  inv : Inv w.channel w.state w.sent w.yielded ended
  ended_iff : ended = true ↔ w.Ended
  forever : w.results.Pairwise fun earlier later => earlier = .ready none → later = .ready none
  sound : .panicked ∉ w.results

section

variable {script : Script A F} {again : Prop} {Inv : Invariant M} {w : World M} {ended : Bool}

theorem World.yielded_after (w : World M) (polled : Polled F × Channel A × M.State) :
    (w.after polled).yielded = w.yielded ++ polled.1.frame?.toList := by
  rw [yielded, after, List.filterMap_append, yielded]
  cases frame : polled.1.frame? <;> simp [frame]

theorem World.Holds.after (holds : w.Holds Inv ended) {result : Polled F} {c : Channel A}
    {s : M.State} {ended' : Bool}
    (inv : Inv c s w.sent (w.yielded ++ result.frame?.toList) ended')
    (ended_iff : ended' = true ↔ ended = true ∨ .ready none = result)
    (quiet : ended = true → result = .ready none) (sound : .panicked ≠ result) :
    (w.after (result, c, s)).Holds Inv ended' := by
  constructor
  · rw [w.yielded_after]
    exact inv
  · rw [ended_iff, holds.ended_iff]
    simp only [Ended, World.after, List.mem_append, List.mem_singleton]
  · rw [World.after, List.pairwise_append]
    refine ⟨holds.forever, List.pairwise_singleton _ _, ?_⟩
    intro earlier mem later mem' same
    rw [same] at mem
    rw [List.mem_singleton.1 mem']
    exact quiet (holds.ended_iff.2 mem)
  · rw [World.after, List.mem_append, List.mem_singleton, not_or]
    exact ⟨holds.sound, sound⟩

/-- After a poll that did not come behind the end, or where polls may. -/
theorem World.Holds.poll (keeps : Keeps script again Inv) (holds : w.Holds Inv ended)
    (allowed : ended = true → again) : ∃ ended', (w.step .poll).Holds Inv ended' := by
  have kept := keeps.poll holds.inv allowed
  rw [step]
  generalize M.poll w.channel w.state = polled at kept
  cases kept with
  | @pending c s kept same all more =>
    refine ⟨ended, holds.after ?_ ?_ ?_ ?_⟩
    · simpa [Polled.frame?] using kept
    · simp
    · intro last
      exact absurd (keeps.last holds.inv (.inl last)).2 more
    · simp
  | @frame c s frame kept same open_ =>
    refine ⟨ended, holds.after ?_ ?_ ?_ ?_⟩
    · simpa [Polled.frame?] using kept
    · simp
    · simp [open_]
    · simp
  | @finish c s kept same =>
    refine ⟨true, holds.after ?_ ?_ ?_ ?_⟩
    · simpa [Polled.frame?] using kept
    · simp
    · exact fun _ => rfl
    · simp

theorem World.Holds.step (keeps : Keeps script again Inv) (holds : w.Holds Inv ended)
    {event : Event A} (allowed : event = .poll → ended = true → again) :
    ∃ ended', (w.step event).Holds Inv ended' := by
  cases event with
  | send a =>
    rw [World.step]
    split
    · exact ⟨ended, holds⟩
    · rename_i opened
      exact ⟨ended, keeps.send a holds.inv (by simpa using opened), holds.ended_iff, holds.forever,
        holds.sound⟩
  | close => exact ⟨ended, keeps.close holds.inv, holds.ended_iff, holds.forever, holds.sound⟩
  | poll => exact holds.poll keeps (allowed rfl)

theorem World.start_holds (keeps : Keeps script again Inv) : (World.start M).Holds Inv false := by
  refine ⟨keeps.start, ?_, List.Pairwise.nil, List.not_mem_nil⟩
  simp [Ended, start]

/-- The invariant is that of a whole run, if no poll comes behind the end or if polls may. -/
theorem World.Holds.run (keeps : Keeps script again Inv) (holds : w.Holds Inv ended)
    {events : List (Event A)} (polite : again ∨ w.Polite events) :
    ∃ ended', (w.run events).Holds Inv ended' := by
  induction events generalizing w ended with
  | nil => exact ⟨ended, holds⟩
  | cons event events ih =>
    have allowed : event = .poll → ended = true → again := by
      intro poll last
      obtain again | polite := polite
      · exact again
      · exact absurd (holds.ended_iff.1 last) (polite.1 poll)
    obtain ⟨ended', next⟩ := holds.step keeps allowed
    obtain ⟨ended'', final⟩ := ih next (polite.imp id And.right)
    exact ⟨ended'', final⟩

theorem World.Holds.front (keeps : Keeps script again Inv) (holds : w.Holds Inv ended) :
    w.yielded <+: w.due script :=
  keeps.front holds.inv

/-- What is due and not there yet comes with as many polls, once the items are complete. -/
theorem World.Holds.complete (keeps : Keeps script again Inv) (holds : w.Holds Inv ended)
    (finished : w.Finished script) {polls : Nat}
    (enough : (w.due script).length = w.yielded.length + polls) :
    (w.run (List.replicate polls .poll)).yielded = w.due script := by
  induction polls generalizing w ended with
  | zero => exact (holds.front keeps).eq_of_length enough.symm
  | succ polls ih =>
    have opened : ended = false := by
      by_contra last
      have all := (keeps.last holds.inv (.inl (by simpa using last))).1
      rw [due, ← all] at enough
      omega
    have kept := keeps.poll holds.inv (by simp [opened])
    have step : ∃ frame c s, M.poll w.channel w.state = (.ready (some frame), c, s) ∧
        c.closed = w.channel.closed := by
      generalize M.poll w.channel w.state = polled at kept
      cases kept with
      | pending kept same all more => exact absurd finished more
      | @frame c s frame kept same open_ => exact ⟨frame, c, s, rfl, same⟩
      | @finish c s kept same =>
        have all := (keeps.last kept (.inl rfl)).1
        rw [same] at all
        rw [due, ← all] at enough
        omega
    obtain ⟨frame, c, s, polled, same⟩ := step
    obtain ⟨ended', next⟩ := holds.poll keeps (by simp [opened])
    have grown : (w.step .poll).yielded = w.yielded ++ [frame] := by
      rw [World.step, w.yielded_after, polled]
      rfl
    have still : (w.step .poll).due script = w.due script := by
      rw [World.step, polled]
      simp only [due, World.after, same]
    rw [List.replicate_succ, World.run, List.foldl_cons, ← World.run, ← still]
    apply ih next
    · rw [World.step, polled]
      simpa only [Finished, World.after, same] using finished
    · rw [still, grown, List.length_append, List.length_singleton]
      omega

theorem World.Holds.inOrder (keeps : Keeps script again Inv) (holds : w.Holds Inv ended) :
    w.InOrder script where
  front := holds.front keeps
  waiting opened pending := by
    have now : ended = false := by
      by_contra last
      exact opened (holds.ended_iff.1 (by simpa using last))
    have kept := keeps.poll holds.inv (by simp [now])
    generalize M.poll w.channel w.state = polled at kept pending
    cases kept with
    | pending kept same all more => exact ⟨all, more⟩
    | frame kept same open_ => cases pending
    | finish kept same => cases pending
  ended last := keeps.last holds.inv (.inl (holds.ended_iff.2 last))
  forever := holds.forever
  sound := holds.sound
  endStream last := keeps.last holds.inv (.inr last)
  complete finished := by
    apply holds.complete keeps finished
    have less := (holds.front keeps).length_le
    omega

/-- **A machine that keeps its invariant is in order after every run.** -/
theorem World.run_inOrder (keeps : Keeps script again Inv) {events : List (Event A)}
    (polite : again ∨ (World.start M).Polite events) :
    ((World.start M).run events).InOrder script := by
  obtain ⟨ended, holds⟩ := (World.start_holds keeps).run keeps polite
  exact holds.inOrder keeps

theorem World.run_append (w : World M) (front back : List (Event A)) :
    w.run (front ++ back) = (w.run front).run back :=
  List.foldl_append

/-- A run that is not polite has a poll behind the end. -/
theorem World.polite_or (w : World M) (events : List (Event A)) :
    w.Polite events ∨
      ∃ front back, events = front ++ .poll :: back ∧ w.Polite front ∧ (w.run front).Ended := by
  induction events generalizing w with
  | nil => exact .inl trivial
  | cons event events ih =>
    by_cases first : event = .poll ∧ w.Ended
    · obtain ⟨rfl, last⟩ := first
      exact .inr ⟨[], events, rfl, trivial, last⟩
    · obtain polite | ⟨front, back, rfl, polite, last⟩ := ih (w.step event)
      · exact .inl ⟨fun poll last => first ⟨poll, last⟩, polite⟩
      · exact .inr ⟨event :: front, back, rfl, ⟨fun poll last => first ⟨poll, last⟩, polite⟩, last⟩

/-- Nothing that was returned is taken back. -/
theorem World.results_run (w : World M) (events : List (Event A)) :
    w.results <+: (w.run events).results := by
  induction events generalizing w with
  | nil => exact List.prefix_refl _
  | cons event events ih =>
    apply List.IsPrefix.trans _ (ih (w.step event))
    cases event with
    | send a =>
      rw [World.step]
      split <;> exact List.prefix_refl _
    | close => exact List.prefix_refl _
    | poll => exact List.prefix_append _ _

end

end Polling
