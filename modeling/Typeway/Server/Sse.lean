import Typeway.Base.EventStream
import Typeway.Base.Lines
import Typeway.Core.Path

/-!
# Server-sent events

`sse.rs` and `sse_body` of `body.rs`: events as texts of lines, and what a client makes of a
stream of them.
-/

namespace Typeway.Server

open Typeway.Core EventStream

structure SseEvent where
  id : Option Str := none
  event : Option Str := none
  data : Str := []
  retry : Option UInt64 := none
  comment : Option Str := none

def stripCrLf (s : Str) : Str :=
  s.filter fun c => c ≠ '\n' ∧ c ≠ '\r'

/-- `replace('\r', "")` -/
def stripCr (s : Str) : Str :=
  s.filter (· ≠ '\r')

/-- A field with one line. -/
def scalarField (name : Str) (value : Option Str) : Str :=
  match value with
  | some value => name ++ value ++ ['\n']
  | none => []

def SseEvent.toWire (ev : SseEvent) : Str :=
  match ev.comment with
  | some c => (c.splitOn '\n').flatMap (fun line => ':' :: (stripCr line ++ ['\n'])) ++ ['\n']
  | none =>
    scalarField "id: ".toList (ev.id.map stripCrLf) ++
      scalarField "event: ".toList (ev.event.map stripCrLf) ++
      scalarField "retry: ".toList (ev.retry.map fun ms => Lines.decimal ms.toNat) ++
      (ev.data.splitOn '\n').flatMap (fun line => "data: ".toList ++ stripCr line ++ ['\n']) ++ ['\n']

/-- The body of a `SseResponse`. -/
def sseResponse (stream : List SseEvent) : Str :=
  stream.flatMap SseEvent.toWire

def sseBody (stream : List Str) : Str :=
  stream.flatMap fun event => "data: ".toList ++ event ++ ['\n', '\n']

/-- A client gets the event. An event's own fields are those that are set. -/
structure CarriesEvent (ev : SseEvent) (message : Message) : Prop where
  data : message.data = stripCr ev.data
  type : message.type =
    match ev.event.map stripCrLf with
    | none | some [] => "message".toList
    | some name => name
  id : ∀ id, ev.id = some id → message.lastEventId = stripCrLf id
  retry : ∀ ms, ev.retry = some ms → message.reconnectionTime = some ms.toNat

/-! ## The lines of an event -/

section

variable {ev : SseEvent}

def scalarLine (name : Str) (value : Option Str) : List Str :=
  (value.map (fieldLine name)).toList

def SseEvent.wireLines (ev : SseEvent) : List Str :=
  match ev.comment with
  | some c => ((c.splitOn '\n').map stripCr).map (List.cons ':') ++ [[]]
  | none =>
    scalarLine "id".toList (ev.id.map stripCrLf) ++
      (scalarLine "event".toList (ev.event.map stripCrLf) ++
        (scalarLine "retry".toList (ev.retry.map fun ms => Lines.decimal ms.toNat) ++
          (((ev.data.splitOn '\n').map stripCr).map (fieldLine "data".toList) ++ [[]])))

theorem flatMap_scalarLine (name : Str) (value : Option Str) :
    (scalarLine name value).flatMap ended = scalarField (name ++ [':', ' ']) value := by
  cases value with
  | none => rfl
  | some value => simp [scalarLine, scalarField, fieldLine, ended]

theorem flatMap_wireLines (ev : SseEvent) : ev.wireLines.flatMap ended = ev.toWire := by
  rw [SseEvent.wireLines, SseEvent.toWire]
  split
  · simp [ended, List.flatMap_map]
  · simp only [List.flatMap_append, flatMap_scalarLine, List.flatMap_map, List.flatMap_singleton,
      List.append_assoc]
    rfl

/-- A character that is in no field name, and in no value that was stripped of it. -/
theorem notMem_fieldLine {c : Char} {name value : Str} (clean : c ∉ value)
    (apart : c ∉ name ++ [':', ' ']) : c ∉ fieldLine name value := by
  have same : fieldLine name value = name ++ [':', ' '] ++ value := by simp [fieldLine]
  rw [same, List.mem_append, not_or]
  exact ⟨apart, clean⟩

theorem notMem_stripCrLf (s : Str) : '\n' ∉ stripCrLf s ∧ '\r' ∉ stripCrLf s := by
  simp [stripCrLf]

/-- A line of data has neither a line feed nor a carriage return. -/
theorem notMem_stripCr {c : Char} (ending : c = '\n' ∨ c = '\r') {s line : Str}
    (mem : line ∈ (s.splitOn '\n').map stripCr) : c ∉ line := by
  obtain ⟨piece, found, rfl⟩ := List.mem_map.1 mem
  rw [stripCr, List.mem_filter]
  obtain rfl | rfl := ending
  · exact fun h => Segments.notMem_of_mem_splitOn found h.1
  · simp

theorem mem_scalarLine {name line : Str} {value : Option Str} (mem : line ∈ scalarLine name value) :
    ∃ v, value = some v ∧ line = fieldLine name v := by
  cases value with
  | none => cases mem
  | some v => exact ⟨v, rfl, List.mem_singleton.1 mem⟩

/-- No line of an event ends before its end. -/
theorem notMem_wireLines {c : Char} (ending : c = '\n' ∨ c = '\r') {line : Str}
    (mem : line ∈ ev.wireLines) : c ∉ line := by
  have stripped : ∀ s, c ∉ stripCrLf s := by
    intro s
    obtain rfl | rfl := ending
    · exact (notMem_stripCrLf s).1
    · exact (notMem_stripCrLf s).2
  have number : c.isDigit = false := by
    obtain rfl | rfl := ending <;> decide
  have names : ∀ name ∈ ["id", "event", "retry", "data"], c ∉ name.toList ++ [':', ' '] := by
    obtain rfl | rfl := ending <;> decide
  rw [SseEvent.wireLines] at mem
  split at mem
  · rw [List.mem_append, List.mem_map, List.mem_singleton] at mem
    obtain ⟨text, found, rfl⟩ | rfl := mem
    · rw [List.mem_cons, not_or]
      refine ⟨?_, notMem_stripCr ending found⟩
      obtain rfl | rfl := ending <;> decide
    · exact List.not_mem_nil
  · simp only [List.mem_append, List.mem_map, List.mem_singleton] at mem
    obtain mem | mem | mem | mem | rfl := mem
    · obtain ⟨v, same, rfl⟩ := mem_scalarLine mem
      obtain ⟨id, -, rfl⟩ := Option.map_eq_some_iff.1 same
      exact notMem_fieldLine (stripped id) (names "id" (by simp))
    · obtain ⟨v, same, rfl⟩ := mem_scalarLine mem
      obtain ⟨name, -, rfl⟩ := Option.map_eq_some_iff.1 same
      exact notMem_fieldLine (stripped name) (names "event" (by simp))
    · obtain ⟨v, same, rfl⟩ := mem_scalarLine mem
      obtain ⟨ms, -, rfl⟩ := Option.map_eq_some_iff.1 same
      exact notMem_fieldLine (Lines.notMem_decimal number _) (names "retry" (by simp))
    · obtain ⟨text, found, rfl⟩ := mem
      exact notMem_fieldLine (notMem_stripCr ending (List.mem_map.2 found)) (names "data" (by simp))
    · exact List.not_mem_nil

theorem toWire_cons (ev : SseEvent) :
    ∃ c rest, ev.toWire = c :: rest ∧ c ∈ [':', 'i', 'e', 'r', 'd'] := by
  obtain ⟨id, event, data, retry, comment⟩ := ev
  cases comment with
  | some text =>
    obtain ⟨first, pieces, split⟩ := List.exists_cons_of_ne_nil (List.splitOn_ne_nil '\n' text)
    simp [SseEvent.toWire, split]
  | none =>
    obtain ⟨first, pieces, split⟩ := List.exists_cons_of_ne_nil (List.splitOn_ne_nil '\n' data)
    cases id with
    | some id => simp [SseEvent.toWire, scalarField]
    | none =>
      cases event with
      | some event => simp [SseEvent.toWire, scalarField]
      | none =>
        cases retry with
        | some retry => simp [SseEvent.toWire, scalarField]
        | none => simp [SseEvent.toWire, scalarField, split]

/-- A stream does not begin with a byte order mark. -/
theorem withoutMark_sseResponse (stream : List SseEvent) :
    withoutMark (sseResponse stream) = sseResponse stream := by
  apply if_neg
  cases stream with
  | nil => simp [sseResponse]
  | cons ev stream =>
    obtain ⟨c, rest, same, mem⟩ := toWire_cons ev
    rw [sseResponse, List.flatMap_cons, same, List.cons_append, List.head?_cons]
    intro mark
    obtain rfl := Option.some.inj mark
    revert mem
    decide

theorem lines_sseResponse (stream : List SseEvent) :
    lines (sseResponse stream) = stream.flatMap SseEvent.wireLines := by
  have text : sseResponse stream = (stream.flatMap SseEvent.wireLines).flatMap ended := by
    rw [sseResponse, List.flatMap_assoc]
    simp only [flatMap_wireLines]
  have clean : ∀ c, c = '\n' ∨ c = '\r' → ∀ line ∈ stream.flatMap SseEvent.wireLines, c ∉ line := by
    intro c ending line mem
    obtain ⟨ev, -, found⟩ := List.mem_flatMap.1 mem
    exact notMem_wireLines ending found
  have plain : '\r' ∉ sseResponse stream := by
    rw [text, List.mem_flatMap]
    rintro ⟨line, mem, found⟩
    rw [ended, List.mem_append] at found
    obtain found | found := found
    · exact clean _ (.inr rfl) line mem found
    · simp at found
  rw [lines, withoutMark_sseResponse, normalise_of_notMem plain, text,
    splitOn_flatMap_ended (clean _ (.inl rfl))]

/-! ## What is dispatched -/

theorem intercalate_stripCr (s : Str) :
    ['\n'].intercalate ((s.splitOn '\n').map stripCr) = stripCr s := by
  have filtered (pieces : List Str) :
      stripCr (['\n'].intercalate pieces) = ['\n'].intercalate (pieces.map stripCr) := by
    induction pieces with
    | nil => rfl
    | cons piece pieces ih =>
      cases pieces with
      | nil => simp
      | cons next pieces =>
        rw [List.map_cons, List.map_cons, List.intercalate_cons_cons, List.intercalate_cons_cons,
          ← List.map_cons, ← ih, stripCr, List.filter_append, List.filter_append]
        rfl
  rw [← filtered, List.intercalate_splitOn]

theorem run_scalarLine {s : Buffers} {name : Str} (some : name ≠ []) (clean : ':' ∉ name)
    (value : Option Str) (rest : List Str) :
    s.run (scalarLine name value ++ rest) = (value.elim s (s.processField name)).run rest := by
  cases value with
  | none => rfl
  | some value => exact Buffers.run_fieldLine some clean rest

/-- The buffers between two events. -/
def Idle (s : Buffers) : Prop :=
  s.data = [] ∧ s.eventType = []

theorem run_comment {s : Buffers} (idle : Idle s) {text : Str} (comment : ev.comment = some text)
    (rest : List Str) : s.run (ev.wireLines ++ rest) = s.run rest := by
  have silent : s.processLine [] = (none, s) := by
    obtain ⟨data, eventType, lastEventId, reconnectionTime⟩ := s
    obtain ⟨rfl, rfl⟩ := idle
    rfl
  rw [SseEvent.wireLines, comment]
  dsimp only
  rw [List.append_assoc, Buffers.run_comments, List.singleton_append, Buffers.run_silent silent]

/-- An event dispatches one message, and leaves the buffers for the next event. -/
theorem run_event {s : Buffers} (idle : Idle s) (event : ev.comment = none)
    (clean : ∀ id, ev.id = some id → '\x00' ∉ id) (rest : List Str) :
    ∃ message s', CarriesEvent ev message ∧ Idle s' ∧
      (s.run (ev.wireLines ++ rest)).1 = message :: (s'.run rest).1 := by
  obtain ⟨data, eventType, lastEventId, reconnectionTime⟩ := s
  obtain ⟨rfl, rfl⟩ := idle
  have lines : (ev.data.splitOn '\n').map stripCr ≠ [] := by
    simp
  have identified (s : Buffers) : (ev.id.map stripCrLf).elim s (s.processField "id".toList) =
      { s with lastEventId := (ev.id.map stripCrLf).getD s.lastEventId } := by
    cases same : ev.id with
    | none => rfl
    | some id =>
      have text : '\x00' ∉ stripCrLf id := fun mem => clean id same (List.mem_of_mem_filter mem)
      simp [Buffers.processField, text]
  have named (s : Buffers) : (ev.event.map stripCrLf).elim s (s.processField "event".toList) =
      { s with eventType := (ev.event.map stripCrLf).getD s.eventType } := by
    cases ev.event with
    | none => rfl
    | some name => simp [Buffers.processField]
  have delayed (s : Buffers) :
      (ev.retry.map fun ms => Lines.decimal ms.toNat).elim s (s.processField "retry".toList) =
        { s with reconnectionTime := (ev.retry.map UInt64.toNat).or s.reconnectionTime } := by
    cases ev.retry with
    | none => rfl
    | some ms =>
      have number : (Lines.decimal ms.toNat).all Char.isDigit = true := by
        rw [List.all_eq_true]
        intro c mem
        exact Nat.isDigit_of_mem_toDigits (by decide) (by decide) mem
      have some : Lines.decimal ms.toNat ≠ [] := Nat.toDigits_ne_nil
      have back : Nat.ofDigitChars 10 (Lines.decimal ms.toNat) 0 = ms.toNat :=
        Nat.ofDigitChars_ten_toDigits
      simp [Buffers.processField, number, some, back]
  rw [SseEvent.wireLines, event]
  dsimp only
  simp only [List.append_assoc]
  rw [run_scalarLine (by decide) (by decide), identified, run_scalarLine (by decide) (by decide),
    named, run_scalarLine (by decide) (by decide), delayed, Buffers.run_data, List.singleton_append,
    Buffers.run_cons, Buffers.processLine, if_pos rfl, List.nil_append, Buffers.dispatch_ended lines]
  refine ⟨_, _, ?_, ?_, rfl⟩
  · constructor
    · exact intercalate_stripCr ev.data
    · cases ev.event.map stripCrLf with
      | none => rfl
      | some name => cases name <;> simp
    · intro id same
      simp [same]
    · intro ms same
      simp [same]
  · exact ⟨rfl, rfl⟩

theorem run_events {stream : List SseEvent} {s : Buffers} (idle : Idle s)
    (clean : ∀ ev ∈ stream, ∀ id, ev.id = some id → '\x00' ∉ id) :
    List.Forall₂ CarriesEvent (stream.filter fun ev => ev.comment.isNone)
      (s.run (stream.flatMap SseEvent.wireLines)).1 := by
  induction stream generalizing s with
  | nil => exact .nil
  | cons ev stream ih =>
    have later : ∀ ev ∈ stream, ∀ id, ev.id = some id → '\x00' ∉ id :=
      fun ev mem => clean ev (List.mem_cons_of_mem _ mem)
    rw [List.flatMap_cons]
    cases comment : ev.comment with
    | some text =>
      rw [run_comment idle comment, List.filter_cons_of_neg (by simp [comment])]
      exact ih idle later
    | none =>
      obtain ⟨message, s', carries, idle', same⟩ :=
        run_event idle comment (clean ev List.mem_cons_self) (stream.flatMap SseEvent.wireLines)
      rw [same, List.filter_cons_of_pos (by simp [comment])]
      exact .cons carries (ih idle' later)

/-- **A client gets exactly the events that are no comments, in their order.** -/
theorem carries_sseResponse (stream : List SseEvent)
    (clean : ∀ ev ∈ stream, ∀ id, ev.id = some id → '\x00' ∉ id) :
    List.Forall₂ CarriesEvent (stream.filter fun ev => ev.comment.isNone) (parse (sseResponse stream)) := by
  rw [parse, lines_sseResponse]
  exact run_events ⟨rfl, rfl⟩ clean

/-- An update of two lines, after a comment. -/
def updates : List SseEvent :=
  [{ comment := some "keepalive".toList },
    { id := some "42".toList, event := some "update".toList, data := "one\ntwo".toList }]

theorem carries_updates :
    List.Forall₂ CarriesEvent (updates.filter fun ev => ev.comment.isNone) (parse (sseResponse updates)) :=
  carries_sseResponse updates (by simp [updates])

end

/-! ## Streams of texts -/

/-- The event that a text without line endings is formatted as. -/
theorem sseBody_eq_sseResponse {stream : List Str} (plain : ∀ s ∈ stream, '\n' ∉ s ∧ '\r' ∉ s) :
    sseBody stream = sseResponse (stream.map fun s => { data := s }) := by
  rw [sseBody, sseResponse, List.flatMap_map]
  apply List.flatMap_congr
  intro s mem
  have whole : s.splitOn '\n' = [s] := List.splitOn_eq_singleton (plain s mem).1
  have kept : stripCr s = s := by
    rw [stripCr, List.filter_eq_self]
    intro c found
    rw [decide_eq_true_eq]
    exact fun same => (plain s mem).2 (same ▸ found)
  simp [SseEvent.toWire, scalarField, whole, kept]

theorem map_data_of_carries {stream : List Str} (plain : ∀ s ∈ stream, '\n' ∉ s ∧ '\r' ∉ s)
    {messages : List Message}
    (carried : List.Forall₂ CarriesEvent (stream.map fun s => { data := s }) messages) :
    messages.map Message.data = stream.map normalise := by
  induction stream generalizing messages with
  | nil =>
    cases carried
    rfl
  | cons s stream ih =>
    cases carried with
    | cons first rest =>
      have kept : stripCr s = s := by
        rw [stripCr, List.filter_eq_self]
        intro c found
        rw [decide_eq_true_eq]
        exact fun same => (plain s List.mem_cons_self).2 (same ▸ found)
      rw [List.map_cons, List.map_cons, first.data, kept,
        normalise_of_notMem (plain s List.mem_cons_self).2,
        ih (fun s mem => plain s (List.mem_cons_of_mem _ mem)) rest]

/-- The text of an event, with its line endings unified. -/
theorem normalise_event (event rest : Str) :
    normalise ("data: ".toList ++ event ++ ['\n', '\n'] ++ rest) =
      ended (fieldLine "data".toList (normalise (ended event))) ++ normalise rest := by
  have written : "data: ".toList ++ event ++ ['\n', '\n'] ++ rest =
      "data: ".toList ++ (ended event ++ ('\n' :: rest)) := by
    simp [ended]
  have feed : '\r' ∉ ['\n'] := by decide
  have blank : normalise ('\n' :: rest) = '\n' :: normalise rest := normalise_append feed rest
  have first : normalise (ended event ++ '\n' :: rest) =
      normalise (ended event) ++ normalise ('\n' :: rest) := unifyFrom_ended false event _
  rw [written, normalise_append (by decide), first, blank]
  simp [ended, fieldLine]

/-- How the text of a stream is cut into lines. -/
theorem lines_sseBody (stream : List Str) :
    lines (sseBody stream) =
      stream.flatMap fun s => (fieldLine "data".toList (normalise (ended s))).splitOn '\n' := by
  have unmarked (stream : List Str) : withoutMark (sseBody stream) = sseBody stream := by
    apply if_neg
    cases stream with
    | nil => simp [sseBody]
    | cons s stream => simp [sseBody]
  rw [lines, unmarked]
  induction stream with
  | nil => rfl
  | cons s stream ih =>
    have text : sseBody (s :: stream) =
        "data: ".toList ++ s ++ ['\n', '\n'] ++ sseBody stream := rfl
    rw [text, normalise_event, ended, List.append_assoc, List.singleton_append,
      List.splitOn_append_cons_self, List.dropLast_append_of_ne_nil (List.splitOn_ne_nil _ _),
      ih, List.flatMap_cons]

/-- What the lines of a text have room for. -/
theorem weight_text_le (s : Str) :
    weight ((fieldLine "data".toList (normalise (ended s))).splitOn '\n') +
      (normalise s).count '\n' ≤ (normalise s).length + 1 := by
  have room := weight_splitOn_le (normalise (ended s))
  have ending := unifyFrom_length_ended false s
  rw [← normalise, ← normalise] at ending
  omega

theorem volume_eq {messages : List Message} {texts : List Str}
    (same : messages.map Message.data = texts) :
    volume messages = (texts.map fun text => text.length + 1).sum := by
  rw [volume, ← same, List.map_map]
  rfl

/-- A text with a line ending has room for less than itself. -/
theorem weight_lt {stream : List Str} (broken : ∃ s ∈ stream, '\n' ∈ s ∨ '\r' ∈ s) :
    weight (lines (sseBody stream)) <
      ((stream.map normalise).map fun text => text.length + 1).sum := by
  have bound : ∀ stream : List Str, weight (lines (sseBody stream)) ≤
      ((stream.map normalise).map fun text => text.length + 1).sum := by
    intro stream
    rw [lines_sseBody]
    induction stream with
    | nil => exact Nat.le_refl _
    | cons s stream ih =>
      have here := weight_text_le s
      rw [weight] at here ih ⊢
      simp only [List.flatMap_cons, List.map_append, List.sum_append, List.map_cons, List.sum_cons]
      omega
  obtain ⟨s, mem, ending⟩ := broken
  obtain ⟨front, back, rfl⟩ := List.append_of_mem mem
  have here := weight_text_le s
  have counted : 0 < (normalise s).count '\n' :=
    List.count_pos_iff.2 ((mem_normalise_iff s).2 ending)
  have before := bound front
  have behind := bound back
  rw [lines_sseBody, weight] at before behind ⊢
  rw [weight] at here
  simp only [List.flatMap_append, List.flatMap_cons, List.map_append, List.sum_append,
    List.map_cons, List.sum_cons]
  omega

/-- **The texts arrive as they are exactly when none of them has a line ending.** -/
theorem map_data_iff (stream : List Str) :
    (parse (sseBody stream)).map Message.data = stream.map normalise ↔
      ∀ s ∈ stream, '\n' ∉ s ∧ '\r' ∉ s := by
  constructor
  · intro same s mem
    rw [← not_or]
    intro ending
    have less := weight_lt ⟨s, mem, ending⟩
    have enough := volume_parse (sseBody stream)
    rw [volume_eq same] at enough
    exact absurd less (Nat.not_lt.2 enough)
  · intro plain
    apply map_data_of_carries plain
    have idle : Idle {} := ⟨rfl, rfl⟩
    have clean : ∀ ev ∈ stream.map fun s => ({ data := s } : SseEvent), ∀ id, ev.id = some id →
        '\x00' ∉ id := by simp
    have carried := run_events idle clean
    rw [List.filter_eq_self.2 (by simp)] at carried
    rw [parse, sseBody_eq_sseResponse plain, lines_sseResponse]
    exact carried

/-- The second line of a text is no data. -/
theorem not_map_data_twoLines :
    ¬ ∀ stream : List Str, (parse (sseBody stream)).map Message.data = stream.map normalise := by
  intro kept
  have lost := kept ["one\ntwo".toList]
  revert lost
  decide

end Typeway.Server
