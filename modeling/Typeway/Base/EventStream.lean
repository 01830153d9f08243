import Mathlib.Algebra.BigOperators.Group.List.Basic
import Mathlib.Algebra.GroupWithZero.Nat
import Mathlib.Data.List.Basic
import Mathlib.Data.List.DropRight

/-!
# Event streams

The algorithm by which a client of server-sent events reads a stream: the lines of the text are
processed one at a time, fields are collected in buffers, and an empty line dispatches what the
buffers hold.
-/

namespace EventStream

/-! ## Lines -/

/-- The text behind a carriage return, or not behind one. -/
def unifyFrom : Bool → List Char → List Char
  | _, [] => []
  | behind, c :: rest =>
    if c = '\r' then '\n' :: unifyFrom true rest
    else if c = '\n' ∧ behind = true then unifyFrom false rest
    else c :: unifyFrom false rest

/-- Every line ending as a line feed. -/
def normalise (text : List Char) : List Char :=
  unifyFrom false text

/-- The text without a byte order mark before it. -/
def withoutMark (text : List Char) : List Char :=
  if text.head? = some '\uFEFF' then text.tail else text

/-- The lines that are complete. -/
def lines (text : List Char) : List (List Char) :=
  ((normalise (withoutMark text)).splitOn '\n').dropLast

/-! ## Fields -/

structure Buffers where
  data : List Char := []
  eventType : List Char := []
  lastEventId : List Char := []
  reconnectionTime : Option Nat := none
  deriving DecidableEq

/-- What is dispatched, and the reconnection time that is known at that moment. -/
structure Message where
  type : List Char
  data : List Char
  lastEventId : List Char
  reconnectionTime : Option Nat
  deriving DecidableEq

/-- The name of a field and its value, without the space behind the colon. -/
def field (line : List Char) : List Char × List Char :=
  let value := (line.dropWhile (· ≠ ':')).tail
  (line.takeWhile (· ≠ ':'), if value.head? = some ' ' then value.tail else value)

def Buffers.processField (s : Buffers) (name value : List Char) : Buffers :=
  if name = "event".toList then { s with eventType := value }
  else if name = "data".toList then { s with data := s.data ++ value ++ ['\n'] }
  else if name = "id".toList then
    if '\x00' ∈ value then s else { s with lastEventId := value }
  else if name = "retry".toList then
    if value ≠ [] ∧ value.all Char.isDigit then
      { s with reconnectionTime := some (Nat.ofDigitChars 10 value 0) }
    else s
  else s

def Buffers.dispatch (s : Buffers) : Option Message × Buffers :=
  (if s.data = [] then none
    else some
      { type := if s.eventType = [] then "message".toList else s.eventType
        data := if s.data.getLast? = some '\n' then s.data.dropLast else s.data
        lastEventId := s.lastEventId
        reconnectionTime := s.reconnectionTime },
    { s with data := [], eventType := [] })

/-- A line that begins with a colon is a comment. -/
def Buffers.processLine (s : Buffers) (line : List Char) : Option Message × Buffers :=
  if line = [] then s.dispatch
  else if line.head? = some ':' then (none, s)
  else (none, s.processField (field line).1 (field line).2)

/-- The messages that the lines dispatch, and what the buffers hold in the end. -/
def Buffers.run : Buffers → List (List Char) → List Message × Buffers
  | s, [] => ([], s)
  | s, line :: rest =>
    let (message, s') := s.processLine line
    let (messages, final) := s'.run rest
    (message.toList ++ messages, final)

def parse (text : List Char) : List Message :=
  (Buffers.run {} (lines text)).1

/-! ## Texts of whole lines -/

/-- The line, ended. -/
def ended (line : List Char) : List Char :=
  line ++ ['\n']

variable {line text rest : List Char} {ls : List (List Char)}

theorem normalise_of_notMem (clean : '\r' ∉ text) : normalise text = text := by
  rw [normalise]
  induction text with
  | nil => rfl
  | cons c text ih =>
    rw [List.mem_cons, not_or] at clean
    rw [unifyFrom, if_neg (Ne.symm clean.1), if_neg (by simp), ih clean.2]

/-- What comes behind a line feed is read on its own. -/
theorem unifyFrom_ended (behind : Bool) (text rest : List Char) :
    unifyFrom behind (ended text ++ rest) = unifyFrom behind (ended text) ++ normalise rest := by
  induction text generalizing behind with
  | nil => cases behind <;> simp [ended, unifyFrom, normalise]
  | cons c text ih =>
    have more : ended (c :: text) = c :: ended text := rfl
    rw [more, List.cons_append, unifyFrom, unifyFrom, ih, ih]
    split
    · rfl
    · split <;> rfl

theorem splitOn_ended (clean : '\n' ∉ line) (rest : List Char) :
    (ended line ++ rest).splitOn '\n' = line :: rest.splitOn '\n' := by
  rw [ended, List.append_assoc, List.singleton_append,
    List.splitOn_append_cons_self_of_not_mem clean]

/-- The lines of a text that is made of lines. -/
theorem splitOn_flatMap_ended (clean : ∀ l ∈ ls, '\n' ∉ l) :
    ((ls.flatMap ended).splitOn '\n').dropLast = ls := by
  induction ls with
  | nil => rfl
  | cons l ls ih =>
    rw [List.flatMap_cons, splitOn_ended (clean l List.mem_cons_self),
      List.dropLast_cons_of_ne_nil (List.splitOn_ne_nil _ _),
      ih fun l mem => clean l (List.mem_cons_of_mem _ mem)]

/-! ## Lines of fields -/

/-- A field as it is written. -/
def fieldLine (name value : List Char) : List Char :=
  name ++ ':' :: ' ' :: value

variable {name value : List Char} {s : Buffers}

theorem field_fieldLine (clean : ':' ∉ name) : field (fieldLine name value) = (name, value) := by
  have solid : ∀ c ∈ name, (decide (c ≠ ':')) = true := by
    intro c mem
    rw [decide_eq_true_eq]
    exact fun same => clean (same ▸ mem)
  rw [field, fieldLine, List.takeWhile_append_of_pos solid, List.dropWhile_append_of_pos solid]
  simp

theorem processLine_fieldLine (some : name ≠ []) (clean : ':' ∉ name) :
    s.processLine (fieldLine name value) = (none, s.processField name value) := by
  obtain ⟨c, name, rfl⟩ := List.exists_cons_of_ne_nil some
  have written : fieldLine (c :: name) value ≠ [] := by simp [fieldLine]
  have first : (fieldLine (c :: name) value).head? ≠ Option.some ':' := by
    rw [fieldLine, List.cons_append, List.head?_cons]
    intro same
    exact clean (Option.some.inj same ▸ List.mem_cons_self)
  rw [Buffers.processLine, if_neg written, if_neg first, field_fieldLine clean]

/-! ## Runs -/

namespace Buffers

theorem run_cons (s : Buffers) (line : List Char) (rest : List (List Char)) :
    s.run (line :: rest) =
      ((s.processLine line).1.toList ++ ((s.processLine line).2.run rest).1,
        ((s.processLine line).2.run rest).2) := rfl

theorem run_append (s : Buffers) (front back : List (List Char)) :
    s.run (front ++ back) =
      ((s.run front).1 ++ ((s.run front).2.run back).1, ((s.run front).2.run back).2) := by
  induction front generalizing s with
  | nil => rfl
  | cons line front ih => simp only [List.cons_append, run_cons, ih, List.append_assoc]

/-- A line that dispatches nothing. -/
theorem run_silent {line : List Char} {s' : Buffers} (silent : s.processLine line = (none, s'))
    (rest : List (List Char)) : s.run (line :: rest) = s'.run rest := by
  rw [run_cons, silent]
  rfl

theorem run_fieldLine (some : name ≠ []) (clean : ':' ∉ name) (rest : List (List Char)) :
    s.run (fieldLine name value :: rest) = (s.processField name value).run rest :=
  run_silent (processLine_fieldLine some clean) rest

/-- Lines of data, each of which is a line of the message. -/
theorem run_data (s : Buffers) (values rest : List (List Char)) :
    s.run (values.map (fieldLine "data".toList) ++ rest) =
      ({ s with data := s.data ++ values.flatMap ended } : Buffers).run rest := by
  induction values generalizing s with
  | nil => simp
  | cons value values ih =>
    rw [List.map_cons, List.cons_append, run_fieldLine (by decide) (by decide), ih]
    simp [processField, ended]

theorem run_comments (s : Buffers) (texts rest : List (List Char)) :
    s.run (texts.map (List.cons ':') ++ rest) = s.run rest := by
  induction texts with
  | nil => rfl
  | cons text texts ih =>
    have silent : s.processLine (':' :: text) = (none, s) := by
      rw [processLine, if_neg (List.cons_ne_nil _ _), if_pos List.head?_cons]
    rw [List.map_cons, List.cons_append, run_silent silent, ih]

theorem flatMap_ended_dropLast {values : List (List Char)} (some : values ≠ []) :
    (values.flatMap ended).dropLast = ['\n'].intercalate values := by
  induction values with
  | nil => exact absurd rfl some
  | cons value values ih =>
    cases values with
    | nil => simp [ended]
    | cons next values =>
      have more : (next :: values).flatMap ended ≠ [] := by simp [ended]
      rw [List.flatMap_cons, List.dropLast_append_of_ne_nil more, ih (List.cons_ne_nil _ _),
        List.intercalate_cons_cons, ended, List.append_assoc]

/-- The empty line behind lines of data. -/
theorem dispatch_ended {values : List (List Char)} (some : values ≠ []) :
    ({ s with data := values.flatMap ended } : Buffers).dispatch =
      (Option.some
        { type := if s.eventType = [] then "message".toList else s.eventType
          data := ['\n'].intercalate values
          lastEventId := s.lastEventId
          reconnectionTime := s.reconnectionTime },
        { s with data := [], eventType := [] }) := by
  obtain ⟨front, last, rfl⟩ : ∃ front last, values = front ++ [last] :=
    ⟨_, _, (List.dropLast_concat_getLast some).symm⟩
  have more : (front ++ [last]).flatMap ended ≠ [] := by simp [ended]
  have closed : ((front ++ [last]).flatMap ended).getLast? = Option.some '\n' := by
    rw [List.flatMap_append, List.flatMap_singleton, ended, ← List.append_assoc,
      List.getLast?_concat]
  rw [dispatch, if_neg more, if_pos closed, flatMap_ended_dropLast some]

end Buffers

/-! ## What the lines have room for -/

/-- How many characters a line adds to the data. -/
def contribution (line : List Char) : Nat :=
  if (field line).1 = "data".toList then (field line).2.length + 1 else 0

def weight (ls : List (List Char)) : Nat :=
  (ls.map contribution).sum

/-- The data of messages, as long as it was before the last line feed went. -/
def volume (messages : List Message) : Nat :=
  (messages.map fun message => message.data.length + 1).sum

theorem field_length (line : List Char) :
    (field line).1.length + (field line).2.length ≤ line.length := by
  have cut := congrArg List.length (List.takeWhile_append_dropWhile (p := (· ≠ ':')) (l := line))
  rw [List.length_append] at cut
  rw [field]
  dsimp only
  split
  · rw [List.length_tail, List.length_tail]
    omega
  · rw [List.length_tail]
    omega

theorem contribution_le (line : List Char) : contribution line ≤ line.length := by
  rw [contribution]
  split
  · rename_i data
    have length := field_length line
    rw [data] at length
    change 4 + _ ≤ _ at length
    omega
  · omega

theorem contribution_fieldLine (value : List Char) :
    contribution (fieldLine "data".toList value) = value.length + 1 := by
  rw [contribution, field_fieldLine (by decide), if_pos rfl]

theorem weight_le (ls : List (List Char)) : weight ls ≤ (ls.map List.length).sum := by
  induction ls with
  | nil => exact Nat.le_refl _
  | cons line ls ih =>
    have first := contribution_le line
    rw [weight] at ih ⊢
    rw [List.map_cons, List.map_cons, List.sum_cons, List.sum_cons]
    omega

/-- What is in the data buffer ends with a line feed. -/
def Closed (s : Buffers) : Prop :=
  s.data = [] ∨ s.data.getLast? = some '\n'

theorem processLine_volume {s : Buffers} (closed : Closed s) (line : List Char) :
    volume (s.processLine line).1.toList + (s.processLine line).2.data.length ≤
        s.data.length + contribution line ∧ Closed (s.processLine line).2 := by
  rw [Buffers.processLine]
  split
  · rw [Buffers.dispatch]
    refine ⟨?_, .inl rfl⟩
    split
    · exact Nat.zero_le _
    · rename_i some
      rw [if_pos (closed.resolve_left some)]
      have pos := List.length_pos_of_ne_nil some
      simp only [volume, Option.toList_some, List.map_cons, List.map_nil, List.sum_cons,
        List.sum_nil, List.length_dropLast, List.length_nil]
      omega
  · split
    · exact ⟨by simp [volume], closed⟩
    · rw [Buffers.processField, contribution]
      have apart : "event".toList ≠ "data".toList := by decide
      split
      · rename_i event
        rw [event, if_neg apart]
        exact ⟨by simp [volume], closed⟩
      · split
        · refine ⟨?_, .inr (by simp)⟩
          simp only [volume, Option.toList_none, List.map_nil, List.sum_nil, List.length_append,
            List.length_singleton]
          omega
        · split
          · split
            · exact ⟨by simp [volume], closed⟩
            · exact ⟨by simp [volume], closed⟩
          · split
            · split
              · exact ⟨by simp [volume], closed⟩
              · exact ⟨by simp [volume], closed⟩
            · exact ⟨by simp [volume], closed⟩

/-- No message has data that no line gave it. -/
theorem run_volume {s : Buffers} (closed : Closed s) (ls : List (List Char)) :
    volume (s.run ls).1 + (s.run ls).2.data.length ≤ s.data.length + weight ls := by
  induction ls generalizing s with
  | nil => simp [Buffers.run, volume, weight]
  | cons line ls ih =>
    obtain ⟨step, closed'⟩ := processLine_volume closed line
    have more := ih closed'
    rw [Buffers.run_cons]
    simp only [volume, weight, List.map_append, List.sum_append, List.map_cons, List.sum_cons] at *
    omega

theorem volume_parse (text : List Char) : volume (parse text) ≤ weight (lines text) := by
  have total := run_volume (s := {}) (.inl rfl) (lines text)
  rw [parse]
  simp only [List.length_nil] at total
  omega

/-! ## The line endings of a text -/

/-- A line feed behind a text adds at most the line that it ends. -/
theorem unifyFrom_length_ended (behind : Bool) (text : List Char) :
    (unifyFrom behind (ended text)).length + (unifyFrom behind text).count '\n' ≤
      (unifyFrom behind text).length + (unifyFrom behind (ended text)).count '\n' := by
  induction text generalizing behind with
  | nil => cases behind <;> decide
  | cons c text ih =>
    have more : ended (c :: text) = c :: ended text := rfl
    rw [more, unifyFrom, unifyFrom]
    split
    · have tail := ih true
      simp only [List.length_cons, List.count_cons]
      omega
    · split
      · exact ih false
      · have tail := ih false
        simp only [List.length_cons, List.count_cons]
        omega

theorem mem_normalise_iff (text : List Char) :
    '\n' ∈ normalise text ↔ '\n' ∈ text ∨ '\r' ∈ text := by
  rw [normalise]
  induction text with
  | nil => simp [unifyFrom]
  | cons c text ih =>
    rw [unifyFrom]
    split
    · rename_i here
      simp [here]
    · rename_i other
      rw [if_neg (by simp), List.mem_cons, ih, List.mem_cons, List.mem_cons]
      simp only [Ne.symm other, false_or, or_assoc]

theorem normalise_append {front : List Char} (plain : '\r' ∉ front) (rest : List Char) :
    normalise (front ++ rest) = front ++ normalise rest := by
  rw [normalise]
  induction front with
  | nil => rfl
  | cons c front ih =>
    rw [List.mem_cons, not_or] at plain
    rw [List.cons_append, unifyFrom, if_neg (Ne.symm plain.1), if_neg (by simp), ih plain.2,
      List.cons_append]

theorem splitOn_append {front : List Char} (whole : '\n' ∉ front) (text : List Char) :
    (front ++ text).splitOn '\n' = (text.splitOn '\n').modifyHead (front ++ ·) := by
  induction front with
  | nil =>
    obtain ⟨first, pieces, split⟩ := List.exists_cons_of_ne_nil (List.splitOn_ne_nil '\n' text)
    simp [split]
  | cons c front ih =>
    rw [List.mem_cons, not_or] at whole
    obtain ⟨first, pieces, split⟩ := List.exists_cons_of_ne_nil (List.splitOn_ne_nil '\n' text)
    rw [List.cons_append, List.splitOn_cons_eq_if_modifyHead,
      if_neg (by simpa using Ne.symm whole.1), ih whole.2, split]
    rfl

theorem sum_length_splitOn (text : List Char) :
    ((text.splitOn '\n').map List.length).sum + text.count '\n' = text.length := by
  induction text with
  | nil => simp
  | cons c text ih =>
    obtain ⟨first, pieces, split⟩ := List.exists_cons_of_ne_nil (List.splitOn_ne_nil '\n' text)
    rw [split, List.map_cons, List.sum_cons] at ih
    rw [List.splitOn_cons_eq_if_modifyHead, split, List.count_cons, List.length_cons]
    split
    · simp only [List.map_cons, List.sum_cons, List.length_nil]
      omega
    · simp only [List.modifyHead_cons, List.map_cons, List.sum_cons, List.length_cons]
      omega

/-- Behind the name of the data field, the first line of a text is data as a whole. -/
theorem weight_splitOn_le (text : List Char) :
    weight ((fieldLine "data".toList text).splitOn '\n') + text.count '\n' ≤ text.length + 1 := by
  obtain ⟨first, pieces, split⟩ := List.exists_cons_of_ne_nil (List.splitOn_ne_nil '\n' text)
  have parts := sum_length_splitOn text
  have rest := weight_le pieces
  have written : fieldLine "data".toList text = "data: ".toList ++ text := rfl
  have head : "data: ".toList ++ first = fieldLine "data".toList first := rfl
  rw [split, List.map_cons, List.sum_cons] at parts
  rw [written, splitOn_append (by decide), split, List.modifyHead_cons, head, weight, List.map_cons,
    List.sum_cons, contribution_fieldLine]
  rw [weight] at rest
  omega

end EventStream
