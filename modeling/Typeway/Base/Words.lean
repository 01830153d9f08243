import Typeway.Base.Text

/-!
# Words and the blanks between them

A text that is laid out in words has any blanks between them, and reading it word by word gives the
words back. Blanks around a text are taken off by trimming.
-/

namespace Text

variable {text rest gap : List Char}

/-- White space only. -/
def Blank (gap : List Char) : Prop :=
  ∀ c ∈ gap, isWhitespace c = true

theorem Blank.nil : Blank [] := List.forall_mem_nil _

theorem Blank.space : Blank [' '] :=
  List.forall_mem_singleton.2 rfl

theorem Blank.of_cons {c : Char} (blank : Blank (c :: gap)) :
    isWhitespace c = true ∧ Blank gap :=
  List.forall_mem_cons.1 blank

/-! ## Blanks around a text -/

@[simp] theorem trim_append_blank (blank : Blank gap) (text : List Char) :
    trim (text ++ gap) = trim text := by
  induction gap generalizing text with
  | nil => rw [List.append_nil]
  | cons c gap ih =>
    rw [List.append_cons, ih blank.of_cons.2, trim_append blank.of_cons.1]

/-- A text with nothing blank at its ends. -/
theorem trim_of_ends (first : ∀ c, text.head? = some c → isWhitespace c = false)
    (last : ∀ c, text.getLast? = some c → isWhitespace c = false) : trim text = text := by
  have start : trimStart text = text := by
    cases text with
    | nil => rfl
    | cons c text => exact trimStart_cons_neg (first c rfl)
  rw [trim, start]
  rcases List.eq_nil_or_concat text with rfl | ⟨front, c, rfl⟩
  · rfl
  · rw [List.concat_eq_append]
    apply trimEnd_append_neg
    apply last
    rw [List.concat_eq_append, List.getLast?_append]
    rfl

theorem Word.of_all (some : text.isEmpty = false)
    (plain : text.all (fun c => !isWhitespace c) = true) : Word text := by
  constructor
  · rintro rfl
    cases some
  · intro c mem
    have solid := List.all_eq_true.1 plain c mem
    rwa [Bool.not_eq_true'] at solid

theorem Word.first (word : Word text) : ∀ c, text.head? = some c → isWhitespace c = false :=
  fun c here => word.2 c (List.mem_of_mem_head? here)

theorem Word.last (word : Word text) : ∀ c, text.getLast? = some c → isWhitespace c = false :=
  fun c here => word.2 c (List.mem_of_getLast? here)

theorem trim_word (word : Word text) : trim text = text :=
  trim_of_ends word.first word.last

/-! ## Words -/

/-- The words in their order, with blanks between them. -/
inductive Spaced : List (List Char) → List Char → Prop where
  | one {w : List Char} (word : Word w) : Spaced [w] w
  | cons {w gap text : List Char} {ws : List (List Char)} (word : Word w) (blank : Blank gap)
      (some : gap ≠ []) (rest : Spaced ws text) : Spaced (w :: ws) (w ++ gap ++ text)

namespace Spaced

variable {ws : List (List Char)}

theorem space {w : List Char} (word : Word w) (rest : Spaced ws text) :
    Spaced (w :: ws) (w ++ ' ' :: text) := by
  have spaced := Spaced.cons word Blank.space (List.cons_ne_nil _ _) rest
  rwa [List.append_assoc] at spaced

theorem ne_nil (spaced : Spaced ws text) : text ≠ [] := by
  cases spaced with
  | one word => exact word.1
  | cons word => simp [word.1]

theorem first (spaced : Spaced ws text) : ∀ c, text.head? = some c → isWhitespace c = false := by
  cases spaced with
  | one word => exact word.first
  | cons word =>
    intro c here
    apply word.first
    rwa [List.append_assoc, List.head?_append_of_ne_nil _ word.1] at here

theorem last (spaced : Spaced ws text) : ∀ c, text.getLast? = some c → isWhitespace c = false := by
  induction spaced with
  | one word => exact word.last
  | cons word blank some rest ih =>
    intro c here
    apply ih
    rwa [List.getLast?_append_of_ne_nil _ rest.ne_nil] at here

theorem trim_eq (spaced : Spaced ws text) : trim text = text :=
  trim_of_ends spaced.first spaced.last

theorem mem (spaced : Spaced ws text) {c : Char} (mem : c ∈ text) :
    isWhitespace c = true ∨ ∃ w ∈ ws, c ∈ w := by
  induction spaced with
  | one word => exact .inr ⟨_, List.mem_cons_self, mem⟩
  | cons word blank some rest ih =>
    rcases List.mem_append.1 mem with front | back
    · rcases List.mem_append.1 front with own | between
      · exact .inr ⟨_, List.mem_cons_self, own⟩
      · exact .inl (blank c between)
    · rcases ih back with space | ⟨w, here, own⟩
      · exact .inl space
      · exact .inr ⟨w, List.mem_cons_of_mem _ here, own⟩

end Spaced

theorem splitWhitespace_blank_append (blank : Blank gap) (text : List Char) :
    splitWhitespace (gap ++ text) = splitWhitespace text := by
  induction gap with
  | nil => rfl
  | cons c gap ih =>
    rw [List.cons_append, splitWhitespace, List.splitOnP_cons_eq_if_modifyHead,
      if_pos blank.of_cons.1, List.filter_cons_of_neg (by simp)]
    exact ih blank.of_cons.2

theorem Spaced.splitWhitespace_eq {ws : List (List Char)} (spaced : Spaced ws text) :
    splitWhitespace text = ws := by
  induction spaced with
  | one word => exact splitWhitespace_word word
  | @cons w gap text ws word blank some rest ih =>
    obtain ⟨c, gap, rfl⟩ := List.exists_cons_of_ne_nil some
    rw [List.append_assoc, List.cons_append, splitWhitespace_cons word blank.of_cons.1,
      splitWhitespace_blank_append blank.of_cons.2, ih]

end Text
