import Mathlib.Data.List.DropRight
import Typeway.Base.Lines

/-!
# Trimming and cutting texts

`trim`, `trim_start_matches`, `trim_end_matches` and `split_whitespace` on texts that are lists
of characters.
-/

namespace Text

/-- `char::is_whitespace`. -/
def isWhitespace (c : Char) : Bool :=
  let n := c.toNat
  (9 ≤ n && n ≤ 13) || n == 0x20 || n == 0x85 || n == 0xA0 || n == 0x1680 ||
    (0x2000 ≤ n && n ≤ 0x200A) || n == 0x2028 || n == 0x2029 || n == 0x202F || n == 0x205F ||
    n == 0x3000

def trimStart (text : List Char) : List Char :=
  text.dropWhile isWhitespace

def trimEnd (text : List Char) : List Char :=
  text.rdropWhile isWhitespace

def trim (text : List Char) : List Char :=
  trimEnd (trimStart text)

/-- The loop of `trim_start_matches`, with as many turns as the text is long. -/
def stripLoop {α : Type} [DecidableEq α] (pat : List α) : Nat → List α → List α
  | 0, text => text
  | turns + 1, text =>
    if pat.isPrefixOf text then stripLoop pat turns (text.drop pat.length) else text

/-- `trim_start_matches(pat)`, `pat` being nonempty. -/
def trimStartMatches (pat text : List Char) : List Char :=
  stripLoop pat text.length text

/-- `trim_end_matches(pat)`, `pat` being nonempty. -/
def trimEndMatches (pat text : List Char) : List Char :=
  (stripLoop pat.reverse text.length text.reverse).reverse

/-- `trim_matches(c)`. -/
def trimMatches (c : Char) (text : List Char) : List Char :=
  (text.dropWhile (· = c)).rdropWhile (· = c)

def splitWhitespace (text : List Char) : List (List Char) :=
  (text.splitOnP isWhitespace).filter fun piece => !piece.isEmpty

/-- `split(pat).next()`, `pat` being nonempty. -/
def before (pat : List Char) : List Char → List Char
  | [] => []
  | c :: rest => if pat.isPrefixOf (c :: rest) then [] else c :: before pat rest

/-- The text behind the first place where `find(pat)` finds a nonempty `pat`. -/
def after (pat : List Char) : List Char → Option (List Char)
  | [] => none
  | c :: rest =>
    if pat.isPrefixOf (c :: rest) then some ((c :: rest).drop pat.length) else after pat rest

/-! ## Trimming -/

variable {text rest : List Char} {c : Char}

theorem trim_sublist (text : List Char) : (trim text).Sublist text :=
  (List.rdropWhile_prefix isWhitespace _).sublist.trans (List.dropWhile_sublist isWhitespace)

theorem trimStart_cons_neg (solid : isWhitespace c = false) :
    trimStart (c :: rest) = c :: rest :=
  List.dropWhile_cons_of_neg (by simp [solid])

theorem trimEnd_append_neg (solid : isWhitespace c = false) :
    trimEnd (rest ++ [c]) = rest ++ [c] :=
  List.rdropWhile_concat_neg _ _ _ (by simp [solid])

/-- Space before a text. -/
theorem trim_cons (space : isWhitespace c = true) : trim (c :: text) = trim text := by
  rw [trim, trimStart, List.dropWhile_cons_of_pos space]
  rfl

/-- Space behind a text. -/
theorem trim_append (space : isWhitespace c = true) : trim (text ++ [c]) = trim text := by
  induction text with
  | nil => exact trim_cons space
  | cons d text ih =>
    cases here : isWhitespace d with
    | true => rw [List.cons_append, trim_cons here, trim_cons here, ih]
    | false =>
      rw [trim, trim, List.cons_append, trimStart_cons_neg here, trimStart_cons_neg here,
        ← List.cons_append, trimEnd, List.rdropWhile_concat_pos _ _ _ space]
      rfl

/-- A carriage return at the end of a line makes no difference to its trimmed text. -/
theorem trim_stripCr (line : List Char) : trim (Lines.stripCr line) = trim line := by
  rw [Lines.stripCr]
  split
  · rename_i last
    conv_rhs => rw [← List.dropLast_append_getLast? _ last]
    exact (trim_append (by decide)).symm
  · rfl

/-- A text that begins and ends with something solid. -/
theorem trim_solid {front : List Char} (some : front ≠ [])
    (solid : ∀ d ∈ front, isWhitespace d = false) (last : isWhitespace c = false) :
    trim (front ++ rest ++ [c]) = front ++ rest ++ [c] := by
  obtain ⟨d, front, rfl⟩ := List.exists_cons_of_ne_nil some
  rw [trim, List.cons_append, List.cons_append,
    trimStart_cons_neg (solid d List.mem_cons_self), ← List.cons_append, ← List.cons_append,
    trimEnd_append_neg last]

/-! ## Stripping a pattern -/

theorem trimStartMatches_append {pat : List Char} (some : pat ≠ []) (apart : ¬ pat <+: rest) :
    trimStartMatches pat (pat ++ rest) = rest := by
  obtain ⟨d, pat, rfl⟩ := List.exists_cons_of_ne_nil some
  rw [trimStartMatches, List.length_append, List.length_cons, Nat.add_right_comm, stripLoop,
    if_pos (List.isPrefixOf_iff_prefix.2 (List.prefix_append _ _)), List.drop_left]
  cases turns : pat.length + rest.length with
  | zero => rfl
  | succ n =>
    rw [stripLoop, if_neg]
    rwa [List.isPrefixOf_iff_prefix]

theorem trimEndMatches_append {pat : List Char} (some : pat ≠ []) (apart : ¬ pat <:+ rest) :
    trimEndMatches pat (rest ++ pat) = rest := by
  have back : trimStartMatches pat.reverse (pat.reverse ++ rest.reverse) = rest.reverse :=
    trimStartMatches_append (by simpa using some) (by rwa [List.reverse_prefix])
  rw [trimStartMatches, ← List.reverse_append, List.length_reverse] at back
  rw [trimEndMatches, back, List.reverse_reverse]

/-- The last semicolon, where no other one stands before it. -/
theorem trimEndMatches_char (apart : rest.getLast? ≠ some c) :
    trimEndMatches [c] (rest ++ [c]) = rest := by
  apply trimEndMatches_append (List.cons_ne_nil _ _)
  rintro ⟨front, rfl⟩
  exact apart (by simp)

theorem stripLoop_enough {α : Type} [DecidableEq α] {pat : List α} (solid : pat ≠ []) (turns : Nat) :
    ∀ text : List α, text.length ≤ turns →
      stripLoop pat turns text = stripLoop pat text.length text := by
  have some := List.length_pos_of_ne_nil solid
  induction turns using Nat.strong_induction_on with
  | _ turns ih =>
    intro text enough
    cases turns with
    | zero => rw [Nat.le_zero.1 enough]
    | succ turns =>
      cases text with
      | nil =>
        rw [stripLoop, if_neg]
        · rfl
        · simpa using solid
      | cons c text =>
        rw [List.length_cons] at enough
        rw [List.length_cons, stripLoop, stripLoop]
        split
        · have fewer : ((c :: text).drop pat.length).length ≤ text.length := by
            rw [List.length_drop, List.length_cons]
            omega
          rw [ih turns (Nat.lt_succ_self _) _ (by omega), ih text.length (by omega) _ fewer]
        · rfl

theorem trimStartMatches_twice {pat : List Char} (solid : pat ≠ []) (text : List Char) :
    trimStartMatches pat (pat ++ text) = trimStartMatches pat text := by
  have some := List.length_pos_of_ne_nil solid
  obtain ⟨turns, len⟩ := Nat.exists_eq_add_one_of_ne_zero (Nat.ne_of_gt some)
  have turns' : (pat ++ text).length = turns + text.length + 1 := by
    rw [List.length_append, len]
    omega
  rw [trimStartMatches, turns', stripLoop,
    if_pos (List.isPrefixOf_iff_prefix.2 (List.prefix_append _ _)), List.drop_left,
    stripLoop_enough solid _ _ (Nat.le_add_left _ _)]
  rfl

theorem stripLoop_suffix {α : Type} [DecidableEq α] (pat : List α) (turns : Nat) :
    ∀ text : List α, stripLoop pat turns text <:+ text := by
  induction turns with
  | zero => exact fun text => List.suffix_refl text
  | succ turns ih =>
    intro text
    rw [stripLoop]
    split
    · exact (ih _).trans (List.drop_suffix _ _)
    · exact List.suffix_refl text

/-! ## Cutting -/

theorem before_of_notMem {d : Char} {pat : List Char} (clean : d ∉ text) :
    before (d :: pat) text = text := by
  induction text with
  | nil => rfl
  | cons e text ih =>
    rw [List.mem_cons, not_or] at clean
    rw [before, if_neg, ih clean.2]
    rw [List.isPrefixOf_iff_prefix, List.cons_prefix_cons]
    exact fun h => clean.1 h.1

theorem prefix_word_iff {pat word rest : List Char} (clean : c ∉ pat) :
    pat <+: word ++ c :: rest ↔ pat <+: word := by
  constructor
  · intro here
    rcases List.prefix_or_prefix_of_prefix here (List.prefix_append word (c :: rest)) with h | h
    · exact h
    · obtain ⟨more, rfl⟩ := h
      cases more with
      | nil => simp
      | cons d more =>
        obtain ⟨tail, same⟩ := here
        simp at same
        exact absurd (by simp [same.1]) clean
  · exact fun here => here.trans (List.prefix_append _ _)

/-- A nonempty text without white space. -/
def Word (text : List Char) : Prop :=
  text ≠ [] ∧ ∀ c ∈ text, isWhitespace c = false

theorem splitWhitespace_word (word : Word text) : splitWhitespace text = [text] := by
  rw [splitWhitespace, List.splitOnP_eq_singleton word.2, List.filter_cons_of_pos]
  · rfl
  · simpa using word.1

theorem splitWhitespace_cons (word : Word text) (space : isWhitespace c = true) :
    splitWhitespace (text ++ c :: rest) = text :: splitWhitespace rest := by
  rw [splitWhitespace, List.splitOnP_append_cons_of_forall_mem word.2 c space,
    List.filter_cons_of_pos]
  · rfl
  · simpa using word.1

end Text
