import Mathlib.Data.List.Basic
import Mathlib.Data.List.Infix
import Typeway.Base.Segments

/-!
# Lines of a text

`str::lines`, `join("\n")` and decimal numbers on texts that are lists of characters.
-/

namespace Lines

def decimal (n : Nat) : List Char :=
  Nat.toDigits 10 n

theorem decimal_injective {m n : Nat} (h : decimal m = decimal n) : m = n :=
  calc
    m = Nat.ofDigitChars 10 (decimal m) 0 := Nat.ofDigitChars_ten_toDigits.symm
    _ = Nat.ofDigitChars 10 (decimal n) 0 := by rw [h]
    _ = n := Nat.ofDigitChars_ten_toDigits

/-- `lines.join("\n")`. -/
def unlines (lines : List (List Char)) : List Char :=
  List.intercalate ['\n'] lines

def stripCr (line : List Char) : List Char :=
  if line.getLast? = some '\r' then line.dropLast else line

/-- The pieces between the line feeds as lines. Only a line that a line feed ends loses its
carriage return, and nothing behind the last line feed is no line. -/
def ofPieces : List (List Char) → List (List Char)
  | [] => []
  | [last] => if last.isEmpty then [] else [last]
  | line :: rest => stripCr line :: ofPieces rest

/-- `text.lines()`. -/
def lines (text : List Char) : List (List Char) :=
  ofPieces (text.splitOn '\n')

/-! ## Lines of joined lines -/

theorem unlines_singleton (l : List Char) : unlines [l] = l :=
  List.intercalate_singleton

theorem unlines_cons (l : List Char) {ls : List (List Char)} (some : ls ≠ []) :
    unlines (l :: ls) = l ++ '\n' :: unlines ls := by
  rw [unlines, List.intercalate_cons_of_ne_nil some, List.append_assoc]
  rfl

theorem unlines_append {ls ls' : List (List Char)} (some : ls ≠ []) (some' : ls' ≠ []) :
    unlines (ls ++ ls') = unlines ls ++ '\n' :: unlines ls' := by
  induction ls with
  | nil => exact absurd rfl some
  | cons l ls ih =>
    cases ls with
    | nil => rw [List.singleton_append, unlines_cons l some', unlines_singleton]
    | cons m ls =>
      rw [List.cons_append, unlines_cons l (by simp), ih (List.cons_ne_nil m ls),
        unlines_cons l (List.cons_ne_nil m ls), List.append_assoc, List.cons_append]

/-- Lines that are texts of several lines themselves. -/
theorem unlines_flatMap {α : Type} {f : α → List (List Char)} {items : List α}
    (some : ∀ a ∈ items, f a ≠ []) :
    unlines (items.map fun a => unlines (f a)) = unlines (items.flatMap f) := by
  induction items with
  | nil => rfl
  | cons a items ih =>
    have here := some a List.mem_cons_self
    have later := fun a mem => some a (List.mem_cons_of_mem _ mem)
    cases items with
    | nil => simp [unlines]
    | cons b items =>
      have more : (b :: items).flatMap f ≠ [] := by
        rw [List.flatMap_cons]
        exact fun h => later b List.mem_cons_self (List.append_eq_nil_iff.1 h).1
      rw [List.flatMap_cons, unlines_append here more, ← ih later, List.map_cons,
        ← List.singleton_append, unlines_append (List.cons_ne_nil _ _) (by simp)]
      simp [unlines]

theorem ofPieces_append (ls : List (List Char)) (last : List Char) :
    ofPieces (ls ++ [last]) = ls.map stripCr ++ if last.isEmpty then [] else [last] := by
  induction ls with
  | nil => rfl
  | cons l ls ih =>
    have more : ∃ m ms, ls ++ [last] = m :: ms := by
      cases ls with
      | nil => exact ⟨_, _, rfl⟩
      | cons m ms => exact ⟨_, _, rfl⟩
    obtain ⟨m, ms, cut⟩ := more
    rw [List.cons_append, cut, ofPieces, ← cut, ih]
    · rfl
    · exact List.cons_ne_nil m ms

/-- The lines of a text that ends with `last`. -/
theorem lines_unlines {ls : List (List Char)} {last : List Char}
    (whole : ∀ l ∈ ls ++ [last], '\n' ∉ l) :
    lines (unlines (ls ++ [last])) = ls.map stripCr ++ if last.isEmpty then [] else [last] := by
  rw [lines, unlines, List.splitOn_intercalate _ whole (by simp), ofPieces_append]

/-! ## What is in a line -/

theorem notMem_decimal {c : Char} (other : c.isDigit = false) (n : Nat) : c ∉ decimal n := by
  intro mem
  have digit := Nat.isDigit_of_mem_toDigits (by decide) (by decide) mem
  rw [other] at digit
  cases digit

theorem stripCr_of_notMem {line : List Char} (clean : '\r' ∉ line) : stripCr line = line := by
  rw [stripCr, if_neg]
  exact fun last => clean (List.mem_of_getLast? last)

theorem stripCr_prefix (line : List Char) : stripCr line <+: line := by
  rw [stripCr]
  split
  · exact List.dropLast_prefix line
  · exact List.prefix_refl line

theorem mem_ofPieces {pieces : List (List Char)} {line : List Char} (mem : line ∈ ofPieces pieces) :
    ∃ piece ∈ pieces, line <+: piece := by
  fun_induction ofPieces pieces with
  | case1 => cases mem
  | case2 last =>
    cases mem
  | case3 last some =>
    rw [List.mem_singleton] at mem
    exact ⟨last, List.mem_singleton_self _, mem ▸ List.prefix_refl _⟩
  | case4 piece rest some ih =>
    rcases List.mem_cons.1 mem with rfl | mem
    · exact ⟨piece, List.mem_cons_self, stripCr_prefix piece⟩
    · obtain ⟨piece', here, front⟩ := ih mem
      exact ⟨piece', List.mem_cons_of_mem _ here, front⟩

theorem notMem_of_mem_lines {text line : List Char} (mem : line ∈ lines text) : '\n' ∉ line := by
  obtain ⟨piece, here, front⟩ := mem_ofPieces mem
  exact fun feed => Segments.notMem_of_mem_splitOn here (front.subset feed)

theorem lines_ne_nil {text : List Char} (some : text ≠ []) : lines text ≠ [] := by
  have joined : ['\n'].intercalate (text.splitOn '\n') = text := List.intercalate_splitOn '\n'
  rw [lines]
  cases pieces : text.splitOn '\n' with
  | nil => exact absurd pieces (List.splitOn_ne_nil _ _)
  | cons piece rest =>
    cases rest with
    | nil =>
      rw [pieces, List.intercalate_singleton] at joined
      rw [ofPieces, if_neg (by simpa [joined] using some)]
      exact List.cons_ne_nil _ _
    | cons next rest => exact List.cons_ne_nil _ _

end Lines
