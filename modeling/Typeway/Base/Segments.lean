import Mathlib.Data.List.Basic

/-!
# Texts cut at a separator

A text is a list of characters, or of anything else. `segments` drops the empty pieces that
`List.splitOn` leaves, as a path parser does that does not care about repeated separators.
Two ways to go behind the first segments, counting separators (`behind`) and counting segments
(`remainder`), meet exactly on the texts that begin with the segments joined.
-/

namespace Segments

variable {α : Type}

/-- Every piece with a separator before it. -/
def joined (sep : α) (pieces : List (List α)) : List α :=
  pieces.flatMap fun piece => sep :: piece

@[simp] theorem joined_nil (sep : α) : joined sep [] = [] := rfl

@[simp] theorem joined_cons (sep : α) (piece : List α) (pieces : List (List α)) :
    joined sep (piece :: pieces) = sep :: piece ++ joined sep pieces := rfl

theorem joined_prefix_cons {sep : α} {piece : List α} {pieces : List (List α)} {rest : List α} :
    joined sep (piece :: pieces) <+: sep :: (piece ++ sep :: rest) ↔
      joined sep pieces <+: sep :: rest := by
  rw [joined_cons, List.cons_append, List.cons_prefix_cons, List.prefix_append_right_inj]
  simp

variable [DecidableEq α]

/-- The nonempty pieces between the separators. -/
def segments (sep : α) (text : List α) : List (List α) :=
  (text.splitOn sep).filter fun piece => !piece.isEmpty

variable {sep : α} {text : List α}

@[simp] theorem segments_nil : segments sep [] = [] := rfl

@[simp] theorem segments_cons_sep (text : List α) :
    segments sep (sep :: text) = segments sep text := by
  have split := List.splitOn_append_cons_self [] text (a := sep)
  rw [List.nil_append, List.splitOn_nil] at split
  rw [segments, split]
  rfl

/-- A text without separators is one segment, if it is not empty. -/
theorem segments_of_notMem {piece : List α} (clean : sep ∉ piece) :
    segments sep piece = if piece.isEmpty then [] else [piece] := by
  rw [segments, List.splitOn_eq_singleton clean]
  cases piece <;> rfl

theorem segments_append_sep (text rest : List α) :
    segments sep (text ++ sep :: rest) = segments sep text ++ segments sep rest := by
  rw [segments, List.splitOn_append_cons_self, List.filter_append]
  rfl

/-- The first segment of a text that starts with one. -/
theorem segments_piece {piece rest : List α} (clean : sep ∉ piece) (some : piece ≠ []) :
    segments sep (piece ++ sep :: rest) = piece :: segments sep rest := by
  have one : segments sep piece = [piece] := by
    rw [segments_of_notMem clean]
    cases piece with
    | nil => exact absurd rfl some
    | cons a l => rfl
  rw [segments_append_sep, one, List.singleton_append]

theorem splitOn_append_joined {pieces : List (List α)} (whole : ∀ piece ∈ pieces, sep ∉ piece)
    {piece : List α} (clean : sep ∉ piece) :
    (piece ++ joined sep pieces).splitOn sep = piece :: pieces := by
  induction pieces generalizing piece with
  | nil => rw [joined_nil, List.append_nil, List.splitOn_eq_singleton clean]
  | cons next pieces ih =>
    rw [joined_cons, List.cons_append, List.splitOn_append_cons_self_of_not_mem clean,
      ih (fun p mem => whole p (List.mem_cons_of_mem _ mem)) (whole next List.mem_cons_self)]

/-- Pieces without separators are read off their joined text. -/
theorem splitOn_joined {pieces : List (List α)} (whole : ∀ piece ∈ pieces, sep ∉ piece) :
    (joined sep pieces).splitOn sep = [] :: pieces :=
  splitOn_append_joined whole List.not_mem_nil

theorem joined_inj {pieces pieces' : List (List α)} (whole : ∀ piece ∈ pieces, sep ∉ piece)
    (whole' : ∀ piece ∈ pieces', sep ∉ piece) (h : joined sep pieces = joined sep pieces') :
    pieces = pieces' := by
  have split := congrArg (List.splitOn sep) h
  rw [splitOn_joined whole, splitOn_joined whole'] at split
  exact List.tail_eq_of_cons_eq split

theorem segments_joined_eq {pieces : List (List α)} (whole : ∀ piece ∈ pieces, sep ∉ piece) :
    segments sep (joined sep pieces) = pieces.filter fun piece => !piece.isEmpty := by
  rw [segments, splitOn_joined whole]
  rfl

/-- No separator is left in a piece. -/
theorem notMem_of_mem_splitOn {piece : List α} (mem : piece ∈ text.splitOn sep) : sep ∉ piece := by
  induction text generalizing piece with
  | nil =>
    rw [List.splitOn_nil, List.mem_singleton] at mem
    simp [mem]
  | cons d text ih =>
    obtain ⟨first, pieces, split⟩ := List.exists_cons_of_ne_nil (List.splitOn_ne_nil sep text)
    rw [List.splitOn_cons_eq_if_modifyHead] at mem
    by_cases here : d = sep
    · rw [if_pos (by simpa using here), List.mem_cons] at mem
      obtain rfl | mem := mem
      · exact List.not_mem_nil
      · exact ih mem
    · rw [if_neg (by simpa using here), split, List.modifyHead_cons, List.mem_cons] at mem
      rw [split] at ih
      obtain rfl | mem := mem
      · rw [List.mem_cons, not_or]
        exact ⟨Ne.symm here, ih List.mem_cons_self⟩
      · exact ih (List.mem_cons_of_mem _ mem)

/-! ## The first separator -/

/-- The text before and behind the first separator. -/
def splitOnce (sep : α) : List α → Option (List α × List α)
  | [] => none
  | c :: rest =>
    if c = sep then some ([], rest) else (splitOnce sep rest).map fun p => (c :: p.1, p.2)

theorem splitOnce_eq_none (clean : sep ∉ text) : splitOnce sep text = none := by
  induction text with
  | nil => rfl
  | cons c rest ih =>
    rw [List.mem_cons, not_or] at clean
    rw [splitOnce, if_neg (Ne.symm clean.1), ih clean.2]
    rfl

theorem splitOnce_append {piece : List α} (clean : sep ∉ piece) (rest : List α) :
    splitOnce sep (piece ++ sep :: rest) = some (piece, rest) := by
  induction piece with
  | nil => simp [splitOnce]
  | cons c piece ih =>
    rw [List.mem_cons, not_or] at clean
    rw [List.cons_append, splitOnce, if_neg (Ne.symm clean.1), ih clean.2]
    rfl

/-- A text has no separator, or it has a first one. -/
theorem cut (sep : α) (text : List α) :
    sep ∉ text ∨ ∃ piece rest, text = piece ++ sep :: rest ∧ sep ∉ piece := by
  by_cases h : sep ∈ text
  · exact .inr (List.eq_append_cons_of_mem h)
  · exact .inl h

/-- `splitn`: at most `n` pieces, the last one uncut. -/
def splitn (sep : α) : Nat → List α → List (List α)
  | 0, _ => []
  | 1, text => [text]
  | n + 2, text =>
    match splitOnce sep text with
    | none => [text]
    | some (piece, rest) => piece :: splitn sep (n + 1) rest

theorem length_splitn_le (sep : α) (n : Nat) : ∀ text : List α,
    (splitn sep n text).length ≤ text.count sep + 1 := by
  induction n with
  | zero => exact fun _ => Nat.zero_le _
  | succ n ih =>
    intro text
    cases n with
    | zero => exact Nat.succ_le_succ (Nat.zero_le _)
    | succ n =>
      rw [splitn]
      rcases cut sep text with clean | ⟨piece, rest, rfl, clean⟩
      · rw [splitOnce_eq_none clean]
        exact Nat.succ_le_succ (Nat.zero_le _)
      · rw [splitOnce_append clean, List.length_cons, List.count_append, List.count_cons_self]
        have := ih rest
        omega

/-- The text behind the `n`-th separator. -/
def behind (sep : α) : Nat → List α → List α
  | 0, text => text
  | n + 1, text =>
    match splitOnce sep text with
    | none => []
    | some (_, rest) => behind sep n rest

theorem drop_splitn (n : Nat) (text : List α) :
    [sep].intercalate ((splitn sep (n + 1) text).drop n) = behind sep n text := by
  induction n generalizing text with
  | zero => simp [splitn, behind]
  | succ n ih =>
    rw [splitn, behind]
    cases splitOnce sep text with
    | none => simp
    | some p => exact ih p.2

theorem behind_of_notMem {n : Nat} (clean : sep ∉ text) : behind sep (n + 1) text = [] := by
  rw [behind, splitOnce_eq_none clean]

theorem behind_append {n : Nat} {piece : List α} (clean : sep ∉ piece) (rest : List α) :
    behind sep (n + 1) (piece ++ sep :: rest) = behind sep n rest := by
  rw [behind, splitOnce_append clean]

@[simp] theorem behind_cons (n : Nat) (rest : List α) :
    behind sep (n + 1) (sep :: rest) = behind sep n rest :=
  behind_append List.not_mem_nil rest

/-! ## Behind the first segments -/

/-- The text behind its first `k` segments, with the separator that ends them. -/
def dropSegments (sep : α) : Nat → List α → List α
  | 0, text => text
  | k + 1, text =>
    dropSegments sep k ((text.dropWhile (· = sep)).dropWhile (· ≠ sep))

def remainder (sep : α) (k : Nat) (text : List α) : List α :=
  (dropSegments sep k text).tail

@[simp] theorem dropSegments_nil (k : Nat) : dropSegments sep k [] = [] := by
  induction k with
  | zero => rfl
  | succ k ih => exact ih

@[simp] theorem dropSegments_cons_sep (k : Nat) (text : List α) :
    dropSegments sep (k + 1) (sep :: text) = dropSegments sep (k + 1) text := by
  rw [dropSegments, List.dropWhile_cons_of_pos (by simp), dropSegments]

theorem dropSegments_piece_append {piece : List α} (clean : sep ∉ piece) (some : piece ≠ [])
    (rest : List α) (k : Nat) :
    dropSegments sep (k + 1) (piece ++ rest) =
      dropSegments sep k (rest.dropWhile (· ≠ sep)) := by
  obtain ⟨c, tail, rfl⟩ := List.exists_cons_of_ne_nil some
  have first : c ≠ sep := by
    intro e
    exact clean (e ▸ List.mem_cons_self)
  rw [dropSegments, List.cons_append, List.dropWhile_cons_of_neg (by simpa using first),
    ← List.cons_append, List.dropWhile_append_of_pos]
  intro a mem
  apply decide_eq_true
  rintro rfl
  exact clean mem

/-- Going behind the first of some segments. -/
theorem dropSegments_piece {piece : List α} (clean : sep ∉ piece) (some : piece ≠ [])
    (rest : List α) (k : Nat) :
    dropSegments sep (k + 1) (piece ++ sep :: rest) = dropSegments sep k (sep :: rest) := by
  rw [dropSegments_piece_append clean some, List.dropWhile_cons_of_neg (by simp)]

theorem dropSegments_of_notMem (clean : sep ∉ text) (k : Nat) :
    dropSegments sep (k + 1) text = [] := by
  cases text with
  | nil => exact dropSegments_nil _
  | cons c tail =>
    have h := dropSegments_piece_append clean (List.cons_ne_nil c tail) [] k
    rw [List.append_nil] at h
    rw [h]
    exact dropSegments_nil _

theorem dropSegments_add (m k : Nat) (text : List α) :
    dropSegments sep (m + k) text = dropSegments sep k (dropSegments sep m text) := by
  induction m generalizing text with
  | zero => rw [Nat.zero_add, dropSegments]
  | succ m ih => rw [Nat.succ_add, dropSegments, ih, dropSegments]

theorem dropSegments_length_le (k : Nat) (text : List α) :
    (dropSegments sep k text).length ≤ text.length := by
  induction k generalizing text with
  | zero => exact Nat.le_refl _
  | succ k ih =>
    rw [dropSegments]
    apply Nat.le_trans (ih _)
    apply Nat.le_trans (List.dropWhile_sublist _).length_le
    exact (List.dropWhile_sublist _).length_le

/-- Pieces that `segments` can return. -/
def Clean (sep : α) (pieces : List (List α)) : Prop :=
  ∀ piece ∈ pieces, piece ≠ [] ∧ sep ∉ piece

theorem segments_clean (text : List α) : Clean sep (segments sep text) := by
  generalize size : text.length = n
  induction n using Nat.strongRecOn generalizing text with
  | ind n ih =>
    intro piece mem
    rcases cut sep text with whole | ⟨first, rest, rfl, clean⟩
    · rw [segments_of_notMem whole] at mem
      split at mem
      · cases mem
      · rename_i some
        cases List.mem_singleton.1 mem
        exact ⟨fun e => some (e ▸ rfl), whole⟩
    · have small : rest.length < n := by
        rw [List.length_append, List.length_cons] at size
        omega
      rw [segments_append_sep, List.mem_append, segments_of_notMem clean] at mem
      rcases mem with mem | mem
      · split at mem
        · cases mem
        · rename_i some
          cases List.mem_singleton.1 mem
          exact ⟨fun e => some (e ▸ rfl), clean⟩
      · exact ih _ small rest rfl piece mem

/-- Counting fewer separators than segments leaves more text. -/
theorem remainder_lt_behind {i j : Nat} (less : i < j) {text : List α}
    (enough : j ≤ (segments sep text).length) :
    (remainder sep j (sep :: text)).length < (behind sep i text).length := by
  generalize size : text.length = n
  induction n using Nat.strongRecOn generalizing text i j with
  | ind n ih =>
    obtain ⟨j, rfl⟩ : ∃ j', j = j' + 1 := ⟨j - 1, by omega⟩
    rw [remainder, dropSegments_cons_sep]
    rcases cut sep text with whole | ⟨piece, rest, rfl, clean⟩
    · rw [segments_of_notMem whole] at enough
      split at enough
      · simp at enough
      · rename_i some
        have : 0 < text.length := List.length_pos_iff.2 (by simpa using some)
        have zero : i = 0 := by simp at enough; omega
        subst zero
        rw [dropSegments_of_notMem whole, behind]
        simpa using this
    · have small : rest.length < n := by
        rw [List.length_append, List.length_cons] at size
        omega
      by_cases empty : piece = []
      · subst empty
        rw [List.nil_append, segments_cons_sep] at enough
        rw [List.nil_append, dropSegments_cons_sep]
        cases i with
        | zero =>
          have := ih _ small (i := 0) less enough rfl
          rw [remainder, dropSegments_cons_sep, behind] at this
          rw [behind, List.length_cons]
          omega
        | succ i =>
          have := ih _ small (i := i) (by omega) enough rfl
          rw [remainder, dropSegments_cons_sep] at this
          rw [behind_cons]
          exact this
      · rw [segments_piece clean empty, List.length_cons] at enough
        rw [dropSegments_piece clean empty]
        cases i with
        | zero =>
          have : (dropSegments sep j (sep :: rest)).length ≤ (sep :: rest).length :=
            dropSegments_length_le j (sep :: rest)
          have : 0 < piece.length := List.length_pos_iff.2 empty
          rw [behind, List.length_tail, List.length_append]
          omega
        | succ i =>
          rw [behind_append clean]
          exact ih _ small (by omega) (by omega) rfl

/-- Where the segments begin a text, the two countings meet iff the segments stand there
joined. -/
theorem behind_eq_remainder_iff {pieces : List (List α)} {text : List α}
    (first : pieces <+: segments sep text) :
    behind sep pieces.length text = remainder sep pieces.length (sep :: text) ↔
      joined sep pieces <+: sep :: text := by
  induction pieces generalizing text with
  | nil => exact iff_of_true rfl List.nil_prefix
  | cons piece pieces ih =>
    have most := first.length_le
    have cleanPieces : piece ≠ [] ∧ sep ∉ piece :=
      segments_clean text piece (first.subset List.mem_cons_self)
    rw [List.length_cons] at most ⊢
    rcases cut sep text with whole | ⟨before, rest, rfl, clean⟩
    · rw [segments_of_notMem whole] at first
      split at first
      · simp at first
      · rename_i some
        obtain ⟨rfl, last⟩ := List.cons_prefix_cons.1 first
        cases List.prefix_nil.1 last
        refine iff_of_true ?_ ?_
        · rw [List.length_nil, behind_of_notMem whole, remainder, dropSegments_cons_sep,
            dropSegments_of_notMem whole]
          rfl
        · simp
    · by_cases empty : before = []
      · subst empty
        refine iff_of_false ?_ ?_
        · rw [List.nil_append, segments_cons_sep] at most
          have less := remainder_lt_behind (Nat.lt_succ_self pieces.length) most
          rw [List.nil_append, behind_cons, remainder, dropSegments_cons_sep]
          rw [remainder] at less
          intro e
          rw [e] at less
          exact absurd less (Nat.lt_irrefl _)
        · obtain ⟨c, tail, rfl⟩ := List.exists_cons_of_ne_nil cleanPieces.1
          rw [joined_cons, List.cons_append, List.cons_append, List.cons_prefix_cons,
            List.nil_append, List.cons_prefix_cons]
          intro h
          exact cleanPieces.2 (h.2.1 ▸ List.mem_cons_self)
      · rw [segments_piece clean empty] at first
        obtain ⟨rfl, rest_first⟩ := List.cons_prefix_cons.1 first
        rw [behind_append clean, remainder, dropSegments_cons_sep,
          dropSegments_piece clean empty, joined_prefix_cons]
        exact ih rest_first

theorem segments_joined {pieces : List (List α)} (clean : Clean sep pieces) {rest : List α}
    (apart : rest = [] ∨ rest.head? = some sep) :
    segments sep (joined sep pieces ++ rest) = pieces ++ segments sep rest := by
  induction pieces with
  | nil => rfl
  | cons piece pieces ih =>
    have here := clean piece List.mem_cons_self
    have ih := ih fun p mem => clean p (List.mem_cons_of_mem _ mem)
    rw [joined_cons, List.cons_append, List.cons_append, segments_cons_sep, List.append_assoc]
    have behindPiece : joined sep pieces ++ rest = [] ∨
        ∃ tail, joined sep pieces ++ rest = sep :: tail := by
      cases pieces with
      | nil =>
        rcases apart with rfl | head
        · exact .inl rfl
        · obtain ⟨tail, rfl⟩ := List.head?_eq_some_iff.1 head
          exact .inr ⟨tail, rfl⟩
      | cons p ps => exact .inr ⟨_, rfl⟩
    rcases behindPiece with nothing | ⟨tail, e⟩
    · rw [nothing] at ih ⊢
      rw [segments_nil] at ih
      rw [List.append_nil, segments_of_notMem here.2, if_neg (by simpa using here.1),
        List.cons_append, ← ih]
    · rw [e] at ih ⊢
      rw [segments_cons_sep] at ih
      rw [segments_piece here.2 here.1, ih, List.cons_append]

theorem dropSegments_joined {pieces : List (List α)} (clean : Clean sep pieces) {rest : List α}
    (apart : rest = [] ∨ rest.head? = some sep) :
    dropSegments sep pieces.length (joined sep pieces ++ rest) = rest := by
  induction pieces with
  | nil => rfl
  | cons piece pieces ih =>
    have here := clean piece List.mem_cons_self
    have ih := ih fun p mem => clean p (List.mem_cons_of_mem _ mem)
    rw [List.length_cons, joined_cons, List.cons_append, List.cons_append, dropSegments_cons_sep,
      List.append_assoc, dropSegments_piece_append here.2 here.1]
    have uncut : (joined sep pieces ++ rest).dropWhile (· ≠ sep) = joined sep pieces ++ rest := by
      cases pieces with
      | nil =>
        rcases apart with rfl | head
        · rfl
        · obtain ⟨tail, rfl⟩ := List.head?_eq_some_iff.1 head
          exact List.dropWhile_cons_of_neg (by simp)
      | cons p ps => exact List.dropWhile_cons_of_neg (by simp)
    rw [uncut, ih]

end Segments
