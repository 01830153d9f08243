import Typeway.Base.Segments
import Typeway.Base.Substring

/-!
# Templates filled by successive replacement

A template is a row of slots between separators, fixed texts and holes. In its text each hole
is a mark, and filling it means to replace the first mark by the first value, then the first
mark of the result by the second value, and so on. `fill_eq_iff` says exactly when this puts
every value into its own hole.
-/

namespace Template

open Segments Substring

inductive Slot (α : Type) where
  | fixed (text : List α)
  | hole (value : List α)

variable {α : Type}

namespace Slot

/-- The slot in the text of the template. -/
def raw (mark : List α) : Slot α → List α
  | fixed text => text
  | hole _ => mark

/-- The slot as it is meant to be filled. -/
def filled : Slot α → List α
  | fixed text => text
  | hole value => value

end Slot

/-- The values of the holes in order. -/
def values : List (Slot α) → List (List α)
  | [] => []
  | .fixed _ :: slots => values slots
  | .hole value :: slots => value :: values slots

variable [DecidableEq α]

/-- One value after the other in the place of the first mark. -/
def fill (mark : List α) (vals : List (List α)) (text : List α) : List α :=
  vals.foldl (fun text value => replaceFirst mark value text) text

/-- Behind a slot that shows a mark only holes are left whose value is the mark itself. -/
def InOrder (mark : List α) : List (Slot α) → Prop
  | [] => True
  | slot :: slots =>
    (contains mark slot.filled = true → ∀ value ∈ values slots, value = mark) ∧ InOrder mark slots

/-! ## Piece by piece -/

/-- The replacement in the first piece that shows the mark. -/
def replacePiece (mark value : List α) : List (List α) → List (List α)
  | [] => []
  | piece :: pieces =>
    if contains mark piece then replaceFirst mark value piece :: pieces
    else piece :: replacePiece mark value pieces

def fillPieces (mark : List α) (vals : List (List α)) (pieces : List (List α)) :
    List (List α) :=
  vals.foldl (fun pieces value => replacePiece mark value pieces) pieces

variable {mark : List α}

@[simp] theorem fillPieces_nil (pieces : List (List α)) : fillPieces mark [] pieces = pieces := rfl

@[simp] theorem fillPieces_cons (value : List α) (vals pieces : List (List α)) :
    fillPieces mark (value :: vals) pieces =
      fillPieces mark vals (replacePiece mark value pieces) := rfl

theorem replacePiece_length (value : List α) (pieces : List (List α)) :
    (replacePiece mark value pieces).length = pieces.length := by
  induction pieces with
  | nil => rfl
  | cons piece pieces ih =>
    rw [replacePiece]
    split
    · rfl
    · rw [List.length_cons, ih, List.length_cons]

theorem fillPieces_length (vals pieces : List (List α)) :
    (fillPieces mark vals pieces).length = pieces.length := by
  induction vals generalizing pieces with
  | nil => rfl
  | cons value vals ih => rw [fillPieces_cons, ih, replacePiece_length]

/-- A piece without marks stays as it is. -/
theorem fillPieces_of_not_contains {piece : List α} (h : contains mark piece = false)
    (vals pieces : List (List α)) :
    fillPieces mark vals (piece :: pieces) = piece :: fillPieces mark vals pieces := by
  induction vals generalizing pieces with
  | nil => rfl
  | cons value vals ih =>
    rw [fillPieces_cons, replacePiece, h, if_neg Bool.false_ne_true, ih, fillPieces_cons]

/-- As long as the first piece shows a mark, the pieces behind it get no value. -/
theorem fillPieces_tail {vals : List (List α)} {piece piece' : List α}
    {pieces pieces' : List (List α)}
    (h : fillPieces mark vals (piece :: pieces) = piece' :: pieces')
    (shows : contains mark piece' = true) : pieces' = pieces := by
  induction vals generalizing piece pieces with
  | nil =>
    cases h
    rfl
  | cons value vals ih =>
    rw [fillPieces_cons, replacePiece] at h
    split at h
    · exact ih h
    · rename_i no
      rw [Bool.not_eq_true] at no
      rw [fillPieces_of_not_contains no] at h
      cases h
      rw [no] at shows
      cases shows

/-- Values that are the mark itself change nothing. -/
theorem fillPieces_of_marks {vals : List (List α)} (marks : ∀ value ∈ vals, value = mark)
    (pieces : List (List α)) : fillPieces mark vals pieces = pieces := by
  induction vals generalizing pieces with
  | nil => rfl
  | cons value vals ih =>
    have same : replacePiece mark mark pieces = pieces := by
      induction pieces with
      | nil => rfl
      | cons piece pieces ih =>
        rw [replacePiece, replaceFirst_self, ih]
        split <;> rfl
    rw [fillPieces_cons, marks value List.mem_cons_self, same]
    exact ih (fun v mem => marks v (List.mem_cons_of_mem _ mem)) pieces

omit [DecidableEq α] in
theorem filled_eq_raw_iff {slots : List (Slot α)} :
    slots.map Slot.filled = slots.map (Slot.raw mark) ↔ ∀ value ∈ values slots, value = mark := by
  induction slots with
  | nil => simp [values]
  | cons slot slots ih =>
    cases slot with
    | fixed text => simp [values, Slot.filled, Slot.raw, ih]
    | hole value => simp [values, Slot.filled, Slot.raw, ih]

/-- Behind a first piece that shows a mark. -/
theorem fillPieces_blocked {piece : List α} (shows : contains mark piece = true)
    (slots : List (Slot α)) :
    fillPieces mark (values slots) (piece :: slots.map (Slot.raw mark)) =
        piece :: slots.map Slot.filled ↔ ∀ value ∈ values slots, value = mark := by
  rw [← filled_eq_raw_iff]
  constructor
  · intro h
    exact fillPieces_tail h shows
  · intro same
    rw [same, fillPieces_of_marks (filled_eq_raw_iff.1 same)]

theorem inOrder_of_marks {slots : List (Slot α)} (marks : ∀ value ∈ values slots, value = mark) :
    InOrder mark slots := by
  induction slots with
  | nil => trivial
  | cons slot slots ih =>
    have behind : ∀ value ∈ values slots, value = mark := by
      intro value mem
      apply marks
      cases slot with
      | fixed text => exact mem
      | hole v => exact List.mem_cons_of_mem _ mem
    exact ⟨fun _ => behind, ih behind⟩

theorem contains_mark : contains mark mark = true :=
  contains_iff.2 (List.infix_refl _)

theorem fillPieces_eq_iff (slots : List (Slot α)) :
    fillPieces mark (values slots) (slots.map (Slot.raw mark)) = slots.map Slot.filled ↔
      InOrder mark slots := by
  -- once the first slot has its text, it either shows a mark or is passed over
  have settled : ∀ {text : List α} {slots : List (Slot α)},
      (fillPieces mark (values slots) (slots.map (Slot.raw mark)) = slots.map Slot.filled ↔
        InOrder mark slots) →
      (fillPieces mark (values slots) (text :: slots.map (Slot.raw mark)) =
          text :: slots.map Slot.filled ↔
        (contains mark text = true → ∀ value ∈ values slots, value = mark) ∧
          InOrder mark slots) := by
    intro text slots ih
    cases shows : contains mark text with
    | true =>
      rw [fillPieces_blocked shows]
      constructor
      · intro marks
        exact ⟨fun _ => marks, inOrder_of_marks marks⟩
      · intro h
        exact h.1 rfl
    | false =>
      rw [fillPieces_of_not_contains shows, List.cons_inj_right, ih]
      simp
  induction slots with
  | nil => exact iff_of_true rfl trivial
  | cons slot slots ih =>
    cases slot with
    | fixed text => exact settled ih
    | hole value =>
      rw [List.map_cons, Slot.raw, values, fillPieces_cons, replacePiece, if_pos contains_mark,
        replaceFirst_pat]
      exact settled ih

/-! ## The text -/

variable {sep : α} (some : mark ≠ []) (clean : sep ∉ mark)

/-- The pieces of a text hold no separator. -/
def Whole (sep : α) (pieces : List (List α)) : Prop :=
  ∀ piece ∈ pieces, sep ∉ piece

omit sep in
theorem mem_replaceFirst {value text : List α} {c : α} (mem : c ∈ replaceFirst mark value text) :
    c ∈ value ∨ c ∈ text := by
  induction text with
  | nil =>
    rw [replaceFirst] at mem
    split at mem
    · exact .inl mem
    · cases mem
  | cons d text ih =>
    rw [replaceFirst] at mem
    split at mem
    · rcases List.mem_append.1 mem with mem | mem
      · exact .inl mem
      · exact .inr (List.mem_of_mem_drop mem)
    · rcases List.mem_cons.1 mem with rfl | mem
      · exact .inr List.mem_cons_self
      · exact (ih mem).imp_right (List.mem_cons_of_mem _)

omit sep in
/-- What holds of the elements of all values and pieces holds after filling. -/
theorem forall_replacePiece {p : α → Prop} {value : List α} (inValue : ∀ c ∈ value, p c)
    {pieces : List (List α)} (inPieces : ∀ piece ∈ pieces, ∀ c ∈ piece, p c) :
    ∀ piece ∈ replacePiece mark value pieces, ∀ c ∈ piece, p c := by
  induction pieces with
  | nil => exact inPieces
  | cons piece pieces ih =>
    have tail : ∀ piece ∈ pieces, ∀ c ∈ piece, p c :=
      fun q mem => inPieces q (List.mem_cons_of_mem _ mem)
    have head := inPieces piece List.mem_cons_self
    rw [replacePiece]
    split
    · intro q mem c here
      rcases List.mem_cons.1 mem with rfl | mem
      · rcases mem_replaceFirst here with here | here
        · exact inValue c here
        · exact head c here
      · exact tail q mem c here
    · intro q mem
      rcases List.mem_cons.1 mem with rfl | mem
      · exact head
      · exact ih tail q mem

omit sep in
theorem forall_fillPieces {p : α → Prop} {vals pieces : List (List α)}
    (inVals : ∀ value ∈ vals, ∀ c ∈ value, p c) (inPieces : ∀ piece ∈ pieces, ∀ c ∈ piece, p c) :
    ∀ piece ∈ fillPieces mark vals pieces, ∀ c ∈ piece, p c := by
  induction vals generalizing pieces with
  | nil => exact inPieces
  | cons value vals ih =>
    rw [fillPieces_cons]
    apply ih (fun v mem => inVals v (List.mem_cons_of_mem _ mem))
    exact forall_replacePiece (inVals value List.mem_cons_self) inPieces

theorem whole_fillPieces {vals pieces : List (List α)} (cleanVals : Whole sep vals)
    (whole : Whole sep pieces) : Whole sep (fillPieces mark vals pieces) := by
  have apart : ∀ {l : List (List α)}, Whole sep l → ∀ piece ∈ l, ∀ c ∈ piece, c ≠ sep :=
    fun w piece mem c here same => w piece mem (same ▸ here)
  intro piece mem here
  exact forall_fillPieces (apart cleanVals) (apart whole) piece mem sep here rfl

omit [DecidableEq α] in
theorem whole_values {slots : List (Slot α)} (whole : Whole sep (slots.map Slot.filled)) :
    Whole sep (values slots) := by
  induction slots with
  | nil => exact whole
  | cons slot slots ih =>
    have tail := ih fun p mem => whole p (List.mem_cons_of_mem _ mem)
    cases slot with
    | fixed text => exact tail
    | hole v =>
      intro value mem
      rcases List.mem_cons.1 mem with rfl | mem
      · exact whole value List.mem_cons_self
      · exact tail value mem

omit [DecidableEq α] in
include clean in
theorem whole_raw {slots : List (Slot α)} (whole : Whole sep (slots.map Slot.filled)) :
    Whole sep (slots.map (Slot.raw mark)) := by
  intro piece mem
  obtain ⟨slot, here, rfl⟩ := List.mem_map.1 mem
  cases slot with
  | fixed text => exact whole text (List.mem_map.2 ⟨_, here, rfl⟩)
  | hole value => exact clean

include some clean

/-- A replacement in a joined text takes place in one piece. -/
theorem replaceFirst_joined (value : List α) {pieces : List (List α)} :
    replaceFirst mark value (joined sep pieces) = joined sep (replacePiece mark value pieces) := by
  induction pieces with
  | nil =>
    apply replaceFirst_of_not_contains
    rw [joined_nil, ← Bool.not_eq_true, contains_iff, List.infix_nil]
    exact some
  | cons piece pieces ih =>
    have apart : joined sep pieces = [] ∨ (joined sep pieces).head? = .some sep := by
      cases pieces with
      | nil => exact .inl rfl
      | cons p ps => exact .inr rfl
    have first : mark.isPrefixOf (sep :: (piece ++ joined sep pieces)) = false := by
      rw [← Bool.not_eq_true, List.isPrefixOf_iff_prefix]
      intro h
      obtain ⟨c, tail, rfl⟩ := List.exists_cons_of_ne_nil some
      exact clean ((List.cons_prefix_cons.1 h).1 ▸ List.mem_cons_self)
    rw [joined_cons, List.cons_append, replaceFirst, first, if_neg Bool.false_ne_true,
      replaceFirst_append clean apart some, ih, replacePiece]
    split <;> rfl

theorem fill_joined (vals : List (List α)) (pieces : List (List α)) :
    fill mark vals (joined sep pieces) = joined sep (fillPieces mark vals pieces) := by
  induction vals generalizing pieces with
  | nil => rfl
  | cons value vals ih =>
    rw [fill, List.foldl_cons, replaceFirst_joined some clean, fillPieces_cons]
    exact ih _

/-- **Successive replacement fills every hole with its own value** iff behind a slot that shows
the mark all values are the mark. -/
theorem fill_eq_iff {slots : List (Slot α)} (whole : Whole sep (slots.map Slot.filled)) :
    fill mark (values slots) (joined sep (slots.map (Slot.raw mark))) =
        joined sep (slots.map Slot.filled) ↔ InOrder mark slots := by
  rw [fill_joined some clean, ← fillPieces_eq_iff]
  constructor
  · intro h
    exact joined_inj (whole_fillPieces (whole_values whole) (whole_raw clean whole)) whole h
  · intro h
    rw [h]

end Template
