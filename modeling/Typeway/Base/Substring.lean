import Mathlib.Data.List.Infix

/-!
# Substrings

`contains` and `replaceFirst` on texts, by the first position at which the pattern stands.
-/

namespace Substring

variable {α : Type} [DecidableEq α]

/-- `text.contains(pat)`. -/
def contains (pat : List α) : List α → Bool
  | [] => pat.isPrefixOf []
  | c :: rest => pat.isPrefixOf (c :: rest) || contains pat rest

/-- `text.replacen(pat, value, 1)`. -/
def replaceFirst (pat value : List α) : List α → List α
  | [] => if pat.isPrefixOf [] then value else []
  | c :: rest =>
    if pat.isPrefixOf (c :: rest) then value ++ (c :: rest).drop pat.length
    else c :: replaceFirst pat value rest

theorem contains_iff {pat text : List α} : contains pat text = true ↔ pat <:+: text := by
  induction text with
  | nil => rw [contains, List.isPrefixOf_iff_prefix, List.prefix_nil, List.infix_nil]
  | cons c rest ih =>
    rw [contains, Bool.or_eq_true, List.isPrefixOf_iff_prefix, ih, List.infix_cons_iff]

/-- Putting the pattern in its own place changes nothing. -/
@[simp] theorem replaceFirst_self (pat text : List α) : replaceFirst pat pat text = text := by
  induction text with
  | nil =>
    rw [replaceFirst]
    split
    · rename_i here
      exact List.prefix_nil.1 (List.isPrefixOf_iff_prefix.1 here)
    · rfl
  | cons c rest ih =>
    rw [replaceFirst]
    split
    · rename_i here
      exact (List.prefix_iff_eq_append.1 (List.isPrefixOf_iff_prefix.1 here))
    · rw [ih]

theorem replaceFirst_of_not_contains {pat value text : List α} (h : contains pat text = false) :
    replaceFirst pat value text = text := by
  induction text with
  | nil =>
    rw [contains] at h
    rw [replaceFirst, h]
    rfl
  | cons c rest ih =>
    rw [contains, Bool.or_eq_false_iff] at h
    rw [replaceFirst, h.1, ih h.2]
    rfl

/-- The pattern as a whole. -/
theorem replaceFirst_pat (pat value : List α) : replaceFirst pat value pat = value := by
  cases pat with
  | nil => rfl
  | cons c pat =>
    rw [replaceFirst, if_pos (List.isPrefixOf_iff_prefix.2 (List.prefix_refl _)), List.drop_length,
      List.append_nil]

section Apart

variable {sep : α} {pat : List α} (clean : sep ∉ pat) {rest : List α}
  (apart : rest = [] ∨ rest.head? = some sep)

include clean apart

omit [DecidableEq α] in
/-- A pattern without separators does not reach over one. -/
theorem prefix_append_apart {text : List α} : pat <+: text ++ rest ↔ pat <+: text := by
  constructor
  · intro h
    induction text generalizing pat with
    | nil =>
      cases pat with
      | nil => exact List.prefix_refl _
      | cons c pat =>
        rcases apart with rfl | head
        · exact h
        · obtain ⟨tail, rfl⟩ := List.head?_eq_some_iff.1 head
          have same := (List.cons_prefix_cons.1 h).1
          exact absurd (same ▸ List.mem_cons_self) clean
    | cons c text ih =>
      cases pat with
      | nil => exact List.nil_prefix
      | cons d pat =>
        obtain ⟨same, tail⟩ := List.cons_prefix_cons.1 h
        have shorter := ih (fun mem => clean (List.mem_cons_of_mem _ mem)) tail
        exact List.cons_prefix_cons.2 ⟨same, shorter⟩
  · intro h
    exact h.trans (List.prefix_append _ _)

theorem replaceFirst_append (some : pat ≠ []) (value text : List α) :
    replaceFirst pat value (text ++ rest) =
      if contains pat text then replaceFirst pat value text ++ rest
      else text ++ replaceFirst pat value rest := by
  induction text with
  | nil =>
    have no : contains pat [] = false := by
      rw [contains, ← Bool.not_eq_true, List.isPrefixOf_iff_prefix, List.prefix_nil]
      exact some
    rw [no, List.nil_append, List.nil_append]
    rfl
  | cons c text ih =>
    have first : pat.isPrefixOf (c :: (text ++ rest)) = pat.isPrefixOf (c :: text) := by
      rw [Bool.eq_iff_iff, List.isPrefixOf_iff_prefix, List.isPrefixOf_iff_prefix]
      have same : pat <+: (c :: text) ++ rest ↔ pat <+: c :: text := prefix_append_apart clean apart
      exact same
    rw [List.cons_append, replaceFirst, replaceFirst, contains, first]
    cases here : pat.isPrefixOf (c :: text) with
    | true =>
      have long := (List.isPrefixOf_iff_prefix.1 here).length_le
      rw [if_pos rfl, if_pos rfl, Bool.true_or, if_pos rfl, List.append_assoc,
        ← List.drop_append_of_le_length long, List.cons_append]
    | false =>
      rw [if_neg Bool.false_ne_true, if_neg Bool.false_ne_true, Bool.false_or, ih]
      split <;> rfl

end Apart

end Substring
