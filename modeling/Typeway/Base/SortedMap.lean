import Mathlib.Order.Lattice
import Mathlib.Data.List.Basic

/-!
# Maps as sorted lists of entries

A B-tree map is its entries in the order of their keys. Insertion keeps the order, and two
sorted lists that answer every lookup alike are equal.
-/

namespace SortedMap

variable {κ β : Type} [LinearOrder κ]

def lookup (key : κ) : List (κ × β) → Option β
  | [] => none
  | (k, v) :: rest => if key = k then some v else lookup key rest

/-- The value of a key that is there is replaced. -/
def insert (key : κ) (value : β) : List (κ × β) → List (κ × β)
  | [] => [(key, value)]
  | (k, v) :: rest =>
    if key < k then (key, value) :: (k, v) :: rest
    else if key = k then (key, value) :: rest
    else (k, v) :: insert key value rest

def Sorted (m : List (κ × β)) : Prop :=
  m.Pairwise fun e e' => e.1 < e'.1

@[simp] theorem lookup_nil (key : κ) : lookup key ([] : List (κ × β)) = none := rfl

theorem lookup_cons (key k : κ) (v : β) (rest : List (κ × β)) :
    lookup key ((k, v) :: rest) = if key = k then some v else lookup key rest := rfl

theorem sorted_nil : Sorted ([] : List (κ × β)) :=
  List.Pairwise.nil

theorem sorted_cons {e : κ × β} {m : List (κ × β)} :
    Sorted (e :: m) ↔ (∀ e' ∈ m, e.1 < e'.1) ∧ Sorted m :=
  List.pairwise_cons

theorem lookup_eq_none {key : κ} {m : List (κ × β)} :
    lookup key m = none ↔ ∀ e ∈ m, key ≠ e.1 := by
  induction m with
  | nil => simp
  | cons e m ih =>
    obtain ⟨k, v⟩ := e
    rw [lookup_cons]
    by_cases same : key = k
    · simp [same]
    · simp [same, ih]

theorem lookup_insert (key other : κ) (value : β) (m : List (κ × β)) :
    lookup other (insert key value m) = if other = key then some value else lookup other m := by
  induction m with
  | nil => rfl
  | cons e m ih =>
    obtain ⟨k, v⟩ := e
    rw [insert]
    split
    · rfl
    · split
      · rename_i same
        rw [lookup_cons, lookup_cons, ← same]
        split <;> rfl
      · rename_i apart
        rw [lookup_cons, lookup_cons, ih]
        by_cases here : other = k
        · rw [if_pos here, if_pos here, if_neg]
          intro same
          exact apart (same.symm.trans here)
        · rw [if_neg here, if_neg here]

theorem mem_insert {key : κ} {value : β} {m : List (κ × β)} {e : κ × β}
    (mem : e ∈ insert key value m) : e = (key, value) ∨ e ∈ m := by
  induction m with
  | nil => exact .inl (List.mem_singleton.1 mem)
  | cons head m ih =>
    obtain ⟨k, v⟩ := head
    rw [insert] at mem
    split at mem
    · exact List.mem_cons.1 mem
    · split at mem
      · rcases List.mem_cons.1 mem with here | mem
        · exact .inl here
        · exact .inr (List.mem_cons_of_mem _ mem)
      · rcases List.mem_cons.1 mem with here | mem
        · exact .inr (here ▸ List.mem_cons_self)
        · exact (ih mem).imp_right (List.mem_cons_of_mem _)

theorem sorted_insert {key : κ} {value : β} {m : List (κ × β)} (sorted : Sorted m) :
    Sorted (insert key value m) := by
  induction m with
  | nil => exact List.pairwise_singleton _ _
  | cons head m ih =>
    obtain ⟨k, v⟩ := head
    obtain ⟨above, sorted⟩ := sorted_cons.1 sorted
    rw [insert]
    split
    · rename_i less
      refine sorted_cons.2 ⟨?_, sorted_cons.2 ⟨above, sorted⟩⟩
      intro e mem
      rcases List.mem_cons.1 mem with rfl | mem
      · exact less
      · exact lt_trans less (above e mem)
    · rename_i notLess
      split
      · rename_i same
        exact sorted_cons.2 ⟨fun e mem => same ▸ above e mem, sorted⟩
      · rename_i apart
        refine sorted_cons.2 ⟨?_, ih sorted⟩
        intro e mem
        rcases mem_insert mem with rfl | mem
        · exact lt_of_le_of_ne (le_of_not_gt notLess) fun same => apart same.symm
        · exact above e mem

/-- Inserting entries of other keys does not touch a key. -/
theorem lookup_foldl_insert_of_ne {key : κ} {entries : List (κ × β)}
    (apart : ∀ e ∈ entries, e.1 ≠ key) (m : List (κ × β)) :
    lookup key (entries.foldl (fun map e => insert e.1 e.2 map) m) = lookup key m := by
  induction entries generalizing m with
  | nil => rfl
  | cons e entries ih =>
    rw [List.foldl_cons, ih (fun e' mem => apart e' (List.mem_cons_of_mem _ mem)), lookup_insert,
      if_neg (apart e List.mem_cons_self).symm]

/-- An entry above all keys of the front is inserted behind it. -/
theorem insert_append {front back : List (κ × β)} {key : κ} {value : β}
    (above : ∀ e ∈ front, e.1 < key) :
    insert key value (front ++ back) = front ++ insert key value back := by
  induction front with
  | nil => rfl
  | cons e front ih =>
    obtain ⟨k, v⟩ := e
    have less := above (k, v) List.mem_cons_self
    rw [List.cons_append, insert, if_neg (lt_asymm less), if_neg (ne_of_gt less),
      ih fun e' mem => above e' (List.mem_cons_of_mem _ mem)]
    rfl

/-- Entries in order are inserted as they are. -/
theorem foldl_insert_of_sorted {entries m : List (κ × β)} (sorted : Sorted (m ++ entries)) :
    entries.foldl (fun map e => insert e.1 e.2 map) m = m ++ entries := by
  induction entries generalizing m with
  | nil => exact (List.append_nil m).symm
  | cons e entries ih =>
    have above : ∀ e' ∈ m, e'.1 < e.1 := by
      intro e' mem
      exact (List.pairwise_append.1 sorted).2.2 e' mem e List.mem_cons_self
    have placed : insert e.1 e.2 m = m ++ [e] := by
      have last : insert e.1 e.2 (m ++ []) = m ++ insert e.1 e.2 [] := insert_append above
      rwa [List.append_nil] at last
    rw [List.foldl_cons, placed, ih (by rwa [List.append_assoc]), List.append_assoc]
    rfl

/-- Entries above all keys of the front are inserted behind it. -/
theorem foldl_insert_append {front back entries : List (κ × β)}
    (above : ∀ e ∈ front, ∀ e' ∈ entries, e.1 < e'.1) :
    entries.foldl (fun map e => insert e.1 e.2 map) (front ++ back) =
      front ++ entries.foldl (fun map e => insert e.1 e.2 map) back := by
  induction entries generalizing back with
  | nil => rfl
  | cons e entries ih =>
    rw [List.foldl_cons, insert_append fun e' mem => above e' mem e List.mem_cons_self, ih]
    · rfl
    · intro e' mem e'' mem'
      exact above e' mem e'' (List.mem_cons_of_mem _ mem')

theorem lookup_of_mem {m : List (κ × β)} (sorted : Sorted m) {e : κ × β} (mem : e ∈ m) :
    lookup e.1 m = some e.2 := by
  induction m with
  | nil => cases mem
  | cons head m ih =>
    obtain ⟨k, v⟩ := head
    obtain ⟨above, sorted⟩ := sorted_cons.1 sorted
    rcases List.mem_cons.1 mem with rfl | mem
    · exact if_pos rfl
    · exact (if_neg (ne_of_gt (above e mem))).trans (ih sorted mem)

theorem mem_of_lookup {key : κ} {value : β} {m : List (κ × β)}
    (found : lookup key m = some value) : (key, value) ∈ m := by
  induction m with
  | nil => cases found
  | cons head m ih =>
    obtain ⟨k, v⟩ := head
    rw [lookup_cons] at found
    split at found
    · rename_i same
      cases found
      exact same ▸ List.mem_cons_self
    · exact List.mem_cons_of_mem _ (ih found)

/-- Sorted maps are determined by their lookups. -/
theorem ext {m m' : List (κ × β)} (sorted : Sorted m) (sorted' : Sorted m')
    (same : ∀ key, lookup key m = lookup key m') : m = m' := by
  have sub : ∀ {a b : List (κ × β)}, Sorted a → (∀ key, lookup key a = lookup key b) →
      ∀ e ∈ a, e ∈ b := by
    intro a b sa eq e mem
    exact mem_of_lookup ((eq e.1).symm.trans (lookup_of_mem sa mem))
  refine @List.Perm.eq_of_pairwise _ (fun e e' : κ × β => e.1 < e'.1) _ _ ?_ sorted sorted' ?_
  · intro a b _ _ lt gt
    exact absurd lt (lt_asymm gt)
  · have nodup : ∀ {a : List (κ × β)}, Sorted a → a.Nodup := by
      intro a sa
      apply sa.imp
      intro e e' less same
      exact ne_of_lt less (congrArg Prod.fst same)
    exact (List.perm_ext_iff_of_nodup (nodup sorted) (nodup sorted')).2 fun e =>
      ⟨sub sorted same e, sub sorted' (fun key => (same key).symm) e⟩

/-- Each value replaced or dropped. -/
def mapMaybe (g : κ → β → Option β) (m : List (κ × β)) : List (κ × β) :=
  m.filterMap fun e => (g e.1 e.2).map (e.1, ·)

omit [LinearOrder κ] in
theorem mem_mapMaybe {g : κ → β → Option β} {m : List (κ × β)} {e : κ × β} :
    e ∈ mapMaybe g m ↔ ∃ v, (e.1, v) ∈ m ∧ g e.1 v = some e.2 := by
  rw [mapMaybe, List.mem_filterMap]
  constructor
  · intro h
    obtain ⟨⟨k, v⟩, mem, out⟩ := h
    obtain ⟨w, kept, rfl⟩ := Option.map_eq_some_iff.1 out
    exact ⟨v, mem, kept⟩
  · intro h
    obtain ⟨v, mem, kept⟩ := h
    exact ⟨(e.1, v), mem, Option.map_eq_some_iff.2 ⟨e.2, kept, rfl⟩⟩

theorem sorted_mapMaybe {g : κ → β → Option β} {m : List (κ × β)} (sorted : Sorted m) :
    Sorted (mapMaybe g m) := by
  refine List.Pairwise.filterMap _ ?_ sorted
  intro e e' less a here a' here'
  obtain ⟨_, -, rfl⟩ := Option.map_eq_some_iff.1 here
  obtain ⟨_, -, rfl⟩ := Option.map_eq_some_iff.1 here'
  exact less

theorem lookup_mapMaybe (g : κ → β → Option β) {m : List (κ × β)} (sorted : Sorted m) (key : κ) :
    lookup key (mapMaybe g m) = (lookup key m).bind (g key) := by
  apply Option.ext
  intro w
  rw [Option.bind_eq_some_iff]
  constructor
  · intro found
    obtain ⟨v, mem, kept⟩ := mem_mapMaybe.1 (mem_of_lookup found)
    exact ⟨v, lookup_of_mem sorted mem, kept⟩
  · intro h
    obtain ⟨v, found, kept⟩ := h
    exact lookup_of_mem (sorted_mapMaybe sorted) (e := (key, w))
      (mem_mapMaybe.2 ⟨v, mem_of_lookup found, kept⟩)

end SortedMap
