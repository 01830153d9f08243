import Mathlib.Data.List.Basic
import Mathlib.Tactic.Tauto

/-!
# Maps in the order of insertion

An index map is its entries in the order in which their keys were first inserted.
-/

namespace IndexMap

variable {κ β : Type} [DecidableEq κ]

def lookup (key : κ) : List (κ × β) → Option β
  | [] => none
  | (k, v) :: rest => if key = k then some v else lookup key rest

/-- The value of a key that is there is replaced, its place kept. -/
def insert (key : κ) (value : β) : List (κ × β) → List (κ × β)
  | [] => [(key, value)]
  | (k, v) :: rest => if key = k then (k, value) :: rest else (k, v) :: insert key value rest

def remove (key : κ) (entries : List (κ × β)) : List (κ × β) :=
  entries.filter fun e => e.1 ≠ key

/-- What `entry(key).or_insert(value)` leaves, and an insertion under `!contains_key(key)`. -/
def insertNew (key : κ) (value : β) (entries : List (κ × β)) : List (κ × β) :=
  if (lookup key entries).isSome then entries else insert key value entries

/-- The keys differ. -/
def Keyed (entries : List (κ × β)) : Prop :=
  (entries.map Prod.fst).Nodup

theorem lookup_cons (key k : κ) (v : β) (rest : List (κ × β)) :
    lookup key ((k, v) :: rest) = if key = k then some v else lookup key rest := rfl

theorem lookup_insert (key other : κ) (value : β) (entries : List (κ × β)) :
    lookup other (insert key value entries) =
      if other = key then some value else lookup other entries := by
  induction entries with
  | nil => rfl
  | cons e rest ih =>
    obtain ⟨k, v⟩ := e
    rw [insert]
    split
    · rename_i same
      rw [lookup_cons, lookup_cons, same]
      split <;> rfl
    · rename_i apart
      rw [lookup_cons, lookup_cons, ih]
      by_cases here : other = k
      · have : other ≠ key := fun same => apart (same.symm.trans here)
        rw [if_pos here, if_neg this, if_pos here]
      · rw [if_neg here, if_neg here]

theorem lookup_insertNew (key other : κ) (value : β) (entries : List (κ × β)) :
    lookup other (insertNew key value entries) =
      if other = key then some ((lookup key entries).getD value) else lookup other entries := by
  rw [insertNew]
  split
  · rename_i there
    obtain ⟨v, there⟩ := Option.isSome_iff_exists.1 there
    split
    · rename_i same
      rw [same, there]
      rfl
    · rfl
  · rename_i absent
    rw [lookup_insert, Option.not_isSome_iff_eq_none.1 absent]
    rfl

theorem lookup_remove (key other : κ) (entries : List (κ × β)) :
    lookup other (remove key entries) = if other = key then none else lookup other entries := by
  induction entries with
  | nil =>
    show none = if other = key then none else none
    split <;> rfl
  | cons e rest ih =>
    obtain ⟨k, v⟩ := e
    rw [remove] at ih ⊢
    by_cases gone : k = key
    · rw [List.filter_cons_of_neg (by simpa using gone), ih, lookup_cons, gone]
      split <;> rfl
    · rw [List.filter_cons_of_pos (by simpa using gone), lookup_cons, lookup_cons, ih]
      by_cases here : other = k
      · rw [if_pos here, if_pos here, if_neg fun same => gone (here.symm.trans same)]
      · rw [if_neg here, if_neg here]

/-- What is found stands among the entries. -/
theorem mem_of_lookup {key : κ} {value : β} {entries : List (κ × β)}
    (found : lookup key entries = some value) : (key, value) ∈ entries := by
  induction entries with
  | nil => cases found
  | cons e rest ih =>
    obtain ⟨k, v⟩ := e
    rw [lookup_cons] at found
    split at found
    · rename_i same
      cases found
      rw [same]
      exact List.mem_cons_self
    · exact List.mem_cons_of_mem _ (ih found)

theorem mem_insert {key : κ} {value : β} {entries : List (κ × β)} {e : κ × β}
    (mem : e ∈ insert key value entries) : e = (key, value) ∨ e ∈ entries := by
  induction entries with
  | nil => exact .inl (List.mem_singleton.1 mem)
  | cons head rest ih =>
    obtain ⟨k, v⟩ := head
    rw [insert] at mem
    split at mem
    · rename_i same
      rcases List.mem_cons.1 mem with here | mem
      · rw [here, same]
        exact .inl rfl
      · exact .inr (List.mem_cons_of_mem _ mem)
    · rcases List.mem_cons.1 mem with here | mem
      · rw [here]
        exact .inr List.mem_cons_self
      · rcases ih mem with here | mem
        · exact .inl here
        · exact .inr (List.mem_cons_of_mem _ mem)

theorem mem_insertNew {key : κ} {value : β} {entries : List (κ × β)} {e : κ × β}
    (mem : e ∈ insertNew key value entries) : e = (key, value) ∨ e ∈ entries := by
  rw [insertNew] at mem
  split at mem
  · exact .inr mem
  · exact mem_insert mem

theorem lookup_of_mem {entries : List (κ × β)} (keyed : Keyed entries) {e : κ × β}
    (mem : e ∈ entries) : lookup e.1 entries = some e.2 := by
  induction entries with
  | nil => cases mem
  | cons head rest ih =>
    obtain ⟨k, v⟩ := head
    obtain ⟨fresh, keyed⟩ := List.nodup_cons.1 keyed
    rw [lookup_cons]
    rcases List.mem_cons.1 mem with rfl | mem
    · rw [if_pos rfl]
    · rw [if_neg, ih keyed mem]
      intro same
      have key : e.1 ∈ rest.map Prod.fst := List.mem_map_of_mem mem
      exact fresh (same ▸ key)

theorem mem_keys_insert {key other : κ} {value : β} {entries : List (κ × β)} :
    other ∈ (insert key value entries).map Prod.fst ↔
      other = key ∨ other ∈ entries.map Prod.fst := by
  induction entries with
  | nil => simp [insert]
  | cons e rest ih =>
    obtain ⟨k, v⟩ := e
    rw [insert]
    split
    · rename_i same
      simp [same]
    · rw [List.map_cons, List.mem_cons, ih, List.map_cons, List.mem_cons]
      tauto

theorem Keyed.insert {entries : List (κ × β)} (keyed : Keyed entries) (key : κ) (value : β) :
    Keyed (insert key value entries) := by
  induction entries with
  | nil => exact List.pairwise_singleton _ _
  | cons e rest ih =>
    obtain ⟨k, v⟩ := e
    obtain ⟨fresh, restKeyed⟩ := List.nodup_cons.1 keyed
    rw [IndexMap.insert]
    split
    · exact keyed
    · rename_i apart
      refine List.nodup_cons.2 ⟨?_, ih restKeyed⟩
      rw [mem_keys_insert]
      rintro (same | mem)
      · exact apart same.symm
      · exact fresh mem

theorem lookup_eq_none_iff {key : κ} {entries : List (κ × β)} :
    lookup key entries = none ↔ key ∉ entries.map Prod.fst := by
  induction entries with
  | nil => exact iff_of_true rfl List.not_mem_nil
  | cons e rest ih =>
    rw [lookup_cons, List.map_cons, List.mem_cons, not_or, ← ih]
    split
    · rename_i same
      simp [same]
    · rename_i apart
      simp [apart]

theorem lookup_append (key : κ) (front back : List (κ × β)) :
    lookup key (front ++ back) = (lookup key front).or (lookup key back) := by
  induction front with
  | nil => rfl
  | cons e front ih =>
    rw [List.cons_append, lookup_cons, lookup_cons]
    split
    · rfl
    · exact ih

/-- A new key goes behind the others. -/
theorem insert_of_fresh {key : κ} {entries : List (κ × β)} (fresh : key ∉ entries.map Prod.fst)
    (value : β) : insert key value entries = entries ++ [(key, value)] := by
  induction entries with
  | nil => rfl
  | cons e rest ih =>
    rw [List.map_cons, List.mem_cons, not_or] at fresh
    rw [insert, if_neg fresh.1, ih fresh.2, List.cons_append]

/-- The key behind the keys that are there, unless it is one of them. -/
def addKey (keys : List κ) (key : κ) : List κ :=
  if keys.contains key then keys else keys ++ [key]

/-- The keys in the order in which they first occur. -/
def firsts (keys : List κ) : List κ :=
  keys.foldl addKey []

theorem keys_insert (key : κ) (value : β) (entries : List (κ × β)) :
    (insert key value entries).map Prod.fst = addKey (entries.map Prod.fst) key := by
  induction entries with
  | nil => rfl
  | cons e rest ih =>
    obtain ⟨k, v⟩ := e
    unfold addKey at ih ⊢
    rw [insert, List.map_cons, List.contains_cons]
    by_cases here : key = k
    · rw [if_pos here, if_pos (by simp [here])]
      rfl
    · rw [if_neg here, List.map_cons, ih]
      have apart : (key == k) = false := by simpa using here
      rw [apart, Bool.false_or]
      split <;> rfl

/-- Of the entries of one key the last one counts. -/
theorem lookup_foldl_insert (key : κ) (entries m : List (κ × β)) :
    lookup key (entries.foldl (fun map e => insert e.1 e.2 map) m) =
      ((entries.filter fun e => e.1 = key).getLast?.map Prod.snd).or (lookup key m) := by
  induction entries generalizing m with
  | nil => rfl
  | cons e entries ih =>
    rw [List.foldl_cons, ih, lookup_insert]
    by_cases here : e.1 = key
    · rw [if_pos here.symm, List.filter_cons_of_pos (by simpa using here), List.getLast?_cons]
      cases (entries.filter fun e => e.1 = key).getLast? <;> rfl
    · rw [if_neg (Ne.symm here), List.filter_cons_of_neg (by simpa using here)]

end IndexMap
