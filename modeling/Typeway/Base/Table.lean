import Mathlib.Data.List.AList
import Mathlib.Data.List.Induction

/-!
# Tables filled entry after entry

A hash map that entries are inserted into in order. An entry is found under its own key exactly
if every later entry with the key has the same value.
-/

namespace Table

variable {α β : Type} [DecidableEq α]

def fill (entries : List (α × β)) : AList fun _ : α => β :=
  entries.foldl (fun table entry => table.insert entry.1 entry.2) ∅

theorem fill_append (entries : List (α × β)) (entry : α × β) :
    fill (entries ++ [entry]) = (fill entries).insert entry.1 entry.2 := by
  rw [fill, List.foldl_append]
  rfl

theorem lookup_fill_append (entries : List (α × β)) (entry : α × β) (key : α) :
    (fill (entries ++ [entry])).lookup key =
      if key = entry.1 then some entry.2 else (fill entries).lookup key := by
  rw [fill_append]
  split
  · rename_i same
    rw [same, AList.lookup_insert]
  · rename_i other
    rw [AList.lookup_insert_ne other]

theorem lookup_of_pairwise {entries : List (α × β)}
    (agree : entries.Pairwise fun e e' => e.1 = e'.1 → e.2 = e'.2) :
    ∀ entry ∈ entries, (fill entries).lookup entry.1 = some entry.2 := by
  induction entries using List.reverseRecOn with
  | nil =>
    intro entry mem
    cases mem
  | append_singleton entries last ih =>
    obtain ⟨before, -, against⟩ := List.pairwise_append.1 agree
    intro e mem
    rw [lookup_fill_append]
    rcases List.mem_append.1 mem with mem | mem
    · split
      · rename_i same
        rw [against e mem last (List.mem_singleton_self _) same]
      · exact ih before e mem
    · rw [List.mem_singleton.1 mem, if_pos rfl]

/-- Every entry is found iff no two entries share a key and differ. -/
theorem lookup_fill_iff (entries : List (α × β)) :
    (∀ entry ∈ entries, (fill entries).lookup entry.1 = some entry.2) ↔
      entries.Pairwise fun e e' => e.1 = e'.1 → e.2 = e'.2 := by
  constructor
  · intro found
    apply List.pairwise_of_forall_mem_list
    intro e mem e' mem' same
    have here := found e mem
    rw [same, found e' mem'] at here
    exact (Option.some.inj here).symm
  · exact lookup_of_pairwise

end Table
