import Mathlib.Data.List.Nodup

/-!
# Comparing two lists key by key

Every item of an old list is looked up in a new one under its key. It has gone, or it is compared
with the first item that has the key. What only the new list has was added.
-/

namespace KeyedDiff

variable {α κ γ δ : Type} [DecidableEq κ] (key : α → κ)

/-- The first item with the key. -/
def findKey (items : List α) (k : κ) : Option α :=
  items.find? fun a => key a = k

def diff (removed : α → γ) (compare : α → α → List γ) (added : α → γ) (old new : List α) : List γ :=
  (old.flatMap fun a =>
    match findKey key new (key a) with
    | none => [removed a]
    | some b => compare a b) ++
    (new.filter fun b => !old.any fun a => key a = key b).map added

/-- Every old item is found again under its key, in the relation to what it is compared with. -/
def Kept (R : α → α → Prop) (old new : List α) : Prop :=
  ∀ a ∈ old, ∃ b, findKey key new (key a) = some b ∧ R a b

variable {key} {removed added : α → γ} {compare : α → α → List γ} {old mid new items : List α}
  {R S T : α → α → Prop}

theorem findKey_some {k : κ} {b : α} (found : findKey key items k = some b) :
    b ∈ items ∧ key b = k :=
  ⟨List.mem_of_find?_eq_some found, by simpa using List.find?_some found⟩

theorem findKey_none {k : κ} : findKey key items k = none ↔ ∀ b ∈ items, key b ≠ k := by
  simp [findKey]

theorem findKey_of_mem (distinct : (items.map key).Nodup) {b : α} (mem : b ∈ items) :
    findKey key items (key b) = some b := by
  cases found : findKey key items (key b) with
  | none => exact absurd rfl (findKey_none.1 found b mem)
  | some c =>
    obtain ⟨inItems, same⟩ := findKey_some found
    rw [List.inj_on_of_nodup_map distinct inItems mem same]

/-! ## What is kept -/

theorem forall_diff_iff {P : γ → Prop} (welcome : ∀ b, P (added b)) (missed : ∀ a, ¬ P (removed a)) :
    (∀ c ∈ diff key removed compare added old new, P c) ↔
      Kept key (fun a b => ∀ c ∈ compare a b, P c) old new := by
  constructor
  · intro all a mem
    have here : ∀ c ∈ (match findKey key new (key a) with
        | none => [removed a]
        | some b => compare a b), P c := fun c own =>
      all c (List.mem_append_left _ (List.mem_flatMap.2 ⟨a, mem, own⟩))
    cases found : findKey key new (key a) with
    | none =>
      rw [found] at here
      exact absurd (here _ (List.mem_singleton_self _)) (missed a)
    | some b =>
      rw [found] at here
      exact ⟨b, rfl, here⟩
  · intro kept c mem
    rcases List.mem_append.1 mem with mem | mem
    · obtain ⟨a, inOld, own⟩ := List.mem_flatMap.1 mem
      obtain ⟨b, found, related⟩ := kept a inOld
      rw [found] at own
      exact related c own
    · obtain ⟨b, _, rfl⟩ := List.mem_map.1 mem
      exact welcome b

/-- What is kept twice is kept. -/
theorem Kept.trans (through : ∀ a b c, R a b → S b c → T a c) (first : Kept key R old mid)
    (second : Kept key S mid new) : Kept key T old new := by
  intro a mem
  obtain ⟨b, found, related⟩ := first a mem
  obtain ⟨inMid, same⟩ := findKey_some found
  obtain ⟨c, found', related'⟩ := second b inMid
  exact ⟨c, same ▸ found', through a b c related related'⟩

/-! ## The comparison the other way round -/

theorem mem_diff_iff (distinct : (new.map key).Nodup) {c : γ} :
    c ∈ diff key removed compare added old new ↔
      (∃ a ∈ old, (∀ b ∈ new, key b ≠ key a) ∧ c = removed a) ∨
      (∃ a ∈ old, ∃ b ∈ new, key b = key a ∧ c ∈ compare a b) ∨
      ∃ b ∈ new, (∀ a ∈ old, key a ≠ key b) ∧ c = added b := by
  rw [diff, List.mem_append, List.mem_flatMap, ← or_assoc]
  apply or_congr
  · constructor
    · rintro ⟨a, mem, own⟩
      cases found : findKey key new (key a) with
      | none =>
        rw [found] at own
        exact .inl ⟨a, mem, findKey_none.1 found, List.mem_singleton.1 own⟩
      | some b =>
        rw [found] at own
        obtain ⟨inNew, same⟩ := findKey_some found
        exact .inr ⟨a, mem, b, inNew, same, own⟩
    · rintro (⟨a, mem, gone, rfl⟩ | ⟨a, mem, b, inNew, same, own⟩)
      · refine ⟨a, mem, ?_⟩
        rw [findKey_none.2 gone]
        exact List.mem_singleton_self _
      · refine ⟨a, mem, ?_⟩
        rw [← same, findKey_of_mem distinct inNew]
        exact own
  · simp only [List.mem_map, List.mem_filter, Bool.not_eq_true', List.any_eq_false,
      decide_eq_true_eq, and_assoc]
    apply exists_congr
    intro b
    apply and_congr_right
    intro _
    exact and_congr_right fun _ => eq_comm

/-- What went one way came the other way. -/
theorem mem_diff_swap (swap : γ → γ) (distinct : (old.map key).Nodup) (distinct' : (new.map key).Nodup)
    (gone : ∀ c a, c = removed a ↔ swap c = added a) (came : ∀ c a, c = added a ↔ swap c = removed a)
    (turned : ∀ a ∈ old, ∀ b ∈ new, key b = key a → ∀ c, c ∈ compare a b ↔ swap c ∈ compare b a)
    {c : γ} :
    c ∈ diff key removed compare added old new ↔
      swap c ∈ diff key removed compare added new old := by
  rw [mem_diff_iff distinct', mem_diff_iff distinct]
  constructor
  · rintro (⟨a, mem, apart, rfl⟩ | ⟨a, mem, b, mem', same, own⟩ | ⟨b, mem, apart, rfl⟩)
    · exact .inr (.inr ⟨a, mem, apart, (gone _ a).1 rfl⟩)
    · exact .inr (.inl ⟨b, mem', a, mem, same.symm, (turned a mem b mem' same c).1 own⟩)
    · exact .inl ⟨b, mem, apart, (came _ b).1 rfl⟩
  · rintro (⟨b, mem, apart, whole⟩ | ⟨b, mem', a, mem, same, own⟩ | ⟨a, mem, apart, whole⟩)
    · exact .inr (.inr ⟨b, mem, apart, (came c b).2 whole⟩)
    · exact .inr (.inl ⟨a, mem, b, mem', same.symm, (turned a mem b mem' same.symm c).2 own⟩)
    · exact .inl ⟨a, mem, apart, (gone c a).2 whole⟩

/-! ## Describing what was found -/

theorem map_diff (f : γ → δ) :
    (diff key removed compare added old new).map f =
      diff key (f ∘ removed) (fun a b => (compare a b).map f) (f ∘ added) old new := by
  rw [diff, List.map_append, List.map_flatMap, List.map_map]
  congr 1
  apply List.flatMap_congr
  intro a _
  cases findKey key new (key a) with
  | none => rfl
  | some b => rfl

theorem diff_congr {compare' : α → α → List γ}
    (same : ∀ a ∈ old, ∀ b ∈ new, key b = key a → compare a b = compare' a b) :
    diff key removed compare added old new = diff key removed compare' added old new := by
  rw [diff, diff]
  congr 1
  apply List.flatMap_congr
  intro a mem
  cases found : findKey key new (key a) with
  | none => rfl
  | some b =>
    obtain ⟨inNew, agree⟩ := findKey_some found
    exact same a mem b inNew agree

end KeyedDiff
