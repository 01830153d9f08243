import Mathlib.Data.List.AList

/-!
# Pools of resources

A stack of idle resources from which guards borrow, each the one that was given back last or a
fresh one. Resources are told apart by the order in which they were made, and guards by the order
in which they borrowed. Calls come in any order, from any number of users.
-/

namespace Pool

variable {α O : Type}

structure Item (α : Type) where
  made : Nat
  value : α

structure State (α : Type) where
  /-- The top of the stack first. -/
  idle : List (Item α)
  lent : AList fun _ : Nat => Item α
  made : Nat
  borrows : Nat

/-- A call on the pool, or on a guard. -/
inductive Call (α O : Type) where
  | borrow
  | use (guard : Nat) (run : α → O × α)
  | giveBack (guard : Nat)

namespace State

def live (s : State α) : Nat :=
  s.lent.entries.length

/-- The resources that are somewhere. -/
def numbers (s : State α) : List Nat :=
  s.idle.map Item.made ++ s.lent.entries.map fun e => e.2.made

variable (fresh : α) (reset : α → α)

/-- A pool of so many fresh resources. -/
def start (count : Nat) : State α where
  idle := (List.range count).map fun n => ⟨n, fresh⟩
  lent := ∅
  made := count
  borrows := 0

def borrow (s : State α) : State α :=
  match s.idle with
  | item :: idle =>
    { s with idle := idle, lent := s.lent.insert s.borrows item, borrows := s.borrows + 1 }
  | [] =>
    { s with
      lent := s.lent.insert s.borrows ⟨s.made, fresh⟩
      made := s.made + 1
      borrows := s.borrows + 1 }

/-- A call, with what it returns. A guard that is gone cannot be used. -/
def step (s : State α) : Call α O → Option (Option O × State α)
  | .borrow => some (none, s.borrow fresh)
  | .use guard run =>
    (s.lent.lookup guard).map fun item =>
      (some (run item.value).1,
        { s with lent := (s.lent.erase guard).insert guard ⟨item.made, (run item.value).2⟩ })
  | .giveBack guard =>
    (s.lent.lookup guard).map fun item =>
      (none, { s with
        idle := ⟨item.made, reset item.value⟩ :: s.idle
        lent := s.lent.erase guard })

/-- The calls one after another, with what they return. -/
def run (s : State α) : List (Call α O) → Option (List O × State α)
  | [] => some ([], s)
  | call :: calls =>
    (s.step fresh reset call).bind fun (out, s') =>
      (s'.run calls).map fun (outs, s'') => (out.toList ++ outs, s'')

/-- The most guards that are alive at once. -/
def peak (s : State α) : List (Call α O) → Nat
  | [] => s.live
  | call :: calls =>
    match s.step fresh reset call with
    | some (_, s') => max s.live (s'.peak calls)
    | none => s.live

end State

open State

/-- Every resource is in one place, idle ones are as they are when they come back, and guards have
numbers that are given out. -/
structure Sound (Idle : α → Prop) (s : State α) : Prop where
  accounted : s.numbers.Perm (List.range s.made)
  idle : ∀ item ∈ s.idle, Idle item.value
  borrowed : ∀ guard ∈ s.lent, guard < s.borrows

/-! ## Guards -/

theorem entries_perm {β : Nat → Type} {m : AList β} {guard : Nat} {b : β guard}
    (found : m.lookup guard = some b) : m.entries.Perm (⟨guard, b⟩ :: (m.erase guard).entries) := by
  have mem : guard ∈ m.entries.keys := AList.lookup_isSome.1 (by rw [found]; rfl)
  obtain ⟨b', before, after, -, split, erased⟩ := List.exists_of_kerase mem
  have same : b' = b := by
    have here : b' ∈ m.lookup guard := by
      rw [AList.lookup, List.mem_dlookup_iff m.nodupKeys, split]
      simp
    rw [found] at here
    exact (Option.some.inj here).symm
  show m.entries.Perm (⟨guard, b⟩ :: List.kerase guard m.entries)
  rw [erased, split, same]
  exact List.perm_middle

theorem entries_insert_new {β : Nat → Type} {m : AList β} {guard : Nat} (b : β guard)
    (absent : guard ∉ m) : (m.insert guard b).entries = ⟨guard, b⟩ :: m.entries := by
  show List.kinsert guard b m.entries = _
  rw [List.kinsert_def, List.kerase_of_notMem_keys absent]

/-! ## One call -/

section

variable {fresh : α} {reset : α → α} {Idle : α → Prop} {s : State α}

theorem sound_start (idle : Idle fresh) (count : Nat) : Sound Idle (start fresh count) where
  accounted := by
    have numbers : (start fresh count).numbers = List.range count := by
      simp [start, numbers, Function.comp_def]
    rw [numbers]
    exact List.Perm.refl _
  idle item mem := by
    obtain ⟨n, -, rfl⟩ := List.mem_map.1 mem
    exact idle
  borrowed guard mem := absurd mem (AList.notMem_empty guard)

theorem Sound.live_le (sound : Sound Idle s) : s.idle.length + s.live = s.made := by
  have same := sound.accounted.length_eq
  simpa [numbers, live] using same

theorem Sound.unborrowed (sound : Sound Idle s) : s.borrows ∉ s.lent := by
  intro mem
  have below := sound.borrowed _ mem
  omega

/-- A borrow lends what is idle, or makes one resource more. -/
theorem Sound.borrow (sound : Sound Idle s) :
    Sound Idle (s.borrow fresh) ∧ (s.borrow fresh).made = max s.made (s.borrow fresh).live := by
  have new := sound.unborrowed
  have accounted := sound.accounted
  have total := sound.live_le
  unfold State.borrow
  cases idle : s.idle with
  | nil =>
    dsimp only
    have entries := entries_insert_new (⟨s.made, fresh⟩ : Item α) new
    rw [State.numbers, idle] at accounted
    rw [idle] at total
    refine ⟨⟨?_, ?_, ?_⟩, ?_⟩
    · rw [State.numbers, entries, List.range_succ]
      exact (List.Perm.cons _ accounted).trans (List.perm_append_singleton _ _).symm
    · intro item mem
      cases mem
    · intro guard mem
      rcases AList.mem_insert _ |>.1 mem with rfl | mem
      · exact Nat.lt_succ_self _
      · exact Nat.lt_succ_of_lt (sound.borrowed guard mem)
    · rw [State.live, entries, List.length_cons]
      rw [State.live] at total
      simp only [List.length_nil] at total
      omega
  | cons item others =>
    dsimp only
    have entries := entries_insert_new item new
    rw [State.numbers, idle] at accounted
    rw [idle] at total
    refine ⟨⟨?_, ?_, ?_⟩, ?_⟩
    · rw [State.numbers, entries]
      exact List.perm_middle.trans accounted
    · intro other mem
      exact sound.idle other (idle ▸ List.mem_cons_of_mem _ mem)
    · intro guard mem
      rcases AList.mem_insert _ |>.1 mem with rfl | mem
      · exact Nat.lt_succ_self _
      · exact Nat.lt_succ_of_lt (sound.borrowed guard mem)
    · rw [State.live, entries, List.length_cons]
      rw [State.live, List.length_cons] at total
      omega

/-- Whatever is done with a resource, it stays lent. -/
theorem Sound.use (sound : Sound Idle s) {guard : Nat} {item : Item α}
    (found : s.lent.lookup guard = some item) (value : α) :
    Sound Idle { s with lent := (s.lent.erase guard).insert guard ⟨item.made, value⟩ } ∧
      ({ s with lent := (s.lent.erase guard).insert guard ⟨item.made, value⟩ } : State α).live =
        s.live := by
  have gone : guard ∉ s.lent.erase guard := fun mem => (AList.mem_erase.1 mem).1 rfl
  have entries := entries_insert_new (⟨item.made, value⟩ : Item α) gone
  have perm := entries_perm found
  refine ⟨⟨?_, sound.idle, ?_⟩, ?_⟩
  · have numbers := perm.map fun e : Sigma fun _ : Nat => Item α => e.2.made
    rw [State.numbers, entries]
    exact (List.Perm.append_left _ numbers.symm).trans sound.accounted
  · intro other mem
    rcases AList.mem_insert _ |>.1 mem with rfl | mem
    · exact sound.borrowed _ (AList.lookup_isSome.1 (by rw [found]; rfl))
    · exact sound.borrowed other (AList.mem_erase.1 mem).2
  · rw [State.live, State.live, entries, perm.length_eq, List.length_cons, List.length_cons]

/-- What is given back lies on top. -/
theorem Sound.giveBack (sound : Sound Idle s) (resets : ∀ a, Idle (reset a)) {guard : Nat}
    {item : Item α} (found : s.lent.lookup guard = some item) :
    let s' : State α := { s with
      idle := ⟨item.made, reset item.value⟩ :: s.idle
      lent := s.lent.erase guard }
    Sound Idle s' ∧ s'.live + 1 = s.live := by
  have perm := entries_perm found
  refine ⟨⟨?_, ?_, ?_⟩, ?_⟩
  · have numbers := perm.map fun e : Sigma fun _ : Nat => Item α => e.2.made
    refine List.Perm.trans ?_ sound.accounted
    refine List.Perm.trans ?_ (List.Perm.append_left _ numbers).symm
    exact List.perm_middle.symm
  · intro other mem
    rcases List.mem_cons.1 mem with rfl | mem
    · exact resets item.value
    · exact sound.idle other mem
  · intro other mem
    exact sound.borrowed other (AList.mem_erase.1 mem).2
  · rw [State.live, State.live, perm.length_eq, List.length_cons]

/-- **One call**: no resource is lost or lent twice, and a new one is made only when all are lent. -/
theorem Sound.step (sound : Sound Idle s) (resets : ∀ a, Idle (reset a)) {call : Call α O}
    {out : Option O} {s' : State α} (called : s.step fresh reset call = some (out, s')) :
    Sound Idle s' ∧ s'.made = max s.made s'.live := by
  have total := sound.live_le
  cases call with
  | borrow =>
    cases called
    exact sound.borrow
  | use guard run =>
    obtain ⟨item, found, same⟩ := Option.map_eq_some_iff.1 called
    cases same
    obtain ⟨kept, live⟩ := sound.use found (run item.value).2
    refine ⟨kept, ?_⟩
    rw [live]
    dsimp only
    omega
  | giveBack guard =>
    obtain ⟨item, found, same⟩ := Option.map_eq_some_iff.1 called
    cases same
    obtain ⟨kept, live⟩ := sound.giveBack resets found
    refine ⟨kept, ?_⟩
    dsimp only at live ⊢
    omega

/-! ## Many calls -/

theorem live_le_peak (s : State α) (calls : List (Call α O)) :
    s.live ≤ s.peak fresh reset calls := by
  cases calls with
  | nil => exact Nat.le_refl _
  | cons call calls =>
    rw [peak]
    cases s.step fresh reset call with
    | none => exact Nat.le_refl _
    | some next => exact Nat.le_max_left _ _

/-- **Calls in any order**: every resource is in one place, and there are as many as there were at
first or as were lent at once. -/
theorem Sound.run (sound : Sound Idle s) (resets : ∀ a, Idle (reset a)) {calls : List (Call α O)}
    {outs : List O} {s' : State α} (called : s.run fresh reset calls = some (outs, s')) :
    Sound Idle s' ∧ s'.made = max s.made (s.peak fresh reset calls) := by
  induction calls generalizing s outs with
  | nil =>
    cases called
    refine ⟨sound, ?_⟩
    have total := sound.live_le
    rw [peak]
    omega
  | cons call calls ih =>
    obtain ⟨⟨out, next⟩, first, others⟩ := Option.bind_eq_some_iff.1 called
    obtain ⟨⟨outs', last⟩, ran, same⟩ := Option.map_eq_some_iff.1 others
    cases same
    obtain ⟨kept, made⟩ := sound.step resets first
    obtain ⟨final, total⟩ := ih kept ran
    refine ⟨final, ?_⟩
    have at_least : next.live ≤ next.peak fresh reset calls := live_le_peak next calls
    have before := sound.live_le
    rw [total, made, peak, first]
    dsimp only
    omega

/-- Two guards that are alive never hold the same resource, and no idle one is lent. -/
theorem Sound.apart (sound : Sound Idle s) : s.numbers.Nodup :=
  sound.accounted.nodup_iff.2 List.nodup_range

end

end Pool
