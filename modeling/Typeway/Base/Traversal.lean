import Mathlib.Data.List.Dedup
import Mathlib.Data.List.Perm.Subperm
import Mathlib.Data.List.Pairwise
import Mathlib.Logic.Relation

/-!
# Depth-first visits

A visit goes over the keys that are to be done, leaves out those it has seen, and does what a key
leads to before the next one. `Visits seen todo visited` says which keys it comes to, in their
order. Started on nothing seen, it comes to every key that can be reached, once.
-/

namespace Traversal

open Relation

variable {κ α : Type}

/-- The visit of a list of keys, and the keys it came to. -/
inductive Visits (next : κ → List κ) : List κ → List κ → List κ → Prop
  | nil (seen : List κ) : Visits next seen [] []
  | skip {seen todo visited : List κ} {k : κ} (old : k ∈ seen) (rest : Visits next seen todo visited) :
    Visits next seen (k :: todo) visited
  | visit {seen todo inner visited : List κ} {k : κ} (fresh : k ∉ seen)
    (below : Visits next (seen ++ [k]) (next k) inner)
    (rest : Visits next (seen ++ k :: inner) todo visited) :
    Visits next seen (k :: todo) (k :: (inner ++ visited))

variable {next : κ → List κ} {seen todo visited : List κ}

namespace Visits

theorem fresh (h : Visits next seen todo visited) : visited.Nodup ∧ ∀ k ∈ visited, k ∉ seen := by
  induction h with
  | nil seen => exact ⟨List.nodup_nil, List.forall_mem_nil _⟩
  | skip _ _ ih => exact ih
  | @visit seen todo inner visited k fresh _ _ ihBelow ihRest =>
    obtain ⟨nodupInner, freshInner⟩ := ihBelow
    obtain ⟨nodupRest, freshRest⟩ := ihRest
    simp only [List.mem_append, List.mem_cons, List.not_mem_nil, not_or] at freshInner freshRest
    constructor
    · refine List.nodup_cons.2 ⟨?_, List.nodup_append.2 ⟨nodupInner, nodupRest, ?_⟩⟩
      · intro mem
        obtain mem | mem := List.mem_append.1 mem
        · exact (freshInner k mem).2.1 rfl
        · exact (freshRest k mem).2.1 rfl
      · rintro a inInner b inRest rfl
        exact (freshRest a inRest).2.2 inInner
    · intro a mem
      obtain rfl | mem := List.mem_cons.1 mem
      · exact fresh
      · obtain mem | mem := List.mem_append.1 mem
        · exact (freshInner a mem).1
        · exact (freshRest a mem).1

theorem reached (h : Visits next seen todo visited) :
    ∀ k ∈ visited, ∃ root ∈ todo, ReflTransGen (fun a b => b ∈ next a) root k := by
  induction h with
  | nil seen => exact List.forall_mem_nil _
  | skip _ _ ih =>
    intro a mem
    obtain ⟨root, inTodo, path⟩ := ih a mem
    exact ⟨root, List.mem_cons_of_mem _ inTodo, path⟩
  | @visit seen todo inner visited k _ _ _ ihBelow ihRest =>
    intro a mem
    obtain rfl | mem := List.mem_cons.1 mem
    · exact ⟨a, List.mem_cons_self, .refl⟩
    · obtain mem | mem := List.mem_append.1 mem
      · obtain ⟨root, inNext, path⟩ := ihBelow a mem
        exact ⟨k, List.mem_cons_self, .head inNext path⟩
      · obtain ⟨root, inTodo, path⟩ := ihRest a mem
        exact ⟨root, List.mem_cons_of_mem _ inTodo, path⟩

/-- What is to be done is done, and so is what the keys on the way lead to. -/
theorem closed (h : Visits next seen todo visited) :
    (∀ k ∈ todo, k ∈ seen ++ visited) ∧ ∀ k ∈ visited, ∀ b ∈ next k, b ∈ seen ++ visited := by
  induction h with
  | nil seen => exact ⟨List.forall_mem_nil _, List.forall_mem_nil _⟩
  | skip old _ ih =>
    exact ⟨List.forall_mem_cons.2 ⟨List.mem_append_left _ old, ih.1⟩, ih.2⟩
  | @visit seen todo inner visited k _ _ _ ihBelow ihRest =>
    have regroup : seen ++ k :: inner ++ visited = seen ++ k :: (inner ++ visited) := by simp
    have sub {a : κ} (mem : a ∈ seen ++ [k] ++ inner) : a ∈ seen ++ k :: (inner ++ visited) := by
      rw [← regroup, List.append_cons]
      exact List.mem_append_left _ mem
    rw [regroup] at ihRest
    constructor
    · refine List.forall_mem_cons.2 ⟨?_, ihRest.1⟩
      exact List.mem_append_right _ List.mem_cons_self
    · intro a mem b step
      obtain rfl | mem := List.mem_cons.1 mem
      · exact sub (ihBelow.1 b step)
      · obtain mem | mem := List.mem_append.1 mem
        · exact sub (ihBelow.2 a mem b step)
        · exact ihRest.2 a mem b step

/-- A visit from the start comes to what can be reached. -/
theorem mem_iff (h : Visits next [] todo visited) {k : κ} :
    k ∈ visited ↔ ∃ root ∈ todo, ReflTransGen (fun a b => b ∈ next a) root k := by
  obtain ⟨roots, steps⟩ := h.closed
  constructor
  · exact h.reached k
  · rintro ⟨root, inTodo, path⟩
    induction path with
    | refl => exact roots root inTodo
    | tail _ step ih => exact steps _ ih _ step

end Visits

/-! ## What is left to see -/

section

variable [DecidableEq κ]

/-- The keys of a list that were not seen yet. -/
def unseen (all seen : List κ) : Nat :=
  all.countP fun k => k ∉ seen

theorem unseen_append_le (all seen more : List κ) : unseen all (seen ++ more) ≤ unseen all seen := by
  apply List.countP_mono_left
  intro k _ fresh
  simp only [decide_eq_true_eq] at fresh ⊢
  exact fun old => fresh (List.mem_append_left _ old)

/-- Seeing a key leaves fewer of them. -/
theorem unseen_lt {all seen : List κ} {k : κ} (mem : k ∈ all) (fresh : k ∉ seen) :
    unseen all (seen ++ [k]) < unseen all seen := by
  induction all with
  | nil => cases mem
  | cons a all ih =>
    have shrinks := unseen_append_le all seen [k]
    unfold unseen at ih shrinks ⊢
    by_cases same : a = k
    · subst same
      rw [List.countP_cons_of_neg (by simp), List.countP_cons_of_pos (by simpa using fresh)]
      exact Nat.lt_succ_of_le shrinks
    · have inTail : k ∈ all := (List.mem_cons.1 mem).resolve_left (Ne.symm same)
      by_cases old : a ∈ seen
      · rw [List.countP_cons_of_neg (by simp [old]), List.countP_cons_of_neg (by simp [old])]
        exact ih inTail
      · rw [List.countP_cons_of_pos (by simp [old, same]), List.countP_cons_of_pos (by simpa using old)]
        exact Nat.succ_lt_succ (ih inTail)

end

/-! ## Things under several keys -/

section

variable {β : Type} (name : κ → Option α)

/-- Nothing of a kind stands under two of the keys. -/
def NamedOnce (P : α → Prop) (keys : List κ) : Prop :=
  ∀ k ∈ keys, ∀ k' ∈ keys, ∀ a, name k = some a → name k' = some a → P a → k = k'

variable {name}

theorem nodup_named_iff {P : α → Prop} [DecidablePred P] {keys : List κ} (distinct : keys.Nodup) :
    ((keys.filterMap name).filter (P ·)).Nodup ↔ NamedOnce name P keys := by
  rw [List.Nodup, List.pairwise_filter, List.pairwise_filterMap]
  constructor
  · intro pairs k inK k' inK' a named named' kind
    let Apart (x y : κ) : Prop := ∀ a, name x = some a → name y = some a → ¬ P a
    have symm : Std.Symm Apart := ⟨fun x y apart a hy hx => apart a hx hy⟩
    have apart : keys.Pairwise Apart := pairs.imp fun h a hx hy kind =>
      h a hx a hy (by simpa using kind) (by simpa using kind) rfl
    by_contra other
    exact apart.forall inK inK' other a named named' kind
  · intro once
    apply List.Pairwise.imp_of_mem _ distinct
    intro k k' inK inK' other a named b named' kind _ same
    rw [← same] at named'
    exact other (once k inK k' inK' a named named' (by simpa using kind))

/-- What has nothing adds nothing. -/
theorem flatMap_filter_of_empty {P : α → Prop} [DecidablePred P] {content : α → List β}
    (empty : ∀ a, ¬ P a → content a = []) (things : List α) :
    (things.filter (P ·)).flatMap content = things.flatMap content := by
  induction things with
  | nil => rfl
  | cons a things ih =>
    by_cases kind : P a
    · rw [List.filter_cons_of_pos (by simpa using kind), List.flatMap_cons, List.flatMap_cons, ih]
    · rw [List.filter_cons_of_neg (by simpa using kind), List.flatMap_cons, empty a kind, ih,
        List.nil_append]

/-- Where nothing with content comes twice, the contents are those of the things there are. -/
theorem flatMap_perm {P : α → Prop} [DecidablePred P] {content : α → List β}
    (empty : ∀ a, ¬ P a → content a = []) {things listed : List α}
    (once : (things.filter (P ·)).Nodup) (distinct : listed.Nodup)
    (same : ∀ a, a ∈ listed ↔ a ∈ things) :
    (things.flatMap content).Perm (listed.flatMap content) := by
  rw [← flatMap_filter_of_empty empty things, ← flatMap_filter_of_empty empty listed]
  apply List.Perm.flatMap_right
  apply (List.perm_ext_iff_of_nodup once (distinct.filter _)).2
  intro a
  rw [List.mem_filter, List.mem_filter, same]

/-- What is there besides has nothing when the contents do not show it. -/
theorem eq_nil_of_flatMap_perm {content : α → List β} {things listed more : List α}
    (split : (listed ++ more).Perm things)
    (perm : (things.flatMap content).Perm (listed.flatMap content)) :
    ∀ a ∈ more, content a = [] := by
  have lengths := ((split.flatMap_right content).trans perm).length_eq
  rw [List.flatMap_append, List.length_append] at lengths
  have none : more.flatMap content = [] := List.length_eq_zero_iff.1 (by omega)
  exact List.flatMap_eq_nil_iff.1 none

/-- The contents under some keys are those of each thing once if and only if no thing with
content stands under two of the keys. -/
theorem listed_once_iff {γ : Type} (content : α → List β) (extra : α → List γ) {keys : List κ}
    (distinct : keys.Nodup) :
    (∃ listed : List α, listed.Nodup ∧ (∀ a, a ∈ listed ↔ ∃ k ∈ keys, name k = some a) ∧
        ((keys.filterMap name).flatMap content).Perm (listed.flatMap content) ∧
        ((keys.filterMap name).flatMap extra).Perm (listed.flatMap extra)) ↔
      NamedOnce name (fun a => content a ≠ [] ∨ extra a ≠ []) keys := by
  classical
  rw [← nodup_named_iff distinct]
  constructor
  · rintro ⟨listed, distinct', same, perm, perm'⟩
    have inside : listed.Subperm (keys.filterMap name) :=
      List.subperm_of_subset distinct' fun a mem => List.mem_filterMap.2 ((same a).1 mem)
    have split : (listed ++ (keys.filterMap name).diff listed).Perm (keys.filterMap name) :=
      List.subperm_append_diff_self_of_count_le fun a _ => inside.count_le a
    have idle : ((keys.filterMap name).diff listed).filter
        (fun a => decide (content a ≠ [] ∨ extra a ≠ [])) = [] := by
      apply List.filter_eq_nil_iff.2
      intro a mem
      have none := eq_nil_of_flatMap_perm split perm a mem
      have none' := eq_nil_of_flatMap_perm split perm' a mem
      simp [none, none']
    have kept := split.filter fun a => decide (content a ≠ [] ∨ extra a ≠ [])
    rw [List.filter_append, idle, List.append_nil] at kept
    exact kept.nodup (distinct'.filter _)
  · intro once
    refine ⟨(keys.filterMap name).dedup, List.nodup_dedup _, fun a => ?_, ?_, ?_⟩
    · rw [List.mem_dedup, List.mem_filterMap]
    · exact flatMap_perm (fun a none => Classical.not_not.1 (not_or.1 none).1) once
        (List.nodup_dedup _) fun a => List.mem_dedup
    · exact flatMap_perm (fun a none => Classical.not_not.1 (not_or.1 none).2) once
        (List.nodup_dedup _) fun a => List.mem_dedup

end

end Traversal
