import Mathlib.Data.Fintype.Order
import Mathlib.Data.List.Basic
import Mathlib.Logic.Relation
import Mathlib.Order.WellFounded

/-!
# Descents in finite graphs

`next a b` says that `a` refers to `b`. Following references from a node comes to an end exactly
if no cycle is met, provided that only finitely many nodes refer to anything.
-/

namespace Acyclic

open Relation

variable {α : Type} (next : α → α → Prop)

/-- Every way on from here ends. -/
abbrev Ends (a : α) : Prop :=
  Acc (fun b a => next a b) a

/-- Some way on from here comes to a node that refers back to itself. -/
def MeetsCycle (a : α) : Prop :=
  ∃ b, ReflTransGen next a b ∧ TransGen next b b

variable {next}

theorem Ends.reaches {a b : α} (ends : Ends next a) (reach : ReflTransGen next a b) :
    Ends next b := by
  induction reach with
  | refl => exact ends
  | tail _ step ih => exact ih.inv step

theorem Ends.no_cycle {a : α} (ends : Ends next a) : ¬ TransGen next a a := by
  induction ends with
  | intro a _ ih =>
    intro cycle
    obtain ⟨b, step, back⟩ := TransGen.head'_iff.1 cycle
    exact ih b step (TransGen.tail' back step)

theorem Ends.not_meetsCycle {a : α} (ends : Ends next a) : ¬ MeetsCycle next a := by
  intro h
  obtain ⟨b, reach, cycle⟩ := h
  exact (ends.reaches reach).no_cycle cycle

theorem ends_of_not_meetsCycle {nodes : List α} (inner : ∀ a b, next a b → a ∈ nodes) {a : α}
    (free : ¬ MeetsCycle next a) : Ends next a := by
  classical
  -- the nodes reached from `a`, of which there are finitely many
  let Reached := {b : nodes.toFinset // ReflTransGen next a b}
  let below : Reached → Reached → Prop := fun c b => TransGen next b.1 c.1
  have trans : IsTrans Reached below := ⟨fun _ _ _ first second => second.trans first⟩
  have irrefl : Std.Irrefl below := ⟨fun b cycle => free ⟨b.1, b.2, cycle⟩⟩
  have wf : WellFounded below := Finite.wellFounded_of_trans_of_irrefl below
  have leaf {b : α} (none : b ∉ nodes) : Ends next b := by
    constructor
    intro c step
    exact absurd (inner b c step) none
  have reached : ∀ b : Reached, Ends next b.1.1 := by
    intro b
    induction b using wf.induction with
    | _ b ih =>
      constructor
      intro c step
      by_cases mem : c ∈ nodes
      · exact ih ⟨⟨c, List.mem_toFinset.2 mem⟩, b.2.tail step⟩ (.single step)
      · exact leaf mem
  by_cases mem : a ∈ nodes
  · exact reached ⟨⟨a, List.mem_toFinset.2 mem⟩, .refl⟩
  · exact leaf mem

theorem ends_iff {nodes : List α} (inner : ∀ a b, next a b → a ∈ nodes) {a : α} :
    Ends next a ↔ ¬ MeetsCycle next a :=
  ⟨Ends.not_meetsCycle, ends_of_not_meetsCycle inner⟩

end Acyclic
