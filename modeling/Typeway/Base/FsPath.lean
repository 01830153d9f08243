import Typeway.Base.Segments

/-!
# File paths

Paths of a file system without links, as texts. `join` is `PathBuf::join`, which an absolute
argument replaces; `locate` is the place a path names from a working directory. `Under` compares
places, so `..` and doubled slashes in a path do not hide where it leads.
-/

namespace FsPath

open Segments

abbrev FilePath := List Char

def isAbsolute (p : FilePath) : Bool :=
  p.head? = some '/'

def join (base p : FilePath) : FilePath :=
  if isAbsolute p then p
  else if base = [] ∨ base.getLast? = some '/' then base ++ p
  else base ++ '/' :: p

/-- One component, from a directory. -/
def step (place : List FilePath) (component : FilePath) : List FilePath :=
  if component = [] ∨ component = ['.'] then place
  else if component = ['.', '.'] then place.dropLast
  else place ++ [component]

def locate (cwd : List FilePath) (p : FilePath) : List FilePath :=
  (p.splitOn '/').foldl step (if isAbsolute p then [] else cwd)

def Under (cwd : List FilePath) (dir p : FilePath) : Prop :=
  locate cwd dir <+: locate cwd p

/-- The place of the components of a relative path, from a directory. -/
def descend (place : List FilePath) (p : FilePath) : List FilePath :=
  (p.splitOn '/').foldl step place

@[simp] theorem step_nil (place : List FilePath) : step place [] = place :=
  if_pos (.inl rfl)

theorem descend_append (place : List FilePath) (base p : FilePath) :
    descend place (base ++ '/' :: p) = descend (descend place base) p := by
  rw [descend, List.splitOn_append_cons_self, List.foldl_append]
  rfl

/-- A relative path is joined by going on from the place of the base. -/
theorem locate_join {cwd : List FilePath} {base p : FilePath} (relative : isAbsolute p = false) :
    locate cwd (join base p) = descend (locate cwd base) p := by
  rw [join, relative, if_neg Bool.false_ne_true]
  split
  · rename_i open_
    rcases open_ with rfl | slash
    · rw [List.nil_append, locate, relative]
      rfl
    · obtain ⟨front, rfl⟩ := List.getLast?_eq_some_iff.1 slash
      have place : locate cwd (front ++ ['/']) =
          descend (if isAbsolute (front ++ ['/']) then [] else cwd) front := by
        rw [locate, List.splitOn_append_cons_self, List.foldl_append]
        exact step_nil _
      have head : isAbsolute (front ++ ['/'] ++ p) = isAbsolute (front ++ ['/']) := by
        cases front <;> rfl
      rw [place, locate, head, List.append_assoc]
      exact descend_append _ front p
  · rename_i closed
    have head : isAbsolute (base ++ '/' :: p) = isAbsolute base := by
      cases base with
      | nil => exact absurd (.inl rfl) closed
      | cons c base => rfl
    rw [locate, head]
    exact descend_append _ base p

/-- A component of a text is a part of it. -/
theorem infix_of_mem_splitOn {p component : FilePath} (h : component ∈ p.splitOn '/') :
    component <:+: p := by
  generalize size : p.length = n
  induction n using Nat.strongRecOn generalizing p with
  | ind n ih =>
    rcases cut '/' p with whole | ⟨first, rest, rfl, clean⟩
    · rw [List.splitOn_eq_singleton whole, List.mem_singleton] at h
      exact h ▸ List.infix_refl _
    · rw [List.splitOn_append_cons_self_of_not_mem clean, List.mem_cons] at h
      rcases h with rfl | h
      · exact (List.prefix_append _ _).isInfix
      · have small : rest.length < n := by
          rw [List.length_append, List.length_cons] at size
          omega
        have part := ih _ small h rfl
        exact part.trans ((List.suffix_cons _ _).trans (List.suffix_append _ _)).isInfix

/-- Without `..` in it a relative path leads down. -/
theorem prefix_descend {p : FilePath} (noParent : ¬ ['.', '.'] <:+: p) (place : List FilePath) :
    place <+: descend place p := by
  rw [descend]
  have steps : ∀ component ∈ p.splitOn '/', component ≠ ['.', '.'] := by
    rintro component mem rfl
    exact noParent (infix_of_mem_splitOn mem)
  generalize p.splitOn '/' = components at steps
  induction components generalizing place with
  | nil => exact List.prefix_refl _
  | cons c components ih =>
    rw [List.foldl_cons]
    have one : place <+: step place c := by
      rw [step, if_neg (steps c List.mem_cons_self)]
      split
      · exact List.prefix_refl _
      · exact List.prefix_append _ _
    exact one.trans (ih _ fun c mem => steps c (List.mem_cons_of_mem _ mem))

theorem under_join {cwd : List FilePath} {dir p : FilePath} (relative : isAbsolute p = false)
    (noParent : ¬ ['.', '.'] <:+: p) : Under cwd dir (join dir p) := by
  rw [Under, locate_join relative]
  exact prefix_descend noParent _

theorem Under.trans {cwd : List FilePath} {dir p q : FilePath} (h : Under cwd dir p)
    (h' : Under cwd p q) : Under cwd dir q :=
  List.IsPrefix.trans h h'

end FsPath
