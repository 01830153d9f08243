import Typeway.Core.Path

/-!
# The radix trie

`matchit` is a crate of its own. What the router uses of it is a table of patterns in the order
of their insertion: an insert is refused when it conflicts with an earlier one, and a lookup
picks one of the patterns that fit the path. `Matchit` leaves open which are refused and which
is picked; `documented` is a table that keeps to the crate's documentation.
-/

namespace Typeway.Server

open Typeway.Core

structure Matchit where
  /-- The pattern fits the path, whatever else is in the table. -/
  fits : Str → Str → Bool
  accepts : List Str → Str → Bool
  /-- The position of the pattern that a lookup picks. -/
  select : List Str → Str → Option Nat
  select_fits : ∀ {patterns path j}, select patterns path = some j →
    ∃ pattern, patterns[j]? = some pattern ∧ fits pattern path = true
  select_none : ∀ {patterns path}, select patterns path = none →
    ∀ pattern ∈ patterns, fits pattern path = false

/-- The tables that inserts make. -/
inductive Matchit.Grown (M : Matchit) : List Str → Prop where
  | nil : M.Grown []
  | insert {patterns : List Str} {pattern : Str} (grown : M.Grown patterns)
      (accepts : M.accepts patterns pattern = true) : M.Grown (patterns ++ [pattern])

/-- No pattern is accepted twice, and a lookup picks the most specific of those that fit. -/
structure Matchit.MostSpecific (M : Matchit) (precedes : Str → Str → Bool) : Prop where
  once : ∀ {patterns pattern}, M.accepts patterns pattern = true → pattern ∉ patterns
  foremost : ∀ {patterns path j pattern}, M.Grown patterns → M.select patterns path = some j →
    patterns[j]? = some pattern → ∀ other ∈ patterns, M.fits other path = true →
      other ≠ pattern → precedes pattern other = true ∧ precedes other pattern = false

theorem Matchit.Grown.nodup {M : Matchit} {precedes : Str → Str → Bool}
    (specific : M.MostSpecific precedes) {patterns : List Str} (grown : M.Grown patterns) :
    patterns.Nodup := by
  induction grown with
  | nil => exact List.nodup_nil
  | insert grown accepts ih =>
    refine List.nodup_append.2 ⟨ih, List.pairwise_singleton _ _, ?_⟩
    rintro pattern mem other last rfl
    cases List.mem_singleton.1 last
    exact specific.once accepts mem

/-- `matchit::Router<T>`. -/
structure Trie (α : Type) where
  entries : List (Str × α) := []

namespace Trie

variable (M : Matchit) {α : Type} (trie : Trie α)

def patterns : List Str :=
  trie.entries.map Prod.fst

def insert (pattern : Str) (value : α) : Option (Trie α) :=
  if M.accepts trie.patterns pattern then some ⟨trie.entries ++ [(pattern, value)]⟩ else none

def at? (path : Str) : Option α := do
  let j ← M.select trie.patterns path
  let entry ← trie.entries[j]?
  some entry.2

variable {M trie}

theorem entries_insert {pattern : Str} {value : α} {trie' : Trie α}
    (h : trie.insert M pattern value = some trie') :
    trie'.entries = trie.entries ++ [(pattern, value)] := by
  rw [insert] at h
  split at h
  · cases h
    rfl
  · cases h

theorem at?_some {path : Str} {value : α} (h : trie.at? M path = some value) :
    ∃ pattern, (pattern, value) ∈ trie.entries ∧ M.fits pattern path = true := by
  rw [at?] at h
  obtain ⟨j, select, h⟩ := Option.bind_eq_some_iff.1 h
  obtain ⟨entry, here, h⟩ := Option.bind_eq_some_iff.1 h
  cases h
  obtain ⟨pattern, there, fits⟩ := M.select_fits select
  rw [patterns, List.getElem?_map, here] at there
  cases there
  exact ⟨entry.1, List.mem_of_getElem? here, fits⟩

theorem at?_none {path : Str} (h : trie.at? M path = none) {pattern : Str} {value : α}
    (mem : (pattern, value) ∈ trie.entries) : M.fits pattern path = false := by
  cases select : M.select trie.patterns path with
  | none =>
    apply M.select_none select
    exact List.mem_map.2 ⟨_, mem, rfl⟩
  | some j =>
    obtain ⟨pattern', there, -⟩ := M.select_fits select
    rw [patterns, List.getElem?_map] at there
    obtain ⟨entry, here, -⟩ := Option.map_eq_some_iff.1 there
    rw [at?, select, Option.bind_eq_bind, Option.bind_some, here] at h
    cases h

/-- A lookup succeeds iff some pattern fits. -/
theorem at?_isSome_iff {path : Str} :
    (trie.at? M path).isSome = true ↔ ∃ entry ∈ trie.entries, M.fits entry.1 path = true := by
  constructor
  · intro h
    obtain ⟨value, e⟩ := Option.isSome_iff_exists.1 h
    obtain ⟨pattern, mem, fits⟩ := at?_some e
    exact ⟨_, mem, fits⟩
  · intro h
    obtain ⟨entry, mem, fits⟩ := h
    cases e : trie.at? M path with
    | some value => rfl
    | none =>
      rw [at?_none e mem] at fits
      cases fits

end Trie

/-! ## A table by the documentation -/

namespace Matchit

/-- A piece of a pattern between slashes. -/
inductive Piece where
  | static (text : Str)
  | param
  | catchAll

def piece : Str → Piece
  | '{' :: '*' :: _ => .catchAll
  | '{' :: _ => .param
  | text => .static text

def pieces (pattern : Str) : List Piece :=
  (pattern.splitOn '/').map piece

/-- A parameter takes one nonempty piece of the path, a catch-all a nonempty rest. -/
def fitsPieces : List Piece → List Str → Bool
  | [], [] => true
  | [.catchAll], text :: rest => !text.isEmpty || !rest.isEmpty
  | .static text :: ps, text' :: rest => text == text' && fitsPieces ps rest
  | .param :: ps, text :: rest => !text.isEmpty && fitsPieces ps rest
  | _, _ => false

/-- Two patterns that one table cannot hold. -/
def conflict : List Piece → List Piece → Bool
  | [], [] => true
  | .static text :: ps, .static text' :: qs => text == text' && conflict ps qs
  | .param :: ps, .param :: qs => conflict ps qs
  | .catchAll :: _, .catchAll :: _ => true
  | .catchAll :: _, .param :: _ => true
  | .param :: _, .catchAll :: _ => true
  | _, _ => false

/-- The first pattern goes before the second: static pieces before parameters before a
catch-all, from left to right. -/
def precedes : List Piece → List Piece → Bool
  | .static _ :: ps, .static _ :: qs => precedes ps qs
  | .param :: ps, .param :: qs => precedes ps qs
  | .static _ :: _, _ => true
  | .param :: _, .catchAll :: _ => true
  | _, _ => false

/-- The most specific pattern that fits. -/
def best (path : Str) : List Str → Option (Nat × Str)
  | [] => none
  | pattern :: patterns =>
    let here := fitsPieces (pieces pattern) (path.splitOn '/')
    match best path patterns with
    | none => if here then some (0, pattern) else none
    | some (j, pattern') =>
      if here && !precedes (pieces pattern') (pieces pattern) then some (0, pattern)
      else some (j + 1, pattern')

theorem best_fits {path : Str} :
    ∀ {patterns : List Str} {j : Nat} {pattern : Str}, best path patterns = some (j, pattern) →
      patterns[j]? = some pattern ∧ fitsPieces (pieces pattern) (path.splitOn '/') = true := by
  intro patterns
  induction patterns with
  | nil => intro j pattern h; cases h
  | cons p ps ih =>
    intro j pattern h
    rw [best] at h
    split at h
    · split at h
      · rename_i here
        cases h
        exact ⟨rfl, here⟩
      · cases h
    · rename_i j' pattern' rest
      split at h
      · rename_i here
        cases h
        rw [Bool.and_eq_true] at here
        exact ⟨rfl, here.1⟩
      · cases h
        exact ih rest

theorem best_none {path : Str} {patterns : List Str} (h : best path patterns = none) :
    ∀ pattern ∈ patterns, fitsPieces (pieces pattern) (path.splitOn '/') = false := by
  induction patterns with
  | nil =>
    intro pattern mem
    cases mem
  | cons p ps ih =>
    rw [best] at h
    split at h
    · rename_i rest
      split at h
      · cases h
      · rename_i here
        intro pattern mem
        rcases List.mem_cons.1 mem with rfl | mem
        · exact Bool.eq_false_iff.2 here
        · exact ih rest pattern mem
    · split at h <;> cases h

/-- Static pieces first, then parameters, then a catch-all. -/
def documented : Matchit where
  fits pattern path := fitsPieces (pieces pattern) (path.splitOn '/')
  accepts patterns pattern := !patterns.any fun pattern' => conflict (pieces pattern') (pieces pattern)
  select patterns path := (best path patterns).map Prod.fst
  select_fits h := by
    obtain ⟨⟨j, pattern⟩, e, rfl⟩ := Option.map_eq_some_iff.1 h
    exact ⟨pattern, best_fits e⟩
  select_none h := best_none (Option.map_eq_none_iff.1 h)

/-! ### The order of the patterns -/

theorem conflict_self (ps : List Piece) : conflict ps ps = true := by
  induction ps with
  | nil => rfl
  | cons p ps ih => cases p <;> simp [conflict, ih]

theorem precedes_trans {ps qs rs : List Piece} (first : precedes ps qs = true)
    (second : precedes qs rs = true) : precedes ps rs = true := by
  induction ps generalizing qs rs with
  | nil => cases qs <;> cases first
  | cons p ps ih =>
    cases qs with
    | nil => cases second
    | cons q qs =>
      cases rs with
      | nil => cases p <;> cases q <;> simp_all [precedes]
      | cons r rs =>
        cases p <;> cases q <;> cases r <;> simp only [precedes] at first second ⊢ <;>
          first
          | exact ih first second
          | exact (Bool.false_ne_true first).elim
          | exact (Bool.false_ne_true second).elim

/-- Of two patterns that fit one path and can stand in one table, one goes before the other. -/
theorem precedes_comm {ps qs : List Piece} {texts : List Str} (free : conflict ps qs = false)
    (fits : fitsPieces ps texts = true) (fits' : fitsPieces qs texts = true) :
    precedes qs ps = !precedes ps qs := by
  induction texts generalizing ps qs with
  | nil =>
    cases ps with
    | nil =>
      cases qs with
      | nil => cases free
      | cons q qs => cases q <;> simp [fitsPieces] at fits'
    | cons p ps => cases p <;> simp [fitsPieces] at fits
  | cons text texts ih =>
    cases ps with
    | nil => cases fits
    | cons p ps =>
      cases qs with
      | nil => cases fits'
      | cons q qs =>
        cases p <;> cases q <;> simp_all [fitsPieces, precedes, conflict]

theorem best_foremost {path : Str} {patterns : List Str}
    (free : patterns.Pairwise fun p q => conflict (pieces p) (pieces q) = false) {j : Nat}
    {pattern : Str} (h : best path patterns = some (j, pattern)) :
    ∀ other ∈ patterns, fitsPieces (pieces other) (path.splitOn '/') = true → other ≠ pattern →
      precedes (pieces pattern) (pieces other) = true ∧
        precedes (pieces other) (pieces pattern) = false := by
  induction patterns generalizing j pattern with
  | nil => cases h
  | cons p ps ih =>
    rw [List.pairwise_cons] at free
    intro other mem fits ne
    rw [best] at h
    split at h
    · rename_i rest
      split at h
      · cases h
        rcases List.mem_cons.1 mem with rfl | mem
        · exact absurd rfl ne
        · rw [best_none rest other mem] at fits
          cases fits
      · cases h
    · rename_i j' pattern' rest
      have rest' := ih free.2 rest
      have there := best_fits rest
      split at h
      · rename_i here
        cases h
        rw [Bool.and_eq_true, Bool.not_eq_true'] at here
        rcases List.mem_cons.1 mem with rfl | mem
        · exact absurd rfl ne
        · have before : precedes (pieces p) (pieces other) = true := by
            have first := precedes_comm (free.1 _ (List.mem_of_getElem? there.1)) here.1 there.2
            rw [here.2] at first
            by_cases same : other = pattern'
            · rw [same]
              simpa using first.symm
            · exact precedes_trans (by simpa using first.symm) (rest' other mem fits same).1
          have back := precedes_comm (free.1 other mem) here.1 fits
          rw [before] at back
          exact ⟨before, back⟩
      · rename_i here
        cases h
        rcases List.mem_cons.1 mem with rfl | mem
        · have before : precedes (pieces pattern) (pieces other) = true := by
            simpa [fits] using here
          have back := precedes_comm (free.1 _ (List.mem_of_getElem? there.1)) fits there.2
          rw [before] at back
          exact ⟨before, by simpa using back.symm⟩
        · exact rest' other mem fits ne

theorem documented_pairwise {patterns : List Str} (grown : documented.Grown patterns) :
    patterns.Pairwise fun p q => conflict (pieces p) (pieces q) = false := by
  induction grown with
  | nil => exact List.Pairwise.nil
  | insert grown accepts ih =>
    rw [List.pairwise_append]
    refine ⟨ih, List.pairwise_singleton _ _, fun p mem q last => ?_⟩
    cases List.mem_singleton.1 last
    simp only [documented, Bool.not_eq_true', List.any_eq_false] at accepts
    exact Bool.eq_false_iff.2 (accepts p mem)

theorem documented_mostSpecific :
    documented.MostSpecific fun p q => precedes (pieces p) (pieces q) where
  once {patterns pattern} accepts mem := by
    simp only [documented, Bool.not_eq_true', List.any_eq_false] at accepts
    exact accepts pattern mem (conflict_self _)
  foremost {patterns path j pattern} grown select here := by
    obtain ⟨⟨j', pattern'⟩, e, rfl⟩ := Option.map_eq_some_iff.1 select
    have there := (best_fits e).1
    cases here.symm.trans there
    exact best_foremost (documented_pairwise grown) e

end Matchit

end Typeway.Server
