import Mathlib.Algebra.Group.Nat.Defs
import Mathlib.Algebra.Order.Ring.Rat
import Mathlib.Data.List.Sort
import Typeway.Base.Segments
import Typeway.Base.Text
import Typeway.Core.Path

/-!
# Content negotiation

`negotiate.rs`: the ranges of an `Accept` header in the order of their qualities, and the first
available media type that the first matching range matches. Qualities are rational numbers.
-/

namespace Typeway.Server

open Typeway.Core Segments

/-! ## Qualities -/

/-- A sign, and the text behind it. -/
def signed (text : Str) : Bool × Str :=
  if text.head? = some '-' then (true, text.tail)
  else if text.head? = some '+' then (false, text.tail)
  else (false, text)

/-- The exponent of a number, which may be missing. -/
def exponent? (text : Str) : Option Int :=
  match text with
  | [] => some 0
  | e :: rest =>
    let (negative, digits) := signed rest
    if (e = 'e' ∨ e = 'E') ∧ digits ≠ [] ∧ digits.all Char.isDigit then
      let n : Int := Nat.ofDigitChars 10 digits 0
      some (if negative then -n else n)
    else none

/-- `parse::<f32>()`, of what is a rational number. -/
def parseF32 (text : Str) : Option ℚ :=
  let (negative, text) := signed text
  let (whole, rest) := text.span Char.isDigit
  let (fraction, rest) := if rest.head? = some '.' then rest.tail.span Char.isDigit else ([], rest)
  if whole = [] ∧ fraction = [] then none
  else
    (exponent? rest).map fun e =>
      let n : Int := Nat.ofDigitChars 10 (whole ++ fraction) 0
      let shift : Int := e - fraction.length
      mkRat ((if negative then -n else n) * (10 ^ shift.toNat : Nat)) (10 ^ (-shift).toNat)

/-! ## Ranges -/

/-- A media range of the header, with its quality. -/
abbrev Range : Type :=
  Str × ℚ

def stripQ (param : Str) : Option Str :=
  if "q=".toList.isPrefixOf param then some (param.drop 2) else none

/-- The first parameter that is a quality. -/
def qualityParam (params : Str) : Option ℚ :=
  (params.splitOn ';').findSome? fun p =>
    (stripQ (Text.trim p)).bind fun q => parseF32 (Text.trim q)

/-- An entry of the header. -/
def parseRange (entry : Str) : Option Range :=
  let entry := Text.trim entry
  if entry = [] then none
  else
    some <|
      match splitOnce ';' entry with
      | some (mediaType, params) => (Text.trim mediaType, (qualityParam params).getD 1)
      | none => (Text.trim entry, 1)

/-- The ranges of the header in its own order. -/
def headerRanges (accept : Str) : List Range :=
  (accept.splitOn ',').filterMap parseRange

/-- `b.1.partial_cmp(&a.1)`, by which the entries are sorted. -/
def byQuality (a b : Range) : Prop :=
  b.2 ≤ a.2

instance : DecidableRel byQuality :=
  fun a b => inferInstanceAs (Decidable (b.2 ≤ a.2))

def parseAccept (accept : Str) : List Range :=
  (headerRanges accept).insertionSort byQuality

/-- The media type without its parameters. -/
def base (supported : Str) : Str :=
  Text.trim (supported.takeWhile (· ≠ ';'))

/-- `strip_suffix("/*")` -/
def stripWildcard (acceptType : Str) : Option Str :=
  if "/*".toList.isSuffixOf acceptType then some (acceptType.take (acceptType.length - 2)) else none

def mediaTypeMatches (acceptType supported : Str) : Bool :=
  if acceptType = "*/*".toList then true
  else if acceptType = base supported then true
  else
    match stripWildcard acceptType with
    | some type => type = (base supported).takeWhile (· ≠ '/')
    | none => false

/-- The first supported type that a range matches. -/
def firstMatch (supported : List Str) (range : Range) : Option Nat :=
  supported.findIdx? (mediaTypeMatches range.1)

def bestMatch (accept : Option Str) (supported : List Str) : Nat :=
  match accept with
  | some a => if a = [] then 0 else ((parseAccept a).findSome? (firstMatch supported)).getD 0
  | none => 0

/-! ## The quality of a type -/

/-- How specifically a range names a type: as itself, by its type, or not at all. -/
def rank (acceptType supported : Str) : Option Nat :=
  if acceptType = base supported then some 2
  else if acceptType = "*/*".toList then some 0
  else if stripWildcard acceptType = some ((base supported).takeWhile (· ≠ '/')) then some 1
  else none

/-- The ranges that a client sends, none without a header. -/
def ranges (accept : Option Str) : List Range :=
  match accept with
  | some a => headerRanges a
  | none => []

/-- The type has the quality of the most specific range that matches it. Where the header has that
range twice, the better quality counts. -/
structure Gives (ranges : List Range) (type : Str) (r : Nat) (q : ℚ) : Prop where
  range : ∃ range ∈ ranges, rank range.1 type = some r ∧ range.2 = q
  specific : ∀ range ∈ ranges, ∀ r', rank range.1 type = some r' → r' < r ∨ r' = r ∧ range.2 ≤ q

/-- Some available type is acceptable. -/
def Acceptable (ranges : List Range) (supported : List Str) : Prop :=
  ∃ type ∈ supported, ∃ r q, Gives ranges type r q ∧ 0 < q

/-- The index is that of the best available type, or 0. -/
structure Chooses (ranges : List Range) (supported : List Str) (i : Nat) : Prop where
  best : Acceptable ranges supported →
    ∃ type r q, supported[i]? = some type ∧ Gives ranges type r q ∧
      (∀ other ∈ supported, ∀ r' q', Gives ranges other r' q' → q' ≤ q) ∧
      ∀ j < i, ∀ other, supported[j]? = some other → ¬ Gives ranges other r q
  otherwise : ¬ Acceptable ranges supported → i = 0

/-! ## Where the best range decides -/

def MatchesAny (supported : List Str) (range : Range) : Prop :=
  ∃ type ∈ supported, mediaTypeMatches range.1 type = true

/-- Of the ranges that match an available type, the one of highest quality, the first of them in the
header, and the first available type that it matches. -/
structure Leads (ranges : List Range) (supported : List Str) (range : Range) (i : Nat) (type : Str) :
    Prop where
  highest : ∃ front back, ranges = front ++ range :: back ∧
    (∀ other ∈ front, MatchesAny supported other → other.2 < range.2) ∧
    ∀ other ∈ back, MatchesAny supported other → other.2 ≤ range.2
  here : supported[i]? = some type
  covers : mediaTypeMatches range.1 type = true
  first : ∀ j < i, ∀ other, supported[j]? = some other → mediaTypeMatches range.1 other = false

/-- No range but the leading one has a say. -/
structure Undisputed (ranges : List Range) (supported : List Str) : Prop where
  /-- A more specific range does not lower the type below another one that is acceptable. -/
  lowered : ∀ range i type r q, Leads ranges supported range i type → Gives ranges type r q →
    q < range.2 → ∀ other ∈ supported, ∀ r' q', Gives ranges other r' q' → q' ≤ q ∨ q' ≤ 0
  /-- A type that is not acceptable is the first one. -/
  refused : ∀ range i type r q, Leads ranges supported range i type → Gives ranges type r q →
    q ≤ 0 → i = 0
  /-- No earlier type is as good by another range of the same rank. -/
  tied : ∀ range i type r q, Leads ranges supported range i type → Gives ranges type r q →
    ∀ j < i, ∀ other, supported[j]? = some other → ¬ Gives ranges other r q

/-! ## The first of the best -/

section

variable {l : List Range} {a range : Range} {p : Range → Bool}

instance : Std.Total byQuality :=
  ⟨fun a b => le_total b.2 a.2⟩

instance : IsTrans Range byQuality :=
  ⟨fun _ _ _ first second => le_trans second first⟩

/-- The element of highest quality that satisfies the predicate, and the first such one. -/
def First (p : Range → Bool) (l : List Range) (range : Range) : Prop :=
  p range = true ∧ ∃ front back, l = front ++ range :: back ∧
    (∀ other ∈ front, p other = true → other.2 < range.2) ∧
    ∀ other ∈ back, p other = true → other.2 ≤ range.2

/-- The better of a range and one behind it, if there is one. -/
def better (a : Range) : Option Range → Range
  | some b => if a.2 < b.2 then b else a
  | none => a

theorem find?_orderedInsert_neg (no : p a = false) (l : List Range) :
    (l.orderedInsert byQuality a).find? p = l.find? p := by
  induction l with
  | nil => simp [no]
  | cons b l ih =>
    rw [List.orderedInsert_cons]
    split
    · rw [List.find?_cons_of_neg (by simp [no])]
    · rw [List.find?_cons, List.find?_cons, ih]

/-- An element is put in front of those that are no better. -/
theorem find?_orderedInsert_pos (yes : p a = true) (sorted : l.Pairwise byQuality) :
    (l.orderedInsert byQuality a).find? p = some (better a (l.find? p)) := by
  induction l with
  | nil => simp [yes, better]
  | cons b l ih =>
    obtain ⟨below, sorted⟩ := List.pairwise_cons.1 sorted
    rw [List.orderedInsert_cons]
    split
    · rename_i noWorse
      rw [List.find?_cons_of_pos yes]
      cases found : (b :: l).find? p with
      | none => rfl
      | some c =>
        have le : c.2 ≤ a.2 := by
          obtain rfl | mem := List.mem_cons.1 (List.mem_of_find?_eq_some found)
          · exact noWorse
          · exact le_trans (below c mem) noWorse
        rw [better, if_neg (not_lt.2 le)]
    · rename_i worse
      have lt : a.2 < b.2 := not_le.1 worse
      rw [List.find?_cons, List.find?_cons, ih sorted]
      cases here : p b with
      | true => exact congrArg some (if_pos lt).symm
      | false => rfl

theorem find?_insertionSort_iff (l : List Range) (range : Range) :
    (l.insertionSort byQuality).find? p = some range ↔ First p l range := by
  induction l generalizing range with
  | nil => simp [First]
  | cons a l ih =>
    have sorted := List.pairwise_insertionSort byQuality l
    rw [List.insertionSort_cons]
    cases here : p a with
    | false =>
      rw [find?_orderedInsert_neg here, ih]
      constructor
      · intro first
        obtain ⟨yes, front, back, rfl, less, le⟩ := first
        refine ⟨yes, a :: front, back, rfl, ?_, le⟩
        rw [List.forall_mem_cons]
        exact ⟨by simp [here], less⟩
      · intro first
        obtain ⟨yes, front, back, same, less, le⟩ := first
        cases front with
        | nil =>
          obtain ⟨rfl, rfl⟩ := List.cons.inj same
          rw [here] at yes
          cases yes
        | cons b front =>
          obtain ⟨rfl, rfl⟩ := List.cons.inj same
          exact ⟨yes, front, back, rfl, fun other mem => less other (List.mem_cons_of_mem _ mem), le⟩
    | true =>
      rw [find?_orderedInsert_pos here sorted]
      constructor
      · intro same
        cases found : (l.insertionSort byQuality).find? p with
        | none =>
          rw [found] at same
          obtain rfl := Option.some.inj same
          refine ⟨here, [], l, rfl, by simp, ?_⟩
          intro other mem yes
          rw [List.find?_eq_none] at found
          exact absurd yes (found other ((List.mem_insertionSort byQuality).2 mem))
        | some b =>
          obtain ⟨yes, front, back, rfl, less, le⟩ := (ih b).1 found
          rw [found] at same
          by_cases lt : a.2 < b.2
          · have here' : b = range := by simpa [better, lt] using same
            subst here'
            refine ⟨yes, a :: front, back, rfl, ?_, le⟩
            rw [List.forall_mem_cons]
            exact ⟨fun _ => lt, less⟩
          · have here' : a = range := by simpa [better, lt] using same
            subst here'
            refine ⟨here, [], _, rfl, by simp, ?_⟩
            intro other mem yes'
            have top : other.2 ≤ b.2 := by
              rw [List.mem_append, List.mem_cons] at mem
              obtain mem | rfl | mem := mem
              · exact (less other mem yes').le
              · exact le_refl _
              · exact le other mem yes'
            exact top.trans (not_lt.1 lt)
      · intro first
        obtain ⟨yes, front, back, same, less, le⟩ := first
        cases front with
        | nil =>
          obtain ⟨rfl, rfl⟩ := List.cons.inj same
          cases found : (l.insertionSort byQuality).find? p with
          | none => rfl
          | some b =>
            obtain ⟨yes', front', back', split, -⟩ := (ih b).1 found
            have top := le b (split ▸ List.mem_append_right _ List.mem_cons_self) yes'
            exact congrArg some (if_neg (not_lt.2 top))
        | cons c front =>
          obtain ⟨rfl, rfl⟩ := List.cons.inj same
          rw [(ih range).2 ⟨yes, front, back, rfl,
            fun other mem => less other (List.mem_cons_of_mem _ mem), le⟩]
          exact congrArg some (if_pos (less a List.mem_cons_self here))

end

/-! ## The range that decides -/

section

variable {supported : List Str} {rs : List Range} {range : Range} {type : Str} {i : Nat}

theorem firstMatch_eq_some : firstMatch supported range = some i ↔
    ∃ type, supported[i]? = some type ∧ mediaTypeMatches range.1 type = true ∧
      ∀ j < i, ∀ other, supported[j]? = some other → mediaTypeMatches range.1 other = false := by
  rw [firstMatch, List.findIdx?_eq_some_iff_getElem]
  constructor
  · intro found
    obtain ⟨here, covers, first⟩ := found
    refine ⟨supported[i], List.getElem?_eq_getElem here, covers, ?_⟩
    intro j less other same
    rw [List.getElem?_eq_getElem (less.trans here)] at same
    obtain rfl := Option.some.inj same
    simpa using first j less
  · intro found
    obtain ⟨type, same, covers, first⟩ := found
    obtain ⟨here, rfl⟩ := List.getElem?_eq_some_iff.1 same
    refine ⟨here, covers, ?_⟩
    intro j less
    simpa using first j less _ (List.getElem?_eq_getElem (less.trans here))

theorem matchesAny_iff : MatchesAny supported range ↔ (firstMatch supported range).isSome = true := by
  rw [firstMatch, List.findIdx?_isSome, List.any_eq_true, MatchesAny]

theorem findSome?_eq {α β : Type} (f : α → Option β) (l : List α) :
    l.findSome? f = (l.find? fun a => (f a).isSome).bind f := by
  induction l with
  | nil => rfl
  | cons a l ih =>
    rw [List.findSome?_cons, List.find?_cons]
    cases here : f a with
    | none => simpa [here] using ih
    | some b => simp [here]

theorem leads_iff : Leads rs supported range i type ↔
    First (fun range => (firstMatch supported range).isSome) rs range ∧
      firstMatch supported range = some i ∧ supported[i]? = some type := by
  constructor
  · intro leads
    have found := firstMatch_eq_some.2 ⟨type, leads.here, leads.covers, leads.first⟩
    obtain ⟨front, back, same, less, le⟩ := leads.highest
    have matched : (firstMatch supported range).isSome = true := by rw [found]; rfl
    refine ⟨⟨matched, front, back, same, ?_, ?_⟩, found, leads.here⟩
    · exact fun other mem yes => less other mem (matchesAny_iff.2 yes)
    · exact fun other mem yes => le other mem (matchesAny_iff.2 yes)
  · intro h
    obtain ⟨⟨yes, front, back, same, less, le⟩, found, here⟩ := h
    obtain ⟨type', here', covers, first⟩ := firstMatch_eq_some.1 found
    rw [here] at here'
    obtain rfl := Option.some.inj here'
    refine ⟨⟨front, back, same, ?_, ?_⟩, here, covers, first⟩
    · exact fun other mem yes => less other mem (matchesAny_iff.1 yes)
    · exact fun other mem yes => le other mem (matchesAny_iff.1 yes)

theorem bestMatch_eq (accept : Option Str) (supported : List Str) :
    bestMatch accept supported =
      ((((ranges accept).insertionSort byQuality).find? fun range =>
        (firstMatch supported range).isSome).bind (firstMatch supported)).getD 0 := by
  cases accept with
  | none => rfl
  | some a =>
    rw [bestMatch, ranges, ← findSome?_eq]
    split
    · rename_i empty
      rw [empty]
      rfl
    · rfl

/-- The leading range decides. -/
theorem Leads.bestMatch {accept : Option Str} (leads : Leads (ranges accept) supported range i type) :
    bestMatch accept supported = i := by
  obtain ⟨first, found, -⟩ := leads_iff.1 leads
  rw [bestMatch_eq, (find?_insertionSort_iff _ range).2 first, Option.bind_some, found]
  rfl

/-- Some range leads, or none matches and the first type is taken. -/
theorem leads_or (accept : Option Str) (supported : List Str) :
    (∃ range i type, Leads (ranges accept) supported range i type) ∨
      bestMatch accept supported = 0 ∧ ∀ range ∈ ranges accept, ¬ MatchesAny supported range := by
  cases found : ((ranges accept).insertionSort byQuality).find? fun range =>
      (firstMatch supported range).isSome with
  | some range =>
    have first := (find?_insertionSort_iff _ range).1 found
    obtain ⟨i, here⟩ := Option.isSome_iff_exists.1 first.1
    obtain ⟨type, same, -⟩ := firstMatch_eq_some.1 here
    exact .inl ⟨range, i, type, leads_iff.2 ⟨first, here, same⟩⟩
  | none =>
    refine .inr ⟨by rw [bestMatch_eq, found]; rfl, ?_⟩
    intro range mem any
    rw [List.find?_eq_none] at found
    exact found range ((List.mem_insertionSort byQuality).2 mem) (matchesAny_iff.1 any)

/-! ## The quality of a type -/

theorem mediaTypeMatches_eq (acceptType supported : Str) :
    mediaTypeMatches acceptType supported = (rank acceptType supported).isSome := by
  rw [mediaTypeMatches, rank]
  by_cases exact : acceptType = base supported
  · simp [exact]
  · by_cases all : acceptType = "*/*".toList
    · rw [if_pos all, if_neg exact, if_pos all]
      rfl
    · rw [if_neg all, if_neg exact, if_neg exact, if_neg all]
      cases stripWildcard acceptType with
      | none => rfl
      | some type =>
        by_cases same : type = (base supported).takeWhile (· ≠ '/')
        · rw [if_pos (congrArg some same)]
          exact decide_eq_true same
        · rw [if_neg fun h => same (Option.some.inj h)]
          exact decide_eq_false same

theorem Gives.unique {r r' : Nat} {q q' : ℚ} (gives : Gives rs type r q)
    (gives' : Gives rs type r' q') : r = r' ∧ q = q' := by
  obtain ⟨⟨range, mem, named, quality⟩, specific⟩ := gives
  obtain ⟨⟨range', mem', named', quality'⟩, specific'⟩ := gives'
  have one := specific' range mem r named
  have other := specific range' mem' r' named'
  rw [quality] at one
  rw [quality'] at other
  obtain less | ⟨same, le⟩ := one
  · omega
  · obtain less | ⟨-, le'⟩ := other
    · omega
    · exact ⟨same, le_antisymm le le'⟩

/-- A type that some range matches has a quality. -/
theorem exists_gives (some : ∃ range ∈ rs, mediaTypeMatches range.1 type = true) :
    ∃ r q, Gives rs type r q := by
  induction rs with
  | nil => simp at some
  | cons first rs ih =>
    cases named : rank first.1 type with
    | none =>
      have later : ∃ range ∈ rs, mediaTypeMatches range.1 type = true := by
        obtain ⟨range, mem, covers⟩ := some
        obtain rfl | mem := List.mem_cons.1 mem
        · rw [mediaTypeMatches_eq, named] at covers
          cases covers
        · exact ⟨range, mem, covers⟩
      obtain ⟨r, q, ⟨range, mem, here, quality⟩, specific⟩ := ih later
      refine ⟨r, q, ⟨range, List.mem_cons_of_mem _ mem, here, quality⟩, ?_⟩
      rw [List.forall_mem_cons]
      exact ⟨by simp [named], specific⟩
    | some k =>
      by_cases later : ∃ range ∈ rs, mediaTypeMatches range.1 type = true
      · obtain ⟨r, q, ⟨range, mem, here, quality⟩, specific⟩ := ih later
        by_cases worse : k < r ∨ k = r ∧ first.2 ≤ q
        · refine ⟨r, q, ⟨range, List.mem_cons_of_mem _ mem, here, quality⟩, ?_⟩
          rw [List.forall_mem_cons]
          refine ⟨?_, specific⟩
          intro r' same
          rw [named] at same
          obtain rfl := Option.some.inj same
          exact worse
        · rw [not_or, not_and_or] at worse
          refine ⟨k, first.2, ⟨first, List.mem_cons_self, named, rfl⟩, ?_⟩
          rw [List.forall_mem_cons]
          refine ⟨?_, ?_⟩
          · intro r' same
            rw [named] at same
            exact .inr ⟨(Option.some.inj same).symm, le_refl _⟩
          · intro other mem' r' same
            obtain less | ⟨same', le⟩ := specific other mem' r' same
            · omega
            · by_cases equal : k = r
              · refine .inr ⟨same'.trans equal.symm, ?_⟩
                exact le.trans (not_le.1 (worse.2.resolve_left (not_not.2 equal))).le
              · omega
      · refine ⟨k, first.2, ⟨first, List.mem_cons_self, named, rfl⟩, ?_⟩
        rw [List.forall_mem_cons]
        refine ⟨?_, ?_⟩
        · intro r' same
          rw [named] at same
          exact .inr ⟨(Option.some.inj same).symm, le_refl _⟩
        · intro other mem r' same
          refine absurd ⟨other, mem, ?_⟩ later
          rw [mediaTypeMatches_eq, same]
          rfl

/-- No type is better than the leading range. -/
theorem Leads.ge (leads : Leads rs supported range i type) {other : Str} (mem : other ∈ supported)
    {r : Nat} {q : ℚ} (gives : Gives rs other r q) : q ≤ range.2 := by
  obtain ⟨⟨source, found, named, rfl⟩, -⟩ := gives
  have any : MatchesAny supported source := by
    refine ⟨other, mem, ?_⟩
    rw [mediaTypeMatches_eq, named]
    rfl
  obtain ⟨front, back, rfl, less, le⟩ := leads.highest
  rw [List.mem_append, List.mem_cons] at found
  obtain found | rfl | found := found
  · exact (less source found any).le
  · exact le_refl _
  · exact le source found any

theorem Leads.exists_gives (leads : Leads rs supported range i type) : ∃ r q, Gives rs type r q := by
  obtain ⟨front, back, rfl, -, -⟩ := leads.highest
  exact Server.exists_gives ⟨range, List.mem_append_right _ List.mem_cons_self, leads.covers⟩

/-! ## The choice -/

/-- Where a range leads, the choice is right exactly when no other range has a say. -/
theorem Leads.chooses_iff {r : Nat} {q : ℚ} (leads : Leads rs supported range i type)
    (gives : Gives rs type r q) :
    Chooses rs supported i ↔
      (q < range.2 → ∀ other ∈ supported, ∀ r' q', Gives rs other r' q' → q' ≤ q ∨ q' ≤ 0) ∧
        (q ≤ 0 → i = 0) ∧
        ∀ j < i, ∀ other, supported[j]? = some other → ¬ Gives rs other r q := by
  have mem : type ∈ supported := List.mem_of_getElem? leads.here
  constructor
  · intro chooses
    by_cases acceptable : Acceptable rs supported
    · obtain ⟨type', r', q', here, gives', best, first⟩ := chooses.best acceptable
      rw [leads.here] at here
      obtain rfl := Option.some.inj here
      obtain ⟨rfl, rfl⟩ := gives.unique gives'
      obtain ⟨other, found, r', q', named, positive⟩ := acceptable
      refine ⟨fun _ other mem r' q' h => .inl (best other mem r' q' h), ?_, first⟩
      intro refused
      exact absurd positive (not_lt.2 ((best other found r' q' named).trans refused))
    · have zero := chooses.otherwise acceptable
      refine ⟨?_, fun _ => zero, ?_⟩
      · intro _ other found r' q' named
        refine .inr (not_lt.1 fun positive => acceptable ⟨other, found, r', q', named, positive⟩)
      · intro j less
        omega
  · intro h
    obtain ⟨lowered, refused, tied⟩ := h
    have most : ∀ other ∈ supported, ∀ r' q', Gives rs other r' q' → q' ≤ q ∨ q' ≤ 0 := by
      intro other found r' q' named
      by_cases low : q < range.2
      · exact lowered low other found r' q' named
      · exact .inl ((leads.ge found named).trans (not_lt.1 low))
    by_cases positive : 0 < q
    · refine ⟨fun _ => ⟨type, r, q, leads.here, gives, ?_, tied⟩, ?_⟩
      · intro other found r' q' named
        obtain le | le := most other found r' q' named
        · exact le
        · exact le.trans positive.le
      · exact fun none => absurd ⟨type, mem, r, q, gives, positive⟩ none
    · refine ⟨?_, fun _ => refused (not_lt.1 positive)⟩
      intro acceptable
      obtain ⟨other, found, r', q', named, positive'⟩ := acceptable
      obtain le | le := most other found r' q' named
      · exact absurd (positive'.trans_le le) positive
      · exact absurd positive' (not_lt.2 le)

/-- **The best type is chosen exactly where the leading range is undisputed.** -/
theorem chooses_bestMatch_iff (accept : Option Str) (supported : List Str) :
    Chooses (ranges accept) supported (bestMatch accept supported) ↔
      Undisputed (ranges accept) supported := by
  obtain ⟨range, i, type, leads⟩ | ⟨zero, none⟩ := leads_or accept supported
  · obtain ⟨r, q, gives⟩ := leads.exists_gives
    rw [leads.bestMatch]
    constructor
    · intro chooses
      have only : ∀ {range' i' type' r' q'}, Leads (ranges accept) supported range' i' type' →
          Gives (ranges accept) type' r' q' →
          (q' < range'.2 → ∀ other ∈ supported, ∀ r'' q'', Gives (ranges accept) other r'' q'' →
            q'' ≤ q' ∨ q'' ≤ 0) ∧ (q' ≤ 0 → i' = 0) ∧
          ∀ j < i', ∀ other, supported[j]? = some other → ¬ Gives (ranges accept) other r' q' := by
        intro range' i' type' r' q' leads' gives'
        have same : i = i' := leads.bestMatch.symm.trans leads'.bestMatch
        exact (leads'.chooses_iff gives').1 (same ▸ chooses)
      exact ⟨fun _ _ _ _ _ l g => (only l g).1, fun _ _ _ _ _ l g => (only l g).2.1,
        fun _ _ _ _ _ l g => (only l g).2.2⟩
    · intro undisputed
      exact (leads.chooses_iff gives).2 ⟨undisputed.lowered _ _ _ _ _ leads gives,
        undisputed.refused _ _ _ _ _ leads gives, undisputed.tied _ _ _ _ _ leads gives⟩
  · have nothing : ∀ {range i type}, ¬ Leads (ranges accept) supported range i type := by
      intro range i type leads
      obtain ⟨front, back, same, -, -⟩ := leads.highest
      exact none range (same ▸ List.mem_append_right _ List.mem_cons_self)
        ⟨type, List.mem_of_getElem? leads.here, leads.covers⟩
    refine iff_of_true ⟨?_, fun _ => zero⟩ ⟨?_, ?_, ?_⟩
    · intro acceptable
      obtain ⟨type, mem, r, q, ⟨⟨range, found, named, -⟩, -⟩, -⟩ := acceptable
      refine absurd ⟨type, mem, ?_⟩ (none range found)
      rw [mediaTypeMatches_eq, named]
      rfl
    · exact fun _ _ _ _ _ leads => absurd leads nothing
    · exact fun _ _ _ _ _ leads => absurd leads nothing
    · exact fun _ _ _ _ _ leads => absurd leads nothing

end

/-- Everything, but no JSON. -/
def noJson : Option Str :=
  some "*/*, application/json;q=0".toList

theorem ranges_noJson :
    ranges noJson = [("*/*".toList, 1), ("application/json".toList, 0)] := by
  decide

/-- A client that wants no JSON gets it. -/
theorem not_chooses_noJson : ¬ ∀ (accept : Option Str) (supported : List Str),
    supported ≠ [] → Chooses (ranges accept) supported (bestMatch accept supported) := by
  intro chooses
  have json : Gives (ranges noJson) "application/json".toList 2 0 := by
    rw [ranges_noJson]
    refine ⟨⟨_, List.mem_cons_of_mem _ List.mem_cons_self, by decide, rfl⟩, ?_⟩
    have all : rank "*/*".toList "application/json".toList = some 0 := by decide
    have exact : rank "application/json".toList "application/json".toList = some 2 := by decide
    rw [List.forall_mem_cons, List.forall_mem_cons]
    refine ⟨?_, ?_, by simp⟩
    · intro r' same
      rw [← Option.some.inj (all.symm.trans same)]
      exact .inl (by decide)
    · intro r' same
      exact .inr ⟨(Option.some.inj (exact.symm.trans same)).symm, le_refl _⟩
  have plain : Gives (ranges noJson) "text/plain".toList 0 1 := by
    rw [ranges_noJson]
    refine ⟨⟨_, List.mem_cons_self, by decide, rfl⟩, ?_⟩
    have all : rank "*/*".toList "text/plain".toList = some 0 := by decide
    have apart : rank "application/json".toList "text/plain".toList = none := by decide
    rw [List.forall_mem_cons, List.forall_mem_cons]
    refine ⟨?_, ?_, by simp⟩
    · intro r' same
      exact .inr ⟨(Option.some.inj (all.symm.trans same)).symm, le_refl _⟩
    · intro r' same
      cases apart.symm.trans same
  have chosen := chooses noJson ["application/json".toList, "text/plain".toList] (by simp)
  obtain ⟨type, r, q, here, gives, most, -⟩ := chosen.best
    ⟨_, List.mem_cons_of_mem _ List.mem_cons_self, 0, 1, plain, by decide⟩
  have first : bestMatch noJson ["application/json".toList, "text/plain".toList] = 0 := by decide
  rw [first] at here
  obtain rfl := Option.some.inj here
  obtain ⟨-, rfl⟩ := gives.unique json
  have le := most _ (List.mem_cons_of_mem _ List.mem_cons_self) 0 1 plain
  revert le
  decide

example : bestMatch (some "text/plain;q=0.9, application/json;q=0.5".toList)
    ["application/json".toList, "text/plain; charset=utf-8".toList] = 1 := by decide

end Typeway.Server
