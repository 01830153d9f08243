import Mathlib.Data.List.DropRight
import Typeway.Base.Percent
import Typeway.Base.Segments
import Typeway.Base.Utf8

/-!
# References on a base URL

How a reference that begins with a slash, or is empty, is resolved against an `http` or `https`
URL: what is cut off, where the authority and the path end, and how dot segments take away the
segments before them. The text of an authority is parsed by a function of its own, a parameter.
-/

namespace UrlReference

inductive Scheme where
  | http | https
  deriving DecidableEq

structure Authority where
  userinfo : List Char
  host : List Char
  port : Option Nat
  deriving DecidableEq

/-- A URL. Its segments are written as bytes; the query is the text before it is escaped. -/
structure Url where
  scheme : Scheme
  authority : Authority
  path : List (List UInt8)
  query : Option (List Char)
  fragment : Option (List Char)
  deriving DecidableEq

/-! ## The parts of a reference -/

/-- A control character or a space. -/
def isBlank (c : Char) : Bool :=
  c.toNat ≤ 0x20

def isTabOrNewline (c : Char) : Bool :=
  c = '\t' || c = '\n' || c = '\r'

/-- The text without blanks around it, and without tabs and newlines anywhere. -/
def cleaned (text : List Char) : List Char :=
  ((text.dropWhile isBlank).rdropWhile isBlank).filter fun c => !isTabOrNewline c

/-- A backslash counts as a slash. -/
def isSlash (c : Char) : Bool :=
  c = '/' || c = '\\'

def isPathEnd (c : Char) : Bool :=
  c = '?' || c = '#'

/-- A reference that is not empty: the text of its authority, and what is behind its path. -/
structure Target where
  authority : Option (List Char)
  pieces : List (List Char)
  query : Option (List Char)
  fragment : Option (List Char)

/-- What stands behind the authority, without the slash that begins the path. -/
def target (authority : Option (List Char)) (text : List Char) : Target :=
  let behind := text.dropWhile fun c => !isPathEnd c
  { authority
    pieces := (text.takeWhile fun c => !isPathEnd c).splitOnP isSlash
    query := if behind.head? = some '?' then some (behind.tail.takeWhile (· ≠ '#')) else none
    fragment :=
      let mark := behind.dropWhile (· ≠ '#')
      if mark.head? = some '#' then some mark.tail else none }

/-- The text behind the first slash of a reference. Two slashes begin an authority. -/
def behindSlash (rest : List Char) : Target :=
  if (rest.head?.map isSlash).getD false then
    let text := rest.dropWhile isSlash
    let path := text.dropWhile fun c => !(isSlash c || isPathEnd c)
    target (some (text.takeWhile fun c => !(isSlash c || isPathEnd c)))
      (if (path.head?.map isSlash).getD false then path.tail else path)
  else target none rest

/-- The parts of a reference that begins with a slash. -/
def parts (text : List Char) : Option Target :=
  match text with
  | c :: rest => if isSlash c then some (behindSlash rest) else none
  | [] => none

/-! ## Dot segments -/

/-- A `%2e` is a dot. -/
def isDoubleDot (piece : List Char) : Bool :=
  ["..".toList, ".%2e".toList, "%2e.".toList, "%2e%2e".toList].contains (piece.map Char.toLower)

def isSingleDot (piece : List Char) : Bool :=
  [".".toList, "%2e".toList].contains (piece.map Char.toLower)

/-- What a path writes as itself. -/
def isPathByte (b : UInt8) : Bool :=
  0x20 < b && b ≤ 0x7E && !([0x22, 0x23, 0x3C, 0x3E, 0x3F, 0x60, 0x7B, 0x7D] : List UInt8).contains b

/-- A segment as it is written. -/
def written (piece : List Char) : List UInt8 :=
  Percent.escape isPathByte (Utf8.bytes (piece.filter fun c => !isTabOrNewline c))

/-- A dot segment in the last place stands before an empty segment. -/
def closed (pieces : List (List Char)) : List (List Char) :=
  match pieces.getLast? with
  | some last => if isDoubleDot last || isSingleDot last then pieces ++ [[]] else pieces
  | none => pieces

def push (path : List (List UInt8)) (piece : List Char) : List (List UInt8) :=
  if isDoubleDot piece then path.dropLast
  else if isSingleDot piece then path
  else path ++ [written piece]

def resolvePath (pieces : List (List Char)) : List (List UInt8) :=
  (closed pieces).foldl push []

/-! ## Resolution -/

variable (parseAuthority : List Char → Option Authority)

def resolve (base : Url) (t : Target) : Option Url :=
  let url : Url :=
    { base with path := resolvePath t.pieces, query := t.query, fragment := t.fragment }
  match t.authority with
  | some text => (parseAuthority text).map fun authority => { url with authority }
  | none => some url

/-- `Url::join`, of a reference that is empty or begins with a slash. -/
def join (base : Url) (reference : List Char) : Option Url :=
  match cleaned reference with
  | [] => some { base with fragment := none }
  | text => (parts text).bind (resolve parseAuthority base)

/-! ## What is left of a path -/

/-- How many of the segments before them the pieces take away. -/
def taken : List (List Char) → Nat
  | [] => 0
  | piece :: pieces =>
    if isDoubleDot piece then taken pieces + 1
    else if isSingleDot piece then taken pieces
    else taken pieces - 1

/-- The pieces that are no dot segments and that no piece behind them takes away. -/
def kept : List (List Char) → List (List Char)
  | [] => []
  | piece :: pieces =>
    if isDoubleDot piece || isSingleDot piece || 0 < taken pieces then kept pieces
    else piece :: kept pieces

theorem foldl_push (pieces : List (List Char)) (path : List (List UInt8)) :
    pieces.foldl push path =
      path.take (path.length - taken pieces) ++ (kept pieces).map written := by
  induction pieces generalizing path with
  | nil => simp [taken, kept]
  | cons piece pieces ih =>
    rw [List.foldl_cons, ih, push, taken, kept]
    cases double : isDoubleDot piece with
    | true =>
      simp only [if_true, Bool.true_or]
      rw [List.dropLast_eq_take, List.take_take, List.length_take]
      congr 2
      omega
    | false =>
      cases single : isSingleDot piece with
      | true => simp
      | false =>
        simp only [Bool.false_eq_true, if_false, Bool.false_or, decide_eq_true_eq]
        split
        · rename_i some
          rw [List.length_append, List.length_singleton]
          rw [List.take_append_of_le_length (by omega)]
          congr 2
          omega
        · rename_i none
          have zero : taken pieces = 0 := by omega
          rw [zero, Nat.sub_zero, Nat.sub_zero, List.take_of_length_le (Nat.le_refl _),
            List.take_of_length_le (Nat.le_refl _), List.append_assoc]
          rfl

/-- A path is made of the pieces that are left. -/
theorem resolvePath_eq (pieces : List (List Char)) :
    resolvePath pieces = (kept (closed pieces)).map written := by
  rw [resolvePath, foldl_push]
  simp

/-! ## Paths that are written as they are -/

/-- A character that ends no segment and is not escaped. -/
def isPlain (c : Char) : Bool :=
  decide (c.toNat < 128) && isPathByte (.ofNat c.toNat) && !isSlash c

/-- A segment that a URL shows as it is. -/
structure Plain (piece : List Char) : Prop where
  nonempty : piece ≠ []
  chars : ∀ c ∈ piece, isPlain c = true
  doubleDot : isDoubleDot piece = false
  singleDot : isSingleDot piece = false

theorem ascii_of_isPlain {c : Char} (plain : isPlain c = true) : c.toNat < 128 := by
  simp only [isPlain, Bool.and_eq_true, decide_eq_true_eq] at plain
  exact plain.1.1

theorem not_isSlash_of_isPlain {c : Char} (plain : isPlain c = true) : isSlash c = false := by
  simp only [isPlain, Bool.and_eq_true, Bool.not_eq_true'] at plain
  exact plain.2

theorem isPathByte_of_isPlain {c : Char} (plain : isPlain c = true) :
    isPathByte (.ofNat c.toNat) = true := by
  simp only [isPlain, Bool.and_eq_true] at plain
  exact plain.1.2

theorem not_isBlank_of_isPlain {c : Char} (plain : isPlain c = true) : isBlank c = false := by
  have ascii := ascii_of_isPlain plain
  have path := isPathByte_of_isPlain plain
  simp only [isPathByte, Bool.and_eq_true, decide_eq_true_eq, UInt8.lt_iff_toNat_lt] at path
  have low := path.1.1
  rw [UInt8.toNat_ofNat_of_lt' (show c.toNat < UInt8.size from by unfold UInt8.size; omega)] at low
  rw [isBlank, decide_eq_false_iff_not]
  exact Nat.not_le.2 low

theorem not_isPathEnd_of_isPlain {c : Char} (plain : isPlain c = true) : isPathEnd c = false := by
  rw [isPathEnd, Bool.or_eq_false_iff]
  constructor
  · apply decide_eq_false
    rintro rfl
    revert plain
    decide
  · apply decide_eq_false
    rintro rfl
    revert plain
    decide

theorem not_isTabOrNewline {c : Char} (clear : isBlank c = false) : isTabOrNewline c = false := by
  rw [isTabOrNewline, Bool.or_eq_false_iff, Bool.or_eq_false_iff]
  refine ⟨⟨?_, ?_⟩, ?_⟩ <;>
    · apply decide_eq_false
      rintro rfl
      revert clear
      decide

/-- A text without blanks is clean. -/
theorem cleaned_eq_self {text : List Char} (clear : ∀ c ∈ text, isBlank c = false) :
    cleaned text = text := by
  have front : text.dropWhile isBlank = text := by
    cases text with
    | nil => rfl
    | cons c rest => rw [List.dropWhile_cons_of_neg (by rw [clear c List.mem_cons_self]; decide)]
  have back : text.rdropWhile isBlank = text := by
    rw [List.rdropWhile_eq_self_iff]
    intro some
    rw [clear _ (List.getLast_mem some)]
    decide
  rw [cleaned, front, back, List.filter_eq_self]
  intro c mem
  rw [not_isTabOrNewline (clear c mem)]
  rfl

theorem splitOnP_plain {piece : List Char} {pieces : List (List Char)}
    (whole : ∀ c ∈ piece, isSlash c = false)
    (others : ∀ piece ∈ pieces, ∀ c ∈ piece, isSlash c = false) :
    (piece ++ Segments.joined '/' pieces).splitOnP isSlash = piece :: pieces := by
  induction pieces generalizing piece with
  | nil => rw [Segments.joined_nil, List.append_nil, List.splitOnP_eq_singleton whole]
  | cons next pieces ih =>
    rw [List.forall_mem_cons] at others
    rw [Segments.joined_cons, List.cons_append,
      List.splitOnP_append_cons_of_forall_mem whole '/' (by decide), ih others.1 others.2]

theorem written_plain {piece : List Char} (plain : Plain piece) : written piece = Utf8.bytes piece := by
  have kept : piece.filter (fun c => !isTabOrNewline c) = piece := by
    rw [List.filter_eq_self]
    intro c mem
    rw [not_isTabOrNewline (not_isBlank_of_isPlain (plain.chars c mem))]
    rfl
  have bytes : Utf8.bytes piece = piece.map fun c => UInt8.ofNat c.toNat :=
    Utf8.bytes_ascii fun c mem => ascii_of_isPlain (plain.chars c mem)
  rw [written, kept, bytes, Percent.escape_eq_self]
  intro b mem
  obtain ⟨c, inside, rfl⟩ := List.mem_map.1 mem
  exact isPathByte_of_isPlain (plain.chars c inside)

theorem taken_plain {pieces : List (List Char)} (plain : ∀ piece ∈ pieces, Plain piece) :
    taken pieces = 0 := by
  induction pieces with
  | nil => rfl
  | cons piece pieces ih =>
    rw [List.forall_mem_cons] at plain
    rw [taken, plain.1.doubleDot, plain.1.singleDot, ih plain.2]
    rfl

theorem resolvePath_plain {pieces : List (List Char)} (plain : ∀ piece ∈ pieces, Plain piece) :
    resolvePath pieces = pieces.map Utf8.bytes := by
  have same : closed pieces = pieces := by
    rw [closed]
    cases last : pieces.getLast? with
    | none => rfl
    | some piece =>
      have own := plain piece (List.mem_of_getLast? last)
      dsimp only
      rw [own.doubleDot, own.singleDot]
      rfl
  have all : kept pieces = pieces := by
    clear same
    induction pieces with
    | nil => rfl
    | cons piece pieces ih =>
      rw [List.forall_mem_cons] at plain
      rw [kept, plain.1.doubleDot, plain.1.singleDot, taken_plain plain.2, ih plain.2]
      rfl
  rw [resolvePath_eq, same, all]
  exact List.map_congr_left fun piece mem => written_plain (plain piece mem)

/-- Plain segments, each with a slash before it, replace the path and nothing else. -/
theorem join_joined (parseAuthority : List Char → Option Authority) (base : Url)
    {pieces : List (List Char)} (some : pieces ≠ []) (plain : ∀ piece ∈ pieces, Plain piece) :
    join parseAuthority base (Segments.joined '/' pieces) =
      Option.some
        { base with path := pieces.map Utf8.bytes, query := none, fragment := none } := by
  obtain ⟨piece, others, rfl⟩ := List.exists_cons_of_ne_nil some
  have clear : ∀ c ∈ Segments.joined '/' (piece :: others), isBlank c = false := by
    intro c mem
    rw [Segments.joined, List.mem_flatMap] at mem
    obtain ⟨p, inside, here⟩ := mem
    rcases List.mem_cons.1 here with rfl | here
    · decide
    · exact not_isBlank_of_isPlain ((plain p inside).chars c here)
  have rest : ∀ c ∈ piece ++ Segments.joined '/' others, isPathEnd c = false := by
    intro c mem
    rcases List.mem_append.1 mem with mem | mem
    · exact not_isPathEnd_of_isPlain ((plain piece List.mem_cons_self).chars c mem)
    · rw [Segments.joined, List.mem_flatMap] at mem
      obtain ⟨p, inside, here⟩ := mem
      rcases List.mem_cons.1 here with rfl | here
      · decide
      · exact not_isPathEnd_of_isPlain ((plain p (List.mem_cons_of_mem _ inside)).chars c here)
  have split : (piece ++ Segments.joined '/' others).splitOnP isSlash = piece :: others :=
    splitOnP_plain
      (fun c mem => not_isSlash_of_isPlain ((plain piece List.mem_cons_self).chars c mem))
      fun p inside c mem =>
        not_isSlash_of_isPlain ((plain p (List.mem_cons_of_mem _ inside)).chars c mem)
  have found : parts ('/' :: (piece ++ Segments.joined '/' others)) =
      Option.some ⟨none, piece :: others, none, none⟩ := by
    have first : ((piece ++ Segments.joined '/' others).head?.map isSlash).getD false = false := by
      obtain ⟨c, piece, rfl⟩ := List.exists_cons_of_ne_nil (plain piece List.mem_cons_self).nonempty
      exact not_isSlash_of_isPlain ((plain _ List.mem_cons_self).chars c List.mem_cons_self)
    have front : (piece ++ Segments.joined '/' others).takeWhile (fun c => !isPathEnd c) =
        piece ++ Segments.joined '/' others := by
      rw [List.takeWhile_eq_self_iff]
      intro c mem
      rw [rest c mem]
      rfl
    have behind : (piece ++ Segments.joined '/' others).dropWhile (fun c => !isPathEnd c) = [] := by
      rw [List.dropWhile_eq_nil_iff]
      intro c mem
      rw [rest c mem]
      rfl
    have slash : isSlash '/' = true := by decide
    rw [parts, if_pos slash, behindSlash, if_neg (by rw [first]; decide), target, front, behind, split]
    rfl
  have cons : Segments.joined '/' (piece :: others) = '/' :: (piece ++ Segments.joined '/' others) := rfl
  rw [join, cleaned_eq_self clear, cons]
  dsimp only
  rw [found, Option.bind_some, resolve]
  dsimp only
  rw [resolvePath_plain plain]

end UrlReference
