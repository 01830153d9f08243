import Mathlib.Algebra.Group.Nat.Defs
import Typeway.Base.Segments

/-!
# Paths

`typeway-core/src/path.rs`: a path type is a list of literal and captured segments, maybe with
a capture of the rest at its end. `extract` parses the segments of a request against it, and
`pattern` is its text in a route table.
-/

namespace Typeway.Core

open Segments

/-- A `str`, as its characters. -/
abbrev Str := List Char

/-- A type with `FromStr`. -/
structure CaptureType where
  Val : Type
  fromStr : Str → Option Val

/-- `U = u32`. -/
def CaptureType.u32 : CaptureType where
  Val := UInt32
  fromStr seg :=
    let digits := if seg.head? = some '+' then seg.tail else seg
    if digits ≠ [] ∧ digits.all Char.isDigit then
      let n := digits.foldl (fun n c => 10 * n + (c.toNat - '0'.toNat)) 0
      if n < 2 ^ 32 then some (UInt32.ofNat n) else none
    else none

/-- `U = String`. -/
def CaptureType.string : CaptureType where
  Val := Str
  fromStr := some

/-- The `HList`s that implement `ExtractPath`. -/
inductive PathSpec : Type 1 where
  | hnil
  | lit (value : Str) (tail : PathSpec)
  | capture (U : CaptureType) (tail : PathSpec)
  | captureRest

namespace PathSpec

/-- The tuple of captured values. -/
def Captures : PathSpec → Type
  | hnil => Unit
  | lit _ tail => tail.Captures
  | capture U tail => U.Val × tail.Captures
  | captureRest => List Str

def extract : (P : PathSpec) → List Str → Option P.Captures
  | hnil, segments => if segments.isEmpty then some () else none
  | lit _ _, [] => none
  | lit value tail, seg :: segments => if seg = value then tail.extract segments else none
  | capture _ _, [] => none
  | capture U tail, seg :: segments => do
    let val ← U.fromStr seg
    let rest ← tail.extract segments
    some (val, rest)
  | captureRest, segments => some segments

def pattern : PathSpec → Str
  | hnil => []
  | lit value tail => '/' :: (value ++ tail.pattern)
  | capture _ tail => '/' :: '{' :: '}' :: tail.pattern
  | captureRest => "/{*rest}".toList

@[simp] theorem pattern_hnil : hnil.pattern = [] := rfl

@[simp] theorem pattern_lit (value : Str) (tail : PathSpec) :
    (lit value tail).pattern = '/' :: (value ++ tail.pattern) := rfl

@[simp] theorem pattern_capture (U : CaptureType) (tail : PathSpec) :
    (capture U tail).pattern = '/' :: (['{', '}'] ++ tail.pattern) := rfl

/-! ### What `extract` accepts -/

theorem extract_hnil_iff {segments : List Str} {c : hnil.Captures} :
    hnil.extract segments = some c ↔ segments = [] := by
  cases segments with
  | nil => exact iff_of_true rfl rfl
  | cons seg segments =>
    constructor
    · intro h
      cases h
    · intro h
      cases h

theorem extract_lit_iff {value : Str} {tail : PathSpec} {segments : List Str} {c : tail.Captures} :
    (lit value tail).extract segments = some c ↔
      ∃ rest, segments = value :: rest ∧ tail.extract rest = some c := by
  constructor
  · intro h
    cases segments with
    | nil => cases h
    | cons seg segments =>
      by_cases same : seg = value
      · subst same
        have step : (lit seg tail).extract (seg :: segments) = tail.extract segments := if_pos rfl
        exact ⟨segments, rfl, step.symm.trans h⟩
      · have step : (lit value tail).extract (seg :: segments) = none := if_neg same
        cases step.symm.trans h
  · intro h
    obtain ⟨rest, rfl, h⟩ := h
    exact (if_pos rfl).trans h

theorem extract_capture_iff {U : CaptureType} {tail : PathSpec} {segments : List Str} {val : U.Val}
    {c : tail.Captures} :
    (capture U tail).extract segments = some (val, c) ↔
      ∃ seg rest, segments = seg :: rest ∧ U.fromStr seg = some val ∧
        tail.extract rest = some c := by
  constructor
  · intro h
    cases segments with
    | nil => cases h
    | cons seg segments =>
      rw [extract] at h
      obtain ⟨val, parsed, h⟩ := Option.bind_eq_some_iff.1 h
      obtain ⟨rest, tailParsed, h⟩ := Option.bind_eq_some_iff.1 h
      cases h
      exact ⟨seg, segments, rfl, parsed, tailParsed⟩
  · intro h
    obtain ⟨seg, rest, rfl, parsed, tailParsed⟩ := h
    rw [extract, parsed, tailParsed]
    rfl

end PathSpec

/-- How a request path is split for the match functions. -/
def pathSegments (path : Str) : List Str :=
  segments '/' path

end Typeway.Core
