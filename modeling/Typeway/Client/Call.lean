import Typeway.Base.Template
import Typeway.Core.Path

/-!
# The paths a client builds

`BuildPath` of `call.rs` replaces the placeholders of the pattern one after the other by the
displayed captures. The server splits the text again; `Fits` says when it reads back the
captures that were put in.
-/

namespace Typeway.Client

open Typeway.Core Segments Template

/-- `Display` of a captured type, which its `FromStr` inverts. -/
structure Display (U : CaptureType) where
  display : U.Val → Str
  inverts : ∀ val, U.fromStr (display val) = some val

/-- The path types whose capture tuples implement `BuildPath`. -/
inductive Callable : PathSpec → Type 1 where
  | hnil : Callable .hnil
  | lit (value : Str) {tail : PathSpec} (rest : Callable tail) : Callable (.lit value tail)
  | capture {U : CaptureType} (D : Display U) {tail : PathSpec} (rest : Callable tail) :
      Callable (.capture U tail)

def placeholder : Str :=
  ['{', '}']

/-- `BuildPath::build_path`, for the displayed captures of the tuple. -/
def buildPath (captures : List Str) (pattern : Str) : Str :=
  captures.foldl (fun result capture => Substring.replaceFirst placeholder capture result) pattern

namespace Callable

/-- `captures.N.to_string()` for each capture of the tuple. -/
def displays : {P : PathSpec} → Callable P → P.Captures → List Str
  | _, hnil, _ => []
  | _, lit _ rest, c => rest.displays c
  | _, capture D rest, (val, c) => D.display val :: rest.displays c

/-- The path type as a template with the displayed captures in its holes. -/
def slots : {P : PathSpec} → Callable P → P.Captures → List (Slot Char)
  | _, hnil, _ => []
  | _, lit value rest, c => .fixed value :: rest.slots c
  | _, capture D rest, (val, c) => .hole (D.display val) :: rest.slots c

/-- Every captured type reads only what it displays. -/
def Exact : {P : PathSpec} → Callable P → Prop
  | _, hnil => True
  | _, lit _ rest => rest.Exact
  | _, @capture U D _ rest => (∀ seg val, U.fromStr seg = some val → seg = D.display val) ∧ rest.Exact

variable {P : PathSpec} (B : Callable P) (c : P.Captures)

/-- The literals and the displayed captures in the order of the path. -/
def pieces : List Str :=
  (B.slots c).map Slot.filled

/-- The server reads back the captures. -/
def RoundTrips : Prop :=
  P.extract (pathSegments (buildPath (B.displays c) P.pattern)) = some c

/-- Every piece is nonempty and has no slash, and behind a piece that shows a placeholder every
capture is displayed as a placeholder. -/
structure Fits : Prop where
  clean : Clean '/' (B.pieces c)
  inOrder : InOrder placeholder (B.slots c)

theorem pattern_eq : P.pattern = joined '/' ((B.slots c).map (Slot.raw placeholder)) := by
  induction B with
  | hnil => rfl
  | lit value rest ih => exact congrArg (fun text => '/' :: (value ++ text)) (ih c)
  | capture D rest ih => exact congrArg (fun text => '/' :: '{' :: '}' :: text) (ih c.2)

theorem displays_eq : B.displays c = values (B.slots c) := by
  induction B with
  | hnil => rfl
  | lit value rest ih => exact ih c
  | capture D rest ih => exact congrArg (D.display c.1 :: ·) (ih c.2)

/-- The server reads the pieces as the captures. -/
theorem extract_pieces : P.extract (B.pieces c) = some c := by
  induction B with
  | hnil => rfl
  | lit value rest ih => exact PathSpec.extract_lit_iff.2 ⟨rest.pieces c, rfl, ih c⟩
  | capture D rest ih =>
    obtain ⟨val, c⟩ := c
    exact PathSpec.extract_capture_iff.2
      ⟨D.display val, rest.pieces c, rfl, D.inverts val, ih c⟩

variable {B c}

/-- Where the types are exact nothing else reads as the captures. -/
theorem eq_pieces_of_extract (exact : B.Exact) {segments : List Str}
    (h : P.extract segments = some c) : segments = B.pieces c := by
  induction B generalizing segments with
  | hnil => exact PathSpec.extract_hnil_iff.1 h
  | lit value rest ih =>
    obtain ⟨tail, rfl, behind⟩ := PathSpec.extract_lit_iff.1 h
    rw [ih exact behind]
    rfl
  | capture D rest ih =>
    obtain ⟨val, c⟩ := c
    obtain ⟨seg, tail, rfl, parsed, behind⟩ := PathSpec.extract_capture_iff.1 h
    rw [exact.1 seg val parsed, ih exact.2 behind]
    rfl

theorem whole_of_clean {l : List Str} (clean : Clean '/' l) : Whole '/' l :=
  fun piece mem => (clean piece mem).2

theorem roundTrips_of_fits (fits : B.Fits c) : B.RoundTrips c := by
  have built : buildPath (B.displays c) P.pattern = joined '/' (B.pieces c) := by
    rw [B.pattern_eq c, displays_eq]
    exact (fill_eq_iff (by decide) (by decide) (whole_of_clean fits.clean)).2 fits.inOrder
  have split := segments_joined fits.clean (.inl rfl)
  rw [List.append_nil, segments_nil, List.append_nil] at split
  rw [RoundTrips, built, pathSegments, split, extract_pieces]

/-- If the segments are as many as the pieces, no piece was empty. -/
theorem eq_of_filter_eq {l l' : List Str}
    (h : (l.filter fun piece => !piece.isEmpty) = l') (size : l.length = l'.length) : l = l' := by
  subst h
  exact (List.filter_sublist.eq_of_length size.symm).symm

theorem fits_of_roundTrips (exact : B.Exact) (h : B.RoundTrips c) : B.Fits c := by
  have split := eq_pieces_of_extract exact h
  have clean : Clean '/' (B.pieces c) := split ▸ segments_clean _
  have whole := whole_of_clean clean
  refine ⟨clean, (fill_eq_iff (by decide) (by decide) whole).1 ?_⟩
  have built : fill placeholder (values (B.slots c))
      (joined '/' ((B.slots c).map (Slot.raw placeholder))) =
      joined '/' (fillPieces placeholder (values (B.slots c))
        ((B.slots c).map (Slot.raw placeholder))) :=
    fill_joined (by decide) (by decide) _ _
  rw [built]
  congr 1
  apply eq_of_filter_eq
  · rw [← segments_joined_eq, ← built, ← B.pattern_eq c, ← displays_eq]
    · exact split
    · exact whole_fillPieces (whole_values whole) (whole_raw (by decide) whole)
  · rw [fillPieces_length, List.length_map, List.length_map]

/-- What fits is read back, and where the captured types are exact nothing else is. -/
theorem roundTrips_iff {P : PathSpec} (B : Callable P) (c : P.Captures) :
    (B.Fits c → B.RoundTrips c) ∧ (B.Exact → (B.RoundTrips c ↔ B.Fits c)) :=
  ⟨roundTrips_of_fits, fun exact => ⟨fits_of_roundTrips exact, roundTrips_of_fits⟩⟩

end Callable

/-- `String` displays itself. -/
def Display.string : Display .string where
  display val := val
  inverts _ := rfl

/-- `/{}/{}` with two `String`s. -/
def pairPath : PathSpec :=
  .capture .string (.capture .string .hnil)

def pair : Callable pairPath :=
  .capture .string (.capture .string .hnil)

theorem pair_exact : pair.Exact := by
  refine ⟨?_, ?_, trivial⟩
  · intro seg val h
    cases h
    rfl
  · intro seg val h
    cases h
    rfl

/-- A placeholder in the last capture does no harm. -/
theorem roundTrips_pair : pair.RoundTrips ("a b".toList, "{}".toList, ()) := by
  apply ((Callable.roundTrips_iff pair _).2 pair_exact).2
  constructor
  · unfold Clean
    decide
  · exact ⟨by decide, by decide, trivial⟩

/-- The first capture is displayed as a placeholder, which takes the second capture. -/
theorem not_roundTrips_pair : ¬ pair.RoundTrips ("{}".toList, "b".toList, ()) := by
  intro h
  have swapped : pairPath.extract (pathSegments (buildPath
      (pair.displays ("{}".toList, "b".toList, ())) pairPath.pattern)) =
        some ("b".toList, "{}".toList, ()) := rfl
  have same : some "b".toList = some "{}".toList :=
    congrArg (Option.map Prod.fst) (swapped.symm.trans h)
  exact absurd same (by decide)

end Typeway.Client
