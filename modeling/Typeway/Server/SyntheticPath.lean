import Mathlib.Data.List.TakeWhile
import Typeway.Server.SyntheticRequest

/-!
# When the captures of a message reach the handler

The message of an endpoint carries every nonempty capture in the field that is named for it.
`alwaysFaithful_iff` says for which captures the handler gets them back, or an error where one
is missing or has no place in a path, whatever other fields the message has.
-/

namespace Typeway.Server

open Typeway.Core Grpc Json Segments Template Client

/-- What can stand between two slashes. -/
structure Legal (U : UriSyntax) (seg : Str) : Prop where
  some : seg ≠ []
  chars : ∀ c ∈ seg, U.pathChar c = true
  whole : '/' ∉ seg

/-- Every literal of the path is legal and has no brace. -/
def Plain (U : UriSyntax) : PathSpec → Prop
  | .lit value tail => Legal U value ∧ '{' ∉ value ∧ Plain U tail
  | .capture _ tail => Plain U tail
  | _ => True

section

variable {P : PathSpec} (B : Callable P) (c : P.Captures)

/-- The names of the fields that are generated for the captures. -/
def fieldNames (P : PathSpec) : List Str :=
  (capturesFromPattern P.pattern).map ProtoField.name

/-- The captures that proto3 does not leave out, in their fields. -/
def captureMembers (names displays : List Str) : List (Str × Value) :=
  (names.zip displays).filterMap fun e => if e.2 = [] then none else some (e.1, .str e.2)

/-- The decoded message with the captures and other fields. -/
def captureMessage (others : List (Str × Value)) : Value :=
  .obj (ofMembers (others ++ captureMembers (fieldNames P) (B.displays c)))

/-- No other field has the name of a capture. -/
def Admissible (P : PathSpec) (others : List (Str × Value)) : Prop :=
  ∀ member ∈ others, member.1 ∉ fieldNames P

variable (floatText : UInt64 → Str) (U : UriSyntax)

/-- What the path extractor of the handler gets. -/
def extracted (others : List (Str × Value)) : Option P.Captures :=
  P.extract (pathSegments
    (syntheticPath U (syntheticUri floatText (captureMessage B c others) P.pattern) P.pattern))

/-- The captures arrive, or an error where one of them cannot be sent. -/
structure Faithful (others : List (Str × Value)) : Prop where
  carried : (∀ seg ∈ B.displays c, Legal U seg) → extracted B c floatText U others = some c
  refused : (∃ seg ∈ B.displays c, ¬ Legal U seg) → extracted B c floatText U others = none

def AlwaysFaithful : Prop :=
  ∀ others, Admissible P others → Faithful B c floatText U others

/-- All captures are legal, placeholders among them stand in order, and the path is not too
long for a URI. -/
structure Carried : Prop where
  legal : ∀ seg ∈ B.displays c, Legal U seg
  inOrder : InOrder placeholder (B.slots c)
  short : byteLen (joined '/' (B.pieces c)) ≤ U.maxLen

/-- All captures are there, one is not legal, and the endpoint does not take the path that a
REST client builds from them, nor its own pattern where that path is no URI. -/
structure Refused : Prop where
  present : ∀ seg ∈ B.displays c, seg ≠ []
  illegal : ∃ seg ∈ B.displays c, ¬ Legal U seg
  rejected : P.extract (pathSegments
    (syntheticPath U (buildPath (B.displays c) P.pattern) P.pattern)) = none

end

/-! ## Generated names -/

theorem paramKey_injective {i j : Nat} (h : paramKey i = paramKey j) : i = j :=
  Lines.decimal_injective (List.append_cancel_left h)

theorem placeholders_append {value : Str} (clean : '{' ∉ value) (text : Str) :
    placeholders (value ++ text) = placeholders text := by
  induction value with
  | nil => rfl
  | cons c value ih =>
    rw [List.mem_cons, not_or] at clean
    have apart : placeholder.isPrefixOf (c :: (value ++ text)) = false := by
      have other : ('{' == c) = false := beq_eq_false_iff_ne.2 clean.1
      rw [placeholder, List.isPrefixOf, other]
      rfl
    rw [List.cons_append, placeholders, apart, if_neg Bool.false_ne_true, ih clean.2]

theorem placeholders_of_not_contains {text : Str}
    (h : Substring.contains placeholder text = false) : placeholders text = 0 := by
  induction text with
  | nil => rfl
  | cons c text ih =>
    rw [Substring.contains, Bool.or_eq_false_iff] at h
    rw [placeholders, h.1, if_neg Bool.false_ne_true, ih h.2]

theorem placeholders_pattern {U : UriSyntax} {P : PathSpec} (B : Callable P) (plain : Plain U P)
    (c : P.Captures) : placeholders P.pattern = (B.displays c).length := by
  induction B with
  | hnil => rfl
  | lit value rest ih =>
    have slash : '{' ∉ '/' :: value := by
      intro mem
      rcases List.mem_cons.1 mem with h | h
      · exact absurd h (by decide)
      · exact plain.2.1 h
    exact (placeholders_append slash _).trans (ih plain.2.2 c)
  | capture D rest ih => exact congrArg (· + 1) (ih plain c.2)

theorem legal_placeholder (U : UriSyntax) : Legal U placeholder where
  some := by decide
  chars := by
    intro c mem
    rcases List.mem_cons.1 mem with rfl | mem
    · exact U.braces.1
    · rw [List.mem_singleton.1 mem]
      exact U.braces.2
  whole := by decide

theorem legal_raws {U : UriSyntax} {P : PathSpec} (B : Callable P) (plain : Plain U P)
    (c : P.Captures) : ∀ piece ∈ (B.slots c).map (Slot.raw placeholder), Legal U piece := by
  induction B with
  | hnil =>
    intro piece mem
    cases mem
  | lit value rest ih =>
    intro piece mem
    rcases List.mem_cons.1 mem with rfl | mem
    · exact plain.1
    · exact ih plain.2.2 c piece mem
  | capture D rest ih =>
    intro piece mem
    rcases List.mem_cons.1 mem with rfl | mem
    · exact legal_placeholder U
    · exact ih plain c.2 piece mem

theorem clean_of_legal {U : UriSyntax} {pieces : List Str} (legal : ∀ piece ∈ pieces, Legal U piece) :
    Clean '/' pieces :=
  fun piece mem => ⟨(legal piece mem).some, (legal piece mem).whole⟩

theorem captureNames {U : UriSyntax} {P : PathSpec} (B : Callable P) (plain : Plain U P)
    (c : P.Captures) (k : Nat) :
    (((B.slots c).map (Slot.raw placeholder)).filter isCapture).mapIdx
        (fun i seg => (captureField (k + i) seg).name) =
      (List.range' (k + 1) (B.displays c).length).map paramKey := by
  induction B generalizing k with
  | hnil => rfl
  | lit value rest ih =>
    have static : isCapture value = false := by
      obtain ⟨letter, letters, rfl⟩ := List.exists_cons_of_ne_nil plain.1.some
      have other : letter ≠ '{' := fun same => plain.2.1 (same ▸ List.mem_cons_self)
      simp [isCapture, other]
    have skipped : ((Slot.fixed value :: rest.slots c).map (Slot.raw placeholder)).filter isCapture =
        ((rest.slots c).map (Slot.raw placeholder)).filter isCapture :=
      List.filter_cons_of_neg (by simp [Slot.raw, static])
    exact (congrArg (List.mapIdx _) skipped).trans (ih plain.2.2 c k)
  | capture D rest ih =>
    have kept : ((Slot.hole (D.display c.1) :: rest.slots c.2).map
        (Slot.raw placeholder)).filter isCapture =
          placeholder :: ((rest.slots c.2).map (Slot.raw placeholder)).filter isCapture :=
      List.filter_cons_of_pos rfl
    have step := ih plain c.2 (k + 1)
    have shifted : (fun i seg => (captureField (k + (i + 1)) seg).name) =
        fun i seg => (captureField (k + 1 + i) seg).name := by
      funext i seg
      rw [Nat.add_right_comm, Nat.add_assoc]
    calc
      _ = (placeholder :: ((rest.slots c.2).map (Slot.raw placeholder)).filter isCapture).mapIdx
          (fun i seg => (captureField (k + i) seg).name) := congrArg (List.mapIdx _) kept
      _ = paramKey (k + 1) :: (List.range' (k + 1 + 1) (rest.displays c.2).length).map paramKey := by
        rw [List.mapIdx_cons, shifted, step]
        rfl
      _ = _ := rfl

/-- The captures are named in order. -/
theorem fieldNames_eq {U : UriSyntax} {P : PathSpec} (B : Callable P) (plain : Plain U P)
    (c : P.Captures) :
    fieldNames P = (List.range' 1 (B.displays c).length).map paramKey := by
  rw [fieldNames, capturesFromPattern, B.pattern_eq c, 
    splitOn_joined (Callable.whole_of_clean (clean_of_legal (legal_raws B plain c))),
    List.filter_cons_of_neg (by decide), List.mapIdx_eq_zipIdx_map, List.map_map]
  have names := captureNames B plain c 0
  rw [List.mapIdx_eq_zipIdx_map] at names
  simp only [Nat.zero_add] at names
  exact names

/-! ## The values that are extracted -/

variable {floatText : UInt64 → Str}

theorem captureMembers_cons (k : Nat) (d : Str) (ds : List Str) :
    captureMembers ((List.range' k (d :: ds).length).map paramKey) (d :: ds) =
      (if d = [] then [] else [(paramKey k, Value.str d)]) ++
        captureMembers ((List.range' (k + 1) ds.length).map paramKey) ds := by
  rw [captureMembers, List.length_cons, List.range'_succ, List.map_cons, List.zip_cons_cons,
    List.filterMap_cons]
  by_cases empty : d = []
  · simp only [if_pos empty]
    rfl
  · simp only [if_neg empty]
    rfl

theorem key_of_mem_captureMembers {k : Nat} {ds : List Str} {e : Str × Value}
    (mem : e ∈ captureMembers ((List.range' k ds.length).map paramKey) ds) :
    ∃ j, k ≤ j ∧ e.1 = paramKey j := by
  obtain ⟨pair, zipped, found⟩ := List.mem_filterMap.1 mem
  obtain ⟨j, range, name⟩ := List.mem_map.1 (List.of_mem_zip zipped).1
  refine ⟨j, (List.mem_range'_1.1 range).1, ?_⟩
  split at found
  · cases found
  · cases found
    exact name.symm

/-- Exactly the captures that are not empty are found under their names. -/
theorem membersNamed_params (k : Nat) (ds : List Str) (m : List (Str × Value))
    (fresh : ∀ j, k ≤ j → j < k + ds.length → SortedMap.lookup (paramKey j) m = none) :
    membersNamed floatText
        ((captureMembers ((List.range' k ds.length).map paramKey) ds).foldl
          (fun map e => SortedMap.insert e.1 e.2 map) m)
        ((List.range' k ds.length).map paramKey) = ds.filter fun d => d ≠ [] := by
  induction ds generalizing k m with
  | nil => rfl
  | cons d ds ih =>
    rw [List.length_cons] at fresh
    have behind : ∀ e ∈ captureMembers ((List.range' (k + 1) ds.length).map paramKey) ds,
        e.1 ≠ paramKey k := by
      intro e mem same
      obtain ⟨j, above, name⟩ := key_of_mem_captureMembers mem
      have := paramKey_injective (name.symm.trans same)
      omega
    rw [captureMembers_cons, List.foldl_append, List.length_cons, List.range'_succ, List.map_cons,
      membersNamed, List.filterMap_cons, SortedMap.lookup_foldl_insert_of_ne behind]
    by_cases empty : d = []
    · have tail := ih (k + 1) m fun j above below => fresh j (by omega) (by omega)
      rw [if_pos empty, List.foldl_nil, fresh k (le_refl k) (by omega),
        List.filter_cons_of_neg (by simpa using empty)]
      exact tail
    · have tail := ih (k + 1) (SortedMap.insert (paramKey k) (.str d) m) (by
        intro j above below
        have other : paramKey j ≠ paramKey k := by
          intro same
          have := paramKey_injective same
          omega
        rw [SortedMap.lookup_insert, if_neg other]
        exact fresh j (by omega) (by omega))
      rw [if_neg empty, List.foldl_cons, List.foldl_nil, SortedMap.lookup_insert, if_pos rfl,
        List.filter_cons_of_pos (by simpa using empty)]
      exact congrArg (d :: ·) tail

section Values

variable {U : UriSyntax} {P : PathSpec} {B : Callable P} {c : P.Captures}
  {others : List (Str × Value)} (plain : Plain U P)

include plain

theorem lookup_param_others (admissible : Admissible P others) {j : Nat} (above : 1 ≤ j)
    (below : j < 1 + (B.displays c).length) :
    SortedMap.lookup (paramKey j) (ofMembers others) = none := by
  refine (SortedMap.lookup_foldl_insert_of_ne ?_ []).trans rfl
  intro member mem same
  apply admissible member mem
  rw [fieldNames_eq B plain c, same]
  exact List.mem_map.2 ⟨j, List.mem_range'_1.2 ⟨above, below⟩, rfl⟩

/-- The object of the message. -/
theorem ofMembers_captureMessage (others : List (Str × Value)) :
    ofMembers (others ++ captureMembers (fieldNames P) (B.displays c)) =
      (captureMembers ((List.range' 1 (B.displays c).length).map paramKey) (B.displays c)).foldl
        (fun map e => SortedMap.insert e.1 e.2 map) (ofMembers others) := by
  rw [fieldNames_eq B plain c, ofMembers, List.foldl_append]
  rfl

/-- If no capture is missing, the values are the captures. -/
theorem extract_present (admissible : Admissible P others)
    (present : ∀ seg ∈ B.displays c, seg ≠ []) :
    extractCaptureValues floatText (captureMessage B c others) P.pattern = B.displays c := by
  have named := @membersNamed_params floatText 1 (B.displays c) (ofMembers others)
    fun j above below => lookup_param_others plain admissible above below
  have all : (B.displays c).filter (fun d => d ≠ []) = B.displays c :=
    List.filter_eq_self.2 fun seg mem => decide_eq_true (present seg mem)
  rw [extractCaptureValues, placeholders_pattern B plain c, captureMessage, Value.asObject,
    ofMembers_captureMessage plain]
  dsimp only
  rw [named, all]
  split
  · rename_i none
    exact (List.length_eq_zero_iff.1 none).symm
  · rw [if_pos rfl]

omit plain in
theorem syntheticUri_eq (message : Value) :
    syntheticUri floatText message P.pattern =
      buildPath (extractCaptureValues floatText message P.pattern) P.pattern := by
  rw [syntheticUri]
  cases shows : Substring.contains placeholder P.pattern with
  | true => rfl
  | false =>
    rw [extractCaptureValues, placeholders_of_not_contains shows]
    rfl

end Values

/-! ### Other fields in the place of the captures -/

/-- Fields `a`, `aa`, and so on, which come before every capture. -/
def standIns : Nat → List Str → List (Str × Value)
  | _, [] => []
  | k, d :: ds => (List.replicate (k + 1) 'a', .str d) :: standIns (k + 1) ds

theorem key_of_mem_standIns {k : Nat} {ds : List Str} {e : Str × Value}
    (mem : e ∈ standIns k ds) : ∃ j, k ≤ j ∧ e.1 = List.replicate (j + 1) 'a' := by
  induction ds generalizing k with
  | nil => cases mem
  | cons d ds ih =>
    rcases List.mem_cons.1 mem with rfl | mem
    · exact ⟨k, le_refl k, rfl⟩
    · obtain ⟨j, above, name⟩ := ih mem
      exact ⟨j, by omega, name⟩

theorem replicate_lt {i j : Nat} (less : i < j) :
    List.replicate i 'a' < List.replicate j 'a' := by
  induction i generalizing j with
  | zero =>
    obtain ⟨j, rfl⟩ := Nat.exists_eq_add_of_lt less
    exact List.Lex.nil
  | succ i ih =>
    obtain ⟨j, rfl⟩ : ∃ j', j = j' + 1 := ⟨j - 1, by omega⟩
    exact List.Lex.cons (ih (by omega))

theorem sorted_standIns (k : Nat) (ds : List Str) : SortedMap.Sorted (standIns k ds) := by
  induction ds generalizing k with
  | nil => exact SortedMap.sorted_nil
  | cons d ds ih =>
    refine SortedMap.sorted_cons.2 ⟨?_, ih (k + 1)⟩
    intro e mem
    obtain ⟨j, above, name⟩ := key_of_mem_standIns mem
    rw [name]
    exact replicate_lt (by omega)

theorem standIns_lt_param (j i : Nat) : List.replicate (j + 1) 'a' < paramKey i :=
  List.Lex.rel (by decide)

theorem texts_standIns (k : Nat) (ds : List Str) :
    (standIns k ds).map (fun member => jsonValueToString floatText member.2) = ds := by
  induction ds generalizing k with
  | nil => rfl
  | cons d ds ih => exact congrArg (d :: ·) (ih (k + 1))

theorem length_standIns (k : Nat) (ds : List Str) : (standIns k ds).length = ds.length := by
  induction ds generalizing k with
  | nil => rfl
  | cons d ds ih => exact congrArg (· + 1) (ih (k + 1))

/-- Neither the fields that stand in nor the captures look like identifiers. -/
theorem membersNamed_idFields (ds ds' : List Str) :
    membersNamed floatText
      ((captureMembers ((List.range' 1 ds.length).map paramKey) ds).foldl
        (fun map e => SortedMap.insert e.1 e.2 map) (ofMembers (standIns 0 ds'))) idFields = [] := by
  refine List.filterMap_eq_nil_iff.2 ?_
  intro name mem
  have heads : name.head? ≠ some 'p' ∧ name.head? ≠ some 'a' :=
    (by decide : ∀ name ∈ idFields, name.head? ≠ some 'p' ∧ name.head? ≠ some 'a') name mem
  rw [SortedMap.lookup_foldl_insert_of_ne, ofMembers, SortedMap.lookup_foldl_insert_of_ne]
  · rfl
  · intro e here same
    obtain ⟨j, -, key⟩ := key_of_mem_standIns here
    apply heads.2
    rw [← same, key]
    rfl
  · intro e here same
    obtain ⟨j, -, key⟩ := key_of_mem_captureMembers here
    apply heads.1
    rw [← same, key]
    rfl

theorem take_message (ds ds' : List Str) :
    ((captureMembers ((List.range' 1 ds.length).map paramKey) ds).foldl
      (fun map e => SortedMap.insert e.1 e.2 map) (ofMembers (standIns 0 ds'))).take ds'.length =
        standIns 0 ds' := by
  have front : ofMembers (standIns 0 ds') = standIns 0 ds' ++ [] := by
    rw [List.append_nil]
    exact SortedMap.foldl_insert_of_sorted (m := []) (sorted_standIns 0 ds')
  rw [front, SortedMap.foldl_insert_append, List.take_append_of_le_length,
    List.take_of_length_le]
  · exact (length_standIns 0 ds').le
  · exact (length_standIns 0 ds').ge
  · intro e here e' here'
    obtain ⟨j, -, key⟩ := key_of_mem_standIns here
    obtain ⟨i, -, key'⟩ := key_of_mem_captureMembers here'
    rw [key, key']
    exact standIns_lt_param j i

section Missing

variable {U : UriSyntax} {P : PathSpec} {B : Callable P} {c c' : P.Captures} (plain : Plain U P)

include plain

theorem admissible_standIns (B : Callable P) (c : P.Captures) (ds : List Str) :
    Admissible P (standIns 0 ds) := by
  intro member mem named
  rw [fieldNames_eq B plain c] at named
  obtain ⟨i, -, name⟩ := List.mem_map.1 named
  obtain ⟨j, -, key⟩ := key_of_mem_standIns mem
  exact ne_of_lt (standIns_lt_param j i) (key.symm.trans name.symm)

/-- Where a capture is missing, its place and those of all others are taken by the first fields
of the message. -/
theorem extract_missing (missing : ∃ seg ∈ B.displays c, seg = []) :
    extractCaptureValues floatText (captureMessage B c (standIns 0 (B.displays c'))) P.pattern =
      B.displays c' := by
  obtain ⟨seg, mem, empty⟩ := missing
  have size : (B.displays c).length = (B.displays c').length :=
    (placeholders_pattern B plain c).symm.trans (placeholders_pattern B plain c')
  have named := @membersNamed_params floatText 1 (B.displays c)
    (ofMembers (standIns 0 (B.displays c')))
    fun j above below => lookup_param_others plain (admissible_standIns plain B c _) above below
  have fewer : ((B.displays c).filter fun d => d ≠ []).length ≠ (B.displays c).length := by
    intro same
    have kept := List.length_filter_eq_length_iff.1 same seg mem
    exact of_decide_eq_true kept empty
  have some : (B.displays c).length ≠ 0 := fun none =>
    List.ne_nil_of_mem mem (List.length_eq_zero_iff.1 none)
  rw [extractCaptureValues, placeholders_pattern B plain c, captureMessage, Value.asObject,
    ofMembers_captureMessage plain]
  dsimp only
  have first := take_message (B.displays c) (B.displays c')
  rw [← size] at first
  rw [named, if_neg some, if_neg fewer, membersNamed_idFields, List.take_nil,
    List.length_nil, if_pos (Nat.pos_of_ne_zero some), first, texts_standIns, size, Nat.sub_self]
  exact List.append_nil _

end Missing

/-! ## The URI -/

section Uri

variable {U : UriSyntax}

theorem parse_of_chars {rest : Str} (chars : ∀ c ∈ '/' :: rest, U.pathChar c = true) :
    U.parse ('/' :: rest) =
      if byteLen ('/' :: rest) > U.maxLen then none else some ('/' :: rest) := by
  have whole : ('/' :: rest).takeWhile (fun c => c ≠ '?' ∧ c ≠ '#') = '/' :: rest := by
    apply List.takeWhile_eq_self_iff.2
    intro c mem
    have legal := chars c mem
    apply decide_eq_true
    constructor
    · intro same
      rw [same, U.ends.1] at legal
      cases legal
    · intro same
      rw [same, U.ends.2] at legal
      cases legal
  rw [UriSyntax.parse]
  dsimp only
  rw [whole, List.drop_length]
  split
  · rfl
  · exact if_pos ⟨List.all_eq_true.2 chars, rfl⟩

/-- Texts without anything a URI path must not have are read as they are, if not too long. -/
theorem parse_joined {pieces : List Str} (some : pieces ≠ [])
    (legal : ∀ piece ∈ pieces, ∀ c ∈ piece, U.pathChar c = true) :
    U.parse (joined '/' pieces) =
      if byteLen (joined '/' pieces) > U.maxLen then none else .some (joined '/' pieces) := by
  obtain ⟨piece, pieces, rfl⟩ := List.exists_cons_of_ne_nil some
  apply parse_of_chars
  intro c mem
  have inJoined : c ∈ Segments.joined '/' (piece :: pieces) := mem
  rw [Segments.joined] at inJoined
  obtain ⟨p, here, inside⟩ := List.mem_flatMap.1 inJoined
  rcases List.mem_cons.1 inside with rfl | inside
  · exact U.slash
  · exact legal p here c inside

variable {P : PathSpec} {B : Callable P} {c : P.Captures} (plain : Plain U P)
  (legal : ∀ seg ∈ B.displays c, Legal U seg)

/-- The built path piece by piece. -/
theorem buildPath_eq (B : Callable P) (c : P.Captures) :
    buildPath (B.displays c) P.pattern =
      joined '/' (fillPieces placeholder (values (B.slots c))
        ((B.slots c).map (Slot.raw placeholder))) := by
  rw [B.pattern_eq c, Callable.displays_eq]
  exact fill_joined (by decide) (by decide) _ _

include plain

include legal

theorem legal_pieces : ∀ piece ∈ B.pieces c, Legal U piece := by
  induction B with
  | hnil =>
    intro piece mem
    cases mem
  | lit value rest ih =>
    intro piece mem
    rcases List.mem_cons.1 mem with rfl | mem
    · exact plain.1
    · exact ih plain.2.2 legal piece mem
  | capture D rest ih =>
    intro piece mem
    rcases List.mem_cons.1 mem with rfl | mem
    · exact legal _ List.mem_cons_self
    · exact ih plain (fun seg here => legal seg (List.mem_cons_of_mem _ here)) piece mem

theorem parse_built (some : B.slots c ≠ []) :
    U.parse (buildPath (B.displays c) P.pattern) =
      if byteLen (buildPath (B.displays c) P.pattern) > U.maxLen then none
      else .some (buildPath (B.displays c) P.pattern) := by
  rw [buildPath_eq]
  apply parse_joined
  · intro empty
    have size := congrArg List.length empty
    rw [fillPieces_length, List.length_map] at size
    exact some (List.length_eq_zero_iff.1 size)
  · apply forall_fillPieces
    · rw [← Callable.displays_eq]
      exact fun seg mem => (legal seg mem).chars
    · exact fun piece mem => (legal_raws B plain c piece mem).chars

omit legal in
theorem parse_pattern (some : B.slots c ≠ []) :
    U.parse P.pattern = if byteLen P.pattern > U.maxLen then none else .some P.pattern := by
  rw [B.pattern_eq c]
  apply parse_joined
  · exact fun empty => some (List.map_eq_nil_iff.1 empty)
  · exact fun piece mem => (legal_raws B plain c piece mem).chars

/-- A built path that is not too long is read as it is. -/
theorem segments_of_short (short : byteLen (buildPath (B.displays c) P.pattern) ≤ U.maxLen) :
    pathSegments (syntheticPath U (buildPath (B.displays c) P.pattern) P.pattern) =
      pathSegments (buildPath (B.displays c) P.pattern) := by
  by_cases empty : B.slots c = []
  · have root : P.pattern = [] := by
      rw [B.pattern_eq c, empty]
      rfl
    have nothing : B.displays c = [] := by
      rw [Callable.displays_eq, empty]
      rfl
    have none : U.parse [] = none := U.empty
    rw [root, nothing, buildPath, List.foldl_nil, syntheticPath, none]
    rfl
  · rw [syntheticPath, parse_built plain legal empty, if_neg (not_lt.2 short)]
    rfl

/-- A built path that is too long gives way to the pattern, which is not what was built. -/
theorem extract_ne_of_long (exact : B.Exact)
    (long : U.maxLen < byteLen (buildPath (B.displays c) P.pattern)) :
    P.extract (pathSegments
      (syntheticPath U (buildPath (B.displays c) P.pattern) P.pattern)) ≠ some c := by
  intro h
  have split := Callable.eq_pieces_of_extract exact h
  have some : B.slots c ≠ [] := by
    intro empty
    rw [buildPath_eq, empty] at long
    exact absurd long (Nat.not_lt_zero _)
  rw [syntheticPath, parse_built plain legal some, if_pos long, parse_pattern plain some] at split
  by_cases longPattern : byteLen P.pattern > U.maxLen
  · rw [if_pos longPattern] at split
    exact some (List.map_eq_nil_iff.1 (split.symm.trans rfl))
  · -- the pattern reads as the captures only if these are placeholders
    rw [if_neg longPattern] at split
    have raws := segments_joined (clean_of_legal (legal_raws B plain c)) (.inl rfl)
    rw [List.append_nil, segments_nil, List.append_nil, ← B.pattern_eq c] at raws
    have same : (B.slots c).map Slot.filled = (B.slots c).map (Slot.raw placeholder) :=
      split.symm.trans raws
    have marks := filled_eq_raw_iff.1 same
    rw [buildPath_eq, fillPieces_of_marks marks, ← B.pattern_eq c] at long
    exact longPattern long

end Uri

/-! ## What arrives -/

section Arrival

variable {U : UriSyntax} {P : PathSpec} {B : Callable P} {c : P.Captures} (plain : Plain U P)

include plain

/-- Where no capture is missing the handler sees the path that a REST client builds. -/
theorem extracted_present {others : List (Str × Value)} (admissible : Admissible P others)
    (present : ∀ seg ∈ B.displays c, seg ≠ []) :
    extracted B c floatText U others =
      P.extract (pathSegments
        (syntheticPath U (buildPath (B.displays c) P.pattern) P.pattern)) := by
  rw [extracted, syntheticUri_eq, extract_present plain admissible present]

theorem built_of_carried (h : Carried B c U) :
    P.extract (pathSegments
      (syntheticPath U (buildPath (B.displays c) P.pattern) P.pattern)) = some c := by
  have clean := clean_of_legal (legal_pieces plain h.legal)
  have built : buildPath (B.displays c) P.pattern = joined '/' (B.pieces c) := by
    rw [B.pattern_eq c, Callable.displays_eq]
    exact (fill_eq_iff (by decide) (by decide) (Callable.whole_of_clean clean)).2 h.inOrder
  rw [segments_of_short plain h.legal (built ▸ h.short)]
  exact Callable.roundTrips_of_fits ⟨clean, h.inOrder⟩

theorem carried_of_built (exact : B.Exact) (legal : ∀ seg ∈ B.displays c, Legal U seg)
    (h : P.extract (pathSegments
      (syntheticPath U (buildPath (B.displays c) P.pattern) P.pattern)) = some c) :
    Carried B c U := by
  by_cases long : U.maxLen < byteLen (buildPath (B.displays c) P.pattern)
  · exact absurd h (extract_ne_of_long plain legal exact long)
  · have short := not_lt.1 long
    rw [segments_of_short plain legal short] at h
    have fits := Callable.fits_of_roundTrips exact h
    refine ⟨legal, fits.inOrder, ?_⟩
    have built : buildPath (B.displays c) P.pattern = joined '/' (B.pieces c) := by
      rw [B.pattern_eq c, Callable.displays_eq]
      exact (fill_eq_iff (by decide) (by decide) (Callable.whole_of_clean fits.clean)).2
        fits.inOrder
    exact built ▸ short

theorem alwaysFaithful_of (h : Carried B c U ∨ Refused B c U) :
    AlwaysFaithful B c floatText U := by
  intro others admissible
  rcases h with h | h
  · constructor
    · intro legal
      rw [extracted_present plain admissible fun seg mem => (legal seg mem).some]
      exact built_of_carried plain h
    · intro illegal
      obtain ⟨seg, mem, bad⟩ := illegal
      exact absurd (h.legal seg mem) bad
  · constructor
    · intro legal
      obtain ⟨seg, mem, bad⟩ := h.illegal
      exact absurd (legal seg mem) bad
    · intro _
      rw [extracted_present plain admissible h.present]
      exact h.rejected

theorem of_alwaysFaithful (exact : B.Exact) {c' : P.Captures} (other : Carried B c' U)
    (h : AlwaysFaithful B c floatText U) : Carried B c U ∨ Refused B c U := by
  have none : Admissible P [] := fun member mem => absurd mem List.not_mem_nil
  by_cases legal : ∀ seg ∈ B.displays c, Legal U seg
  · left
    have arrives := (h [] none).carried legal
    rw [extracted_present plain none fun seg mem => (legal seg mem).some] at arrives
    exact carried_of_built plain exact legal arrives
  · have illegal : ∃ seg ∈ B.displays c, ¬ Legal U seg := by
      simpa using legal
    by_cases present : ∀ seg ∈ B.displays c, seg ≠ []
    · right
      refine ⟨present, illegal, ?_⟩
      have refused := (h [] none).refused illegal
      rwa [extracted_present plain none present] at refused
    · -- a missing capture lets the fields of another call through
      have missing : ∃ seg ∈ B.displays c, seg = [] := by
        simpa using present
      have refused := (h _ (admissible_standIns plain B c (B.displays c'))).refused illegal
      rw [extracted, syntheticUri_eq, extract_missing plain missing,
        built_of_carried plain other] at refused
      cases refused

end Arrival

/-- **The captures of a message arrive, or an error**, whatever other fields it has: exactly for
the captures that are carried or refused, where the types are exact and the endpoint can be
called at all. -/
theorem alwaysFaithful_iff (floatText : UInt64 → Str) (U : UriSyntax) {P : PathSpec}
    (B : Callable P) (c : P.Captures) :
    (Plain U P ∧ (Carried B c U ∨ Refused B c U) → AlwaysFaithful B c floatText U) ∧
      (Plain U P ∧ B.Exact ∧ (∃ c', Carried B c' U) →
        (AlwaysFaithful B c floatText U ↔ Carried B c U ∨ Refused B c U)) := by
  constructor
  · intro h
    exact alwaysFaithful_of h.1 h.2
  · intro h
    obtain ⟨plain, exact, c', other⟩ := h
    constructor
    · exact of_alwaysFaithful plain exact other
    · exact alwaysFaithful_of plain

/-- `/users/{}` with a `String`. -/
def userPath : PathSpec :=
  .lit "users".toList (.capture .string .hnil)

def user : Callable userPath :=
  .lit "users".toList (.capture .string .hnil)

theorem user_plain : Plain .documented userPath :=
  ⟨⟨by decide, List.all_eq_true.1 rfl, by decide⟩, by decide, trivial⟩

theorem user_exact : user.Exact := by
  refine ⟨?_, trivial⟩
  intro seg val h
  cases h
  rfl

theorem user_carried : Carried user ("ann".toList, ()) .documented where
  legal seg mem := by
    rw [List.mem_singleton.1 (mem : seg ∈ ["ann".toList])]
    exact ⟨by decide, List.all_eq_true.1 rfl, by decide⟩
  inOrder := ⟨by decide, by decide, trivial⟩
  short := by decide

theorem alwaysFaithful_user :
    AlwaysFaithful user ("ann".toList, ()) (fun _ => []) .documented :=
  ((alwaysFaithful_iff (fun _ => []) .documented user _).2
    ⟨user_plain, user_exact, _, user_carried⟩).2 (.inl user_carried)

/-- Without its capture the message is taken for another user's. -/
theorem not_alwaysFaithful_user : ¬ AlwaysFaithful user ([], ()) (fun _ => []) .documented := by
  intro h
  have named : Admissible userPath [("name".toList, .str "bob".toList)] := by
    intro member mem
    rw [List.mem_singleton.1 mem]
    decide
  have refused := (h _ named).refused ⟨[], List.mem_cons_self, fun legal => legal.some rfl⟩
  have other : extracted user ([], ()) (fun _ => []) .documented
      [("name".toList, .str "bob".toList)] = some ("bob".toList, ()) := rfl
  cases other.symm.trans refused

end Typeway.Server
