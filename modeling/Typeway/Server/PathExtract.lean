import Typeway.Base.Checked
import Typeway.Grpc.Names
import Typeway.Server.Resolve

/-!
# The path extractor

`Path<P>` of `extract.rs` splits the path of a request again, behind the prefix that the router has
told it of. The match function that chose the route has split it behind the prefix too, and that of
a `Versioned` endpoint has taken one more segment off.
-/

namespace Typeway.Server

open Typeway.Core Grpc Checked

/-- The endpoints a handler is bound to. The other wrappers hand on the pattern and the match
function of what they wrap. -/
inductive VersionedEndpoint where
  | endpoint (method : Method) (P : PathSpec)
  | versioned (version : Str) (inner : VersionedEndpoint)

namespace VersionedEndpoint

def method : VersionedEndpoint → Method
  | endpoint method _ => method
  | versioned _ inner => inner.method

def pattern : VersionedEndpoint → Str
  | endpoint _ P => P.pattern
  | versioned version inner => '/' :: (version ++ inner.pattern)

def matchFn : VersionedEndpoint → List Str → Bool
  | endpoint _ P, segments => (P.extract segments).isSome
  | versioned version inner, segments =>
    if segments.head? = some version then inner.matchFn segments.tail else false

/-- The path type that the handler extracts with. -/
def path : VersionedEndpoint → PathSpec
  | endpoint _ P => P
  | versioned _ inner => inner.path

def versions : VersionedEndpoint → List Str
  | endpoint _ _ => []
  | versioned version inner => version :: inner.versions

/-- The captures that the match function accepts, and forgets. -/
def captures : (E : VersionedEndpoint) → List Str → Option E.path.Captures
  | endpoint _ P, segments => P.extract segments
  | versioned version inner, segments =>
    if segments.head? = some version then inner.captures segments.tail else none

end VersionedEndpoint

/-- What `bind` registers. -/
def RouteEntry.ofEndpoint {H : Type} (E : VersionedEndpoint) (handler : H) : RouteEntry H where
  method := E.method
  pattern := E.pattern
  matchFn := E.matchFn
  handler

/-- `&path[offset..]`, which panics within a character. -/
def sliceStr : Nat → Str → Run (Nat × Str) Str
  | 0, path => .ok path
  | _ + 1, [] => .error (.panic .sliceOutOfRange)
  | offset + 1, c :: path =>
    if c.utf8Size ≤ offset + 1 then sliceStr (offset + 1 - c.utf8Size) path
    else .error (.panic .sliceOutOfRange)

/-- Where the extractor begins to read, by the offset in the extensions. -/
def postPrefixPath (pathPrefixOffset : Option Nat) (fullPath : Str) : Run (Nat × Str) Str :=
  let offset := pathPrefixOffset.getD 0
  if offset ≤ byteLen fullPath then sliceStr offset fullPath else .ok []

/-- `Path::from_request_parts` -/
def pathFromRequestParts (P : PathSpec) (pathPrefixOffset : Option Nat) (fullPath : Str) :
    Run (Nat × Str) P.Captures := do
  let path ← postPrefixPath pathPrefixOffset fullPath
  match P.extract (pathSegments path) with
  | some captures => .ok captures
  | none =>
    .error (.err (400, "failed to parse path segments for pattern: ".toList ++ P.pattern))

/-- What `route` and `route_with_bytes` put into the extensions of a request that has none. -/
def RouterInner.pathPrefixOffset {H : Type} (inner : RouterInner H) : Option Nat :=
  inner.prefixStr.map byteLen

/-- The extractor of the endpoint's path type yields the captures that its match function accepted
on the path behind the prefix. -/
def ExtractsMatched {H : Type} (E : VersionedEndpoint) (inner : RouterInner H)
    (path lookupPath : Str) : Prop :=
  ∃ captures, E.captures (pathSegments lookupPath) = some captures ∧
    pathFromRequestParts E.path inner.pathPrefixOffset path = .ok captures

/-! ## Behind the prefix -/

theorem sliceStr_append (pre path : Str) : sliceStr (byteLen pre) (pre ++ path) = .ok path := by
  induction pre with
  | nil => exact sliceStr.eq_1 path
  | cons c pre ih =>
    have some := Char.utf8Size_pos c
    have len : byteLen (c :: pre) = c.utf8Size - 1 + byteLen pre + 1 := by
      simp only [byteLen, List.map_cons, List.sum_cons]
      omega
    rw [len, List.cons_append, sliceStr, if_pos (by omega)]
    have left : c.utf8Size - 1 + byteLen pre + 1 - c.utf8Size = byteLen pre := by omega
    rw [left]
    exact ih

/-- The extractor begins where the router has found the path, up to a slash. -/
theorem postPrefixPath_spec {prefixStr : Option Str} {path lookupPath : Str}
    (stripped : stripPrefix prefixStr path = some lookupPath) :
    ∃ rest, postPrefixPath (prefixStr.map byteLen) path = .ok rest ∧
      pathSegments rest = pathSegments lookupPath := by
  unfold stripPrefix at stripped
  rw [postPrefixPath]
  cases prefixStr with
  | none =>
    cases stripped
    rw [Option.map_none, Option.getD_none]
    refine ⟨path, (if_pos (Nat.zero_le _)).trans (sliceStr.eq_1 path), ?_⟩
    cases path with
    | nil => rfl
    | cons c path => rfl
  | some pre =>
    dsimp only at stripped
    split at stripped
    · rename_i isPrefix
      obtain ⟨rest, rfl⟩ := List.isPrefixOf_iff_prefix.1 isPrefix
      rw [List.drop_left] at stripped
      refine ⟨rest, ?_, ?_⟩
      · rw [Option.map_some, Option.getD_some]
        refine (if_pos ?_).trans (sliceStr_append pre rest)
        rw [byteLen_append]
        omega
      · split at stripped
        · cases stripped
          rfl
        · cases stripped
          rfl
        · cases stripped
    · cases stripped

/-- The extractor reads the segments on which the route was looked up. -/
theorem pathFromRequestParts_eq {H : Type} {inner : RouterInner H} {path lookupPath : Str}
    (stripped : stripPrefix inner.prefixStr path = some lookupPath) (P : PathSpec)
    (captures : P.Captures) :
    pathFromRequestParts P inner.pathPrefixOffset path = .ok captures ↔
      P.extract (pathSegments lookupPath) = some captures := by
  obtain ⟨rest, found, same⟩ := postPrefixPath_spec stripped
  rw [pathFromRequestParts, RouterInner.pathPrefixOffset, found, ← same]
  show (match P.extract (pathSegments rest) with
    | some captures => Except.ok captures
    | none => _) = _ ↔ _
  cases P.extract (pathSegments rest) with
  | none => simp
  | some captures' => simp

/-! ## The captures of an endpoint -/

/-- A path type reads the same captures from paths of one length only. -/
theorem length_of_extract {P : PathSpec} {segments segments' : List Str} {c : P.Captures}
    (h : P.extract segments = some c) (h' : P.extract segments' = some c) :
    segments.length = segments'.length := by
  induction P generalizing segments segments' with
  | hnil =>
    rw [PathSpec.extract_hnil_iff] at h h'
    rw [h, h']
  | lit value tail ih =>
    obtain ⟨rest, rfl, read⟩ := PathSpec.extract_lit_iff.1 h
    obtain ⟨rest', rfl, read'⟩ := PathSpec.extract_lit_iff.1 h'
    exact congrArg (· + 1) (ih read read')
  | capture U tail ih =>
    obtain ⟨seg, rest, rfl, -, read⟩ := PathSpec.extract_capture_iff.1 h
    obtain ⟨seg', rest', rfl, -, read'⟩ := PathSpec.extract_capture_iff.1 h'
    exact congrArg (· + 1) (ih read read')
  | captureRest =>
    cases h
    cases h'
    rfl

namespace VersionedEndpoint

section Versioned

variable {version : Str} {inner : VersionedEndpoint} {segments : List Str}

theorem captures_of_head (first : segments.head? = some version) :
    (versioned version inner).captures segments = inner.captures segments.tail :=
  if_pos first

theorem captures_of_head_ne (other : segments.head? ≠ some version) :
    (versioned version inner).captures segments = none :=
  if_neg other

end Versioned

theorem matchFn_eq (E : VersionedEndpoint) (segments : List Str) :
    E.matchFn segments = (E.captures segments).isSome := by
  induction E generalizing segments with
  | endpoint method P => rfl
  | versioned version inner ih =>
    rw [matchFn]
    split
    · rename_i first
      rw [captures_of_head first]
      exact ih segments.tail
    · rename_i other
      rw [captures_of_head_ne other]
      rfl

/-- The match function takes the versions off and hands the rest to the path type. -/
theorem captures_iff {E : VersionedEndpoint} {segments : List Str} {c : E.path.Captures} :
    E.captures segments = some c ↔
      ∃ rest, segments = E.versions ++ rest ∧ E.path.extract rest = some c := by
  induction E generalizing segments with
  | endpoint method P =>
    constructor
    · intro h
      exact ⟨segments, rfl, h⟩
    · rintro ⟨rest, rfl, h⟩
      exact h
  | versioned version inner ih =>
    constructor
    · intro h
      by_cases first : segments.head? = some version
      · obtain ⟨rest, tail, read⟩ := ih.1 ((captures_of_head first).symm.trans h)
        refine ⟨rest, ?_, read⟩
        rw [versions, List.cons_append, ← tail]
        exact (List.cons_head?_tail first).symm
      · cases (captures_of_head_ne first).symm.trans h
    · rintro ⟨rest, rfl, read⟩
      exact (captures_of_head rfl).trans (ih.2 ⟨rest, rfl, read⟩)

end VersionedEndpoint

/-! ## Extraction on a routed request -/

section Routed

variable {H : Type} {M : Matchit} {inner : RouterInner H} {method : Method} {path lookupPath : Str}
  {i : Nat} {E : VersionedEndpoint} {handler : H}

/-- The match function of the route that answers has accepted captures. -/
theorem captures_of_hit (hit : resolve M inner method lookupPath = .hit i)
    (here : inner.routes[i]? = some (.ofEndpoint E handler)) :
    ∃ c, E.captures (pathSegments lookupPath) = some c := by
  obtain ⟨route, there, accepts⟩ :=
    matches?_eq_true.1 (lookupInBucket_matches (resolve_eq_hit.1 hit))
  cases here.symm.trans there
  rw [← Option.isSome_iff_exists, ← VersionedEndpoint.matchFn_eq]
  exact accepts

/-- With or without a prefix, the extractor yields what the match function accepted exactly for the
endpoints without a version. -/
theorem extractsMatched_iff (stripped : stripPrefix inner.prefixStr path = some lookupPath)
    (hit : resolve M inner method lookupPath = .hit i)
    (here : inner.routes[i]? = some (.ofEndpoint E handler)) :
    ExtractsMatched E inner path lookupPath ↔ E.versions = [] := by
  obtain ⟨c, accepted⟩ := captures_of_hit hit here
  obtain ⟨rest, split, read⟩ := VersionedEndpoint.captures_iff.1 accepted
  constructor
  · rintro ⟨c', accepted', extracted⟩
    cases accepted.symm.trans accepted'
    have whole := (pathFromRequestParts_eq stripped _ _).1 extracted
    have same := length_of_extract whole read
    rw [split, List.length_append] at same
    apply List.eq_nil_of_length_eq_zero
    omega
  · intro plain
    rw [plain, List.nil_append] at split
    refine ⟨c, accepted, (pathFromRequestParts_eq stripped _ _).2 ?_⟩
    rw [split]
    exact read

end Routed

/-- `GET /users/{}` for a `u32`, as it is and of version `v1`. -/
def getUser : VersionedEndpoint :=
  .endpoint .get (.lit "users".toList (.capture .u32 .hnil))

def getUserV1 : VersionedEndpoint :=
  .versioned "v1".toList getUser

/-- Both below `/api`. -/
def usersApi : List (Call Unit) :=
  [.setPrefix "/api".toList, .addRoute (.ofEndpoint getUser ()),
    .addRoute (.ofEndpoint getUserV1 ())]

/-- `/api/users/42` -/
theorem extractsMatched_getUser :
    ExtractsMatched getUser (.calls .documented usersApi) "/api/users/42".toList
      "/users/42".toList := by
  have hit : resolve .documented (.calls .documented usersApi) .get "/users/42".toList = .hit 0 :=
    by decide
  exact (extractsMatched_iff rfl hit rfl).2 rfl

/-- `/api/v1/users/42` is routed to the handler, and its extractor answers 400. -/
theorem not_extractsMatched_getUserV1 :
    ¬ ∀ (calls : List (Call Unit)) (method : Method) (path lookupPath : Str) (i : Nat)
      (E : VersionedEndpoint),
      stripPrefix (RouterInner.calls .documented calls).prefixStr path = some lookupPath →
      resolve .documented (.calls .documented calls) method lookupPath = .hit i →
      (RouterInner.calls .documented calls).routes[i]? = some (.ofEndpoint E ()) →
      ExtractsMatched E (.calls .documented calls) path lookupPath := by
  intro all
  obtain ⟨c, -, extracted⟩ := all usersApi .get "/api/v1/users/42".toList "/v1/users/42".toList 1
    getUserV1 rfl (by decide) rfl
  cases extracted

end Typeway.Server
