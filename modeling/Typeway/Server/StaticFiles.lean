import Typeway.Base.FsPath
import Typeway.Base.Substring
import Typeway.Server.Resolve

/-!
# Static files

`with_static_files` of `server.rs`, which `Server` and `LayeredServer` have twice. The router
matches the nested path by its segments; the handler cuts the file path out of the whole request
path by counting slashes.
-/

namespace Typeway.Server

open Typeway.Core Segments FsPath

/-- What the handler does with a request: it answers 403, or it reads a file of the directory. -/
inductive StaticOutcome where
  | forbidden
  | read (filePath fullPath : FilePath)
  deriving DecidableEq

def filePath (prefixLen : Nat) (path : Str) : FilePath :=
  ['/'].intercalate ((splitn '/' (prefixLen + 2) path).drop (prefixLen + 1))

def indexHtml : FilePath :=
  "index.html".toList

def fullPath (dir : FilePath) (isDir : FilePath → Bool) (filePath : FilePath) : FilePath :=
  if filePath.isEmpty then join dir indexHtml
  else
    let p := join dir filePath
    if isDir p then join p indexHtml else p

/-- The handler that `with_static_files` installs. -/
def serveStatic (prefixLen : Nat) (dir : FilePath) (isDir : FilePath → Bool) (path : Str) :
    StaticOutcome :=
  let filePath := filePath prefixLen path
  if Substring.contains "..".toList filePath then .forbidden else .read filePath (fullPath dir isDir filePath)

variable {H : Type} {M : Matchit}

/-- The route it is installed under. -/
def staticRoute (pre : Str) (handler : H) : RouteEntry H where
  method := .get
  pattern := pre ++ "/{*path}".toList
  matchFn segments :=
    let prefixSegs := pathSegments pre
    decide (prefixSegs.length ≤ segments.length) &&
      ((segments.take prefixSegs.length).zip prefixSegs).all fun p => p.1 == p.2
  handler

/-- The part of the request path after the nest prefix and the static prefix. -/
def requestedPart (prefixStr : Option Str) (pre path : Str) : FilePath :=
  match stripPrefix prefixStr path with
  | some lookupPath => remainder '/' (pathSegments pre).length lookupPath
  | none => []

/-- The file a part names in the directory, or the index file under it. -/
def FileOf (dir part full : FilePath) : Prop :=
  full = join dir part ∨ full = join (join dir part) indexHtml ∨
    (part = [] ∧ full = join dir indexHtml)

/-- The handler refuses, or it reads the file that the requested part names, and that lies under
the directory. -/
def Confined (prefixStr : Option Str) (cwd : List FilePath) (isDir : FilePath → Bool)
    (pre : Str) (dir : FilePath) (path : Str) : Prop :=
  serveStatic (pathSegments pre).length dir isDir path = .forbidden ∨
    ∃ full, serveStatic (pathSegments pre).length dir isDir path =
        .read (requestedPart prefixStr pre path) full ∧
      FileOf dir (requestedPart prefixStr pre path) full ∧ Under cwd dir full

/-- The condition: `..` behind the slashes that are counted, or no nest prefix, each segment of
the static prefix after one slash, and no remainder that leads elsewhere as an absolute path. -/
def StaticSound (prefixStr : Option Str) (cwd : List FilePath) (isDir : FilePath → Bool)
    (pre : Str) (dir : FilePath) (path : Str) : Prop :=
  "..".toList <:+: behind '/' ((pathSegments pre).length + 1) path ∨
    (prefixStr = none ∧ joined '/' (pathSegments pre) <+: path ∧
      (isAbsolute (requestedPart prefixStr pre path) = false ∨
        Under cwd dir (fullPath dir isDir (requestedPart prefixStr pre path))))

/-! ## The handler -/

theorem filePath_eq (prefixLen : Nat) (path : Str) :
    filePath prefixLen path = behind '/' (prefixLen + 1) path :=
  drop_splitn _ _

theorem fileOf_fullPath (dir : FilePath) (isDir : FilePath → Bool) (part : FilePath) :
    FileOf dir part (fullPath dir isDir part) := by
  rw [fullPath]
  split
  · rename_i empty
    exact .inr (.inr ⟨List.isEmpty_iff.1 empty, rfl⟩)
  · dsimp only
    split
    · exact .inr (.inl rfl)
    · exact .inl rfl

/-- A relative part without `..` names a file under the directory. -/
theorem under_fullPath {cwd : List FilePath} {dir part : FilePath} (isDir : FilePath → Bool)
    (relative : isAbsolute part = false) (noParent : ¬ "..".toList <:+: part) :
    Under cwd dir (fullPath dir isDir part) := by
  have index : ∀ base, Under cwd base (join base indexHtml) :=
    fun base => under_join rfl (by rw [← Substring.contains_iff]; decide)
  rw [fullPath]
  split
  · exact index dir
  · dsimp only
    split
    · exact (under_join relative noParent).trans (index _)
    · exact under_join relative noParent

theorem eq_of_zip_all {l l' : List Str} (size : l.length = l'.length)
    (same : ((l.zip l').all fun p => p.1 == p.2) = true) : l = l' := by
  induction l generalizing l' with
  | nil => exact (List.length_eq_zero_iff.1 size.symm).symm
  | cons a l ih =>
    cases l' with
    | nil => cases size
    | cons b l' =>
      rw [List.zip_cons_cons, List.all_cons, Bool.and_eq_true, beq_iff_eq] at same
      exact congrArg₂ List.cons same.1 (ih (Nat.succ.inj size) same.2)

theorem staticRoute_matchFn {pre : Str} {handler : H} {segments : List Str}
    (accepts : (staticRoute pre handler).matchFn segments = true) :
    pathSegments pre <+: segments := by
  rw [staticRoute, Bool.and_eq_true, decide_eq_true_iff] at accepts
  obtain ⟨long, same⟩ := accepts
  have taken := eq_of_zip_all (by rw [List.length_take]; omega) same
  exact taken ▸ List.take_prefix _ _

/-- Without a nest prefix the handler cuts out the requested part iff no segment of the static
prefix has more than one slash before it. -/
theorem filePath_eq_requested_iff {pre p : Str}
    (first : pathSegments pre <+: pathSegments ('/' :: p)) :
    filePath (pathSegments pre).length ('/' :: p) = requestedPart none pre ('/' :: p) ↔
      joined '/' (pathSegments pre) <+: '/' :: p := by
  rw [filePath_eq, behind_cons]
  rw [pathSegments, pathSegments, segments_cons_sep] at first
  exact behind_eq_remainder_iff first

/-- What `strip_prefix` leaves of a path. -/
theorem stripPrefix_some {pre path lookup : Str} (h : stripPrefix (some pre) path = some lookup) :
    ∃ rest, path = pre ++ rest ∧
      ((rest = [] ∧ lookup = ['/']) ∨ (rest = lookup ∧ rest.head? = some '/')) := by
  rw [stripPrefix] at h
  split at h
  · rename_i under
    obtain ⟨rest, rfl⟩ := List.isPrefixOf_iff_prefix.1 under
    rw [List.drop_left] at h
    refine ⟨rest, rfl, ?_⟩
    split at h
    · cases h
      exact .inl ⟨rfl, rfl⟩
    · cases h
      exact .inr ⟨rfl, rfl⟩
    · cases h
  · cases h

/-- Under a nest prefix the handler always cuts out more than the requested part. -/
theorem filePath_ne_requested {nest : List Str} (some : nest ≠ []) (clean : Clean '/' nest)
    {pre path lookup : Str} (strip : stripPrefix (.some (joined '/' nest)) path = .some lookup)
    (first : pathSegments pre <+: pathSegments lookup) :
    filePath (pathSegments pre).length path ≠
      requestedPart (.some (joined '/' nest)) pre path := by
  obtain ⟨rest, rfl, cases_⟩ := stripPrefix_some strip
  have apart : rest = [] ∨ rest.head? = .some '/' := cases_.imp And.left And.right
  have sameSegments : pathSegments rest = pathSegments lookup := by
    rcases cases_ with ⟨rfl, rfl⟩ | ⟨rfl, -⟩ <;> rfl
  -- the part, counted from the start of the whole path
  have part : requestedPart (.some (joined '/' nest)) pre (joined '/' nest ++ rest) =
      remainder '/' (nest.length + (pathSegments pre).length) (joined '/' nest ++ rest) := by
    rw [requestedPart, strip, remainder, dropSegments_add, dropSegments_joined clean apart]
    rcases cases_ with ⟨rfl, rfl⟩ | ⟨rfl, -⟩
    · dsimp only
      rw [dropSegments_nil]
      cases (pathSegments pre).length with
      | zero => rfl
      | succ k =>
        rw [remainder, dropSegments_cons_sep, dropSegments_nil]
    · rfl
  obtain ⟨p, start⟩ : ∃ p, joined '/' nest ++ rest = '/' :: p := by
    obtain ⟨s, nest, rfl⟩ := List.exists_cons_of_ne_nil some
    exact ⟨_, rfl⟩
  have enough : nest.length + (pathSegments pre).length ≤ (segments '/' p).length := by
    have total := segments_joined clean apart
    rw [start, segments_cons_sep] at total
    have := first.length_le
    rw [← sameSegments] at this
    rw [total, List.length_append]
    exact Nat.add_le_add_left this _
  have less := remainder_lt_behind (i := (pathSegments pre).length)
    (by have := List.length_pos_iff.2 some; omega) enough
  rw [part, filePath_eq, start, behind_cons]
  intro e
  rw [e] at less
  exact Nat.lt_irrefl _ less

/-! ## Requests that reach it -/

theorem route_eq_hit {inner : RouterInner H} {method : Method} {path : Str} {i : Nat}
    (h : route M inner method path = .hit i) :
    ∃ lookup, stripPrefix inner.prefixStr path = some lookup ∧
      matches? inner.routes (pathSegments lookup) i = true := by
  rw [route] at h
  cases strip : stripPrefix inner.prefixStr path with
  | none =>
    rw [strip] at h
    cases h
  | some lookup =>
    rw [strip] at h
    exact ⟨lookup, rfl, lookupInBucket_matches (resolve_eq_hit.1 h)⟩

/-- Exactly which requests that reach the handler stay in the directory. -/
theorem confined_iff (M : Matchit) (calls : List (Call H)) {i : Nat} {pre : Str} {handler : H}
    (installed : (RouterInner.calls M calls).routes[i]? = some (staticRoute pre handler))
    {path : Str} (rooted : path.head? = some '/')
    (reached : route M (.calls M calls) .get path = .hit i)
    (cwd : List FilePath) (dir : FilePath) (isDir : FilePath → Bool) :
    Confined (RouterInner.calls M calls).prefixStr cwd isDir pre dir path ↔
      StaticSound (RouterInner.calls M calls).prefixStr cwd isDir pre dir path := by
  have consistent : (RouterInner.calls M calls).Consistent := .calls calls
  generalize RouterInner.calls M calls = inner at consistent installed reached ⊢
  obtain ⟨p, rfl⟩ := List.head?_eq_some_iff.1 rooted
  obtain ⟨lookup, strip, accepts⟩ := route_eq_hit reached
  have first : pathSegments pre <+: pathSegments lookup := by
    obtain ⟨r, here, accepts⟩ := matches?_eq_true.1 accepts
    cases installed.symm.trans here
    exact staticRoute_matchFn accepts
  rw [Confined, StaticSound, serveStatic, ← filePath_eq, ← Substring.contains_iff]
  by_cases refused : Substring.contains "..".toList
      (filePath (pathSegments pre).length ('/' :: p)) = true
  · rw [if_pos refused]
    exact iff_of_true (.inl rfl) (.inl refused)
  · rw [if_neg refused]
    cases nest : inner.prefixStr with
    | none =>
      rw [nest] at strip
      cases strip
      have cutOut := filePath_eq_requested_iff first
      constructor
      · intro confined
        rcases confined with no | ⟨full, e, -, under⟩
        · cases no
        · injection e with same e
          subst e
          rw [same] at under
          exact .inr ⟨rfl, cutOut.1 same, .inr under⟩
      · intro sound
        obtain ⟨-, single, place⟩ := sound.resolve_left refused
        have same := cutOut.2 single
        rw [same, Substring.contains_iff] at refused
        rw [same]
        refine .inr ⟨_, rfl, fileOf_fullPath _ _ _, ?_⟩
        rcases place with relative | under
        · exact under_fullPath isDir relative refused
        · exact under
    | some nestStr =>
      obtain ⟨nestSegments, some, clean, rfl⟩ := consistent.nested nestStr nest
      rw [nest] at strip
      refine iff_of_false ?_ ?_
      · intro confined
        rcases confined with no | ⟨full, e, -⟩
        · cases no
        · injection e with same
          exact filePath_ne_requested some clean strip first same
      · intro sound
        obtain ⟨no, -⟩ := sound.resolve_left refused
        cases no

/-- `with_static_files("/static", dir)` and nothing else. -/
def site : List (Call Unit) :=
  [.addRoute (staticRoute "/static".toList ())]

theorem confined_site :
    Confined none ["srv".toList] (fun _ => false) "/static".toList "public".toList
      "/static/app.js".toList :=
  (confined_iff .documented site (i := 0) rfl rfl (by decide) _ _ _).2
    (.inr ⟨rfl, by decide, .inl (by decide)⟩)

/-- The remainder `/etc/passwd` is absolute, so joining it to the directory leaves it. -/
theorem not_confined_site :
    route .documented (.calls .documented site) .get "/static//etc/passwd".toList = .hit 0 ∧
      ¬ Confined none ["srv".toList] (fun _ => false) "/static".toList "public".toList
        "/static//etc/passwd".toList := by
  refine ⟨by decide, ?_⟩
  intro confined
  have served : serveStatic (pathSegments "/static".toList).length "public".toList
      (fun _ => false) "/static//etc/passwd".toList =
        .read "/etc/passwd".toList "/etc/passwd".toList := by
    decide
  rcases confined with no | ⟨full, e, -, under⟩
  · cases served.symm.trans no
  · cases served.symm.trans e
    exact absurd under (by unfold Under; decide)

end Typeway.Server
