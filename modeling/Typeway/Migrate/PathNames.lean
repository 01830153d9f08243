import Typeway.Base.RustIdent
import Typeway.Migrate.EmitTypeway

/-!
# The names of migrated paths

`PathModel::from_axum_path` builds the name of a path type from the words of the path, and
`Ident::new` panics when that is no identifier. `sound_iff` says for which paths the declarations
are printed, legal, and apart from each other.
-/

namespace Typeway.Migrate

open Typeway.Core RustIdent

variable (rust : Chars)

/-- `PathModel::from_axum_path`, which panics in `Ident::new`. -/
def PathModel.fromAxumPath? (raw : Str) : Option PathModel :=
  let path := PathModel.fromAxumPath rust.toUppercase raw
  if isIdent rust path.typewayTypeName then some path else none

/-- A route, as its path and what its endpoint has beside the path. -/
abbrev AxumRoute := Str × EndpointModel

def migratePaths (routes : List AxumRoute) : Option (List EndpointModel) :=
  routes.mapM fun route =>
    (PathModel.fromAxumPath? rust route.1).map fun path => { route.2 with path }

/-- `lit_marker_ident` of `typeway_path!`. -/
def litMarkerIdent (text : Str) : Str :=
  "__lit_".toList ++ text

def segmentsOf (raw : Str) : List PathSegment :=
  (Segments.segments '/' raw).map pathSegment

/-- The shape of a path, its literals and the places of its captures. -/
def shape (raw : Str) : List (Option Str) :=
  (segmentsOf raw).map fun
    | .literal text => some text
    | .capture _ _ => none

/-- What `typeway_path!` needs to expand the declaration. -/
def Item.Legal : Item → Prop
  | .typewayPath name tokens => isIdent rust name = true ∧
    ∀ text, .literal text ∈ tokens → isIdent rust (litMarkerIdent text) = true
  | _ => True

structure Sound (routes : List AxumRoute) : Prop where
  /-- Nothing panics, and the declarations are legal. -/
  legal : ∃ endpoints, migratePaths rust routes = some endpoints ∧
    ∀ item ∈ emitPathDeclarations [] endpoints, item.Legal rust
  names : ∀ route ∈ routes, ∀ route' ∈ routes, shape route.1 ≠ shape route'.1 →
    generatePathTypeName rust.toUppercase (segmentsOf route.1) ≠
      generatePathTypeName rust.toUppercase (segmentsOf route'.1)
  markers : ∀ route ∈ routes, ∀ route' ∈ routes, ∀ text text',
    some text ∈ shape route.1 → some text' ∈ shape route'.1 → text ≠ text' →
      litMarkerIdent text ≠ litMarkerIdent text'

/-! ## Words -/

/-- The word with a capital at its front. -/
def capitalized : Str → Str
  | [] => []
  | c :: rest => rust.toUppercase c ++ rest

/-- The pieces between underscores. -/
def wordsOf (text : Str) : List Str :=
  (Segments.segments '_' text).map (capitalized rust)

def PathSegment.words : PathSegment → List Str
  | .literal text => wordsOf rust text
  | .capture name _ => "By".toList :: wordsOf rust name

/-- The words of a path. The root has one of its own. -/
def pathWords (raw : Str) : List Str :=
  if (segmentsOf raw).isEmpty then ["Root".toList]
  else (segmentsOf raw).flatMap (PathSegment.words rust)

variable {rust}

theorem toPascalCase_eq (text : Str) :
    toPascalCase rust.toUppercase text = (wordsOf rust text).flatten := by
  rw [toPascalCase, wordsOf, Segments.segments]
  induction text.splitOn '_' with
  | nil => rfl
  | cons word words ih =>
    rw [List.flatMap_cons, ih]
    cases word <;> rfl

theorem flatten_words {part : PathSegment → Str}
    (each : ∀ seg, part seg = (PathSegment.words rust seg).flatten) (segs : List PathSegment) :
    (segs.map part).flatten = (segs.flatMap (PathSegment.words rust)).flatten := by
  induction segs with
  | nil => rfl
  | cons seg segs ih =>
    rw [List.map_cons, List.flatten_cons, ih, List.flatMap_cons, List.flatten_append, each]

/-- The name is the words run together. -/
theorem generatePathTypeName_eq (raw : Str) :
    generatePathTypeName rust.toUppercase (segmentsOf raw) =
      (pathWords rust raw).flatten ++ "Path".toList := by
  rw [generatePathTypeName, pathWords]
  cases segmentsOf raw with
  | nil => rfl
  | cons seg segs =>
    apply congrArg (· ++ "Path".toList)
    apply flatten_words
    intro seg
    cases seg with
    | literal text => exact toPascalCase_eq text
    | capture name ty =>
      rw [PathSegment.words, List.flatten_cons]
      exact congrArg ("By".toList ++ ·) (toPascalCase_eq name)

/-- A word is not empty. -/
theorem ne_nil_of_mem_wordsOf {text word : Str} (mem : word ∈ wordsOf rust text) : word ≠ [] := by
  obtain ⟨piece, there, rfl⟩ := List.mem_map.1 mem
  obtain ⟨c, rest, rfl⟩ := List.exists_cons_of_ne_nil (Segments.segments_clean text piece there).1
  exact List.append_ne_nil_of_left_ne_nil (rust.capital c) rest

theorem ne_nil_of_mem_pathWords {raw word : Str} (mem : word ∈ pathWords rust raw) :
    word ≠ [] := by
  rw [pathWords] at mem
  split at mem
  · rw [List.mem_singleton.1 mem]
    exact List.cons_ne_nil _ _
  · obtain ⟨seg, _, there⟩ := List.mem_flatMap.1 mem
    cases seg with
    | literal text => exact ne_nil_of_mem_wordsOf there
    | capture name ty =>
      rcases List.mem_cons.1 there with rfl | there
      · exact List.cons_ne_nil _ _
      · exact ne_nil_of_mem_wordsOf there

/-- The first word of the path is an identifier, and the others only continue it. -/
structure Spelled (rust : Chars) (raw : Str) : Prop where
  first : ∀ word ∈ (pathWords rust raw).head?, isIdent rust word = true
  others : ∀ word ∈ (pathWords rust raw).tail, word.all rust.continues = true

theorem isIdent_path : isIdent rust "Path".toList = true := by
  have letter (c : Char) (alpha : c.isAlpha = true) := rust.alpha c alpha
  have name : "Path".toList = ['P', 'a', 't', 'h'] := rfl
  simp [name, isIdent, (letter 'P' rfl).1, (letter 'a' rfl).2, (letter 't' rfl).2,
    (letter 'h' rfl).2]

theorem continues_path : "Path".toList.all rust.continues = true := by
  have letter (c : Char) (alpha : c.isAlpha = true) := (rust.alpha c alpha).2
  have name : "Path".toList = ['P', 'a', 't', 'h'] := rfl
  simp [name, letter 'P' rfl, letter 'a' rfl, letter 't' rfl, letter 'h' rfl]

/-- The name is an identifier when the words spell one. -/
theorem isIdent_generatePathTypeName_iff {raw : Str} :
    isIdent rust (generatePathTypeName rust.toUppercase (segmentsOf raw)) = true ↔
      Spelled rust raw := by
  have spelled : Spelled rust raw ↔ (∀ word ∈ (pathWords rust raw).head?, isIdent rust word = true) ∧
      ∀ word ∈ (pathWords rust raw).tail, word.all rust.continues = true :=
    ⟨fun h => ⟨h.first, h.others⟩, fun h => ⟨h.1, h.2⟩⟩
  rw [generatePathTypeName_eq, spelled]
  cases words : pathWords rust raw with
  | nil => exact iff_of_true isIdent_path ⟨by simp, by simp⟩
  | cons word rest =>
    have some : word ≠ [] := ne_nil_of_mem_pathWords (words ▸ List.mem_cons_self)
    rw [List.flatten_cons, List.append_assoc, isIdent_append some, List.all_append, continues_path,
      Bool.and_true, List.all_flatten, List.all_eq_true]
    simp

/-! ## The declarations -/

def PathModel.declaration (path : PathModel) : Item :=
  .typewayPath path.typewayTypeName (path.segments.map PathSegment.token)

theorem mem_emitPathDeclarations {item : Item} {seen : List Str} {endpoints : List EndpointModel}
    (mem : item ∈ emitPathDeclarations seen endpoints) :
    ∃ endpoint ∈ endpoints, item = endpoint.path.declaration := by
  induction endpoints generalizing seen with
  | nil => cases mem
  | cons endpoint rest ih =>
    rw [emitPathDeclarations] at mem
    split at mem
    · obtain ⟨endpoint', there, same⟩ := ih mem
      exact ⟨endpoint', List.mem_cons_of_mem _ there, same⟩
    · rcases List.mem_cons.1 mem with same | mem
      · exact ⟨endpoint, List.mem_cons_self, same⟩
      · obtain ⟨endpoint', there, same⟩ := ih mem
        exact ⟨endpoint', List.mem_cons_of_mem _ there, same⟩

/-- Every pattern is declared, by the first endpoint that has it. -/
theorem declaration_mem {endpoint : EndpointModel} {seen : List Str}
    {endpoints : List EndpointModel} (mem : endpoint ∈ endpoints)
    (fresh : endpoint.path.rawPattern ∉ seen) :
    ∃ endpoint' ∈ endpoints, endpoint'.path.rawPattern = endpoint.path.rawPattern ∧
      endpoint'.path.declaration ∈ emitPathDeclarations seen endpoints := by
  induction endpoints generalizing seen with
  | nil => cases mem
  | cons head rest ih =>
    rw [emitPathDeclarations]
    by_cases same : head.path.rawPattern = endpoint.path.rawPattern
    · refine ⟨head, List.mem_cons_self, same, ?_⟩
      rw [same, if_neg (by simpa using fresh)]
      exact List.mem_cons_self
    · have mem : endpoint ∈ rest := by
        rcases List.mem_cons.1 mem with rfl | mem
        · exact absurd rfl same
        · exact mem
      split
      · obtain ⟨endpoint', there, raw, declared⟩ := ih mem fresh
        exact ⟨endpoint', List.mem_cons_of_mem _ there, raw, declared⟩
      · have fresh' : endpoint.path.rawPattern ∉ head.path.rawPattern :: seen := by
          rw [List.mem_cons, not_or]
          exact ⟨Ne.symm same, fresh⟩
        obtain ⟨endpoint', there, raw, declared⟩ := ih mem fresh'
        exact ⟨endpoint', List.mem_cons_of_mem _ there, raw, List.mem_cons_of_mem _ declared⟩

theorem litMarkerIdent_iff {text : Str} :
    isIdent rust (litMarkerIdent text) = true ↔ text.all rust.continues = true := by
  have letter (c : Char) (alpha : c.isAlpha = true) := (rust.alpha c alpha).2
  have lead : "__lit_".toList = ['_', '_', 'l', 'i', 't', '_'] := rfl
  have marker : isIdent rust "__lit_".toList = true := by
    simp [lead, isIdent, rust.underscore.1, rust.underscore.2, letter 'l' rfl, letter 'i' rfl,
      letter 't' rfl]
  have some : "__lit_".toList ≠ [] := lead ▸ List.cons_ne_nil _ _
  show isIdent rust ("__lit_".toList ++ text) = true ↔ _
  rw [isIdent_append some, marker]
  exact and_iff_right rfl

/-- The declaration of a path is legal when its words and its literals are. -/
theorem legal_declaration_iff {raw : Str} :
    (PathModel.fromAxumPath rust.toUppercase raw).declaration.Legal rust ↔
      Spelled rust raw ∧ ∀ text, some text ∈ shape raw → text.all rust.continues = true := by
  have literal (text : Str) :
      .literal text ∈ (segmentsOf raw).map PathSegment.token ↔ some text ∈ shape raw := by
    rw [shape, List.mem_map, List.mem_map]
    constructor
    · intro h
      obtain ⟨seg, mem, token⟩ := h
      refine ⟨seg, mem, ?_⟩
      cases seg with
      | literal s => exact congrArg some (PathToken.literal.inj token)
      | capture name ty => cases ty <;> cases token
    · intro h
      obtain ⟨seg, mem, token⟩ := h
      refine ⟨seg, mem, ?_⟩
      cases seg with
      | literal s => exact congrArg PathToken.literal (Option.some.inj token)
      | capture name ty => cases token
  rw [← isIdent_generatePathTypeName_iff]
  apply and_congr Iff.rfl
  apply forall_congr'
  intro text
  exact imp_congr (literal text) litMarkerIdent_iff

theorem fromAxumPath?_eq_some_iff {raw : Str} {path : PathModel} :
    PathModel.fromAxumPath? rust raw = some path ↔
      Spelled rust raw ∧ PathModel.fromAxumPath rust.toUppercase raw = path := by
  rw [← isIdent_generatePathTypeName_iff, PathModel.fromAxumPath?]
  by_cases ident : isIdent rust (generatePathTypeName rust.toUppercase (segmentsOf raw)) = true
  · refine Iff.trans (iff_of_eq (congrArg (· = some path) (if_pos ident))) ?_
    rw [Option.some.injEq, and_iff_right ident]
  · refine Iff.trans (iff_of_eq (congrArg (· = some path) (if_neg ident))) ?_
    exact iff_of_false (fun h => nomatch h) fun h => ident h.1

/-- The endpoint of a route whose name is an identifier. -/
def AxumRoute.endpoint (rust : Chars) (route : AxumRoute) : EndpointModel :=
  { route.2 with path := PathModel.fromAxumPath rust.toUppercase route.1 }

/-- Either some name is no identifier, or every route has its path. -/
theorem migratePaths_eq_some_iff {routes : List AxumRoute} {endpoints : List EndpointModel} :
    migratePaths rust routes = some endpoints ↔
      (∀ route ∈ routes, Spelled rust route.1) ∧
        routes.map (AxumRoute.endpoint rust) = endpoints := by
  induction routes generalizing endpoints with
  | nil => simp [migratePaths]
  | cons route routes ih =>
    rw [migratePaths, List.mapM_cons, List.forall_mem_cons, List.map_cons]
    simp only [Option.bind_eq_bind, Option.bind_eq_some_iff, Option.map_eq_some_iff,
      fromAxumPath?_eq_some_iff, Option.pure_def, Option.some.injEq]
    constructor
    · intro h
      obtain ⟨_, ⟨_, ⟨spelled, rfl⟩, rfl⟩, rest, found, rfl⟩ := h
      obtain ⟨others, rfl⟩ := ih.1 found
      exact ⟨⟨spelled, others⟩, rfl⟩
    · intro h
      obtain ⟨⟨spelled, others⟩, rfl⟩ := h
      exact ⟨_, ⟨_, ⟨spelled, rfl⟩, rfl⟩, _, ih.2 ⟨others, rfl⟩, rfl⟩

/-- The declarations are legal and apart when the words of the paths are: no path spells anything
but identifiers, and paths of different shapes spell different words. -/
theorem sound_iff (rust : Chars) (routes : List AxumRoute) :
    Sound rust routes ↔
      (∀ route ∈ routes, Spelled rust route.1 ∧
        ∀ text, some text ∈ shape route.1 → text.all rust.continues = true) ∧
      ∀ route ∈ routes, ∀ route' ∈ routes,
        (pathWords rust route.1).flatten = (pathWords rust route'.1).flatten →
          shape route.1 = shape route'.1 := by
  constructor
  · intro sound
    obtain ⟨endpoints, migrated, legal⟩ := sound.legal
    obtain ⟨-, rfl⟩ := migratePaths_eq_some_iff.1 migrated
    constructor
    · intro route mem
      have given : route.endpoint rust ∈ routes.map (AxumRoute.endpoint rust) :=
        List.mem_map_of_mem mem
      obtain ⟨endpoint, there, raw, declared⟩ := declaration_mem given List.not_mem_nil
      obtain ⟨route', _, rfl⟩ := List.mem_map.1 there
      have same : route'.1 = route.1 := raw
      have := legal_declaration_iff.1 (legal _ declared)
      rwa [same] at this
    · intro route mem route' mem' words
      by_contra apart
      apply sound.names route mem route' mem' apart
      rw [generatePathTypeName_eq, generatePathTypeName_eq, words]
  · intro h
    obtain ⟨spelled, apart⟩ := h
    refine ⟨⟨_, migratePaths_eq_some_iff.2 ⟨fun route mem => (spelled route mem).1, rfl⟩, ?_⟩,
      ?_, ?_⟩
    · intro item mem
      obtain ⟨endpoint, there, rfl⟩ := mem_emitPathDeclarations mem
      obtain ⟨route, given, rfl⟩ := List.mem_map.1 there
      exact legal_declaration_iff.2 (spelled route given)
    · intro route mem route' mem' shapes same
      rw [generatePathTypeName_eq, generatePathTypeName_eq] at same
      exact shapes (apart route mem route' mem' (List.append_cancel_right same))
    · intro _ _ _ _ text text' _ _ texts same
      exact texts (List.append_cancel_left same)

/-- A handler for `GET`. -/
def getEndpoint : EndpointModel where
  method := .get
  path := ⟨[], [], []⟩
  handler := { name := "list_profiles".toList, extractors := [], returnType := .unit, body := [] }
  requestBody := none
  responseType := .unit
  requiresAuth := false
  authType := none
  hasValidation := false
  validatorName := none
  bindMacro := .bind

theorem not_sound_userProfiles :
    ¬ ∀ (rust : Chars) (routes : List AxumRoute), Sound rust routes := by
  intro all
  have sound := all ascii [("/user-profiles".toList, getEndpoint)]
  obtain ⟨spelled, -⟩ := ((sound_iff _ _).1 sound).1 _ List.mem_cons_self
  exact absurd (spelled.first "User-profiles".toList rfl) (by decide)

end Typeway.Migrate
