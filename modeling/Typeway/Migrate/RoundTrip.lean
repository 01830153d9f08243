import Mathlib.Data.List.Forall2
import Typeway.Migrate.Reprint
import Typeway.Migrate.Reread

/-!
# There and back

What comes back when the printed typeway program is parsed and printed for axum. `comesBack_iff_told`
says of which models that is everything.
-/

namespace Typeway.Migrate

open Typeway.Core

/-! ## Paths -/

/-- A slash and nothing behind it, or pieces that are neither empty nor wildcards. -/
def Plain (parts : List PathPart) : Prop :=
  ∃ rest, parts = .literal [] :: rest ∧
    (rest = [.literal []] ∨ rest ≠ [] ∧ .literal [] ∉ rest) ∧ .wildcard ∉ rest

def PathSegment.untyped : PathSegment → PathSegment
  | literal text => .literal text
  | capture name _ => .capture name none

/-- A path of `from_axum_path`, with types that may have been filled in for the captures. -/
structure PathModel.FromAxum (toUppercase : Char → Str) (lowered : Ty → Str) (path : PathModel) :
    Prop where
  segments : path.segments.map PathSegment.untyped = segmentsOf path.rawPattern
  name : path.typewayTypeName = generatePathTypeName toUppercase (segmentsOf path.rawPattern)
  /-- The text of a captured type is a name for its capture. -/
  types : ∀ ty, .type ty ∈ path.segments.map PathSegment.token →
    '/' ∉ lowered ty ∧ (lowered ty).head? ≠ some '*'

def PathPart.unnamed : PathPart → PathPart
  | literal text => .literal text
  | _ => .capture

/-- The parts that come back. -/
def comingBack (parts : List PathPart) : List PathPart :=
  let pieces := parts.filter fun part => part ≠ .literal []
  .literal [] :: if pieces.isEmpty then [.literal []] else pieces.map PathPart.unnamed

theorem comingBack_eq_iff {parts : List PathPart} : comingBack parts = parts ↔ Plain parts := by
  unfold comingBack
  constructor
  · intro same
    generalize pieces : (parts.filter fun part => part ≠ .literal []) = kept at same
    have wild : PathPart.wildcard ∉ kept.map PathPart.unnamed := by
      intro mem
      obtain ⟨part, _, eq⟩ := List.mem_map.1 mem
      cases part <;> cases eq
    have empty : PathPart.literal [] ∉ kept.map PathPart.unnamed := by
      intro mem
      obtain ⟨part, there, eq⟩ := List.mem_map.1 mem
      rw [← pieces] at there
      cases part with
      | literal text => exact absurd eq (of_decide_eq_true (List.mem_filter.1 there).2)
      | capture => cases eq
      | wildcard => cases eq
    cases kept with
    | nil => exact ⟨_, same.symm, .inl rfl, by simp⟩
    | cons part kept => exact ⟨_, same.symm, .inr ⟨List.cons_ne_nil _ _, empty⟩, wild⟩
  · intro plain
    obtain ⟨rest, rfl, rfl | ⟨some, full⟩, wild⟩ := plain
    · rfl
    · have kept : ((PathPart.literal [] :: rest).filter fun part => part ≠ .literal []) = rest := by
        rw [List.filter_cons_of_neg (by simp), List.filter_eq_self]
        intro part mem
        exact decide_eq_true fun eq => full (eq ▸ mem)
      have same : rest.map PathPart.unnamed = rest := by
        refine (List.map_congr_left ?_).trans (List.map_id rest)
        intro part mem
        cases part with
        | literal text => rfl
        | capture => rfl
        | wildcard => exact absurd mem wild
      simp only [kept, same]
      cases rest with
      | nil => exact absurd rfl some
      | cons part rest => rfl

theorem unnamed_part {seg : PathSegment} {lowered : Ty → Str}
    (named : ∀ ty, seg.token = .type ty → (lowered ty).head? ≠ some '*') :
    (seg.token.segment lowered).part = seg.untyped.part.unnamed := by
  cases seg with
  | literal text => rfl
  | capture name ty =>
    have unnamed : (PathSegment.capture name none).part.unnamed = .capture := by
      unfold PathSegment.part
      dsimp only
      split <;> rfl
    refine Eq.trans ?_ unnamed.symm
    cases ty with
    | none => exact if_neg (named _ rfl)
    | some ty => exact if_neg (named ty rfl)

/-- The parts of the nonempty pieces. -/
theorem parts_segmentsOf (raw : Str) :
    (segmentsOf raw).map PathSegment.part = (pathParts raw).filter fun part => part ≠ .literal [] := by
  unfold segmentsOf pathParts Segments.segments
  rw [List.map_map, List.filter_map]
  apply congrArg
  apply List.filter_congr
  intro piece _
  have capture (name : Str) : (PathSegment.capture name none).part ≠ .literal [] := by
    unfold PathSegment.part
    dsimp only
    split <;> exact nofun
  show (!piece.isEmpty) = decide ((pathSegment piece).part ≠ .literal [])
  unfold pathSegment
  split
  · rename_i braced
    rw [decide_eq_true (capture _)]
    cases piece with
    | nil => cases braced.1
    | cons c piece => rfl
  · split
    · rename_i colon
      rw [decide_eq_true (capture _)]
      cases piece with
      | nil => cases colon
      | cons c piece => rfl
    · cases piece with
      | nil => rfl
      | cons c piece => exact (decide_eq_true (by simp [PathSegment.part])).symm

section

variable {toUppercase : Char → Str} {lowered : Ty → Str} {path : PathModel}

theorem PathModel.FromAxum.clean (axum : path.FromAxum toUppercase lowered) :
    ∀ seg ∈ (path.reread lowered).segments, seg.Clean := by
  intro seg mem
  obtain ⟨token, there, rfl⟩ := List.mem_map.1 mem
  obtain ⟨old, given, rfl⟩ := List.mem_map.1 there
  cases old with
  | literal text =>
    have known : PathSegment.literal text ∈ segmentsOf path.rawPattern :=
      axum.segments ▸ List.mem_map_of_mem given
    obtain ⟨piece, inside, read⟩ := List.mem_map.1 known
    obtain ⟨some, slash⟩ := Segments.segments_clean path.rawPattern piece inside
    have same : piece = text := by
      unfold pathSegment at read
      split at read
      · cases read
      · split at read
        · cases read
        · exact PathSegment.literal.inj read
    subst same
    exact ⟨some, slash, read⟩
  | capture name ty =>
    cases ty with
    | none => exact axum.types _ there
    | some ty => exact axum.types ty there

/-- **The pattern of a reread path** has no wildcards and no empty pieces. -/
theorem pathParts_reread (axum : path.FromAxum toUppercase lowered) :
    pathParts (path.reread lowered).rawPattern = comingBack (pathParts path.rawPattern) := by
  have parts : (path.reread lowered).segments.map PathSegment.part =
      ((pathParts path.rawPattern).filter fun part => part ≠ .literal []).map PathPart.unnamed := by
    rw [← parts_segmentsOf, ← axum.segments]
    show ((path.segments.map PathSegment.token).map (PathToken.segment lowered)).map _ = _
    rw [List.map_map, List.map_map, List.map_map, List.map_map]
    apply List.map_congr_left
    intro seg mem
    exact unnamed_part fun ty token => (axum.types ty (token ▸ List.mem_map_of_mem mem)).2
  have raw : (path.reread lowered).rawPattern =
      segmentsToRawPattern (path.reread lowered).segments := rfl
  rw [raw, pathParts_segmentsToRawPattern axum.clean, partsOf, parts, comingBack]
  have empty := congrArg List.isEmpty parts
  rw [List.isEmpty_map, List.isEmpty_map] at empty
  rw [empty]

end

/-! ## Bodies -/

/-- A handler whose body constructs a server is taken for the function that serves. -/
def HandlerModel.takenForServer (handler : HandlerModel) : Bool :=
  (extractServerInfo
    { name := handler.name
      isAsync := true
      params := []
      returnType := handler.returnType
      body := handler.body }).isSome

/-- The `Json` type of a handler, as it is read off its function. -/
def ApiModel.bodyOf (model : ApiModel) (name : Str) : Option Ty :=
  match model.endpoints.find? fun ep => ep.handler.name = name with
  | some first => if first.handler.takenForServer then none else jsonBody first.handler.extractors
  | none => none

theorem emitExtractor_kind (ep : EndpointModel) (e : ExtractorModel) :
    (emitExtractor ep e).1.ty.extractorKind = e.kind ∧
      (e.kind ≠ .path → (emitExtractor ep e).1.ty = e.fullType) := by
  unfold emitExtractor
  split
  · rename_i path
    exact ⟨Eq.trans (by rfl) path.symm, fun other => absurd path other⟩
  · exact ⟨rfl, fun _ => rfl⟩
  · split
    · exact ⟨rfl, fun _ => rfl⟩
    · exact ⟨rfl, fun _ => rfl⟩
  · exact ⟨rfl, fun _ => rfl⟩

/-- The printed arguments have the kinds and bodies of the original ones. -/
theorem jsonBody_emitSingleHandler (ep : EndpointModel) :
    jsonBody (analyzeHandler (emitSingleHandler ep)).extractors = jsonBody ep.handler.extractors := by
  show jsonBody (((ep.handler.extractors.map (emitExtractor ep)).map Prod.fst).map
    fun p => ⟨p.pat, p.ty⟩) = _
  unfold jsonBody
  induction ep.handler.extractors with
  | nil => rfl
  | cons e rest ih =>
    obtain ⟨kind, same⟩ := emitExtractor_kind ep e
    simp only [List.map_cons]
    by_cases json : e.kind = .json
    · have printed : (⟨(emitExtractor ep e).1.pat, (emitExtractor ep e).1.ty⟩ :
          ExtractorModel).kind = .json := kind.trans json
      rw [List.find?_cons_of_pos (by simpa using printed), List.find?_cons_of_pos (by simpa using json)]
      have type := same (by rw [json]; exact nofun)
      exact congrArg Ty.innerType type
    · have printed : (⟨(emitExtractor ep e).1.pat, (emitExtractor ep e).1.ty⟩ :
          ExtractorModel).kind ≠ .json := fun eq => json (kind.symm.trans eq)
      rw [List.find?_cons_of_neg (by simpa using printed), List.find?_cons_of_neg (by simpa using json)]
      exact ih

/-- The statements in front of a body take a field of an argument. -/
theorem snd_emitExtractor {ep : EndpointModel} {e : ExtractorModel} {stmt : Stmt}
    (mem : stmt ∈ (emitExtractor ep e).2) : ∃ base, stmt.expression? = some (.field base 0) := by
  unfold emitExtractor at mem
  split at mem
  · dsimp only at mem
    split at mem
    · cases mem
    · rw [List.mem_singleton.1 mem]
      exact ⟨_, rfl⟩
  · dsimp only at mem
    split at mem
    · rw [List.mem_singleton.1 mem]
      exact ⟨_, rfl⟩
    · cases mem
  · split at mem
    · cases mem
    · cases mem
  · cases mem

/-- What is put in front of a body constructs no server. -/
theorem extractServerInfo_emitSingleHandler (ep : EndpointModel) :
    (extractServerInfo (emitSingleHandler ep)).isSome = ep.handler.takenForServer := by
  have lets : ∀ stmts : List Stmt,
      (∀ stmt ∈ stmts, ∃ base, stmt.expression? = some (.field base 0)) →
      (stmts.filterMap Stmt.expression?).foldl (fun (s : ServerInfo × Bool) e =>
        ((extractServerChain e s.1).1, s.2 || (extractServerChain e s.1).2)) ({}, false) =
        ({}, false) := by
    intro stmts fields
    induction stmts with
    | nil => rfl
    | cons stmt stmts ih =>
      rw [List.forall_mem_cons] at fields
      obtain ⟨⟨base, field⟩, rest⟩ := fields
      rw [List.filterMap_cons_some field, List.foldl_cons]
      exact ih rest
  have before := lets ((ep.handler.extractors.map (emitExtractor ep)).flatMap Prod.snd) (by
    intro stmt mem
    obtain ⟨_, there, inside⟩ := List.mem_flatMap.1 mem
    obtain ⟨e, _, rfl⟩ := List.mem_map.1 there
    exact snd_emitExtractor inside)
  unfold HandlerModel.takenForServer extractServerInfo emitSingleHandler
  simp only [List.filterMap_append, List.foldl_append]
  rw [before]

theorem jsonBody_writtenHandler (model : ApiModel) (name : Str) :
    ((model.writtenHandler name).bind fun func => jsonBody (analyzeHandler func).extractors) =
      model.bodyOf name := by
  unfold ApiModel.writtenHandler ApiModel.bodyOf
  cases model.endpoints.find? fun ep => ep.handler.name = name with
  | none => rfl
  | some first =>
    have server := extractServerInfo_emitSingleHandler first
    show (first.handlerFn.bind _) = _
    unfold EndpointModel.handlerFn
    cases found : extractServerInfo (emitSingleHandler first) with
    | some info =>
      rw [found] at server
      exact (if_pos server.symm).symm
    | none =>
      rw [found] at server
      refine Eq.trans ?_ (if_neg (by rw [← server]; exact nofun)).symm
      exact jsonBody_emitSingleHandler first

/-! ## The round trip -/

/-- An endpoint that came back. Captures may be called otherwise. -/
structure Same (ep back : EndpointModel) : Prop where
  method : back.method = ep.method
  path : pathParts back.path.rawPattern = pathParts ep.path.rawPattern
  requestBody : back.requestBody = ep.requestBody
  requiresAuth : back.requiresAuth = ep.requiresAuth
  authType : back.authType = ep.authType
  hasValidation : back.hasValidation = ep.hasValidation
  validatorName : back.validatorName = ep.validatorName
  handler : back.handler.name = ep.handler.name

def EndpointModel.route (pathPrefix : Option Str) (ep : EndpointModel) : Route :=
  let route := ⟨ep.method, ep.path.rawPattern, ep.handler.name, []⟩
  match pathPrefix with
  | some p => route.under p
  | none => route

structure ComesBack (lowered : Ty → Str) (toLowercase : Char → Str) (model : ApiModel) : Prop where
  /-- One endpoint for each, in order, with its handler. -/
  endpoints : List.Forall₂ Same model.endpoints (reparsed lowered toLowercase model).endpoints
  pathPrefix : (reparsed lowered toLowercase model).pathPrefix = model.pathPrefix
  /-- The printed router serves the routes of the model. -/
  router : ∃ routes, Builds (fun _ => none) (emitRouter (reparsed lowered toLowercase model)) routes ∧
    (routes.map Route.triple).Perm
      (model.endpoints.map fun ep => (ep.route model.pathPrefix).triple)

/-- An endpoint whose type tells all of it. -/
structure EndpointModel.Told (model : ApiModel) (ep : EndpointModel) : Prop where
  method : ep.method ≠ .head ∧ ep.method ≠ .options
  path : Plain (pathParts ep.path.rawPattern)
  body : if ep.method.hasBody then ep.requestBody.isSome = true
    else ep.requestBody = model.bodyOf ep.handler.name
  auth : ep.requiresAuth = ep.authType.isSome
  validation : ep.hasValidation = ep.validatorName.isSome
  single : ¬ (ep.requiresAuth = true ∧ ep.hasValidation = true)

/-- Endpoints are told by their types, and paths of one name are the same. -/
structure ApiModel.Told (model : ApiModel) : Prop where
  unnested : model.pathPrefix = none
  endpoints : ∀ ep ∈ model.endpoints, ep.Told model
  names : ∀ ep ∈ model.endpoints, ∀ ep' ∈ model.endpoints,
    ep.path.typewayTypeName = ep'.path.typewayTypeName →
      pathParts ep.path.rawPattern = pathParts ep'.path.rawPattern

section

variable {toUppercase toLowercase : Char → Str} {lowered : Ty → Str} {model : ApiModel}
  {ep : EndpointModel} {s : Collected}

/-- What the type of an endpoint tells, wrapped once at most. -/
theorem readEndpoint_eq (single : ep.SingleWrapped) (pathTypes : List (Str × PathModel)) :
    ∃ bindMacro, ep.readEndpoint toLowercase pathTypes =
      { ep.bareEndpoint toLowercase pathTypes with
        requiresAuth := ep.requiresAuth && ep.authType.isSome
        authType := if ep.requiresAuth then ep.authType else none
        hasValidation := ep.validatorName.isSome
        validatorName := ep.validatorName
        bindMacro := bindMacro } := by
  revert single
  unfold EndpointModel.SingleWrapped EndpointModel.readEndpoint
  cases ep.requiresAuth <;> cases ep.authType <;> cases ep.validatorName
  case true.some.some => exact fun single => absurd ⟨rfl, rfl, rfl⟩ single
  all_goals exact fun _ => ⟨_, rfl⟩

theorem readMethod_eq_iff : ep.readMethod = ep.method ↔ ep.method ≠ .head ∧ ep.method ≠ .options := by
  unfold EndpointModel.readMethod
  cases ep.method <;> simp

/-- The handler that is found under a name. -/
theorem handler_endpoint (read : Read lowered toLowercase model s) {i : Nat} {name : Str}
    (order : s.handlerOrder[i]? = some name) (raw : RawEndpoint) :
    (s.endpoint i raw).handler.name = name ∧
      (s.endpoint i raw).requestBody = raw.requestBody.or (model.bodyOf name) := by
  have body := jsonBody_writtenHandler model name
  unfold Collected.endpoint
  simp only [order, Option.getD_some, read.handlers name]
  cases written : model.writtenHandler name with
  | none =>
    rw [written] at body
    exact ⟨rfl, congrArg raw.requestBody.or body⟩
  | some func =>
    rw [written] at body
    refine ⟨?_, congrArg raw.requestBody.or body⟩
    obtain ⟨first, found, written⟩ := Option.bind_eq_some_iff.1 written
    have named : first.handler.name = name := by simpa using List.find?_some found
    unfold EndpointModel.handlerFn at written
    split at written
    · cases written
    · cases written
      exact named

theorem body_iff :
    ep.readBody.or (model.bodyOf ep.handler.name) = ep.requestBody ↔
      if ep.method.hasBody then ep.requestBody.isSome = true
      else ep.requestBody = model.bodyOf ep.handler.name := by
  unfold EndpointModel.readBody
  cases ep.method.hasBody with
  | false => exact eq_comm
  | true =>
    cases ep.requestBody with
    | none => exact iff_of_false nofun nofun
    | some body => exact iff_of_true rfl rfl

/-- An endpoint comes back when its type tells all of it and its path comes back. -/
theorem same_iff (read : Read lowered toLowercase model s) (single : ep.SingleWrapped) {i : Nat}
    (order : s.handlerOrder[i]? = some ep.handler.name) {path : PathModel}
    (found : IndexMap.lookup ep.path.typewayTypeName s.pathTypes = some path) :
    Same ep (s.endpoint i (ep.readEndpoint toLowercase s.pathTypes)) ↔
      (ep.method ≠ .head ∧ ep.method ≠ .options) ∧
        pathParts path.rawPattern = pathParts ep.path.rawPattern ∧
        (if ep.method.hasBody then ep.requestBody.isSome = true
          else ep.requestBody = model.bodyOf ep.handler.name) ∧
        ep.requiresAuth = ep.authType.isSome ∧ ep.hasValidation = ep.validatorName.isSome := by
  obtain ⟨bindMacro, eq⟩ := @readEndpoint_eq toLowercase ep single s.pathTypes
  obtain ⟨name, body⟩ := handler_endpoint read order (ep.readEndpoint toLowercase s.pathTypes)
  have bare : (ep.bareEndpoint toLowercase s.pathTypes).path = path := by
    unfold EndpointModel.bareEndpoint
    rw [found]
    rfl
  have body : (s.endpoint i (ep.readEndpoint toLowercase s.pathTypes)).requestBody =
      ep.readBody.or (model.bodyOf ep.handler.name) := by
    rw [body, eq]
    rfl
  have auth : ((ep.requiresAuth && ep.authType.isSome) = ep.requiresAuth ∧
      (if ep.requiresAuth then ep.authType else none) = ep.authType) ↔
        ep.requiresAuth = ep.authType.isSome := by
    cases ep.requiresAuth <;> cases ep.authType <;> simp
  rw [← readMethod_eq_iff, ← body_iff, ← body, ← auth, ← bare]
  constructor
  · intro same
    refine ⟨?_, ?_, same.requestBody, ⟨?_, ?_⟩, ?_⟩
    · have := same.method
      rwa [eq] at this
    · have := same.path
      rwa [eq] at this
    · have := same.requiresAuth
      rwa [eq] at this
    · have := same.authType
      rwa [eq] at this
    · have := same.hasValidation
      rw [eq] at this
      exact this.symm
  · intro told
    obtain ⟨method, parts, body, ⟨requiresAuth, authType⟩, validation⟩ := told
    refine ⟨?_, ?_, body, ?_, ?_, ?_, ?_, name⟩
    · rwa [eq]
    · rwa [eq]
    · rwa [eq]
    · rwa [eq]
    · rw [eq]
      exact validation.symm
    · rw [eq]
      rfl

/-- A list that is as long as the endpoints has one for each. -/
theorem single_of_length (read : Read lowered toLowercase model s)
    (lengths : s.rawEndpoints.length = model.endpoints.length) :
    ∀ ep ∈ model.endpoints, ep.SingleWrapped := by
  intro ep mem
  rw [read.endpoints, List.filterMap_length_eq_length] at lengths
  by_contra twice
  have none := lengths ep mem
  rw [parseEndpointType_of_not_single twice] at none
  cases none

/-- The endpoints come back when each of them does. -/
theorem endpoints_iff (read : Read lowered toLowercase model s) :
    List.Forall₂ Same model.endpoints (s.rawEndpoints.mapIdx s.endpoint) ↔
      (∀ ep ∈ model.endpoints, ep.SingleWrapped) ∧
        ∀ i (h : i < model.endpoints.length), Same model.endpoints[i]
          (s.endpoint i (model.endpoints[i].readEndpoint toLowercase s.pathTypes)) := by
  have raw (single : ∀ ep ∈ model.endpoints, ep.SingleWrapped) : s.rawEndpoints =
      model.endpoints.map (EndpointModel.readEndpoint toLowercase s.pathTypes) := by
    rw [read.endpoints, ← List.filterMap_eq_map']
    apply List.filterMap_congr
    intro ep mem
    exact parseEndpointType_of_single (single ep mem) _
  constructor
  · intro back
    have lengths := back.length_eq
    rw [List.length_mapIdx] at lengths
    have single := single_of_length read lengths.symm
    refine ⟨single, ?_⟩
    intro i h
    have each := (List.forall₂_iff_get.1 back).2 i h (by rw [List.length_mapIdx, ← lengths]; exact h)
    simpa [raw single] using each
  · intro h
    obtain ⟨single, each⟩ := h
    rw [raw single]
    refine List.forall₂_iff_get.2 ⟨by simp, ?_⟩
    intro i h _
    simpa using each i h

/-- Paths come back when they are plain and told by their names. -/
theorem paths_iff (read : Read lowered toLowercase model s)
    (axum : ∀ ep ∈ model.endpoints, ep.path.FromAxum toUppercase lowered) :
    (∀ ep ∈ model.endpoints, ∀ path,
        IndexMap.lookup ep.path.typewayTypeName s.pathTypes = some path →
          pathParts path.rawPattern = pathParts ep.path.rawPattern) ↔
      (∀ ep ∈ model.endpoints, Plain (pathParts ep.path.rawPattern)) ∧
        ∀ ep ∈ model.endpoints, ∀ ep' ∈ model.endpoints,
          ep.path.typewayTypeName = ep'.path.typewayTypeName →
            pathParts ep.path.rawPattern = pathParts ep'.path.rawPattern := by
  constructor
  · intro back
    constructor
    · intro ep mem
      obtain ⟨last, known, name, found⟩ := read.paths ep mem
      have parts := back ep mem _ found
      have own := back last known _ (name ▸ found)
      rw [← comingBack_eq_iff, ← parts, own, ← pathParts_reread (axum last known), own]
    · intro ep mem ep' mem' same
      obtain ⟨last, _, _, found⟩ := read.paths ep mem
      rw [← back ep mem _ found, ← back ep' mem' _ (same ▸ found)]
  · intro h
    obtain ⟨plain, names⟩ := h
    intro ep mem path found
    obtain ⟨last, known, name, found'⟩ := read.paths ep mem
    cases found.symm.trans found'
    rw [pathParts_reread (axum last known), comingBack_eq_iff.2 (plain last known)]
    exact names last known ep mem name

/-- Endpoints that are kept in a row are kept by the printed router. -/
theorem triples_of_same {endpoints back : List EndpointModel}
    (same : List.Forall₂ Same endpoints back) :
    back.map EndpointModel.triple = endpoints.map EndpointModel.triple := by
  induction same with
  | nil => rfl
  | cons here _ ih =>
    rw [List.map_cons, List.map_cons, ih, EndpointModel.triple, EndpointModel.triple, here.method,
      here.path, here.handler]

/-- The patterns of reread endpoints are kept. -/
theorem kept_reparsed (read : Read lowered toLowercase model s)
    (axum : ∀ ep ∈ model.endpoints, ep.path.FromAxum toUppercase lowered) :
    ∀ ep ∈ s.rawEndpoints.mapIdx s.endpoint, ep.Kept := by
  intro back mem
  obtain ⟨i, h, rfl⟩ := List.mem_mapIdx.1 mem
  have raw := List.getElem_mem h
  generalize s.rawEndpoints[i] = rawEp at raw
  rw [read.endpoints] at raw
  obtain ⟨ep, known, parsed⟩ := List.mem_filterMap.1 raw
  have single : ep.SingleWrapped := by
    by_contra twice
    rw [parseEndpointType_of_not_single twice] at parsed
    cases parsed
  rw [parseEndpointType_of_single single] at parsed
  cases parsed
  obtain ⟨last, given, _, found⟩ := read.paths ep known
  obtain ⟨bindMacro, eq⟩ := @readEndpoint_eq toLowercase ep single s.pathTypes
  have path : (s.endpoint i (ep.readEndpoint toLowercase s.pathTypes)).path =
      last.path.reread lowered := by
    rw [eq]
    show (IndexMap.lookup ep.path.typewayTypeName s.pathTypes).getD _ = _
    rw [found]
    rfl
  have clean := (axum last given).clean
  have printed := @pathParts_toAxumPathPattern
    (s.endpoint i (ep.readEndpoint toLowercase s.pathTypes)) (by rwa [path])
  unfold EndpointModel.Kept
  rw [printed, path]
  exact (pathParts_segmentsToRawPattern clean).symm

theorem typewayTypeName_eq (axum : ∀ ep ∈ model.endpoints, ep.path.FromAxum toUppercase lowered) :
    ∀ ep ∈ model.endpoints, ∀ ep' ∈ model.endpoints, ep'.path.rawPattern = ep.path.rawPattern →
      ep'.path.typewayTypeName = ep.path.typewayTypeName := by
  intro ep mem ep' mem' raw
  rw [(axum ep mem).name, (axum ep' mem').name, raw]

/-- **The round trip**: everything comes back when the types of the endpoints tell all of them, the
names of paths tell the paths, and there is no prefix. -/
theorem comesBack_iff_told (toUppercase toLowercase : Char → Str) (lowered : Ty → Str) (model : ApiModel)
    (axum : ∀ ep ∈ model.endpoints, ep.path.FromAxum toUppercase lowered) :
    ComesBack lowered toLowercase model ↔ model.Told := by
  have read : Read lowered toLowercase model (collected lowered toLowercase model) :=
    read_collected (typewayTypeName_eq axum)
  have order (i : Nat) (h : i < model.endpoints.length) :
      (collected lowered toLowercase model).handlerOrder[i]? =
        some model.endpoints[i].handler.name := by
    rw [read.order, List.getElem?_map, List.getElem?_eq_getElem h]
    rfl
  constructor
  · intro back
    obtain ⟨single, each⟩ := (endpoints_iff read).1 back.endpoints
    have told : ∀ ep ∈ model.endpoints, ∀ path,
        IndexMap.lookup ep.path.typewayTypeName (collected lowered toLowercase model).pathTypes =
          some path → pathParts path.rawPattern = pathParts ep.path.rawPattern ∧
            (Plain (pathParts ep.path.rawPattern) → ep.Told model) := by
      intro ep mem path found
      obtain ⟨i, h, rfl⟩ := List.getElem_of_mem mem
      obtain ⟨method, parts, body, auth, validation⟩ :=
        (same_iff read (single _ mem) (order i h) found).1 (each i h)
      refine ⟨parts, fun plain => ⟨method, plain, body, auth, validation, ?_⟩⟩
      rw [auth, validation]
      intro both
      exact single _ mem ⟨auth.trans both.1, both.1, both.2⟩
    obtain ⟨plain, names⟩ := (paths_iff read axum).1 fun ep mem path found =>
      (told ep mem path found).1
    refine ⟨back.pathPrefix.symm, ?_, names⟩
    intro ep mem
    obtain ⟨_, _, _, found⟩ := read.paths ep mem
    exact (told ep mem _ found).2 (plain ep mem)
  · intro told
    have paths := (paths_iff read axum).2 ⟨fun ep mem => (told.endpoints ep mem).path, told.names⟩
    have single : ∀ ep ∈ model.endpoints, ep.SingleWrapped := by
      intro ep mem twice
      obtain ⟨required, _, validated⟩ := twice
      have := told.endpoints ep mem
      exact this.single ⟨required, this.validation.trans validated⟩
    have same : List.Forall₂ Same model.endpoints
        (reparsed lowered toLowercase model).endpoints := by
      refine (endpoints_iff read).2 ⟨single, ?_⟩
      intro i h
      have mem := List.getElem_mem h
      obtain ⟨_, _, _, found⟩ := read.paths _ mem
      have ep := told.endpoints _ mem
      exact (same_iff read (single _ mem) (order i h) found).2
        ⟨ep.method, paths _ mem _ found, ep.body, ep.auth, ep.validation⟩
    obtain ⟨routes, built, perm⟩ := @builds_emitRouter (fun _ => none)
      (reparsed lowered toLowercase model) (kept_reparsed read axum)
    refine ⟨same, told.unnested.symm, routes, built, ?_⟩
    rw [triples_of_same same] at perm
    rw [told.unnested]
    exact perm

end

/-! ## An endpoint that is lost -/

/-- The last name of a type, as the name of a capture. -/
def lastName (ty : Ty) : Str :=
  (ty.identString.getD []).map Char.toLower

def usersPath : PathModel :=
  PathModel.fromAxumPath (fun c => [c.toUpper]) "/users".toList

def newUser : Ty :=
  .named "NewUser".toList

/-- Takes an `AuthUser` and a `Json<NewUser>`, and looks whether the body is empty. -/
def createUserFn : ItemFn where
  name := "create_user".toList
  isAsync := true
  params :=
    [⟨.ident authIdent, .named "AuthUser".toList⟩,
      ⟨.tupleStruct [.ident bodyIdent], .path ["Json".toList] [newUser]⟩]
  returnType := .unit
  body := [.expr (.method (.path ["body".toList]) "is_empty".toList [])]

/-- `create_user`, behind authentication and with a validated body. -/
def createUser : EndpointModel where
  method := .post
  path := usersPath
  handler := analyzeHandler createUserFn
  requestBody := some newUser
  responseType := .unit
  requiresAuth := true
  authType := some "AuthUser".toList
  hasValidation := true
  validatorName := some "NewUserValidator".toList
  bindMacro := .bindAuth

def listUsers : EndpointModel where
  method := .get
  path := usersPath
  handler := { name := "list_users".toList, extractors := [], returnType := .unit, body := [] }
  requestBody := none
  responseType := .unit
  requiresAuth := false
  authType := none
  hasValidation := false
  validatorName := none
  bindMacro := .bind

def apiOf (endpoints : List EndpointModel) : ApiModel where
  endpoints := endpoints
  stateType := none
  layers := []
  passthroughItems := []
  useItems := []
  pathPrefix := none
  detectedEffects := []

theorem fromAxum_usersPath : usersPath.FromAxum (fun c => [c.toUpper]) lastName := by
  refine ⟨rfl, rfl, ?_⟩
  intro ty mem
  have tokens : usersPath.segments.map PathSegment.token = [.literal "users".toList] := rfl
  rw [tokens, List.mem_singleton] at mem
  cases mem

theorem told_listUsers : (apiOf [listUsers]).Told := by
  refine ⟨rfl, ?_, ?_⟩
  · intro ep mem
    rw [List.mem_singleton.1 mem]
    have parts : pathParts "/users".toList = [.literal [], .literal "users".toList] := rfl
    refine ⟨⟨nofun, nofun⟩, ⟨_, parts, .inr ⟨nofun, ?_⟩, ?_⟩, rfl, rfl, rfl, nofun⟩
    · rw [List.mem_singleton]
      exact nofun
    · rw [List.mem_singleton]
      exact nofun
  · intro ep mem ep' mem' _
    rw [List.mem_singleton.1 mem, List.mem_singleton.1 mem']

/-- A plain endpoint comes back. -/
theorem comesBack_listUsers :
    ComesBack lastName (fun c => [c.toLower]) (apiOf [listUsers]) :=
  (comesBack_iff_told (fun c => [c.toUpper]) _ _ _ (by
    intro ep mem
    rw [List.mem_singleton.1 mem]
    exact fromAxum_usersPath)).2 told_listUsers

/-- An endpoint that is wrapped twice is lost, and its handler goes to the next one. -/
theorem not_comesBack_createUser :
    ¬ ∀ (toUppercase toLowercase : Char → Str) (lowered : Ty → Str) (model : ApiModel),
      (∀ ep ∈ model.endpoints, ep.path.FromAxum toUppercase lowered) →
        ComesBack lowered toLowercase model := by
  intro all
  have back := all (fun c => [c.toUpper]) (fun c => [c.toLower]) lastName
    (apiOf [createUser, listUsers]) (by
      intro ep mem
      rcases List.mem_cons.1 mem with rfl | mem
      · exact fromAxum_usersPath
      · rw [List.mem_singleton.1 mem]
        exact fromAxum_usersPath)
  have lengths := back.endpoints.length_eq
  exact absurd lengths (by decide)

end Typeway.Migrate
