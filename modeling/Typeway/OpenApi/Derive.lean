import Mathlib.Data.List.Nodup
import Typeway.Base.IndexMap
import Typeway.Base.Json
import Typeway.Base.Lines
import Typeway.Core.Path
import Typeway.Server.Router

/-!
# The OpenAPI document of an API

`typeway-openapi/src/derive.rs` and `spec.rs`: every endpoint of an API type becomes an
operation under the pattern of its path, and `to_spec` collects them. The schemas that types
have are only carried, and stand for themselves.
-/

namespace Typeway.OpenApi

open Typeway.Core Typeway.Server

/-! ## The document -/

inductive ParameterLocation where
  | query | path | header | cookie
  deriving DecidableEq

structure Parameter (Schema : Type) where
  name : Str
  location : ParameterLocation
  required : Bool
  schema : Option Schema
  deriving DecidableEq

structure MediaType (Schema : Type) where
  schema : Option Schema
  example? : Option Json.Value

structure Response (Schema : Type) where
  description : Str
  content : List (Str × MediaType Schema)

structure RequestBody (Schema : Type) where
  required : Bool
  content : List (Str × MediaType Schema)

/-- From the names of security schemes to their scopes. -/
abbrev SecurityRequirement := List (Str × List Str)

def SecurityRequirement.bearer : SecurityRequirement :=
  [("bearerAuth".toList, [])]

structure Operation (Schema : Type) where
  summary : Option Str := none
  description : Option Str := none
  operationId : Option Str := none
  tags : List Str := []
  parameters : List (Parameter Schema) := []
  requestBody : Option (RequestBody Schema) := none
  responses : List (Str × Response Schema) := []
  security : List SecurityRequirement := []
  deprecated : Bool := false

structure PathItem (Schema : Type) where
  get : Option (Operation Schema) := none
  post : Option (Operation Schema) := none
  put : Option (Operation Schema) := none
  delete : Option (Operation Schema) := none
  patch : Option (Operation Schema) := none
  head : Option (Operation Schema) := none
  options : Option (Operation Schema) := none

structure SecurityScheme where
  schemeType : Str
  scheme : Option Str
  bearerFormat : Option Str
  description : Option Str

def SecurityScheme.bearerJwt : SecurityScheme where
  schemeType := "http".toList
  scheme := some "bearer".toList
  bearerFormat := some "JWT".toList
  description := some "Bearer token authentication".toList

structure OpenApiSpec (Schema : Type) where
  openapi : Str := "3.1.0".toList
  title : Str
  version : Str
  paths : List (Str × PathItem Schema) := []
  securitySchemes : Option (List (Str × SecurityScheme)) := none

variable {Schema : Type}

def PathItem.setOperation (item : PathItem Schema) (method : Method) (op : Operation Schema) :
    PathItem Schema :=
  match method with
  | .get => { item with get := some op }
  | .post => { item with post := some op }
  | .put => { item with put := some op }
  | .delete => { item with delete := some op }
  | .patch => { item with patch := some op }
  | .head => { item with head := some op }
  | .options => { item with options := some op }
  | .other _ => item

/-- The change of every operation by `all_operations_mut`. -/
def PathItem.mapOperations (f : Operation Schema → Operation Schema) (item : PathItem Schema) :
    PathItem Schema where
  get := item.get.map f
  post := item.post.map f
  put := item.put.map f
  delete := item.delete.map f
  patch := item.patch.map f
  head := item.head.map f
  options := item.options.map f

def PathItem.operation (item : PathItem Schema) : Method → Option (Operation Schema)
  | .get => item.get
  | .post => item.post
  | .put => item.put
  | .delete => item.delete
  | .patch => item.patch
  | .head => item.head
  | .options => item.options
  | .other _ => none

/-- The methods that a path item has a field for. -/
def standardMethods : List Method :=
  [.get, .post, .put, .delete, .patch, .head, .options]

/-! ### Its operations -/

namespace OpenApiSpec

def operationAt (spec : OpenApiSpec Schema) (place : Str × Method) : Option (Operation Schema) :=
  (IndexMap.lookup place.1 spec.paths).bind fun item => item.operation place.2

/-- All operations, each with its place. -/
def operations (spec : OpenApiSpec Schema) : List ((Str × Method) × Operation Schema) :=
  spec.paths.flatMap fun e =>
    standardMethods.filterMap fun m => (e.2.operation m).map fun op => ((e.1, m), op)

end OpenApiSpec

theorem PathItem.operation_setOperation (item : PathItem Schema) (m m' : Method)
    (op : Operation Schema) :
    (item.setOperation m op).operation m' =
      if m' = m ∧ m ∈ standardMethods then some op else item.operation m' := by
  cases m <;> cases m' <;> simp [setOperation, operation, standardMethods]

theorem PathItem.operation_mapOperations (item : PathItem Schema)
    (f : Operation Schema → Operation Schema) (m : Method) :
    (item.mapOperations f).operation m = (item.operation m).map f := by
  cases m <;> rfl

theorem PathItem.standard_of_operation {item : PathItem Schema} {m : Method}
    {op : Operation Schema} (found : item.operation m = some op) : m ∈ standardMethods := by
  cases m with
  | other name => cases found
  | _ => simp [standardMethods]

namespace OpenApiSpec

variable {spec : OpenApiSpec Schema}

theorem mem_operations (keyed : IndexMap.Keyed spec.paths) {place : Str × Method}
    {op : Operation Schema} :
    (place, op) ∈ spec.operations ↔ spec.operationAt place = some op := by
  obtain ⟨pattern, m⟩ := place
  simp only [operations, List.mem_flatMap, List.mem_filterMap, Option.map_eq_some_iff, operationAt,
    Option.bind_eq_some_iff]
  constructor
  · intro mem
    obtain ⟨e, here, m', _, op', found, same⟩ := mem
    cases same
    exact ⟨e.2, IndexMap.lookup_of_mem keyed here, found⟩
  · intro found
    obtain ⟨item, here, found⟩ := found
    exact ⟨(pattern, item), IndexMap.mem_of_lookup here, m, PathItem.standard_of_operation found,
      op, found, rfl⟩

theorem map_fst_operations (spec : OpenApiSpec Schema) :
    spec.operations.map Prod.fst = spec.paths.flatMap fun e =>
      (standardMethods.filter fun m => (e.2.operation m).isSome).map fun m => (e.1, m) := by
  have step (e : Str × PathItem Schema) :
      (standardMethods.filterMap fun m =>
        (e.2.operation m).map fun op => ((e.1, m), op)).map Prod.fst =
        (standardMethods.filter fun m => (e.2.operation m).isSome).map fun m => (e.1, m) := by
    rw [List.map_filterMap, ← List.filterMap_eq_map', List.filterMap_filter]
    apply List.filterMap_congr
    intro m _
    cases e.2.operation m <;> rfl
  rw [operations, List.map_flatMap]
  simp only [step]

/-- No place has two operations. -/
theorem places_nodup (keyed : IndexMap.Keyed spec.paths) :
    (spec.operations.map Prod.fst).Nodup := by
  rw [map_fst_operations, List.nodup_flatMap]
  constructor
  · intro e _
    apply List.Nodup.map
    · intro m m' same
      exact (Prod.mk.inj same).2
    · exact List.Nodup.filter _ (by decide)
  · have apart := List.pairwise_map.1 keyed
    refine apart.imp ?_
    intro e e' apart
    apply List.disjoint_left.2
    intro place here there
    obtain ⟨m, _, rfl⟩ := List.mem_map.1 here
    obtain ⟨m', _, same⟩ := List.mem_map.1 there
    exact apart (Prod.mk.inj same).1.symm

end OpenApiSpec

/-! ## One endpoint -/

/-- The implementations of `PathParameters`, with the schemas of the captured types. -/
inductive PathParameters (Schema : Type) : PathSpec → Type 1 where
  | hnil : PathParameters Schema .hnil
  | lit {value : Str} {tail : PathSpec} (T : PathParameters Schema tail) :
      PathParameters Schema (.lit value tail)
  | capture {U : CaptureType} {tail : PathSpec} (schema : Schema)
      (T : PathParameters Schema tail) : PathParameters Schema (.capture U tail)

namespace PathParameters

variable {P : PathSpec}

def parameters {P : PathSpec} : PathParameters Schema P → List (Parameter Schema)
  | hnil => []
  | lit T => T.parameters
  | capture schema T =>
    { name := "param".toList ++ Lines.decimal T.parameters.length
      location := .path
      required := true
      schema := some schema } :: T.parameters

/-- The schemas of the captures in their order. -/
def captureSchemas {P : PathSpec} : PathParameters Schema P → List Schema
  | hnil => []
  | lit T => T.captureSchemas
  | capture schema T => schema :: T.captureSchemas

end PathParameters

/-- `seg.starts_with('{') && seg.ends_with('}')` -/
def isPlaceholder (seg : Str) : Bool :=
  seg.head? = some '{' && seg.getLast? = some '}'

/-- The names between the braces of a template. -/
def templateNames (pattern : Str) : List Str :=
  ((pattern.splitOn '/').filter isPlaceholder).map fun seg => seg.tail.dropLast

/-- The loop over the parameters, beside what is left of the names. -/
def assignParamNames : List (Parameter Schema) → List Str → List (Parameter Schema)
  | [], _ => []
  | params, [] => params
  | param :: params, name :: names =>
    (if name.isEmpty then param else { param with name := name }) :: assignParamNames params names

def assignParamNamesFromPattern (params : List (Parameter Schema)) (pattern : Str) :
    List (Parameter Schema) :=
  assignParamNames params (templateNames pattern)

/-! ### The names of a path -/

@[simp] theorem templateNames_nil : templateNames [] = [] := rfl

theorem templateNames_append_sep (text rest : Str) :
    templateNames (text ++ '/' :: rest) = templateNames text ++ templateNames rest := by
  rw [templateNames, List.splitOn_append_cons_self, List.filter_append, List.map_append,
    templateNames, templateNames]

theorem templateNames_sep (rest : Str) : templateNames ('/' :: rest) = templateNames rest := by
  have alone := templateNames_append_sep [] rest
  rwa [List.nil_append, templateNames_nil, List.nil_append] at alone

theorem templateNames_append_pattern (text : Str) (P : PathSpec) :
    templateNames (text ++ P.pattern) = templateNames text ++ templateNames P.pattern := by
  have sep {pattern : Str} (led : ∃ rest, pattern = '/' :: rest) :
      templateNames (text ++ pattern) = templateNames text ++ templateNames pattern := by
    obtain ⟨rest, rfl⟩ := led
    rw [templateNames_append_sep, templateNames_sep]
  cases P with
  | hnil => simp
  | lit value tail => exact sep ⟨_, rfl⟩
  | capture U tail => exact sep ⟨_, rfl⟩
  | captureRest => exact sep ⟨_, rfl⟩

theorem templateNames_lit (value : Str) (tail : PathSpec) :
    templateNames (PathSpec.lit value tail).pattern =
      templateNames value ++ templateNames tail.pattern := by
  rw [PathSpec.pattern_lit, templateNames_sep, templateNames_append_pattern]

theorem templateNames_capture (U : CaptureType) (tail : PathSpec) :
    templateNames (PathSpec.capture U tail).pattern = [] :: templateNames tail.pattern := by
  have hole : templateNames ['{', '}'] = [[]] := by
    rw [templateNames, List.splitOn_eq_singleton (by decide)]
    rfl
  rw [PathSpec.pattern_capture, templateNames_sep, templateNames_append_pattern, hole]
  rfl

namespace PathParameters

variable {P : PathSpec}

theorem captureSchemas_le (path : PathParameters Schema P) :
    path.captureSchemas.length ≤ (templateNames P.pattern).length := by
  induction path with
  | hnil => exact Nat.le_refl 0
  | lit T ih =>
    rw [templateNames_lit, List.length_append]
    exact Nat.le_trans ih (Nat.le_add_left _ _)
  | capture schema T ih =>
    rw [templateNames_capture]
    exact Nat.succ_le_succ ih

/-- A template that has only the names of the captures has only empty names. -/
theorem templateNames_empty (path : PathParameters Schema P)
    (same : (templateNames P.pattern).length = path.captureSchemas.length) :
    ∀ name ∈ templateNames P.pattern, name = [] := by
  induction path with
  | hnil =>
    intro name mem
    cases mem
  | @lit value tail T ih =>
    rw [templateNames_lit, List.length_append, captureSchemas] at same
    have most := T.captureSchemas_le
    have none : (templateNames value).length = 0 := by omega
    rw [templateNames_lit, List.eq_nil_of_length_eq_zero none, List.nil_append]
    apply ih
    omega
  | capture schema T ih =>
    rw [templateNames_capture] at same ⊢
    intro name mem
    rcases List.mem_cons.1 mem with here | mem
    · exact here
    · exact ih (Nat.succ.inj same) name mem

theorem map_schema_parameters (path : PathParameters Schema P) :
    path.parameters.map Parameter.schema = path.captureSchemas.map some := by
  induction path with
  | hnil => rfl
  | lit T ih => exact ih
  | capture schema T ih => exact congrArg (some schema :: ·) ih

theorem location_parameters (path : PathParameters Schema P) :
    ∀ param ∈ path.parameters, param.location = .path := by
  induction path with
  | hnil =>
    intro param mem
    cases mem
  | lit T ih => exact ih
  | capture schema T ih =>
    intro param mem
    rcases List.mem_cons.1 mem with rfl | mem
    · rfl
    · exact ih param mem

/-- No parameter of a path is without a name. -/
theorem named_parameters (path : PathParameters Schema P) :
    ∀ param ∈ path.parameters, param.name ≠ [] := by
  induction path with
  | hnil =>
    intro param mem
    cases mem
  | lit T ih => exact ih
  | capture schema T ih =>
    intro param mem
    rcases List.mem_cons.1 mem with rfl | mem
    · intro empty
      cases empty
    · exact ih param mem

end PathParameters

theorem map_schema_assignParamNames (params : List (Parameter Schema)) (names : List Str) :
    (assignParamNames params names).map Parameter.schema = params.map Parameter.schema := by
  induction params generalizing names with
  | nil => cases names <;> rfl
  | cons param params ih =>
    cases names with
    | nil => rfl
    | cons name names =>
      rw [assignParamNames, List.map_cons, ih, List.map_cons]
      split <;> rfl

theorem location_assignParamNames {params : List (Parameter Schema)}
    (path : ∀ param ∈ params, param.location = .path) (names : List Str) :
    ∀ param ∈ assignParamNames params names, param.location = .path := by
  induction params generalizing names with
  | nil =>
    intro param mem
    cases names <;> cases mem
  | cons head params ih =>
    cases names with
    | nil => exact path
    | cons name names =>
      obtain ⟨here, path⟩ := List.forall_mem_cons.1 path
      rw [assignParamNames, List.forall_mem_cons]
      refine ⟨?_, ih path names⟩
      split <;> exact here

/-- Empty names are no names. -/
theorem assignParamNames_empty (params : List (Parameter Schema)) {names : List Str}
    (empty : ∀ name ∈ names, name = []) : assignParamNames params names = params := by
  induction params generalizing names with
  | nil => cases names <;> rfl
  | cons param params ih =>
    cases names with
    | nil => rfl
    | cons name names =>
      obtain ⟨here, empty⟩ := List.forall_mem_cons.1 empty
      rw [assignParamNames, ih empty, here]
      rfl

/-- What `ToSchema` says of a type. -/
structure ToSchema (Schema : Type) where
  schema : Schema
  example? : Option Json.Value

def ToSchema.content (T : ToSchema Schema) : List (Str × MediaType Schema) :=
  [("application/json".toList, { schema := some T.schema, example? := T.example? })]

/-- The methods whose endpoints may have a body. -/
inductive BodyMethod where
  | post | put | patch

def BodyMethod.method : BodyMethod → Method
  | post => .post
  | put => .put
  | patch => .patch

/-- The types that implement `EndpointToOperation`. -/
inductive Endpoint (Schema : Type) : Type 1 where
  | bodyless (M : Method) (P : PathSpec) (path : PathParameters Schema P) (res : ToSchema Schema)
      (query : List (Parameter Schema)) (err : List (Str × Response Schema))
  | withBody (M : BodyMethod) (P : PathSpec) (path : PathParameters Schema P)
      (req res : ToSchema Schema) (query : List (Parameter Schema))
      (err : List (Str × Response Schema))
  | requires (inner : Endpoint Schema)
  | deprecated (inner : Endpoint Schema)
  | protectedBy (inner : Endpoint Schema)
  | validated (inner : Endpoint Schema)

/-- `to_operation` of a plain endpoint. The blanket `EndpointDoc` documents nothing. -/
def plainOperation {P : PathSpec} (path : PathParameters Schema P) (req : Option (ToSchema Schema))
    (res : ToSchema Schema) (query : List (Parameter Schema))
    (err : List (Str × Response Schema)) : Operation Schema where
  parameters := assignParamNamesFromPattern path.parameters P.pattern ++ query
  requestBody := req.map fun req => { required := true, content := req.content }
  responses := err.foldl (fun responses e => IndexMap.insert e.1 e.2 responses)
    [("200".toList, { description := "Successful response".toList, content := res.content })]

namespace Operation

def pathParameters (op : Operation Schema) : List (Parameter Schema) :=
  op.parameters.filter fun param => param.location = .path

/-- The path parameters are the names of the template, which differ, with the schemas. -/
structure Describes (op : Operation Schema) (template : Str) (schemas : List Schema) : Prop where
  named : op.pathParameters.map Parameter.name = templateNames template
  distinct : (op.pathParameters.map Parameter.name).Nodup
  typed : op.pathParameters.map Parameter.schema = schemas.map some

theorem describes_congr {op op' : Operation Schema} (same : op.parameters = op'.parameters)
    {template : Str} {schemas : List Schema} :
    op.Describes template schemas ↔ op'.Describes template schemas := by
  have here : op.pathParameters = op'.pathParameters := by
    rw [pathParameters, same, pathParameters]
  constructor
  · intro d
    exact ⟨here ▸ d.named, here ▸ d.distinct, here ▸ d.typed⟩
  · intro d
    exact ⟨here ▸ d.named, here ▸ d.distinct, here ▸ d.typed⟩

end Operation

/-- Every capture is a hole without a name in the pattern and a parameter with one. -/
theorem describes_plainOperation_iff {P : PathSpec} (path : PathParameters Schema P)
    (req : Option (ToSchema Schema)) (res : ToSchema Schema) (query : List (Parameter Schema))
    (err : List (Str × Response Schema)) :
    (plainOperation path req res query err).Describes P.pattern path.captureSchemas ↔
      templateNames P.pattern = [] ∧ query.filter (fun param => param.location = .path) = [] := by
  let assigned := assignParamNamesFromPattern path.parameters P.pattern
  have own : (plainOperation path req res query err).pathParameters =
      assigned ++ query.filter fun param => param.location = .path := by
    rw [Operation.pathParameters, plainOperation, List.filter_append]
    congr 1
    rw [List.filter_eq_self]
    intro param mem
    exact decide_eq_true (location_assignParamNames path.location_parameters _ param mem)
  have schemas : assigned.map Parameter.schema = path.captureSchemas.map some :=
    (map_schema_assignParamNames _ _).trans path.map_schema_parameters
  constructor
  · intro d
    have typed := d.typed
    rw [own, List.map_append, schemas] at typed
    have queryNone := List.map_eq_nil_iff.1 (List.self_eq_append_right.1 typed.symm)
    have named := d.named
    rw [own, queryNone, List.append_nil] at named
    refine ⟨?_, queryNone⟩
    have sameLength : (templateNames P.pattern).length = path.captureSchemas.length := by
      rw [← named, List.length_map, ← List.length_map Parameter.schema, schemas, List.length_map]
    have empty := path.templateNames_empty sameLength
    have unchanged : assigned = path.parameters := assignParamNames_empty _ empty
    rw [unchanged] at named
    apply List.eq_nil_iff_forall_not_mem.2
    intro name mem
    have nameless := empty name mem
    rw [← named] at mem
    obtain ⟨param, there, rfl⟩ := List.mem_map.1 mem
    exact path.named_parameters param there nameless
  · intro h
    obtain ⟨none, queryNone⟩ := h
    have most := path.captureSchemas_le
    rw [none, List.length_nil, Nat.le_zero, List.length_eq_zero_iff] at most
    rw [most, List.map_nil, List.map_eq_nil_iff] at schemas
    rw [schemas, queryNone, List.append_nil] at own
    rw [most]
    exact ⟨by rw [own, none]; rfl, by rw [own]; exact List.nodup_nil, by rw [own]; rfl⟩

namespace Endpoint

def pathPattern : Endpoint Schema → Str
  | bodyless _ P _ _ _ _ => P.pattern
  | withBody _ P _ _ _ _ _ => P.pattern
  | requires inner => inner.pathPattern
  | deprecated inner => inner.pathPattern
  | protectedBy inner => inner.pathPattern
  | validated inner => inner.pathPattern

def method : Endpoint Schema → Method
  | bodyless M _ _ _ _ _ => M
  | withBody M _ _ _ _ _ _ => M.method
  | requires inner => inner.method
  | deprecated inner => inner.method
  | protectedBy inner => inner.method
  | validated inner => inner.method

def toOperation : Endpoint Schema → Operation Schema
  | bodyless _ _ path res query err => plainOperation path none res query err
  | withBody _ _ path req res query err => plainOperation path (some req) res query err
  | requires inner => inner.toOperation
  | deprecated inner => { inner.toOperation with deprecated := true }
  | protectedBy inner =>
    let op := inner.toOperation
    { op with security := op.security ++ [SecurityRequirement.bearer] }
  | validated inner => inner.toOperation

/-- The schemas of the captures of the path type. -/
def captureSchemas : Endpoint Schema → List Schema
  | bodyless _ _ path _ _ _ => path.captureSchemas
  | withBody _ _ path _ _ _ _ => path.captureSchemas
  | requires inner => inner.captureSchemas
  | deprecated inner => inner.captureSchemas
  | protectedBy inner => inner.captureSchemas
  | validated inner => inner.captureSchemas

/-- `Q::query_parameters()` -/
def queryParameters : Endpoint Schema → List (Parameter Schema)
  | bodyless _ _ _ _ query _ => query
  | withBody _ _ _ _ _ query _ => query
  | requires inner => inner.queryParameters
  | deprecated inner => inner.queryParameters
  | protectedBy inner => inner.queryParameters
  | validated inner => inner.queryParameters

def pathType : Endpoint Schema → PathSpec
  | bodyless _ P _ _ _ _ => P
  | withBody _ P _ _ _ _ _ => P
  | requires inner => inner.pathType
  | deprecated inner => inner.pathType
  | protectedBy inner => inner.pathType
  | validated inner => inner.pathType

/-- Where the operation of the endpoint goes. -/
def place (e : Endpoint Schema) : Str × Method :=
  (e.pathPattern, e.method)

/-- The key of the path has no placeholder and the query no path parameter. -/
def Plain (e : Endpoint Schema) : Prop :=
  templateNames e.pathPattern = [] ∧
    e.queryParameters.filter (fun param => param.location = .path) = []

theorem describes_toOperation_iff (e : Endpoint Schema) :
    e.toOperation.Describes e.pathPattern e.captureSchemas ↔ e.Plain := by
  induction e with
  | bodyless M P path res query err => exact describes_plainOperation_iff path _ _ _ _
  | withBody M P path req res query err => exact describes_plainOperation_iff path _ _ _ _
  | requires inner ih => exact ih
  | deprecated inner ih =>
    have same : (deprecated inner).toOperation.parameters = inner.toOperation.parameters := rfl
    exact (Operation.describes_congr same).trans ih
  | protectedBy inner ih =>
    have same : (protectedBy inner).toOperation.parameters = inner.toOperation.parameters := rfl
    exact (Operation.describes_congr same).trans ih
  | validated inner ih => exact ih

end Endpoint

/-! ## The whole API -/

/-- The types that implement `CollectOperations`. -/
inductive Api (Schema : Type) : Type 1 where
  | endpoint (e : Endpoint Schema)
  | tuple (parts : List (Api Schema))

namespace OpenApiSpec

/-- `collect_into` of an endpoint. -/
def collect (spec : OpenApiSpec Schema) (e : Endpoint Schema) : OpenApiSpec Schema :=
  let item := (IndexMap.lookup e.pathPattern spec.paths).getD {}
  { spec with
    paths := IndexMap.insert e.pathPattern (item.setOperation e.method e.toOperation) spec.paths }

end OpenApiSpec

mutual

def Api.collectInto (spec : OpenApiSpec Schema) : Api Schema → OpenApiSpec Schema
  | .endpoint e => spec.collect e
  | .tuple parts => collectParts spec parts

def collectParts (spec : OpenApiSpec Schema) : List (Api Schema) → OpenApiSpec Schema
  | [] => spec
  | part :: parts => collectParts (part.collectInto spec) parts

end

def extractTagFromPath (path : Str) : Option Str :=
  ((path.splitOn '/').filter fun s => !s.isEmpty).find? fun s => s.head? ≠ some '{'

def autoTag (tag : Option Str) (op : Operation Schema) : Operation Schema :=
  if op.tags.isEmpty then { op with tags := tag.toList } else op

def autoTagOperations (spec : OpenApiSpec Schema) : OpenApiSpec Schema :=
  { spec with
    paths := spec.paths.map fun e =>
      (e.1, e.2.mapOperations (autoTag (extractTagFromPath e.1))) }

def collectSecuritySchemes (spec : OpenApiSpec Schema) : OpenApiSpec Schema :=
  let bearer (op : Operation Schema) :=
    op.security.any fun req => (req.map Prod.fst).contains "bearerAuth".toList
  let hasBearer := spec.paths.any fun e =>
    standardMethods.any fun m => (e.2.operation m).any bearer
  if hasBearer then
    { spec with
      securitySchemes := some (IndexMap.insertNew "bearerAuth".toList SecurityScheme.bearerJwt
        (spec.securitySchemes.getD [])) }
  else spec

/-- `to_spec` of a tuple. -/
def toSpec (api : List (Api Schema)) (title version : Str) : OpenApiSpec Schema :=
  collectSecuritySchemes (autoTagOperations (collectParts { title, version } api))

/-! ### What is collected -/

mutual

/-- The endpoints of the API in the order in which they are collected. -/
def Api.endpoints : Api Schema → List (Endpoint Schema)
  | .endpoint e => [e]
  | .tuple parts => endpointsOf parts

def endpointsOf : List (Api Schema) → List (Endpoint Schema)
  | [] => []
  | part :: parts => part.endpoints ++ endpointsOf parts

end

mutual

theorem Api.collectInto_eq (spec : OpenApiSpec Schema) (api : Api Schema) :
    api.collectInto spec = api.endpoints.foldl OpenApiSpec.collect spec := by
  cases api with
  | endpoint e => rw [Api.collectInto, Api.endpoints, List.foldl_cons, List.foldl_nil]
  | tuple parts => rw [Api.collectInto, Api.endpoints, collectParts_eq spec parts]

theorem collectParts_eq (spec : OpenApiSpec Schema) (parts : List (Api Schema)) :
    collectParts spec parts = (endpointsOf parts).foldl OpenApiSpec.collect spec := by
  cases parts with
  | nil => rw [collectParts, endpointsOf, List.foldl_nil]
  | cons part parts =>
    rw [collectParts, endpointsOf, List.foldl_append, Api.collectInto_eq spec part,
      collectParts_eq _ parts]

end

namespace OpenApiSpec

theorem operationAt_collect (spec : OpenApiSpec Schema) (e : Endpoint Schema)
    (place : Str × Method) :
    (spec.collect e).operationAt place =
      if place = e.place ∧ e.method ∈ standardMethods then some e.toOperation
      else spec.operationAt place := by
  obtain ⟨pattern, m⟩ := place
  simp only [operationAt, collect, IndexMap.lookup_insert, Endpoint.place, Prod.mk.injEq]
  by_cases here : pattern = e.pathPattern
  · rw [if_pos here, Option.bind_some, PathItem.operation_setOperation, here]
    by_cases own : m = e.method ∧ e.method ∈ standardMethods
    · rw [if_pos own, if_pos ⟨⟨rfl, own.1⟩, own.2⟩]
    · rw [if_neg own, if_neg fun both => own ⟨both.1.2, both.2⟩]
      cases IndexMap.lookup e.pathPattern spec.paths with
      | some item => rfl
      | none => cases m <;> rfl
  · rw [if_neg here, if_neg fun both => here both.1.1]

/-- The operation that the endpoints leave at a place, that of the last one there. -/
def lastAt (place : Str × Method) : List (Endpoint Schema) → Option (Operation Schema)
  | [] => none
  | e :: es =>
    (lastAt place es).or
      (if place = e.place ∧ e.method ∈ standardMethods then some e.toOperation else none)

theorem operationAt_foldl (place : Str × Method) (es : List (Endpoint Schema)) :
    ∀ spec : OpenApiSpec Schema, (es.foldl collect spec).operationAt place =
      (lastAt place es).or (spec.operationAt place) := by
  induction es with
  | nil => intro spec; rfl
  | cons e es ih =>
    intro spec
    rw [List.foldl_cons, ih, operationAt_collect, lastAt, Option.or_assoc]
    split <;> rfl

theorem lastAt_eq_some {place : Str × Method} {es : List (Endpoint Schema)}
    {op : Operation Schema} (found : lastAt place es = some op) :
    ∃ e ∈ es, place = e.place ∧ e.method ∈ standardMethods ∧ op = e.toOperation := by
  induction es with
  | nil => cases found
  | cons e es ih =>
    rw [lastAt, Option.or_eq_some_iff] at found
    rcases found with later | ⟨_, here⟩
    · obtain ⟨e', mem, rest⟩ := ih later
      exact ⟨e', List.mem_cons_of_mem _ mem, rest⟩
    · split at here
      · rename_i own
        cases here
        exact ⟨e, List.mem_cons_self, own.1, own.2, rfl⟩
      · cases here

/-- Where no endpoint takes the place of another, each keeps its operation. -/
theorem lastAt_place {es : List (Endpoint Schema)} (apart : (es.map Endpoint.place).Nodup)
    {e : Endpoint Schema} (mem : e ∈ es) (standard : e.method ∈ standardMethods) :
    lastAt e.place es = some e.toOperation := by
  induction es with
  | nil => cases mem
  | cons e' es ih =>
    obtain ⟨fresh, apart⟩ := List.nodup_cons.1 apart
    rw [lastAt]
    rcases List.mem_cons.1 mem with rfl | mem
    · have none : lastAt e.place es = none := by
        by_contra some
        obtain ⟨op, found⟩ := Option.ne_none_iff_exists'.1 some
        obtain ⟨e', mem, same, _⟩ := lastAt_eq_some found
        exact fresh (List.mem_map.2 ⟨e', mem, same.symm⟩)
      rw [none, if_pos ⟨rfl, standard⟩]
      rfl
    · rw [ih apart mem]
      rfl

theorem keyed_collect {spec : OpenApiSpec Schema} (keyed : IndexMap.Keyed spec.paths)
    (e : Endpoint Schema) : IndexMap.Keyed (spec.collect e).paths :=
  keyed.insert _ _

theorem keyed_foldl (es : List (Endpoint Schema)) {spec : OpenApiSpec Schema}
    (keyed : IndexMap.Keyed spec.paths) : IndexMap.Keyed (es.foldl collect spec).paths := by
  induction es generalizing spec with
  | nil => exact keyed
  | cons e es ih => exact ih (keyed_collect keyed e)

end OpenApiSpec

/-- The operation of an endpoint as it stands in the document. -/
def Endpoint.tagged (e : Endpoint Schema) : Operation Schema :=
  autoTag (extractTagFromPath e.pathPattern) e.toOperation

section ToSpec

variable (api : List (Api Schema)) (title version : Str)

theorem toSpec_paths : (toSpec api title version).paths =
    (autoTagOperations ((endpointsOf api).foldl OpenApiSpec.collect { title, version })).paths := by
  rw [toSpec, collectParts_eq, collectSecuritySchemes]
  split <;> rfl

theorem toSpec_keyed : IndexMap.Keyed (toSpec api title version).paths := by
  rw [toSpec_paths, autoTagOperations, IndexMap.Keyed, List.map_map]
  exact OpenApiSpec.keyed_foldl _ List.nodup_nil

theorem toSpec_operationAt (place : Str × Method) :
    (toSpec api title version).operationAt place =
      (OpenApiSpec.lastAt place (endpointsOf api)).map (autoTag (extractTagFromPath place.1)) := by
  have collected := OpenApiSpec.operationAt_foldl place (endpointsOf api)
    ({ title, version } : OpenApiSpec Schema)
  have empty : ({ title, version } : OpenApiSpec Schema).operationAt place = none := rfl
  rw [empty, Option.or_none] at collected
  rw [← collected, OpenApiSpec.operationAt, OpenApiSpec.operationAt, toSpec_paths,
    autoTagOperations]
  generalize ((endpointsOf api).foldl OpenApiSpec.collect { title, version }).paths = paths
  induction paths with
  | nil => rfl
  | cons e paths ih =>
    rw [List.map_cons, IndexMap.lookup_cons, IndexMap.lookup_cons]
    split
    · rename_i same
      rw [Option.bind_some, Option.bind_some, PathItem.operation_mapOperations, same]
    · exact ih

theorem parameters_autoTag (tag : Option Str) (op : Operation Schema) :
    (autoTag tag op).parameters = op.parameters := by
  rw [autoTag]
  split <;> rfl

theorem mem_toSpec {place : Str × Method} {op : Operation Schema} :
    (place, op) ∈ (toSpec api title version).operations ↔
      ∃ found, OpenApiSpec.lastAt place (endpointsOf api) = some found ∧
        autoTag (extractTagFromPath place.1) found = op := by
  rw [OpenApiSpec.mem_operations (toSpec_keyed api title version), toSpec_operationAt,
    Option.map_eq_some_iff]

end ToSpec

/-! ## Faithfulness -/

/-- The operations are those of the endpoints, one each, and describe them. -/
def Faithful (api : List (Api Schema)) (spec : OpenApiSpec Schema) : Prop :=
  ∃ ops, List.Perm ops spec.operations ∧
    List.Forall₂ (fun e op => op.1 = e.place ∧ op.2.Describes e.pathPattern e.captureSchemas)
      (endpointsOf api) ops

/-- No two endpoints have method and path type in common. -/
def Distinct (api : List (Api Schema)) : Prop :=
  ((endpointsOf api).map fun e => (e.method, e.pathType)).Nodup

theorem places_eq {es : List (Endpoint Schema)} {ops : List ((Str × Method) × Operation Schema)}
    (each : List.Forall₂
      (fun e op => op.1 = e.place ∧ op.2.Describes e.pathPattern e.captureSchemas) es ops) :
    ops.map Prod.fst = es.map Endpoint.place := by
  induction each with
  | nil => rfl
  | cons here _ ih => rw [List.map_cons, List.map_cons, ih, here.1]

theorem Endpoint.describes_tagged_iff (e : Endpoint Schema) :
    e.tagged.Describes e.pathPattern e.captureSchemas ↔ e.Plain :=
  (Operation.describes_congr (parameters_autoTag _ _)).trans e.describes_toOperation_iff

section Faithful

variable {api : List (Api Schema)} {title version : Str}

/-- Endpoints at places of their own have their own operations in the document. -/
theorem operation_of_place (apart : ((endpointsOf api).map Endpoint.place).Nodup)
    {e : Endpoint Schema} (mem : e ∈ endpointsOf api) {op : (Str × Method) × Operation Schema}
    (there : op ∈ (toSpec api title version).operations) (here : op.1 = e.place) :
    e.method ∈ standardMethods ∧ op.2 = e.tagged := by
  obtain ⟨place, op⟩ := op
  obtain rfl : place = e.place := here
  obtain ⟨found, last, tagged⟩ := (mem_toSpec api title version).1 there
  obtain ⟨e', mem', same, standard, rfl⟩ := OpenApiSpec.lastAt_eq_some last
  have own := List.inj_on_of_nodup_map apart mem mem' same
  subst own
  exact ⟨standard, tagged.symm⟩

/-- They are all that is in it. -/
theorem perm_operations (apart : ((endpointsOf api).map Endpoint.place).Nodup)
    (standard : ∀ e ∈ endpointsOf api, e.method ∈ standardMethods) :
    List.Perm ((endpointsOf api).map fun e => (e.place, e.tagged))
      (toSpec api title version).operations := by
  have left : ((endpointsOf api).map fun e => (e.place, e.tagged)).Nodup := by
    apply List.Nodup.of_map Prod.fst
    rw [List.map_map]
    exact apart
  have right : (toSpec api title version).operations.Nodup :=
    List.Nodup.of_map Prod.fst (OpenApiSpec.places_nodup (toSpec_keyed _ _ _))
  rw [List.perm_ext_iff_of_nodup left right]
  intro o
  obtain ⟨place, op⟩ := o
  rw [List.mem_map, mem_toSpec]
  constructor
  · intro own
    obtain ⟨e, mem, same⟩ := own
    cases same
    exact ⟨e.toOperation, OpenApiSpec.lastAt_place apart mem (standard e mem), rfl⟩
  · intro there
    obtain ⟨found, last, tagged⟩ := there
    obtain ⟨e, mem, rfl, _, rfl⟩ := OpenApiSpec.lastAt_eq_some last
    exact ⟨e, mem, Prod.ext rfl tagged⟩

end Faithful

/-- An operation describes its endpoint exactly when the path has no captures at all: their
names in the key are empty and those of their parameters are not. -/
theorem faithful_toSpec_iff (api : List (Api Schema)) (title version : Str) :
    Faithful api (toSpec api title version) ↔
      ((endpointsOf api).map Endpoint.place).Nodup ∧
        ∀ e ∈ endpointsOf api, e.method ∈ standardMethods ∧ e.Plain := by
  constructor
  · intro h
    obtain ⟨ops, perm, each⟩ := h
    have apart : ((endpointsOf api).map Endpoint.place).Nodup := by
      rw [← places_eq each]
      exact (perm.map Prod.fst).nodup_iff.2 (OpenApiSpec.places_nodup (toSpec_keyed _ _ _))
    refine ⟨apart, ?_⟩
    intro e mem
    obtain ⟨n, bound, rfl⟩ := List.getElem_of_mem mem
    have bound' : n < ops.length := each.length_eq ▸ bound
    obtain ⟨here, describes⟩ := each.get bound bound'
    obtain ⟨standard, own⟩ :=
      operation_of_place apart mem (perm.mem_iff.1 (List.getElem_mem bound')) here
    refine ⟨standard, (Endpoint.describes_tagged_iff _).1 ?_⟩
    rw [← own]
    exact describes
  · intro h
    obtain ⟨apart, each⟩ := h
    refine ⟨_, perm_operations apart fun e mem => (each e mem).1, ?_⟩
    rw [List.forall₂_map_right_iff, List.forall₂_same]
    intro e mem
    exact ⟨rfl, e.describes_tagged_iff.2 (each e mem).2⟩

/-- `GET /users/{}` with a number. -/
def getUser : List (Api Str) :=
  [.endpoint (.bodyless .get (.lit "users".toList (.capture .u32 .hnil))
    (.lit (.capture "integer".toList .hnil)) { schema := "object".toList, example? := none } [] [])]

theorem not_faithful_getUser :
    ¬ ∀ (api : List (Api Str)) (title version : Str), Distinct api →
      Faithful api (toSpec api title version) := by
  intro all
  have faithful := all getUser [] [] (List.nodup_singleton _)
  obtain ⟨_, each⟩ := (faithful_toSpec_iff _ _ _).1 faithful
  obtain ⟨_, names, _⟩ := each _ List.mem_cons_self
  rw [Endpoint.pathPattern, templateNames_lit, templateNames_capture] at names
  exact absurd (List.append_eq_nil_iff.1 names).2 (List.cons_ne_nil _ _)

end Typeway.OpenApi
