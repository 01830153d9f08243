import Typeway.Base.RustIdent
import Typeway.Base.Serde
import Typeway.Base.SortedMap
import Typeway.Core.Path

/-!
# The documents that are imported

What `codegen_v3.rs` and `codegen_v2.rs` read of an OpenAPI 3 or a Swagger 2 document, and the structs
and enums that they write for its schemas. The derived deserialisers are translated as they read the
tree of a JSON text; a struct can be read from an array as well.
-/

namespace Typeway.OpenApi

open Typeway.Core Json

/-! ## Structs in JSON -/

section

variable {α : Type}

/-- The member of an object or the item of an array that a field is read from. -/
def fieldSlot (fields : List String) (name : String) (v : Value) :
    Option {w : Value // sizeOf w < sizeOf v} :=
  match v with
  | .obj members => (members.attach.find? fun m => m.1.1 = name.toList).map fun m =>
      ⟨m.1.2, Serde.sizeOf_member m⟩
  | .arr items => (items.attach[fields.idxOf name]?).map fun w => ⟨w.1, Serde.sizeOf_item w⟩
  | _ => none

/-- An object that has no field twice, or an array with at least the fields that have no default. -/
def isShaped (fields : List String) (needed : Nat) : Value → Bool
  | .obj members => fields.all fun name => (members.filter fun m => m.1 = name.toList).length ≤ 1
  | .arr items => needed ≤ items.length && items.length ≤ fields.length
  | _ => false

variable (read : Value → Option α) (fields : List String) (name : String) (v : Value)

/-- A field of an `Option` type. -/
def readOptional : Option (Option α) :=
  match fieldSlot fields name v with
  | none => some none
  | some w => if w.1.isNull then some none else (read w.1).map some

/-- `#[serde(default)]` -/
def readDefaulted (default : α) : Option α :=
  match fieldSlot fields name v with
  | none => some default
  | some w => read w.1

/-- A `BTreeMap`, in which a later entry replaces an earlier one. -/
def toBTreeMap (entries : List (Str × α)) : List (Str × α) :=
  entries.foldl (fun map e => SortedMap.insert e.1 e.2 map) []

def readMap : Option (List (Str × α)) :=
  (Serde.mapWithin v fun w _ => read w).map toBTreeMap

def readList : Option (List α) :=
  Serde.listWithin v fun w _ => read w

end

/-! ## The documents -/

/-- The paths of a document with the members of their objects, and its schemas. -/
structure Document (Op Schema : Type) where
  version : Str
  title : Str
  schemas : List (Str × Schema)
  paths : List (Str × List (Str × Op))

inductive OpenApi3SchemaRef where
  | mk (refPath schemaType format : Option Str) (items : Option OpenApi3SchemaRef)
      (properties : List (Str × OpenApi3SchemaRef)) (allOf oneOf : List OpenApi3SchemaRef)

def OpenApi3SchemaRef.fields : List String :=
  ["$ref", "type", "format", "items", "properties", "allOf", "oneOf"]

def OpenApi3SchemaRef.read (v : Value) : Option OpenApi3SchemaRef :=
  if isShaped fields 2 v then do
    let refPath ← readOptional Value.asStr fields "$ref" v
    let schemaType ← readOptional Value.asStr fields "type" v
    let format ← readOptional Value.asStr fields "format" v
    let items ← match fieldSlot fields "items" v with
      | none => some none
      | some ⟨w, _⟩ => if w.isNull then some none else (read w).map some
    let properties ← match fieldSlot fields "properties" v with
      | none => some []
      | some ⟨w, _⟩ => (Serde.mapWithin w fun u _ => read u).map toBTreeMap
    let allOf ← match fieldSlot fields "allOf" v with
      | none => some []
      | some ⟨w, _⟩ => Serde.listWithin w fun u _ => read u
    let oneOf ← match fieldSlot fields "oneOf" v with
      | none => some []
      | some ⟨w, _⟩ => Serde.listWithin w fun u _ => read u
    some (.mk refPath schemaType format items properties allOf oneOf)
  else none
termination_by sizeOf v
decreasing_by all_goals omega

structure OpenApi3Schema where
  schemaType : Option Str
  format : Option Str
  properties : List (Str × OpenApi3SchemaRef)
  items : Option OpenApi3SchemaRef
  enumValues : List Str
  required : List Str

def OpenApi3Schema.read (v : Value) : Option OpenApi3Schema :=
  let fields := ["type", "format", "properties", "items", "enum", "required"]
  if isShaped fields 0 v then do
    let schemaType ← readOptional Value.asStr fields "type" v
    let format ← readOptional Value.asStr fields "format" v
    let properties ← readDefaulted (readMap OpenApi3SchemaRef.read) fields "properties" v []
    let items ← readOptional OpenApi3SchemaRef.read fields "items" v
    let enumValues ← readDefaulted (readList Value.asStr) fields "enum" v []
    let required ← readDefaulted (readList Value.asStr) fields "required" v []
    some { schemaType, format, properties, items, enumValues, required }
  else none

structure OpenApi3MediaType where
  schema : Option OpenApi3SchemaRef

def OpenApi3MediaType.read (v : Value) : Option OpenApi3MediaType :=
  if isShaped ["schema"] 0 v then (readOptional OpenApi3SchemaRef.read ["schema"] "schema" v).map .mk
  else none

structure OpenApi3Operation where
  summary : Option Str
  /-- The `content` of the request body. -/
  requestBody : Option (List (Str × OpenApi3MediaType))
  /-- The `content` of each response. -/
  responses : List (Str × Option (List (Str × OpenApi3MediaType)))

def readContent : Value → Option (List (Str × OpenApi3MediaType)) :=
  readMap OpenApi3MediaType.read

def readRequestBody (v : Value) : Option (List (Str × OpenApi3MediaType)) :=
  if isShaped ["content"] 0 v then readDefaulted readContent ["content"] "content" v [] else none

def readResponse (v : Value) : Option (Option (List (Str × OpenApi3MediaType))) :=
  if isShaped ["content"] 0 v then readOptional readContent ["content"] "content" v else none

def OpenApi3Operation.read (v : Value) : Option OpenApi3Operation :=
  let fields := ["summary", "requestBody", "responses"]
  if isShaped fields 0 v then do
    let summary ← readOptional Value.asStr fields "summary" v
    let requestBody ← readOptional readRequestBody fields "requestBody" v
    let responses ← readDefaulted (readMap readResponse) fields "responses" v []
    some { summary, requestBody, responses }
  else none

inductive SwaggerSchemaRef where
  | mk (refPath schemaType format : Option Str) (items : Option SwaggerSchemaRef)

def SwaggerSchemaRef.fields : List String :=
  ["$ref", "type", "format", "items"]

def SwaggerSchemaRef.read (v : Value) : Option SwaggerSchemaRef :=
  if isShaped fields 2 v then do
    let refPath ← readOptional Value.asStr fields "$ref" v
    let schemaType ← readOptional Value.asStr fields "type" v
    let format ← readOptional Value.asStr fields "format" v
    let items ← match fieldSlot fields "items" v with
      | none => some none
      | some ⟨w, _⟩ => if w.isNull then some none else (read w).map some
    some (.mk refPath schemaType format items)
  else none
termination_by sizeOf v

structure SwaggerSchema where
  schemaType : Option Str
  format : Option Str
  properties : List (Str × SwaggerSchemaRef)
  items : Option SwaggerSchemaRef

def SwaggerSchema.read (v : Value) : Option SwaggerSchema :=
  let fields := ["type", "format", "properties", "items"]
  if isShaped fields 0 v then do
    let schemaType ← readOptional Value.asStr fields "type" v
    let format ← readOptional Value.asStr fields "format" v
    let properties ← readDefaulted (readMap SwaggerSchemaRef.read) fields "properties" v []
    let items ← readOptional SwaggerSchemaRef.read fields "items" v
    some { schemaType, format, properties, items }
  else none

structure SwaggerParameter where
  name : Str
  location : Str
  schema : Option SwaggerSchemaRef
  paramType : Option Str
  format : Option Str

def SwaggerParameter.read (v : Value) : Option SwaggerParameter :=
  let fields := ["name", "in", "schema", "type", "format"]
  if isShaped fields 0 v then do
    let name ← readDefaulted Value.asStr fields "name" v []
    let location ← readDefaulted Value.asStr fields "in" v []
    let schema ← readOptional SwaggerSchemaRef.read fields "schema" v
    let paramType ← readOptional Value.asStr fields "type" v
    let format ← readOptional Value.asStr fields "format" v
    some { name, location, schema, paramType, format }
  else none

structure SwaggerOperation where
  parameters : List SwaggerParameter
  /-- The schema of each response. -/
  responses : List (Str × Option SwaggerSchemaRef)
  summary : Option Str

def readSwaggerResponse (v : Value) : Option (Option SwaggerSchemaRef) :=
  if isShaped ["schema"] 0 v then readOptional SwaggerSchemaRef.read ["schema"] "schema" v else none

def SwaggerOperation.read (v : Value) : Option SwaggerOperation :=
  let fields := ["parameters", "responses", "summary"]
  if isShaped fields 0 v then do
    let parameters ← readDefaulted (readList SwaggerParameter.read) fields "parameters" v []
    let responses ← readDefaulted (readMap readSwaggerResponse) fields "responses" v []
    let summary ← readOptional Value.asStr fields "summary" v
    some { parameters, responses, summary }
  else none

end Typeway.OpenApi
