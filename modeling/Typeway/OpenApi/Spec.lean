import Typeway.Base.Serde
import Typeway.OpenApi.Derive

/-!
# The document as JSON

The records of `spec.rs` with their derived serialisers and deserialisers. A document is taken as
the tree of its JSON text.
-/

namespace Typeway.OpenApi

open Typeway.Core Json Serde

/-! ## Schemas -/

structure Discriminator where
  propertyName : Str
  mapping : Option (List (Str × Str)) := none

/-- `Schema` -/
structure SchemaObject where
  schemaType : Option Str := none
  format : Option Str := none
  items : Option SchemaObject := none
  properties : Option (List (Str × SchemaObject)) := none
  description : Option Str := none
  oneOf : Option (List SchemaObject) := none
  enumValues : Option (List Value) := none
  discriminator : Option Discriminator := none

def Discriminator.record : Record Discriminator :=
  ((Record.ofField (always "propertyName" text)).pair
    (.ofField (optional "mapping" (map text)))).as
      (fun (propertyName, mapping) => { propertyName, mapping })
      fun d => (d.propertyName, d.mapping)

def Discriminator.codec : Codec Discriminator :=
  Discriminator.record.codec

namespace SchemaObject

/-- The fields, with the schemas in them by `self`. -/
def record (self : Codec SchemaObject) : Record SchemaObject :=
  ((Record.ofField (optional "type" text)).pair <|
    (Record.ofField (optional "format" text)).pair <|
    (Record.ofField (optional "items" self)).pair <|
    (Record.ofField (optional "properties" (map self))).pair <|
    (Record.ofField (optional "description" text)).pair <|
    (Record.ofField (optional "oneOf" (list self))).pair <|
    (Record.ofField (optional "enum" (list value))).pair <|
    .ofField (optional "discriminator" Discriminator.codec)).as
      (fun (schemaType, format, items, properties, description, oneOf, enumValues, discriminator) =>
        { schemaType, format, items, properties, description, oneOf, enumValues, discriminator })
      fun s => (s.schemaType, s.format, s.items, s.properties, s.description, s.oneOf,
        s.enumValues, s.discriminator)

mutual

def ser : SchemaObject → Value
  | ⟨schemaType, format, items, properties, description, oneOf, enumValues, discriminator⟩ =>
    .obj ((optional "type" text).ser schemaType ++ ((optional "format" text).ser format ++
      (serItems items ++ (serProperties properties ++
      ((optional "description" text).ser description ++ (serOneOf oneOf ++
      ((optional "enum" (list value)).ser enumValues ++
      (optional "discriminator" Discriminator.codec).ser discriminator)))))))

def serItems : Option SchemaObject → Members
  | none => []
  | some s => [("items".toList, s.ser)]

def serProperties : Option (List (Str × SchemaObject)) → Members
  | none => []
  | some entries => [("properties".toList, .obj (serEntries entries))]

def serEntries : List (Str × SchemaObject) → Members
  | [] => []
  | (name, s) :: rest => (name, s.ser) :: serEntries rest

def serOneOf : Option (List SchemaObject) → Members
  | none => []
  | some variants => [("oneOf".toList, .arr (serAll variants))]

def serAll : List SchemaObject → List Value
  | [] => []
  | s :: rest => s.ser :: serAll rest

end

def de : Value → Option SchemaObject
  | .obj members => do
    let schemaType ← (optional "type" text).de members
    let format ← (optional "format" text).de members
    let items ← optionalWithin "items" members fun v _ => de v
    let properties ← optionalWithin "properties" members fun v _ => mapWithin v fun w _ => de w
    let description ← (optional "description" text).de members
    let oneOf ← optionalWithin "oneOf" members fun v _ => listWithin v fun w _ => de w
    let enumValues ← (optional "enum" (list value)).de members
    let discriminator ← (optional "discriminator" Discriminator.codec).de members
    some { schemaType, format, items, properties, description, oneOf, enumValues, discriminator }
  | _ => none
termination_by v => sizeOf v
decreasing_by all_goals simp only [Value.obj.sizeOf_spec]; omega

def codec : Codec SchemaObject where
  ser := ser
  de := de

theorem serEntries_eq (entries : List (Str × SchemaObject)) :
    serEntries entries = entries.map fun e => (e.1, e.2.ser) := by
  induction entries with
  | nil => rfl
  | cons e entries ih => rw [serEntries, ih, List.map_cons]

theorem serAll_eq (variants : List SchemaObject) : serAll variants = variants.map ser := by
  induction variants with
  | nil => rfl
  | cons s variants ih => rw [serAll, ih, List.map_cons]

/-- A schema is written field by field. -/
theorem ser_eq (s : SchemaObject) : s.ser = (record codec).codec.ser s := by
  obtain ⟨schemaType, format, items, properties, description, oneOf, enumValues, discriminator⟩ := s
  have itemsEq : serItems items = (optional "items" codec).ser items := by
    cases items <;> rfl
  have propertiesEq : serProperties properties = (optional "properties" (map codec)).ser properties := by
    cases properties with
    | none => rfl
    | some entries =>
      rw [serProperties, serEntries_eq]
      rfl
  have oneOfEq : serOneOf oneOf = (optional "oneOf" (list codec)).ser oneOf := by
    cases oneOf with
    | none => rfl
    | some variants =>
      rw [serOneOf, serAll_eq]
      rfl
  rw [ser, itemsEq, propertiesEq, oneOfEq]
  rfl

/-- A schema is read field by field. -/
theorem de_eq (v : Value) : de v = (record codec).codec.de v := by
  cases v with
  | obj members =>
    have itemsEq : (optionalWithin "items" members fun v _ => de v) =
        (optional "items" codec).de members := optionalWithin_eq codec "items" members
    have propertiesEq : (optionalWithin "properties" members fun v _ =>
        mapWithin v fun w _ => de w) = (optional "properties" (map codec)).de members := by
      rw [← optionalWithin_eq]
      congr 1
      funext v _
      exact mapWithin_eq codec v
    have oneOfEq : (optionalWithin "oneOf" members fun v _ => listWithin v fun w _ => de w) =
        (optional "oneOf" (list codec)).de members := by
      rw [← optionalWithin_eq]
      congr 1
      funext v _
      exact listWithin_eq codec v
    rw [de, itemsEq, propertiesEq, oneOfEq]
    show _ = (record codec).de members
    simp only [record, Record.as, Record.pair, Record.ofField, Option.bind_eq_bind,
      Option.map_bind, Option.map_map, Function.comp_def]
    simp only [Option.map_eq_bind, Function.comp_def]
  | _ =>
    rw [de]
    · rfl
    · intro members same
      cases same

@[simp] theorem isNull_ser (s : SchemaObject) : (codec.ser s).isNull = false := by
  show s.ser.isNull = false
  rw [ser_eq]
  rfl

end SchemaObject

theorem Discriminator.returns_iff {d : Discriminator} :
    Discriminator.codec.RoundTrips d ↔ ∀ mapping, d.mapping = some mapping → IndexMap.Keyed mapping := by
  rw [Discriminator.codec, Record.returns_codec, Discriminator.record,
    Record.returns_as (fun _ => rfl) (fun _ => rfl), Record.returns_pair (by decide),
    Record.returns_ofField, Record.returns_ofField, survives_always, survives_optional]
  simp

namespace SchemaObject

/-- The schemas in the schema come back, and no map in it has a name twice. -/
theorem returns_iff {s : SchemaObject} :
    codec.RoundTrips s ↔
      (∀ t, s.items = some t → codec.RoundTrips t) ∧
      (∀ entries, s.properties = some entries →
        IndexMap.Keyed entries ∧ ∀ e ∈ entries, codec.RoundTrips e.2) ∧
      (∀ variants, s.oneOf = some variants → ∀ t ∈ variants, codec.RoundTrips t) ∧
      ∀ d, s.discriminator = some d → Discriminator.codec.RoundTrips d := by
  have unfolded : codec.RoundTrips s ↔ (record codec).RoundTrips s := by
    show de s.ser = some s ↔ _
    rw [ser_eq, de_eq]
    exact Record.returns_codec
  rw [unfolded, record, Record.returns_as (fun _ => rfl) (fun s => by cases s; rfl),
    Record.returns_pair (by decide), Record.returns_pair (by decide),
    Record.returns_pair (by decide), Record.returns_pair (by decide),
    Record.returns_pair (by decide), Record.returns_pair (by decide),
    Record.returns_pair (by decide)]
  have named (d : Discriminator) : (Discriminator.codec.ser d).isNull = false := rfl
  simp [named]

/-- No map in the schema has a name twice. -/
inductive Distinct : SchemaObject → Prop where
  | intro {s : SchemaObject} (items : ∀ t, s.items = some t → Distinct t)
      (properties : ∀ entries, s.properties = some entries → IndexMap.Keyed entries)
      (property : ∀ entries, s.properties = some entries → ∀ e ∈ entries, Distinct e.2)
      (oneOf : ∀ variants, s.oneOf = some variants → ∀ t ∈ variants, Distinct t)
      (mapping : ∀ d mapping, s.discriminator = some d → d.mapping = some mapping →
        IndexMap.Keyed mapping) : Distinct s

theorem returns_of_distinct {s : SchemaObject} (distinct : s.Distinct) : codec.RoundTrips s := by
  induction distinct with
  | intro items properties property oneOf mapping ihItems ihProperty ihOneOf =>
    rw [returns_iff]
    refine ⟨ihItems, fun entries here => ⟨properties entries here, ihProperty entries here⟩,
      ihOneOf, fun d here => Discriminator.returns_iff.2 fun m own => mapping d m here own⟩

theorem sizeOf_items {s t : SchemaObject} (here : s.items = some t) : sizeOf t < sizeOf s := by
  cases s
  cases here
  simp only [mk.sizeOf_spec, Option.some.sizeOf_spec]
  omega

theorem sizeOf_properties {s : SchemaObject} {entries : List (Str × SchemaObject)}
    (here : s.properties = some entries) : sizeOf entries < sizeOf s := by
  cases s
  cases here
  simp only [mk.sizeOf_spec, Option.some.sizeOf_spec]
  omega

theorem sizeOf_oneOf {s : SchemaObject} {variants : List SchemaObject}
    (here : s.oneOf = some variants) : sizeOf variants < sizeOf s := by
  cases s
  cases here
  simp only [mk.sizeOf_spec, Option.some.sizeOf_spec]
  omega

theorem distinct_of_roundTrips (s : SchemaObject) (back : codec.RoundTrips s) : s.Distinct := by
  obtain ⟨items, properties, oneOf, mapping⟩ := returns_iff.1 back
  refine .intro ?_ ?_ ?_ ?_ ?_
  · intro t here
    exact distinct_of_roundTrips t (items t here)
  · intro entries here
    exact (properties entries here).1
  · intro entries here e mem
    exact distinct_of_roundTrips e.2 ((properties entries here).2 e mem)
  · intro variants here t mem
    exact distinct_of_roundTrips t (oneOf variants here t mem)
  · intro d m here own
    exact Discriminator.returns_iff.1 (mapping d here) m own
termination_by sizeOf s
decreasing_by
  · exact sizeOf_items here
  · have below := List.sizeOf_lt_of_mem mem
    have whole := sizeOf_properties here
    obtain ⟨n, t⟩ := e
    simp only [Prod.mk.sizeOf_spec] at below ⊢
    omega
  · have below := List.sizeOf_lt_of_mem mem
    have whole := sizeOf_oneOf here
    omega

@[simp] theorem returns_iff_distinct {s : SchemaObject} : codec.RoundTrips s ↔ s.Distinct :=
  ⟨distinct_of_roundTrips s, returns_of_distinct⟩

end SchemaObject

/-! ## Operations -/

def ParameterLocation.codec : Codec ParameterLocation where
  ser
    | .query => .str "query".toList
    | .path => .str "path".toList
    | .header => .str "header".toList
    | .cookie => .str "cookie".toList
  de v := v.asStr.bind fun s =>
    if s = "query".toList then some .query
    else if s = "path".toList then some .path
    else if s = "header".toList then some .header
    else if s = "cookie".toList then some .cookie
    else none

def Parameter.record : Record (Parameter SchemaObject) :=
  ((Record.ofField (always "name" text)).pair <|
    (Record.ofField (always "in" ParameterLocation.codec)).pair <|
    (Record.ofField (skipping "required" flag not)).pair <|
    .ofField (optional "schema" SchemaObject.codec)).as
      (fun (name, location, required, schema) => { name, location, required, schema })
      fun p => (p.name, p.location, p.required, p.schema)

def MediaType.record : Record (MediaType SchemaObject) :=
  ((Record.ofField (optional "schema" SchemaObject.codec)).pair
    (.ofField (optional "example" value))).as
      (fun (schema, example?) => { schema, example? })
      fun m => (m.schema, m.example?)

def RequestBody.record : Record (RequestBody SchemaObject) :=
  ((Record.ofField (skipping "required" flag not)).pair
    (.ofField (always "content" (map MediaType.record.codec)))).as
      (fun (required, content) => { required, content })
      fun body => (body.required, body.content)

def Response.record : Record (Response SchemaObject) :=
  ((Record.ofField (always "description" text)).pair
    (.ofField (skipping "content" (map MediaType.record.codec) List.isEmpty))).as
      (fun (description, content) => { description, content })
      fun response => (response.description, response.content)

def SecurityRequirement.codec : Codec SecurityRequirement :=
  map (list text)

def Operation.record : Record (Operation SchemaObject) :=
  ((Record.ofField (optional "summary" text)).pair <|
    (Record.ofField (optional "description" text)).pair <|
    (Record.ofField (optional "operationId" text)).pair <|
    (Record.ofField (skipping "tags" (list text) List.isEmpty)).pair <|
    (Record.ofField (skipping "parameters" (list Parameter.record.codec) List.isEmpty)).pair <|
    (Record.ofField (optional "requestBody" RequestBody.record.codec)).pair <|
    (Record.ofField (always "responses" (map Response.record.codec))).pair <|
    (Record.ofField (skipping "security" (list SecurityRequirement.codec) List.isEmpty)).pair <|
    .ofField (skipping "deprecated" flag not)).as
      (fun (summary, description, operationId, tags, parameters, requestBody, responses, security,
          deprecated) =>
        { summary, description, operationId, tags, parameters, requestBody, responses, security,
          deprecated })
      fun op => (op.summary, op.description, op.operationId, op.tags, op.parameters, op.requestBody,
        op.responses, op.security, op.deprecated)

def PathItem.record : Record (PathItem SchemaObject) :=
  ((Record.ofField (optional "get" Operation.record.codec)).pair <|
    (Record.ofField (optional "post" Operation.record.codec)).pair <|
    (Record.ofField (optional "put" Operation.record.codec)).pair <|
    (Record.ofField (optional "delete" Operation.record.codec)).pair <|
    (Record.ofField (optional "patch" Operation.record.codec)).pair <|
    (Record.ofField (optional "head" Operation.record.codec)).pair <|
    .ofField (optional "options" Operation.record.codec)).as
      (fun (get, post, put, delete, patch, head, options) =>
        { get, post, put, delete, patch, head, options })
      fun item => (item.get, item.post, item.put, item.delete, item.patch, item.head, item.options)

/-! ## The document -/

structure Info where
  title : Str
  version : Str
  description : Option Str := none

def Info.record : Record Info :=
  ((Record.ofField (always "title" text)).pair <|
    (Record.ofField (always "version" text)).pair <|
    .ofField (optional "description" text)).as
      (fun (title, version, description) => { title, version, description })
      fun info => (info.title, info.version, info.description)

def SecurityScheme.record : Record SecurityScheme :=
  ((Record.ofField (always "type" text)).pair <|
    (Record.ofField (optional "scheme" text)).pair <|
    (Record.ofField (optional "bearerFormat" text)).pair <|
    .ofField (optional "description" text)).as
      (fun (schemeType, scheme, bearerFormat, description) =>
        { schemeType, scheme, bearerFormat, description })
      fun s => (s.schemeType, s.scheme, s.bearerFormat, s.description)

structure Components where
  securitySchemes : List (Str × SecurityScheme) := []

def Components.record : Record Components :=
  (Record.ofField (skipping "securitySchemes" (map SecurityScheme.record.codec) List.isEmpty)).as
    (fun securitySchemes => { securitySchemes })
    fun components => components.securitySchemes

/-- `OpenApiSpec` with all of its fields. -/
structure SpecDocument where
  openapi : Str := "3.1.0".toList
  info : Info
  paths : List (Str × PathItem SchemaObject) := []
  components : Option Components := none

def SpecDocument.record : Record SpecDocument :=
  ((Record.ofField (always "openapi" text)).pair <|
    (Record.ofField (always "info" Info.record.codec)).pair <|
    (Record.ofField (always "paths" (map PathItem.record.codec))).pair <|
    .ofField (optional "components" Components.record.codec)).as
      (fun (openapi, info, paths, components) => { openapi, info, paths, components })
      fun d => (d.openapi, d.info, d.paths, d.components)

def SpecDocument.codec : Codec SpecDocument :=
  SpecDocument.record.codec

/-! ## What comes back -/

@[simp] theorem ParameterLocation.roundTrips (location : ParameterLocation) :
    ParameterLocation.codec.RoundTrips location := by
  cases location <;> rfl

@[simp] theorem Parameter.returns_iff {p : Parameter SchemaObject} :
    Parameter.record.codec.RoundTrips p ↔
      p.required = true ∧ ∀ s, p.schema = some s → s.Distinct := by
  rw [Record.returns_codec, Parameter.record, Record.returns_as (fun _ => rfl) (fun _ => rfl),
    Record.returns_pair (by decide), Record.returns_pair (by decide),
    Record.returns_pair (by decide)]
  simp

theorem isNull_value_iff {v : Value} : (value.ser v).isNull = false ↔ v ≠ .null := by
  cases v <;> simp [value, Value.isNull]

@[simp] theorem MediaType.returns_iff {m : MediaType SchemaObject} :
    MediaType.record.codec.RoundTrips m ↔
      (∀ s, m.schema = some s → s.Distinct) ∧ m.example? ≠ some .null := by
  rw [Record.returns_codec, MediaType.record, Record.returns_as (fun _ => rfl) (fun _ => rfl),
    Record.returns_pair (by decide)]
  simp only [Record.returns_ofField, survives_optional, SchemaObject.isNull_ser, true_and,
    SchemaObject.returns_iff_distinct, returns_value, and_true, isNull_value_iff]
  refine and_congr_right fun _ => ?_
  constructor
  · intro some null
    exact some _ null rfl
  · rintro other v here rfl
    exact other here

/-- The media types of a body or a response come back. -/
def ContentReads (content : List (Str × MediaType SchemaObject)) : Prop :=
  IndexMap.Keyed content ∧ ∀ e ∈ content,
    (∀ s, e.2.schema = some s → s.Distinct) ∧ e.2.example? ≠ some .null

@[simp] theorem RequestBody.returns_iff {body : RequestBody SchemaObject} :
    RequestBody.record.codec.RoundTrips body ↔
      body.required = true ∧ ContentReads body.content := by
  rw [Record.returns_codec, RequestBody.record,
    Record.returns_as (fun _ => rfl) (fun _ => rfl), Record.returns_pair (by decide)]
  simp [ContentReads]

@[simp] theorem Response.returns_iff {response : Response SchemaObject} :
    Response.record.codec.RoundTrips response ↔
      response.content ≠ [] ∧ ContentReads response.content := by
  rw [Record.returns_codec, Response.record,
    Record.returns_as (fun _ => rfl) (fun _ => rfl), Record.returns_pair (by decide)]
  simp [ContentReads]

/-- Nothing that may be skipped is, and the rest comes back. -/
structure Operation.Reads (op : Operation SchemaObject) : Prop where
  tags : op.tags ≠ []
  parameters : op.parameters ≠ []
  parameter : ∀ p ∈ op.parameters, p.required = true ∧ ∀ s, p.schema = some s → s.Distinct
  requestBody : ∀ body, op.requestBody = some body →
    body.required = true ∧ ContentReads body.content
  responses : IndexMap.Keyed op.responses
  response : ∀ e ∈ op.responses, e.2.content ≠ [] ∧ ContentReads e.2.content
  security : op.security ≠ []
  scheme : ∀ requirement ∈ op.security, IndexMap.Keyed requirement
  deprecated : op.deprecated = true

@[simp] theorem SecurityRequirement.returns_iff {requirement : SecurityRequirement} :
    SecurityRequirement.codec.RoundTrips requirement ↔ IndexMap.Keyed requirement := by
  rw [SecurityRequirement.codec, returns_map]
  simp

@[simp] theorem Operation.returns_iff {op : Operation SchemaObject} :
    Operation.record.codec.RoundTrips op ↔ op.Reads := by
  rw [Record.returns_codec, Operation.record,
    Record.returns_as (fun _ => rfl) (fun _ => rfl), Record.returns_pair (by decide),
    Record.returns_pair (by decide), Record.returns_pair (by decide),
    Record.returns_pair (by decide), Record.returns_pair (by decide),
    Record.returns_pair (by decide), Record.returns_pair (by decide),
    Record.returns_pair (by decide)]
  simp only [Record.returns_ofField, survives_optional, survives_skipping, survives_always,
    isNull_text, returns_text, Record.isNull_codec, true_and, implies_true, returns_list,
    returns_map, Parameter.returns_iff, RequestBody.returns_iff, Response.returns_iff,
    SecurityRequirement.returns_iff, returns_flag, and_true, List.isEmpty_eq_false_iff,
    Bool.not_eq_false']
  constructor
  · rintro ⟨tags, ⟨parameters, parameter⟩, body, ⟨keyed, response⟩, ⟨security, scheme⟩, deprecated⟩
    exact ⟨tags, parameters, parameter, body, keyed, response, security, scheme, deprecated⟩
  · intro reads
    exact ⟨reads.tags, ⟨reads.parameters, reads.parameter⟩, reads.requestBody,
      ⟨reads.responses, reads.response⟩, ⟨reads.security, reads.scheme⟩, reads.deprecated⟩

@[simp] theorem PathItem.returns_iff {item : PathItem SchemaObject} :
    PathItem.record.codec.RoundTrips item ↔ ∀ m op, item.operation m = some op → op.Reads := by
  rw [Record.returns_codec, PathItem.record,
    Record.returns_as (fun _ => rfl) (fun _ => rfl), Record.returns_pair (by decide),
    Record.returns_pair (by decide), Record.returns_pair (by decide),
    Record.returns_pair (by decide), Record.returns_pair (by decide),
    Record.returns_pair (by decide)]
  simp only [Record.returns_ofField, survives_optional, Record.isNull_codec, true_and,
    Operation.returns_iff]
  constructor
  · rintro ⟨get, post, put, delete, patch, head, options⟩ m op found
    cases m with
    | get => exact get op found
    | post => exact post op found
    | put => exact put op found
    | delete => exact delete op found
    | patch => exact patch op found
    | head => exact head op found
    | options => exact options op found
    | other name => cases found
  · intro all
    exact ⟨all .get, all .post, all .put, all .delete, all .patch, all .head, all .options⟩

@[simp] theorem Info.roundTrips (info : Info) : Info.record.codec.RoundTrips info := by
  rw [Record.returns_codec, Info.record, Record.returns_as (fun _ => rfl) (fun _ => rfl),
    Record.returns_pair (by decide), Record.returns_pair (by decide)]
  simp

@[simp] theorem SecurityScheme.roundTrips (scheme : SecurityScheme) :
    SecurityScheme.record.codec.RoundTrips scheme := by
  rw [Record.returns_codec, SecurityScheme.record,
    Record.returns_as (fun _ => rfl) (fun _ => rfl), Record.returns_pair (by decide),
    Record.returns_pair (by decide), Record.returns_pair (by decide)]
  simp

@[simp] theorem Components.returns_iff {components : Components} :
    Components.record.codec.RoundTrips components ↔
      components.securitySchemes ≠ [] ∧ IndexMap.Keyed components.securitySchemes := by
  rw [Record.returns_codec, Components.record,
    Record.returns_as (fun _ => rfl) (fun _ => rfl)]
  simp

/-- Every operation comes back, and so do the security schemes. -/
structure SpecDocument.Reads (d : SpecDocument) : Prop where
  paths : IndexMap.Keyed d.paths
  operation : ∀ e ∈ d.paths, ∀ m op, e.2.operation m = some op → op.Reads
  components : ∀ components, d.components = some components →
    components.securitySchemes ≠ [] ∧ IndexMap.Keyed components.securitySchemes

/-- A document comes back exactly if none of its operations, parameters, bodies and responses has a
field skipped that may not be missing, and no example is null. -/
theorem SpecDocument.documentReads_iff (d : SpecDocument) :
    SpecDocument.codec.de (SpecDocument.codec.ser d) = some d ↔ d.Reads := by
  show SpecDocument.codec.RoundTrips d ↔ _
  rw [SpecDocument.codec, Record.returns_codec, SpecDocument.record,
    Record.returns_as (fun _ => rfl) (fun _ => rfl), Record.returns_pair (by decide),
    Record.returns_pair (by decide), Record.returns_pair (by decide)]
  simp only [Record.returns_ofField, survives_optional, survives_always, returns_text,
    Info.roundTrips, true_and, returns_map, PathItem.returns_iff, Record.isNull_codec,
    Components.returns_iff]
  constructor
  · rintro ⟨⟨keyed, operation⟩, components⟩
    exact ⟨keyed, operation, components⟩
  · intro reads
    exact ⟨⟨reads.paths, reads.operation⟩, reads.components⟩

/-- `GET /users` with an answer, without tags, parameters or a security requirement. -/
def usersDocument : SpecDocument where
  info := { title := "Users".toList, version := "1".toList }
  paths := [("/users".toList, { get := some { responses := [("200".toList,
    { description := "Successful response".toList, content := [] })] } })]

theorem not_roundTrips_usersDocument :
    SpecDocument.codec.de (SpecDocument.codec.ser usersDocument) ≠ some usersDocument := by
  intro back
  have reads := (SpecDocument.documentReads_iff usersDocument).1 back
  exact (reads.operation _ List.mem_cons_self .get _ rfl).tags rfl

end Typeway.OpenApi
