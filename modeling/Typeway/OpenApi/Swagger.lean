import Typeway.OpenApi.Spec

/-!
# Swagger 2.0

`swagger_output.rs`: a document is converted operation by operation, and the schemas in it are
rewritten as JSON values. The order of the members of such a value is left out; the keys of an index
map differ, so that the maps made from it are made entry by entry.
-/

namespace Typeway.OpenApi

open Typeway.Core Typeway.Server Json Serde

structure SwaggerInfo where
  title : Str
  version : Str
  description : Option Str

structure SwaggerResponse where
  description : Str
  schema : Option Value

/-- `SwaggerOperation` of the output. -/
structure OutputOperation where
  summary : Option Str
  description : Option Str
  operationId : Option Str
  tags : List Str
  parameters : List Value
  responses : List (Str × SwaggerResponse)
  deprecated : Bool

structure SwaggerOutput where
  swagger : Str
  info : SwaggerInfo
  paths : List (Str × List (Str × OutputOperation))
  definitions : List (Str × Value)
  consumes : List Str
  produces : List Str

/-! ## The rewriting of schemas -/

def typeName : Str := "type".toList
def formatName : Str := "format".toList
def descriptionName : Str := "description".toList
def enumName : Str := "enum".toList
def itemsName : Str := "items".toList
def propertiesName : Str := "properties".toList
def oneOfName : Str := "oneOf".toList
def xOneOfName : Str := "x-oneOf".toList
def discriminatorName : Str := "discriminator".toList
def propertyNameName : Str := "propertyName".toList

/-- What `discriminator` becomes. -/
def rewriteDiscriminator (obj : Members) : Members :=
  match IndexMap.lookup discriminatorName obj with
  | none => obj
  | some (.obj map) =>
    match (IndexMap.lookup propertyNameName map).bind Value.asStr with
    | some name => IndexMap.insert discriminatorName (.str name) (IndexMap.remove discriminatorName obj)
    | none => IndexMap.remove discriminatorName obj
  | some _ => IndexMap.remove discriminatorName obj

/-- The members with `items` rewritten. -/
def rewriteItems (obj : Members) : Option Value → Members
  | some items => IndexMap.insert itemsName items (IndexMap.remove itemsName obj)
  | none => obj

/-- The members with `properties` rewritten if these are an object, and without them otherwise. -/
def rewriteProperties (obj : Members) : Option (Option Members) → Members
  | some (some map) =>
    IndexMap.insert propertiesName (.obj map) (IndexMap.remove propertiesName obj)
  | some none => IndexMap.remove propertiesName obj
  | none => obj

/-- The members with the variants of `oneOf` under their new name if these are an array. -/
def rewriteOneOf (obj : Members) : Option (Option (List Value)) → Members
  | some (some variants) =>
    IndexMap.insert xOneOfName (.arr variants)
      (IndexMap.insertNew typeName (.str "object".toList) (IndexMap.remove oneOfName obj))
  | some none => IndexMap.remove oneOfName obj
  | none => obj

def rewriteSchema (obj : Members) (items : Option Value) (properties : Option (Option Members))
    (variants : Option (Option (List Value))) : Members :=
  rewriteDiscriminator (rewriteOneOf (rewriteProperties (rewriteItems obj items) properties) variants)

def sanitizeForSwagger2 : Value → Value
  | .obj obj => .obj (rewriteSchema obj
      (lookupWithin itemsName obj fun v _ => sanitizeForSwagger2 v)
      (lookupWithin propertiesName obj fun v _ => membersWithin v fun w _ => sanitizeForSwagger2 w)
      (lookupWithin oneOfName obj fun v _ => itemsWithin v fun w _ => sanitizeForSwagger2 w))
  | .arr items => .arr (items.attach.map fun v => sanitizeForSwagger2 v.1)
  | v => v
termination_by v => sizeOf v
decreasing_by
  all_goals simp only [Value.obj.sizeOf_spec, Value.arr.sizeOf_spec]
  any_goals omega
  have below := List.sizeOf_lt_of_mem v.2
  omega

/-! ## The conversion -/

def jsonName : Str := "application/json".toList
def nameName : Str := "name".toList
def inName : Str := "in".toList
def requiredName : Str := "required".toList
def bodyName : Str := "body".toList
def schemaName : Str := "schema".toList

/-- `json!` with these members. -/
def parameterValue (param : Parameter SchemaObject) : Value :=
  let p : Members := [(nameName, .str param.name),
    (inName, ParameterLocation.codec.ser param.location), (requiredName, .bool param.required)]
  let type := param.schema.bind SchemaObject.schemaType
  let format := param.schema.bind SchemaObject.format
  let p := (type.map fun ty => IndexMap.insert typeName (.str ty) p).getD p
  .obj ((format.map fun fmt => IndexMap.insert formatName (.str fmt) p).getD p)

def bodyParameter (body : RequestBody SchemaObject) : List Value :=
  match IndexMap.lookup jsonName body.content with
  | some media =>
    let schema := (media.schema.map fun s => sanitizeForSwagger2 s.ser).getD
      (.obj [(typeName, .str "object".toList)])
    [.obj [(inName, .str bodyName), (nameName, .str bodyName), (requiredName, .bool body.required),
      (schemaName, schema)]]
  | none => []

def convertResponse (response : Response SchemaObject) : SwaggerResponse where
  description := response.description
  schema := ((IndexMap.lookup jsonName response.content).bind MediaType.schema).map fun s =>
    sanitizeForSwagger2 s.ser

def convertOperation (op : Operation SchemaObject) : OutputOperation where
  summary := op.summary
  description := op.description
  operationId := op.operationId
  tags := op.tags
  parameters := op.parameters.map parameterValue ++ (op.requestBody.map bodyParameter).getD []
  responses := op.responses.map fun e => (e.1, convertResponse e.2)
  deprecated := op.deprecated

/-- The names of the methods in a path item. -/
def methodNames : List (Str × Method) :=
  [("get".toList, .get), ("post".toList, .post), ("put".toList, .put), ("delete".toList, .delete),
    ("patch".toList, .patch), ("head".toList, .head), ("options".toList, .options)]

def convertPathItem (item : PathItem SchemaObject) : List (Str × OutputOperation) :=
  methodNames.filterMap fun e => (item.operation e.2).map fun op => (e.1, convertOperation op)

def toSwagger2 (spec : SpecDocument) : SwaggerOutput where
  swagger := "2.0".toList
  info := {
    title := spec.info.title
    version := spec.info.version
    description := spec.info.description }
  paths := (spec.paths.map fun e => (e.1, convertPathItem e.2)).filter fun e => !e.2.isEmpty
  definitions := []
  consumes := [jsonName]
  produces := [jsonName]

/-! ## A schema as a value -/

theorem lookup_optional {α : Type} (name : String) (c : Codec α) (a : Option α) (n : Str) :
    IndexMap.lookup n ((optional name c).ser a) = if n = name.toList then a.map c.ser else none := by
  cases a with
  | none =>
    show none = if n = name.toList then none else none
    split <;> rfl
  | some a => rfl

namespace SchemaObject

def members (s : SchemaObject) : Members :=
  (record codec).ser s

theorem ser_members (s : SchemaObject) : s.ser = .obj s.members :=
  ser_eq s

theorem lookup_members (s : SchemaObject) (n : Str) :
    IndexMap.lookup n s.members =
      (if n = typeName then s.schemaType.map Value.str else none).or
      ((if n = formatName then s.format.map Value.str else none).or
      ((if n = itemsName then s.items.map ser else none).or
      ((if n = propertiesName then s.properties.map (map codec).ser else none).or
      ((if n = descriptionName then s.description.map Value.str else none).or
      ((if n = oneOfName then s.oneOf.map (list codec).ser else none).or
      ((if n = enumName then s.enumValues.map (list value).ser else none).or
      (if n = discriminatorName then s.discriminator.map Discriminator.codec.ser
        else none))))))) := by
  simp only [members, record, Record.as, Record.pair, Record.ofField, IndexMap.lookup_append,
    lookup_optional]
  rfl

variable (s : SchemaObject)

@[simp] theorem lookup_type : IndexMap.lookup typeName s.members = s.schemaType.map Value.str :=
  (s.lookup_members typeName).trans Option.or_none

@[simp] theorem lookup_format : IndexMap.lookup formatName s.members = s.format.map Value.str :=
  (s.lookup_members formatName).trans Option.or_none

@[simp] theorem lookup_items : IndexMap.lookup itemsName s.members = s.items.map ser :=
  (s.lookup_members itemsName).trans Option.or_none

@[simp] theorem lookup_properties :
    IndexMap.lookup propertiesName s.members = s.properties.map (map codec).ser :=
  (s.lookup_members propertiesName).trans Option.or_none

@[simp] theorem lookup_description :
    IndexMap.lookup descriptionName s.members = s.description.map Value.str :=
  (s.lookup_members descriptionName).trans Option.or_none

@[simp] theorem lookup_oneOf :
    IndexMap.lookup oneOfName s.members = s.oneOf.map (list codec).ser :=
  (s.lookup_members oneOfName).trans Option.or_none

@[simp] theorem lookup_enum :
    IndexMap.lookup enumName s.members = s.enumValues.map (list value).ser :=
  (s.lookup_members enumName).trans Option.or_none

@[simp] theorem lookup_discriminator :
    IndexMap.lookup discriminatorName s.members = s.discriminator.map Discriminator.codec.ser :=
  s.lookup_members discriminatorName

end SchemaObject

theorem sanitize_obj (obj : Members) :
    sanitizeForSwagger2 (.obj obj) = .obj (rewriteSchema obj
      ((IndexMap.lookup itemsName obj).map sanitizeForSwagger2)
      ((IndexMap.lookup propertiesName obj).map fun v => v.asObject.map fun map =>
        map.map fun m => (m.1, sanitizeForSwagger2 m.2))
      ((IndexMap.lookup oneOfName obj).map fun v => v.asArray.map fun variants =>
        variants.map sanitizeForSwagger2)) := by
  rw [sanitizeForSwagger2, lookupWithin_eq]
  simp only [membersWithin_eq, itemsWithin_eq]
  rw [lookupWithin_eq, lookupWithin_eq]

/-! ## The members of a rewritten schema -/

theorem lookup_replaced {κ β : Type} [DecidableEq κ] (key n : κ) (v : β)
    (entries : List (κ × β)) :
    IndexMap.lookup n (IndexMap.insert key v (IndexMap.remove key entries)) =
      if n = key then some v else IndexMap.lookup n entries := by
  rw [IndexMap.lookup_insert, IndexMap.lookup_remove]
  split <;> rfl

/-- The name that stands for a discriminator, if it is an object that has one. -/
def discriminatorText (v : Value) : Option Value :=
  ((v.asObject.bind (IndexMap.lookup propertyNameName)).bind Value.asStr).map Value.str

theorem lookup_rewriteDiscriminator (obj : Members) (n : Str) :
    IndexMap.lookup n (rewriteDiscriminator obj) =
      if n = discriminatorName then
        (IndexMap.lookup discriminatorName obj).bind discriminatorText
      else IndexMap.lookup n obj := by
  unfold rewriteDiscriminator
  split
  · rename_i absent
    split
    · rename_i same
      rw [same, absent]
      rfl
    · rfl
  · rename_i map there
    split
    · rename_i name found
      rw [lookup_replaced, there]
      show _ = if _ then ((IndexMap.lookup propertyNameName map).bind Value.asStr).map Value.str
        else _
      rw [found]
      rfl
    · rename_i missing
      rw [IndexMap.lookup_remove, there]
      show _ = if _ then ((IndexMap.lookup propertyNameName map).bind Value.asStr).map Value.str
        else _
      rw [missing]
      rfl
  · rename_i v other there
    have none : discriminatorText v = none := by
      cases v with
      | obj map => exact absurd rfl (other map)
      | _ => rfl
    rw [IndexMap.lookup_remove, there, Option.bind_some, none]

theorem lookup_rewriteItems {obj : Members} {items : Option Value}
    (missing : items = none → IndexMap.lookup itemsName obj = none) (n : Str) :
    IndexMap.lookup n (rewriteItems obj items) =
      if n = itemsName then items else IndexMap.lookup n obj := by
  cases items with
  | none =>
    show IndexMap.lookup n obj = _
    split
    · rename_i same
      rw [same, missing rfl]
    · rfl
  | some items => exact lookup_replaced itemsName n items obj

theorem lookup_rewriteProperties {obj : Members} {properties : Option (Option Members)}
    (missing : properties = none → IndexMap.lookup propertiesName obj = none) (n : Str) :
    IndexMap.lookup n (rewriteProperties obj properties) =
      if n = propertiesName then properties.join.map Value.obj else IndexMap.lookup n obj := by
  rcases properties with _ | _ | map
  · show IndexMap.lookup n obj = _
    split
    · rename_i same
      rw [same, missing rfl]
      rfl
    · rfl
  · exact IndexMap.lookup_remove propertiesName n obj
  · exact lookup_replaced propertiesName n (.obj map) obj

theorem lookup_rewriteOneOf {obj : Members} {variants : Option (Option (List Value))}
    (missing : variants = none → IndexMap.lookup oneOfName obj = none) (n : Str) :
    IndexMap.lookup n (rewriteOneOf obj variants) =
      if n = oneOfName then none
      else if n = xOneOfName ∧ variants.join.isSome then variants.join.map Value.arr
      else if n = typeName ∧ variants.join.isSome then
        some ((IndexMap.lookup typeName obj).getD (.str "object".toList))
      else IndexMap.lookup n obj := by
  rcases variants with _ | _ | variants
  · show IndexMap.lookup n obj = _
    split
    · rename_i same
      rw [same, missing rfl]
    · simp
  · simpa [rewriteOneOf] using IndexMap.lookup_remove oneOfName n obj
  · have removed : IndexMap.lookup typeName (IndexMap.remove oneOfName obj) =
        IndexMap.lookup typeName obj := by
      rw [IndexMap.lookup_remove, if_neg (by decide)]
    rw [rewriteOneOf, IndexMap.lookup_insert, IndexMap.lookup_insertNew, removed,
      IndexMap.lookup_remove]
    have apart : oneOfName ≠ xOneOfName ∧ oneOfName ≠ typeName := by decide
    by_cases same : n = oneOfName
    · rw [if_pos same, if_pos same, if_neg (same ▸ apart.1), if_neg (same ▸ apart.2)]
    · simp only [if_neg same, Option.join_some, Option.isSome_some, and_true, Option.map_some]

/-- What a rewritten schema has under each name, where the parts that are rewritten are those
that are there. -/
theorem lookup_rewriteSchema {obj : Members} {items : Option Value}
    {properties : Option (Option Members)} {variants : Option (Option (List Value))}
    (noItems : items = none → IndexMap.lookup itemsName obj = none)
    (noProperties : properties = none → IndexMap.lookup propertiesName obj = none)
    (noVariants : variants = none → IndexMap.lookup oneOfName obj = none) (n : Str) :
    IndexMap.lookup n (rewriteSchema obj items properties variants) =
      if n = discriminatorName then
        (IndexMap.lookup discriminatorName obj).bind discriminatorText
      else if n = oneOfName then none
      else if n = xOneOfName ∧ variants.join.isSome then variants.join.map Value.arr
      else if n = typeName ∧ variants.join.isSome then
        some ((IndexMap.lookup typeName obj).getD (.str "object".toList))
      else if n = propertiesName then properties.join.map Value.obj
      else if n = itemsName then items
      else IndexMap.lookup n obj := by
  have first := lookup_rewriteItems noItems
  have properties' (missing : properties = none) :
      IndexMap.lookup propertiesName (rewriteItems obj items) = none := by
    rw [first, if_neg (by decide), noProperties missing]
  have second := lookup_rewriteProperties properties'
  have variants' (missing : variants = none) :
      IndexMap.lookup oneOfName (rewriteProperties (rewriteItems obj items) properties) = none := by
    rw [second, if_neg (by decide), first, if_neg (by decide), noVariants missing]
  have third := lookup_rewriteOneOf variants'
  have discriminator : IndexMap.lookup discriminatorName
      (rewriteOneOf (rewriteProperties (rewriteItems obj items) properties) variants) =
      IndexMap.lookup discriminatorName obj := by
    rw [third, if_neg (by decide), if_neg fun same => absurd same.1 (by decide),
      if_neg fun same => absurd same.1 (by decide), second, if_neg (by decide), first,
      if_neg (by decide)]
  have type : IndexMap.lookup typeName (rewriteProperties (rewriteItems obj items) properties) =
      IndexMap.lookup typeName obj := by
    rw [second, if_neg (by decide), first, if_neg (by decide)]
  rw [rewriteSchema, lookup_rewriteDiscriminator, discriminator, third, type, second, first]

/-! ## What a schema is rewritten to -/

/-- The type of a rewritten schema: one with variants is an object unless it says otherwise. -/
def SchemaObject.swaggerType (s : SchemaObject) : Option Str :=
  if s.oneOf.isSome then some (s.schemaType.getD "object".toList) else s.schemaType

/-- The names that a rewritten schema may have. -/
def swaggerNames : List Str :=
  [typeName, formatName, itemsName, propertiesName, descriptionName, xOneOfName, enumName,
    discriminatorName]

/-- The value is the schema in the form of Swagger 2: the variants are under their new name, a
discriminator is the name of its property, and everything else is as it was. -/
inductive Swaggered : SchemaObject → Value → Prop where
  | intro {s : SchemaObject} {m : Members}
      (names : ∀ n v, IndexMap.lookup n m = some v → n ∈ swaggerNames)
      (type : IndexMap.lookup typeName m = s.swaggerType.map Value.str)
      (format : IndexMap.lookup formatName m = s.format.map Value.str)
      (description : IndexMap.lookup descriptionName m = s.description.map Value.str)
      (enumValues : IndexMap.lookup enumName m = s.enumValues.map Value.arr)
      (discriminator : IndexMap.lookup discriminatorName m =
        s.discriminator.map fun d => .str d.propertyName)
      (items : (IndexMap.lookup itemsName m).isSome = s.items.isSome)
      (item : ∀ t v, s.items = some t → IndexMap.lookup itemsName m = some v → Swaggered t v)
      (noProperties : s.properties = none → IndexMap.lookup propertiesName m = none)
      (properties : ∀ entries, s.properties = some entries → ∃ map,
        IndexMap.lookup propertiesName m = some (.obj map) ∧
          map.map Prod.fst = entries.map Prod.fst)
      (property : ∀ entries map, s.properties = some entries →
        IndexMap.lookup propertiesName m = some (.obj map) →
        ∀ e ∈ entries.zip map, Swaggered e.1.2 e.2.2)
      (noVariants : s.oneOf = none → IndexMap.lookup xOneOfName m = none)
      (variants : ∀ variants, s.oneOf = some variants → ∃ values,
        IndexMap.lookup xOneOfName m = some (.arr values) ∧ values.length = variants.length)
      (variant : ∀ variants values, s.oneOf = some variants →
        IndexMap.lookup xOneOfName m = some (.arr values) →
        ∀ e ∈ variants.zip values, Swaggered e.1 e.2) : Swaggered s (.obj m)

namespace SchemaObject

/-- The members of the rewritten schema. -/
def swaggerMembers (s : SchemaObject) : Members :=
  rewriteSchema s.members (s.items.map fun t => sanitizeForSwagger2 t.ser)
    (s.properties.map fun entries => some (entries.map fun e => (e.1, sanitizeForSwagger2 e.2.ser)))
    (s.oneOf.map fun variants => some (variants.map fun t => sanitizeForSwagger2 t.ser))

theorem sanitize_ser (s : SchemaObject) : sanitizeForSwagger2 s.ser = .obj s.swaggerMembers := by
  rw [ser_members, sanitize_obj, lookup_items, lookup_properties, lookup_oneOf, swaggerMembers]
  congr 2
  · rw [Option.map_map]
    rfl
  · rw [Option.map_map]
    cases s.properties with
    | none => rfl
    | some entries =>
      show some (some ((entries.map fun e => (e.1, e.2.ser)).map _)) = _
      rw [List.map_map]
      rfl
  · rw [Option.map_map]
    cases s.oneOf with
    | none => rfl
    | some variants =>
      show some (some ((variants.map ser).map _)) = _
      rw [List.map_map]
      rfl

theorem lookup_swaggerMembers (s : SchemaObject) (n : Str) :
    IndexMap.lookup n s.swaggerMembers =
      if n = discriminatorName then s.discriminator.map fun d => .str d.propertyName
      else if n = oneOfName then none
      else if n = xOneOfName ∧ s.oneOf.isSome then
        s.oneOf.map fun variants => .arr (variants.map fun t => sanitizeForSwagger2 t.ser)
      else if n = typeName ∧ s.oneOf.isSome then
        some (.str (s.schemaType.getD "object".toList))
      else if n = propertiesName then
        s.properties.map fun entries => .obj (entries.map fun e => (e.1, sanitizeForSwagger2 e.2.ser))
      else if n = itemsName then s.items.map fun t => sanitizeForSwagger2 t.ser
      else IndexMap.lookup n s.members := by
  rw [swaggerMembers, lookup_rewriteSchema]
  · congr 1
    · rw [lookup_discriminator]
      cases s.discriminator <;> rfl
    · rw [lookup_type]
      rcases s.oneOf with _ | variants <;> rcases s.properties with _ | entries <;>
        simp only [Option.map_none, Option.map_some, Option.join_none, Option.join_some,
          Option.isSome_none, Option.isSome_some]
      all_goals cases s.schemaType <;> rfl
  · intro none
    rw [lookup_items, Option.map_eq_none_iff.1 none]
    rfl
  · intro none
    rw [lookup_properties, Option.map_eq_none_iff.1 none]
    rfl
  · intro none
    rw [lookup_oneOf, Option.map_eq_none_iff.1 none]
    rfl

theorem mem_zip_map {α β : Type} {f : α → β} {l : List α} {e : α × β} (mem : e ∈ l.zip (l.map f)) :
    e.1 ∈ l ∧ e.2 = f e.1 := by
  induction l with
  | nil => cases mem
  | cons a l ih =>
    rcases List.mem_cons.1 mem with rfl | mem
    · exact ⟨List.mem_cons_self, rfl⟩
    · exact ⟨List.mem_cons_of_mem _ (ih mem).1, (ih mem).2⟩

theorem mem_swaggerNames {s : SchemaObject} {n : Str} {v : Value}
    (here : IndexMap.lookup n s.swaggerMembers = some v) : n ∈ swaggerNames := by
  by_contra outside
  simp only [swaggerNames, List.mem_cons, List.not_mem_nil, or_false, not_or] at outside
  obtain ⟨type, format, items, properties, description, xOneOf, enum, discriminator⟩ := outside
  rw [lookup_swaggerMembers, if_neg discriminator] at here
  by_cases same : n = oneOfName
  · rw [if_pos same] at here
    cases here
  · rw [if_neg same, if_neg fun both => xOneOf both.1, if_neg fun both => type both.1,
      if_neg properties, if_neg items, lookup_members, if_neg type, if_neg format, if_neg items,
      if_neg properties, if_neg description, if_neg same, if_neg enum, if_neg discriminator] at here
    cases here

/-- **A schema is rewritten to its form in Swagger 2.** -/
theorem swaggered (s : SchemaObject) : Swaggered s (sanitizeForSwagger2 s.ser) := by
  have found := lookup_swaggerMembers s
  have other {n : Str} (discriminator : n ≠ discriminatorName) (oneOf : n ≠ oneOfName)
      (xOneOf : n ≠ xOneOfName) (type : n ≠ typeName) (properties : n ≠ propertiesName)
      (items : n ≠ itemsName) :
      IndexMap.lookup n s.swaggerMembers = IndexMap.lookup n s.members := by
    rw [found, if_neg discriminator, if_neg oneOf, if_neg fun both => xOneOf both.1,
      if_neg fun both => type both.1, if_neg properties, if_neg items]
  rw [sanitize_ser]
  have itemsFound : IndexMap.lookup itemsName s.swaggerMembers =
      s.items.map fun t => sanitizeForSwagger2 t.ser := found itemsName
  have propertiesFound : IndexMap.lookup propertiesName s.swaggerMembers =
      s.properties.map fun entries =>
        .obj (entries.map fun e => (e.1, sanitizeForSwagger2 e.2.ser)) := found propertiesName
  have variantsFound : IndexMap.lookup xOneOfName s.swaggerMembers =
      s.oneOf.map fun variants => .arr (variants.map fun t => sanitizeForSwagger2 t.ser) := by
    rw [found, if_neg (by decide), if_neg (by decide)]
    cases oneOf : s.oneOf with
    | none => exact s.lookup_members xOneOfName
    | some variants => rfl
  refine .intro (fun n v => mem_swaggerNames) ?_ ?_ ?_ ?_ (found discriminatorName) ?_ ?_ ?_ ?_
    ?_ ?_ ?_ ?_
  · rw [found, if_neg (by decide), if_neg (by decide), if_neg fun both => absurd both.1 (by decide),
      swaggerType]
    cases s.oneOf with
    | none => exact s.lookup_type
    | some variants => rfl
  · rw [other (by decide) (by decide) (by decide) (by decide) (by decide) (by decide),
      lookup_format]
  · rw [other (by decide) (by decide) (by decide) (by decide) (by decide) (by decide),
      lookup_description]
  · rw [other (by decide) (by decide) (by decide) (by decide) (by decide) (by decide),
      lookup_enum]
    cases s.enumValues with
    | none => rfl
    | some values => exact congrArg (fun l => some (Value.arr l)) (List.map_id values)
  · rw [itemsFound, Option.isSome_map]
  · intro t v here there
    rw [itemsFound, here] at there
    cases there
    exact swaggered t
  · intro none
    rw [propertiesFound, none]
    rfl
  · intro entries here
    rw [propertiesFound, here]
    exact ⟨_, rfl, List.map_map⟩
  · intro entries map here there e mem
    rw [propertiesFound, here] at there
    cases there
    obtain ⟨mem, rewritten⟩ := mem_zip_map mem
    rw [rewritten]
    exact swaggered e.1.2
  · intro none
    rw [variantsFound, none]
    rfl
  · intro variants here
    rw [variantsFound, here]
    exact ⟨_, rfl, List.length_map _⟩
  · intro variants values here there e mem
    rw [variantsFound, here] at there
    cases there
    obtain ⟨mem, rewritten⟩ := mem_zip_map mem
    rw [rewritten]
    exact swaggered e.1
termination_by sizeOf s
decreasing_by
  · exact sizeOf_items here
  · have below := List.sizeOf_lt_of_mem mem
    have whole := sizeOf_properties here
    have part : sizeOf e.1.2 < sizeOf e.1 := by
      rcases e.1 with ⟨n, t⟩
      simp only [Prod.mk.sizeOf_spec]
      omega
    omega
  · have below := List.sizeOf_lt_of_mem mem
    have whole := sizeOf_oneOf here
    omega

end SchemaObject

/-- No schema in the value has `oneOf`, or a discriminator that is an object. -/
inductive Clean : Value → Prop where
  | intro {m : Members} (oneOf : IndexMap.lookup oneOfName m = none)
      (discriminator : ∀ map, IndexMap.lookup discriminatorName m ≠ some (.obj map))
      (item : ∀ v, IndexMap.lookup itemsName m = some v → Clean v)
      (property : ∀ map, IndexMap.lookup propertiesName m = some (.obj map) →
        ∀ e ∈ map, Clean e.2)
      (variant : ∀ values, IndexMap.lookup xOneOfName m = some (.arr values) →
        ∀ v ∈ values, Clean v) : Clean (.obj m)

/-- In lists of one length every entry of the second stands by one of the first. -/
theorem exists_mem_zip {α β : Type} {l : List α} {l' : List β} (length : l'.length = l.length)
    {b : β} (mem : b ∈ l') : ∃ a, (a, b) ∈ l.zip l' := by
  obtain ⟨i, there⟩ := List.mem_iff_getElem?.1 mem
  have below : i < l.length := length ▸ (List.getElem?_eq_some_iff.1 there).1
  refine ⟨l[i], List.mem_iff_getElem?.2 ⟨i, ?_⟩⟩
  exact List.getElem?_zip_eq_some.2 ⟨List.getElem?_eq_getElem below, there⟩

theorem Swaggered.clean {s : SchemaObject} {v : Value} (swaggered : Swaggered s v) : Clean v := by
  induction swaggered with
  | @intro s m names type format description enumValues discriminator items item noProperties
    properties property noVariants variants variant ihItem ihProperty ihVariant =>
    refine .intro ?_ ?_ ?_ ?_ ?_
    · cases here : IndexMap.lookup oneOfName m with
      | none => rfl
      | some v => exact absurd (names oneOfName v here) (by decide)
    · intro map here
      rw [discriminator] at here
      cases found : s.discriminator with
      | none =>
        rw [found] at here
        cases here
      | some d =>
        rw [found] at here
        cases here
    · intro v here
      rw [here] at items
      obtain ⟨t, there⟩ := Option.isSome_iff_exists.1 items.symm
      exact ihItem t v there here
    · intro map here e mem
      cases found : s.properties with
      | none =>
        rw [noProperties found] at here
        cases here
      | some entries =>
        obtain ⟨map', there, keys⟩ := properties entries found
        cases here.symm.trans there
        have length : map.length = entries.length := by
          rw [← List.length_map Prod.fst, keys, List.length_map]
        obtain ⟨e', together⟩ := exists_mem_zip length mem
        exact ihProperty entries map found here _ together
    · intro values here v mem
      cases found : s.oneOf with
      | none =>
        rw [noVariants found] at here
        cases here
      | some variants' =>
        obtain ⟨values', there, length⟩ := variants variants' found
        cases here.symm.trans there
        obtain ⟨t, together⟩ := exists_mem_zip length mem
        exact ihVariant variants' values found here _ together

theorem exists_zip_zip {α β γ : Type} {l : List α} {l' : List β} {l'' : List γ}
    (length : l'.length = l.length) {e : β × γ} (mem : e ∈ l'.zip l'') :
    ∃ a, (a, e.1) ∈ l.zip l' ∧ (a, e.2) ∈ l.zip l'' := by
  obtain ⟨i, there⟩ := List.mem_iff_getElem?.1 mem
  obtain ⟨first, second⟩ := List.getElem?_zip_eq_some.1 there
  have below : i < l.length := length ▸ (List.getElem?_eq_some_iff.1 first).1
  have here := List.getElem?_eq_getElem below
  exact ⟨l[i], List.mem_iff_getElem?.2 ⟨i, List.getElem?_zip_eq_some.2 ⟨here, first⟩⟩,
    List.mem_iff_getElem?.2 ⟨i, List.getElem?_zip_eq_some.2 ⟨here, second⟩⟩⟩

/-- Two values by one schema's form are alike. -/
theorem Swaggered.alike {s : SchemaObject} {v w : Value} (first : Swaggered s v)
    (second : Swaggered s w) : Alike v w := by
  induction first generalizing w with
  | @intro s m names type format description enumValues discriminator items item noProperties
    properties property noVariants variants variant ihItem ihProperty ihVariant =>
    cases second with
    | @intro _ m' names' type' format' description' enumValues' discriminator' items' item'
      noProperties' properties' property' noVariants' variants' variant' =>
    have equal {n : Str} (same : IndexMap.lookup n m = IndexMap.lookup n m') :
        (IndexMap.lookup n m).isSome = (IndexMap.lookup n m').isSome ∧
          ∀ v w, IndexMap.lookup n m = some v → IndexMap.lookup n m' = some w → Alike v w := by
      refine ⟨by rw [same], fun v w here there => ?_⟩
      cases (same ▸ here).symm.trans there
      exact .same v
    have both (n : Str) : (IndexMap.lookup n m).isSome = (IndexMap.lookup n m').isSome ∧
        ∀ v w, IndexMap.lookup n m = some v → IndexMap.lookup n m' = some w → Alike v w := by
      by_cases named : n ∈ swaggerNames
      · simp only [swaggerNames, List.mem_cons, List.not_mem_nil, or_false] at named
        rcases named with rfl | rfl | rfl | rfl | rfl | rfl | rfl | rfl
        · exact equal (type.trans type'.symm)
        · exact equal (format.trans format'.symm)
        · refine ⟨items.trans items'.symm, fun v w here there => ?_⟩
          rw [here] at items
          obtain ⟨t, found⟩ := Option.isSome_iff_exists.1 items.symm
          exact ihItem t v found here (item' t w found there)
        · cases found : s.properties with
          | none => exact equal ((noProperties found).trans (noProperties' found).symm)
          | some entries =>
            obtain ⟨map, here, keys⟩ := properties entries found
            obtain ⟨map', there, keys'⟩ := properties' entries found
            refine ⟨by rw [here, there]; rfl, fun v w own own' => ?_⟩
            cases here.symm.trans own
            cases there.symm.trans own'
            have length : map.length = entries.length := by
              rw [← List.length_map Prod.fst, keys, List.length_map]
            refine alike_of_zip (keys.trans keys'.symm) fun e mem => ?_
            obtain ⟨t, left, right⟩ := exists_zip_zip length mem
            exact ihProperty entries map found here _ left
              (property' entries map' found there _ right)
        · exact equal (description.trans description'.symm)
        · cases found : s.oneOf with
          | none => exact equal ((noVariants found).trans (noVariants' found).symm)
          | some ts =>
            obtain ⟨vs, here, length⟩ := variants ts found
            obtain ⟨ws, there, length'⟩ := variants' ts found
            refine ⟨by rw [here, there]; rfl, fun v w own own' => ?_⟩
            cases here.symm.trans own
            cases there.symm.trans own'
            refine .arr (length.trans length'.symm) fun e mem => ?_
            obtain ⟨t, left, right⟩ := exists_zip_zip length mem
            exact ihVariant ts vs found here _ left (variant' ts ws found there _ right)
        · exact equal (enumValues.trans enumValues'.symm)
        · exact equal (discriminator.trans discriminator'.symm)
      · have absent {m : Members} (names : ∀ n v, IndexMap.lookup n m = some v → n ∈ swaggerNames) :
            IndexMap.lookup n m = none :=
          Option.eq_none_iff_forall_ne_some.2 fun v here => named (names n v here)
        exact equal ((absent names).trans (absent names').symm)
    exact .obj (fun n => (both n).1) fun n => (both n).2

/-- What the rewriting makes of members without `oneOf`. -/
theorem exists_rewritten {m : Members} (oneOf : IndexMap.lookup oneOfName m = none) :
    ∃ m', sanitizeForSwagger2 (.obj m) = .obj m' ∧ ∀ n, IndexMap.lookup n m' =
      if n = discriminatorName then
        (IndexMap.lookup discriminatorName m).bind discriminatorText
      else if n = propertiesName then
        (IndexMap.lookup propertiesName m).bind fun v => v.asObject.map fun map =>
          .obj (map.map fun e => (e.1, sanitizeForSwagger2 e.2))
      else if n = itemsName then (IndexMap.lookup itemsName m).map sanitizeForSwagger2
      else IndexMap.lookup n m := by
  refine ⟨_, sanitize_obj m, fun n => ?_⟩
  rw [oneOf, lookup_rewriteSchema Option.map_eq_none_iff.1 Option.map_eq_none_iff.1 fun _ => oneOf]
  have properties : ((IndexMap.lookup propertiesName m).map fun v => v.asObject.map fun map =>
      map.map fun e => (e.1, sanitizeForSwagger2 e.2)).join.map Value.obj =
      (IndexMap.lookup propertiesName m).bind fun v => v.asObject.map fun map =>
        .obj (map.map fun e => (e.1, sanitizeForSwagger2 e.2)) := by
    cases IndexMap.lookup propertiesName m with
    | none => rfl
    | some v => exact Option.map_map ..
  rw [properties]
  by_cases same : n = oneOfName
  · rw [same, oneOf]
    rfl
  · simp only [if_neg same, Option.map_none, Option.join_none, Option.isSome_none,
      Bool.false_eq_true, and_false, if_false]

/-- No schema that is rewritten again when the value is has a discriminator. -/
inductive Undiscriminated : SchemaObject → Prop where
  | intro {s : SchemaObject} (own : s.discriminator = none)
      (item : ∀ t, s.items = some t → Undiscriminated t)
      (property : ∀ entries, s.properties = some entries → ∀ e ∈ entries, Undiscriminated e.2) :
      Undiscriminated s

/-- Without discriminators the form of a schema is not rewritten any further. -/
theorem Swaggered.sanitize {s : SchemaObject} {v : Value} (swaggered : Swaggered s v)
    (plain : Undiscriminated s) : Swaggered s (sanitizeForSwagger2 v) := by
  induction swaggered with
  | @intro s m names type format description enumValues discriminator items item noProperties
    properties property noVariants variants variant ihItem ihProperty ihVariant =>
    cases plain with
    | intro own plainItem plainProperty =>
    have oneOf : IndexMap.lookup oneOfName m = none := by
      cases here : IndexMap.lookup oneOfName m with
      | none => rfl
      | some v => exact absurd (names oneOfName v here) (by decide)
    obtain ⟨m', rewritten, found⟩ := exists_rewritten oneOf
    have kept {n : Str} (discriminator : n ≠ discriminatorName) (properties : n ≠ propertiesName)
        (items : n ≠ itemsName) : IndexMap.lookup n m' = IndexMap.lookup n m := by
      rw [found, if_neg discriminator, if_neg properties, if_neg items]
    have propertiesFound := found propertiesName
    rw [if_neg (by decide), if_pos rfl] at propertiesFound
    have itemsFound := found itemsName
    rw [if_neg (by decide), if_neg (by decide), if_pos rfl] at itemsFound
    rw [rewritten]
    refine .intro ?_ ?_ ?_ ?_ ?_ ?_ ?_ ?_ ?_ ?_ ?_ ?_ ?_ ?_
    · intro n v here
      by_cases named : n ∈ [discriminatorName, propertiesName, itemsName]
      · have all : ∀ n ∈ [discriminatorName, propertiesName, itemsName], n ∈ swaggerNames := by
          decide
        exact all n named
      · simp only [List.mem_cons, List.not_mem_nil, or_false, not_or] at named
        rw [kept named.1 named.2.1 named.2.2] at here
        exact names n v here
    · rw [kept (by decide) (by decide) (by decide), type]
    · rw [kept (by decide) (by decide) (by decide), format]
    · rw [kept (by decide) (by decide) (by decide), description]
    · rw [kept (by decide) (by decide) (by decide), enumValues]
    · rw [found, if_pos rfl, discriminator, own]
      rfl
    · rw [itemsFound, Option.isSome_map, items]
    · intro t v here there
      rw [itemsFound, Option.map_eq_some_iff] at there
      obtain ⟨w, before, rfl⟩ := there
      exact ihItem t w here before (plainItem t here)
    · intro none
      rw [propertiesFound, noProperties none]
      rfl
    · intro entries here
      obtain ⟨map, there, keys⟩ := properties entries here
      rw [propertiesFound, there]
      exact ⟨_, rfl, by rw [List.map_map]; exact keys⟩
    · intro entries map here there e mem
      obtain ⟨map', before, keys⟩ := properties entries here
      rw [propertiesFound, before] at there
      cases there
      rw [List.zip_map_right, List.mem_map] at mem
      obtain ⟨e, mem, rfl⟩ := mem
      exact ihProperty entries map' here before e mem
        (plainProperty entries here e.1 (List.of_mem_zip mem).1)
    · intro none
      rw [kept (by decide) (by decide) (by decide), noVariants none]
    · intro ts here
      rw [kept (by decide) (by decide) (by decide)]
      exact variants ts here
    · intro ts values here there
      rw [kept (by decide) (by decide) (by decide)] at there
      exact variant ts values here there

/-! ## What a document is converted to -/

/-- The parameter has its name, its place, its type and its format, and nothing else. -/
def KeepsParameter (p : Parameter SchemaObject) (v : Value) : Prop :=
  ∃ m : Members, v = .obj m ∧ ∀ n, IndexMap.lookup n m =
    if n = nameName then some (.str p.name)
    else if n = inName then some (ParameterLocation.codec.ser p.location)
    else if n = requiredName then some (.bool p.required)
    else if n = typeName then (p.schema.bind SchemaObject.schemaType).map Value.str
    else if n = formatName then (p.schema.bind SchemaObject.format).map Value.str
    else none

/-- The value is the body parameter with this schema. -/
def IsBody (required : Bool) (schema v : Value) : Prop :=
  v = .obj [(inName, .str bodyName), (nameName, .str bodyName), (requiredName, .bool required),
    (schemaName, schema)]

/-- A body whose content is JSON is the parameter for it, with its schema, or that of any object. -/
def KeepsBody (body : Option (RequestBody SchemaObject)) (parameters : List Value) : Prop :=
  (body = none → parameters = []) ∧
  ∀ b media, body = some b → IndexMap.lookup jsonName b.content = some media →
    ∃ schema v, parameters = [v] ∧ IsBody b.required schema v ∧
      (media.schema = none → schema = .obj [(typeName, .str "object".toList)]) ∧
      ∀ s, media.schema = some s → Swaggered s schema

/-- A response has its description, and the schema of its JSON content. -/
structure KeepsResponse (response : Response SchemaObject) (out : SwaggerResponse) : Prop where
  description : out.description = response.description
  empty : response.content = [] → out.schema = none
  schema : ∀ media s, IndexMap.lookup jsonName response.content = some media →
    media.schema = some s → ∃ v, out.schema = some v ∧ Swaggered s v

structure KeepsOperation (op : Operation SchemaObject) (out : OutputOperation) : Prop where
  summary : out.summary = op.summary
  description : out.description = op.description
  operationId : out.operationId = op.operationId
  tags : out.tags = op.tags
  deprecated : out.deprecated = op.deprecated
  parameters : ∃ params body, out.parameters = params ++ body ∧
    List.Forall₂ KeepsParameter op.parameters params ∧ KeepsBody op.requestBody body
  responses : List.Forall₂ (fun e e' => e'.1 = e.1 ∧ KeepsResponse e.2 e'.2) op.responses
    out.responses

/-- The methods of a path have the operations of its item under their names. -/
structure KeepsItem (item : PathItem SchemaObject) (methods : List (Str × OutputOperation)) :
    Prop where
  keyed : IndexMap.Keyed methods
  operation : ∀ m op, item.operation m = some op →
    ∃ e ∈ methods, (e.1, m) ∈ methodNames ∧ KeepsOperation op e.2
  only : ∀ e ∈ methods, ∃ m op, (e.1, m) ∈ methodNames ∧ item.operation m = some op ∧
    KeepsOperation op e.2

def PathItem.used (item : PathItem SchemaObject) : Bool :=
  methodNames.any fun e => (item.operation e.2).isSome

structure Keeps (d : SpecDocument) (out : SwaggerOutput) : Prop where
  title : out.info.title = d.info.title
  version : out.info.version = d.info.version
  description : out.info.description = d.info.description
  paths : List.Forall₂ (fun e e' => e'.1 = e.1 ∧ KeepsItem e.2 e'.2)
    (d.paths.filter fun e => e.2.used) out.paths

theorem keepsParameter (p : Parameter SchemaObject) : KeepsParameter p (parameterValue p) := by
  refine ⟨_, rfl, fun n => ?_⟩
  rcases p.schema.bind SchemaObject.schemaType with _ | type <;>
    rcases p.schema.bind SchemaObject.format with _ | format
  · simp only [Option.map_none, ite_self]
    rfl
  · by_cases same : n = typeName
    · rw [same]
      rfl
    · simp only [if_neg same]
      rfl
  · simp only [Option.map_none, ite_self]
    rfl
  · rfl

theorem keepsBody (body : Option (RequestBody SchemaObject)) :
    KeepsBody body ((body.map bodyParameter).getD []) := by
  constructor
  · rintro rfl
    rfl
  · rintro b media rfl found
    show ∃ schema v, bodyParameter b = [v] ∧ _
    rw [bodyParameter, found]
    refine ⟨_, _, rfl, rfl, fun none => ?_, fun s own => ?_⟩
    · rw [none]
      rfl
    · rw [own]
      exact SchemaObject.swaggered s

theorem keepsResponse (response : Response SchemaObject) :
    KeepsResponse response (convertResponse response) where
  description := rfl
  empty none := by
    rw [convertResponse, none]
    rfl
  schema media s found own := by
    rw [convertResponse, found]
    show ∃ v, media.schema.map _ = some v ∧ _
    rw [own]
    exact ⟨_, rfl, SchemaObject.swaggered s⟩

theorem keepsOperation (op : Operation SchemaObject) : KeepsOperation op (convertOperation op) where
  summary := rfl
  description := rfl
  operationId := rfl
  tags := rfl
  deprecated := rfl
  parameters := by
    refine ⟨_, _, rfl, ?_, keepsBody op.requestBody⟩
    rw [List.forall₂_map_right_iff, List.forall₂_same]
    exact fun p _ => keepsParameter p
  responses := by
    show List.Forall₂ _ op.responses (op.responses.map _)
    rw [List.forall₂_map_right_iff, List.forall₂_same]
    exact fun e _ => ⟨rfl, keepsResponse e.2⟩

theorem mem_convertPathItem {item : PathItem SchemaObject} {e : Str × OutputOperation} :
    e ∈ convertPathItem item ↔ ∃ m op, (e.1, m) ∈ methodNames ∧ item.operation m = some op ∧
      e.2 = convertOperation op := by
  rw [convertPathItem, List.mem_filterMap]
  constructor
  · rintro ⟨⟨name, m⟩, named, found⟩
    obtain ⟨op, here, rfl⟩ := Option.map_eq_some_iff.1 found
    exact ⟨m, op, named, here, rfl⟩
  · rintro ⟨m, op, named, here, converted⟩
    refine ⟨(e.1, m), named, Option.map_eq_some_iff.2 ⟨op, here, ?_⟩⟩
    rw [← converted]

theorem exists_methodName {item : PathItem SchemaObject} {m : Method}
    {op : Operation SchemaObject} (found : item.operation m = some op) :
    ∃ name, (name, m) ∈ methodNames := by
  have all : ∀ m ∈ standardMethods, m ∈ methodNames.map Prod.snd := by decide
  obtain ⟨⟨name, _⟩, named, rfl⟩ := List.mem_map.1 (all m (PathItem.standard_of_operation found))
  exact ⟨name, named⟩

theorem keepsItem (item : PathItem SchemaObject) : KeepsItem item (convertPathItem item) where
  keyed := by
    have names : (convertPathItem item).map Prod.fst =
        (methodNames.filter fun e => (item.operation e.2).isSome).map Prod.fst := by
      rw [convertPathItem, List.map_filterMap, ← List.filterMap_eq_map', List.filterMap_filter]
      apply List.filterMap_congr
      intro e _
      cases item.operation e.2 <;> rfl
    rw [IndexMap.Keyed, names]
    exact List.Nodup.sublist (List.filter_sublist.map Prod.fst) (by decide)
  operation m op found := by
    obtain ⟨name, named⟩ := exists_methodName found
    exact ⟨(name, convertOperation op), mem_convertPathItem.2 ⟨m, op, named, found, rfl⟩, named,
      keepsOperation op⟩
  only e mem := by
    obtain ⟨m, op, named, found, converted⟩ := mem_convertPathItem.1 mem
    exact ⟨m, op, named, found, converted ▸ keepsOperation op⟩

theorem used_iff (item : PathItem SchemaObject) : item.used = !(convertPathItem item).isEmpty := by
  rw [Bool.eq_iff_iff, PathItem.used, List.any_eq_true]
  constructor
  · rintro ⟨⟨name, m⟩, named, found⟩
    obtain ⟨op, found⟩ := Option.isSome_iff_exists.1 found
    have mem : (name, convertOperation op) ∈ convertPathItem item :=
      mem_convertPathItem.2 ⟨m, op, named, found, rfl⟩
    cases converted : convertPathItem item with
    | nil =>
      rw [converted] at mem
      cases mem
    | cons e rest => rfl
  · intro some
    cases converted : convertPathItem item with
    | nil =>
      rw [converted] at some
      cases some
    | cons e rest =>
      have mem : e ∈ convertPathItem item := converted ▸ List.mem_cons_self
      obtain ⟨m, op, named, found, _⟩ := mem_convertPathItem.1 mem
      exact ⟨(e.1, m), named, by rw [found]; rfl⟩

theorem keeps (d : SpecDocument) : Keeps d (toSwagger2 d) where
  title := rfl
  version := rfl
  description := rfl
  paths := by
    show List.Forall₂ _ _ ((d.paths.map _).filter _)
    rw [List.filter_map, List.forall₂_map_right_iff]
    simp only [used_iff, Function.comp_def]
    rw [List.forall₂_same]
    exact fun e _ => ⟨rfl, keepsItem e.2⟩

/-- The schemas of the responses and of the body parameters. -/
def OutputOperation.schemas (op : OutputOperation) : List Value :=
  op.responses.filterMap (fun e => e.2.schema) ++
    op.parameters.filterMap fun v => v.asObject.bind (IndexMap.lookup schemaName)

def SwaggerOutput.schemas (out : SwaggerOutput) : List Value :=
  out.paths.flatMap fun e => e.2.flatMap fun e => e.2.schemas

theorem clean_any : Clean (.obj [(typeName, .str "object".toList)]) :=
  .intro rfl (fun _ => nofun) (fun _ => nofun) (fun _ => nofun) fun _ => nofun

theorem clean_schemas (op : Operation SchemaObject) :
    ∀ v ∈ (convertOperation op).schemas, Clean v := by
  intro v mem
  rw [OutputOperation.schemas, List.mem_append] at mem
  rcases mem with mem | mem
  · obtain ⟨e, here, found⟩ := List.mem_filterMap.1 mem
    obtain ⟨e', _, rfl⟩ := List.mem_map.1 here
    obtain ⟨s, _, rfl⟩ := Option.map_eq_some_iff.1 found
    exact s.swaggered.clean
  · obtain ⟨w, here, found⟩ := List.mem_filterMap.1 mem
    rcases List.mem_append.1 here with here | here
    · obtain ⟨p, _, rfl⟩ := List.mem_map.1 here
      obtain ⟨m, same, members⟩ := keepsParameter p
      rw [same] at found
      cases (members schemaName).symm.trans found
    · cases body : op.requestBody with
      | none =>
        rw [body] at here
        cases here
      | some b =>
        rw [body] at here
        change w ∈ bodyParameter b at here
        rw [bodyParameter] at here
        split at here
        · rename_i media json
          rw [List.mem_singleton.1 here] at found
          cases found
          cases media.schema with
          | none => exact clean_any
          | some s => exact s.swaggered.clean
        · cases here

/-- **The conversion keeps the operations with what they take and what they answer, leaves no
`oneOf` and no discriminator that is an object, and rewrites nothing else in the schemas; without
discriminators to rewrite it does so once and for all.** -/
theorem toSwagger2_keeps (d : SpecDocument) :
    Keeps d (toSwagger2 d) ∧ (∀ v ∈ (toSwagger2 d).schemas, Clean v) ∧
      ∀ s : SchemaObject, Undiscriminated s →
        Alike (sanitizeForSwagger2 (sanitizeForSwagger2 s.ser)) (sanitizeForSwagger2 s.ser) := by
  refine ⟨keeps d, fun v mem => ?_, fun s plain => ?_⟩
  · obtain ⟨e, here, within⟩ := List.mem_flatMap.1 mem
    obtain ⟨e', there, own⟩ := List.mem_flatMap.1 within
    obtain ⟨entry, _, rfl⟩ := List.mem_map.1 (List.mem_filter.1 here).1
    obtain ⟨m, op, _, _, converted⟩ := mem_convertPathItem.1 there
    rw [converted] at own
    exact clean_schemas op v own
  · exact (s.swaggered.sanitize plain).alike s.swaggered

/-! ## What is lost -/

/-- `POST /pets`, which needs a token, takes a list and a text, and answers nothing. -/
def postPet : Operation SchemaObject where
  parameters := [{
    name := "tags".toList
    location := .query
    required := true
    schema := some { schemaType := some "array".toList,
                     items := some { schemaType := some "string".toList } } }]
  requestBody := some { required := true, content := [("text/plain".toList,
    { schema := some { schemaType := some "string".toList }, example? := none })] }
  security := [SecurityRequirement.bearer]

def petsDocument (op : Operation SchemaObject) : SpecDocument where
  info := { title := "Pets".toList, version := "1".toList }
  paths := [("/pets".toList, { post := some op })]

def petSchema : SchemaObject where
  schemaType := some "object".toList
  discriminator := some { propertyName := "kind".toList }

/-- A discriminator that was rewritten is not there after the next rewriting. -/
theorem not_alike_again {s : SchemaObject} (own : s.discriminator.isSome) :
    ¬ Alike (sanitizeForSwagger2 (sanitizeForSwagger2 s.ser)) (sanitizeForSwagger2 s.ser) := by
  obtain ⟨d, own⟩ := Option.isSome_iff_exists.1 own
  have here : IndexMap.lookup discriminatorName s.swaggerMembers = some (.str d.propertyName) := by
    rw [s.lookup_swaggerMembers, if_pos rfl, own]
    rfl
  obtain ⟨m', rewritten, found⟩ :=
    exists_rewritten ((s.lookup_swaggerMembers oneOfName).trans rfl)
  have there : IndexMap.lookup discriminatorName m' = none := by
    rw [found, if_pos rfl, here]
    rfl
  rw [s.sanitize_ser, rewritten]
  intro alike
  cases alike with
  | same =>
    rw [here] at there
    cases there
  | obj names member =>
    have both := names discriminatorName
    rw [here, there] at both
    cases both

/-- The documents without the token, with a list of numbers and without the body are converted to
the same, and the rewriting of a rewritten schema loses its discriminator. -/
theorem toSwagger2_loses :
    (toSwagger2 (petsDocument postPet) = toSwagger2 (petsDocument { postPet with security := [] }) ∧
      postPet.security ≠ []) ∧
    toSwagger2 (petsDocument postPet) = toSwagger2 (petsDocument { postPet with
      parameters := [{
        name := "tags".toList
        location := .query
        required := true
        schema := some { schemaType := some "array".toList,
                         items := some { schemaType := some "integer".toList } } }] }) ∧
    (toSwagger2 (petsDocument postPet) =
        toSwagger2 (petsDocument { postPet with requestBody := none }) ∧
      postPet.requestBody.isSome) ∧
    ¬ Alike (sanitizeForSwagger2 (sanitizeForSwagger2 petSchema.ser))
      (sanitizeForSwagger2 petSchema.ser) :=
  ⟨⟨rfl, nofun⟩, rfl, ⟨rfl, rfl⟩, not_alike_again rfl⟩

end Typeway.OpenApi
