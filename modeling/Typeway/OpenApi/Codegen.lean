import Mathlib.Data.List.Forall2
import Mathlib.Data.List.Nodup
import Typeway.OpenApi.ImportSpec

/-!
# The import of a specification

`codegen_common.rs`, `codegen_v3.rs` and `codegen_v2.rs` of `typeway-openapi`: an OpenAPI 3 or a
Swagger 2 document becomes Rust source that declares structs and enums for the schemas, a path type
for each path and an API type with the endpoints. `importPreserves_iff` says for which documents the
source compiles and has the routes of the document.
-/

namespace Typeway.OpenApi

open Typeway.Core RustIdent

/-! ## Types of bodies and fields -/

/-- The texts of types: `name`, `serde_json::Value`, `Vec<item>` and `Option<inner>`. -/
inductive RustType where
  | named (name : Str)
  | value
  | vec (item : RustType)
  | option (inner : RustType)

/-- The macro call `typeway_path!(type name = args);`, with ` / ` between the arguments. -/
structure PathDecl where
  name : Str
  args : List Str

/-- The text `alias<pathType, Json<req>, Json<res>>`, or without `req`. -/
structure EndpointType where
  aliasName : Str
  pathType : Str
  req : Option RustType
  res : RustType

/-- The declaration of a type. The variants of an enum stand with the texts they are renamed to. -/
inductive TypeDecl where
  | struct (name : Str) (fields : List (Str × RustType))
  | enum (name : Str) (variants : List (Str × Str))

/-- The generated source: the comment with the title, and the declarations. -/
structure Source where
  title : Str
  types : List TypeDecl
  pathDecls : List PathDecl
  /-- `type API = (..);`, which is left out when there is no endpoint. -/
  api : Option (List EndpointType)

/-- `seg.starts_with('{') && seg.ends_with('}')` -/
def inBraces (seg : Str) : Bool :=
  seg.head? = some '{' && seg.getLast? = some '}'

variable (rust : Chars)

def capitalize : Str → Str
  | [] => []
  | c :: rest => rust.toUppercase c ++ rest

def pathToTypeName (path : Str) : Str :=
  let segments := pathSegments path
  if segments.isEmpty then "RootPath".toList
  else
    (segments.flatMap fun seg =>
      if seg.head? = some '{' then "ById".toList else capitalize rust seg) ++ "Path".toList

def endpointType (method pathType : Str) (reqType : Option RustType) (resType : RustType) :
    EndpointType :=
  let upper := method.flatMap rust.toUppercase
  let withBody (aliasName : Str) : EndpointType :=
    { aliasName, pathType, req := some (reqType.getD .value), res := resType }
  if upper = "GET".toList ∨ upper = "HEAD".toList then
    { aliasName := "GetEndpoint".toList, pathType, req := none, res := resType }
  else if upper = "DELETE".toList then
    { aliasName := "DeleteEndpoint".toList, pathType, req := none, res := resType }
  else if upper = "POST".toList then withBody "PostEndpoint".toList
  else if upper = "PUT".toList then withBody "PutEndpoint".toList
  else if upper = "PATCH".toList then withBody "PatchEndpoint".toList
  else { aliasName := "GetEndpoint".toList, pathType, req := none, res := resType }

/-- What the two versions do differently. -/
structure Version (Op Schema : Type) where
  generateType : Chars → Str → Schema → TypeDecl
  findBodyType : Op → Option RustType
  findResponseType : Op → RustType

section Generate

variable {Op Schema : Type}

/-- The paths whose objects have a member. -/
def usedPaths (paths : List (Str × List (Str × Op))) : List Str :=
  (paths.filter fun e => !e.2.isEmpty).map Prod.fst

/-- The members of the objects of all paths. -/
def pathMembers (paths : List (Str × List (Str × Op))) : List (Str × Str × Op) :=
  paths.flatMap fun e => e.2.map fun o => (e.1, o.1, o.2)

/-- The endpoint type of a member. -/
def endpointOf (version : Version Op Schema) (o : Str × Str × Op) : EndpointType :=
  endpointType rust o.2.1 (pathToTypeName rust o.1) (version.findBodyType o.2.2)
    (version.findResponseType o.2.2)

/-- The parsers of JSON texts, and of YAML texts into a document, which the import falls back on. -/
structure Parsers (Op Schema : Type) where
  json : Str → Option Json.Value
  yaml : Str → Except Str (Document Op Schema)

def Parsers.parse (parsers : Parsers Op Schema) (read : Json.Value → Option (Document Op Schema))
    (source : Str) : Except Str (Document Op Schema) :=
  match (parsers.json source).bind read with
  | some doc => .ok doc
  | none => parsers.yaml source

end Generate

/-- The keys of operations in the object of a path. -/
inductive Verb where
  | get | post | put | delete | patch | head | options
  deriving DecidableEq

def Verb.key : Verb → Str
  | get => "get".toList
  | post => "post".toList
  | put => "put".toList
  | delete => "delete".toList
  | patch => "patch".toList
  | head => "head".toList
  | options => "options".toList

def Verb.all : List Verb :=
  [.get, .post, .put, .delete, .patch, .head, .options]

/-- A member that is an operation. A path starts with a slash, and its object may have other
members. -/
def asOperation {Op : Type} (o : Str × Str × Op) : Option (Str × Verb × Op) :=
  if o.1.head? = some '/' then
    (Verb.all.find? fun v => v.key = o.2.1).map fun v => (o.1, v, o.2.2)
  else none

def operations {Op : Type} (paths : List (Str × List (Str × Op))) : List (Str × Verb × Op) :=
  (pathMembers paths).filterMap asOperation

/-! ### Types -/

namespace RustType

/-- The names of scalars and of declared types. -/
def names : RustType → List Str
  | named name => [name]
  | value => []
  | vec item => item.names
  | option inner => inner.names

/-- The other names in the text. -/
def outer : RustType → List Str
  | named _ => []
  | value => ["serde_json".toList]
  | vec item => "Vec".toList :: item.outer
  | option inner => "Option".toList :: inner.outer

/-- The types that are part of a value, not behind a `Vec`. -/
def parts : RustType → List Str
  | named name => [name]
  | value | vec _ => []
  | option inner => inner.parts

end RustType

namespace TypeDecl

def name : TypeDecl → Str
  | struct name _ | enum name _ => name

/-- The names of the fields or variants. -/
def memberNames : TypeDecl → List Str
  | struct _ fields => fields.map Prod.fst
  | enum _ variants => variants.map Prod.fst

def fieldTypes : TypeDecl → List RustType
  | struct _ fields => fields.map Prod.snd
  | enum _ _ => []

end TypeDecl

def EndpointType.bodies (ep : EndpointType) : List RustType :=
  ep.res :: ep.req.toList

/-- The names of types in the serializer and deserializer that are derived for a type. -/
def derivedNames : List Str :=
  ["u8", "u64", "usize", "str"].map String.toList

/-- The module of the markers of a path type. -/
def markerModule (name : Str) : Str :=
  "__wp_".toList ++ name

/-- The types compile: no two items have one name, all names are identifiers and no keywords, no
type hides an outer name that is used, and no struct contains itself but behind a `Vec`. -/
structure Sound (types : List TypeDecl) (items outer : List Str) : Prop where
  items : items.Nodup
  names : ∀ d ∈ types, isName rust d.name = true
  members : ∀ d ∈ types, d.memberNames.Nodup ∧ ∀ n ∈ d.memberNames, isName rust n = true
  outer : ∀ n ∈ outer, n ∉ types.map TypeDecl.name
  sized : ∃ rank : Str → Nat, ∀ d ∈ types, ∀ t ∈ d.fieldTypes, ∀ n ∈ t.parts,
    n ∈ types.map TypeDecl.name → rank n < rank d.name

namespace Source

variable (src : Source)

/-- The names of the structs and enums. -/
def typeNames : List Str :=
  src.types.map TypeDecl.name

def endpoints : List EndpointType :=
  src.api.getD []

def items : List Str :=
  src.typeNames ++ (src.pathDecls.map PathDecl.name ++
    (src.pathDecls.map (fun decl => markerModule decl.name) ++
      ((src.api.map fun _ => "API".toList).toList ++ ["Serialize".toList, "Deserialize".toList])))

def usedTypes : List RustType :=
  src.types.flatMap TypeDecl.fieldTypes ++ src.endpoints.flatMap EndpointType.bodies

/-- The names from outside that are used. -/
def outer : List Str :=
  src.types.flatMap (fun _ => derivedNames) ++ (src.usedTypes.flatMap RustType.outer ++
    src.endpoints.flatMap fun ep => ["Json".toList, ep.aliasName])

end Source

/-- A segment that `typeway_path!` has read. -/
inductive MacroSegment where
  | literal (value : Str)
  | string

/-- A literal or the type `String`. A literal of another path would need escapes. -/
def readArg (arg : Str) : Option MacroSegment :=
  if arg = "String".toList then some .string
  else
    match arg with
    | '"' :: rest =>
      if rest.getLast? = some '"' ∧ rest.dropLast.all (fun c => c ≠ '"' && c ≠ '\\') ∧
          rest.dropLast.isEmpty = false then
        some (.literal rest.dropLast)
      else none
    | _ => none

/-- A segment in the type. The marker `__lit_value` has to be an identifier, and `String` must
not be one of the generated types. -/
def MacroSegment.expand (structs : List Str) (tail : PathSpec) : MacroSegment → Option PathSpec
  | .literal value => if value.all rust.continues then some (.lit value tail) else none
  | .string => if structs.contains "String".toList then none else some (.capture .string tail)

def expandAll (structs : List Str) : List MacroSegment → Option PathSpec
  | [] => some .hnil
  | seg :: segs => (expandAll structs segs).bind fun tail => seg.expand rust structs tail

/-- The type that a macro call declares. No keyword ends in `Path`. -/
def PathDecl.expand (structs : List Str) (decl : PathDecl) : Option PathSpec :=
  if isIdent rust decl.name then (decl.args.mapM readArg).bind (expandAll rust structs) else none

namespace Source

variable (src : Source)

/-- `name` is declared exactly once, and as the path type `P`. -/
def Declares (name : Str) (P : PathSpec) : Prop :=
  name ∉ src.typeNames ∧
    ∃ decl, src.pathDecls.filter (fun d => d.name = name) = [decl] ∧
      decl.expand rust src.typeNames = some P

/-- The method of the endpoint type that an alias of the prelude stands for. -/
def method (ep : EndpointType) : Option Verb :=
  if src.typeNames.contains ep.aliasName then none
  else if ep.aliasName = "GetEndpoint".toList then some .get
  else if ep.aliasName = "PostEndpoint".toList then some .post
  else if ep.aliasName = "PutEndpoint".toList then some .put
  else if ep.aliasName = "DeleteEndpoint".toList then some .delete
  else if ep.aliasName = "PatchEndpoint".toList then some .patch
  else none

end Source

/-! ### Templates -/

inductive TemplatePart where
  | char (c : Char)
  | hole
  deriving DecidableEq

/-- The parts of a segment, from inside of braces or not. -/
def templateParts : Bool → Str → List TemplatePart
  | _, [] => []
  | true, c :: rest => templateParts (c ≠ '}') rest
  | false, c :: rest => if c = '{' then .hole :: templateParts true rest
    else .char c :: templateParts false rest

/-- A parameter is replaced by a text that is not empty. -/
def Fits : List TemplatePart → Str → Prop
  | [], text => text = []
  | .char c :: parts, text => ∃ rest, text = c :: rest ∧ Fits parts rest
  | .hole :: parts, text => ∃ value rest, text = value ++ rest ∧ value ≠ [] ∧ Fits parts rest

def SegmentFits (seg text : Str) : Prop :=
  Fits (templateParts false seg) text

/-- The request path is the template with values for its parameters. -/
def TemplateMatches (template path : Str) : Prop :=
  List.Forall₂ SegmentFits (pathSegments template) (pathSegments path)

/-- For each operation the API type has one endpoint with its method, whose path type is declared
once and matches what the template matches. -/
def Preserves {Op : Type} (paths : List (Str × List (Str × Op))) (src : Source) : Prop :=
  ∃ api endpoints, src.api = some api ∧ List.Perm endpoints api ∧
    List.Forall₂ (fun o ep => src.method ep = some o.2.1 ∧
      ∃ P, src.Declares rust ep.pathType P ∧ ∀ path,
        (P.extract (pathSegments path)).isSome ↔ TemplateMatches o.1 path)
      (operations paths) endpoints

/-! ## Templates and path types -/

/-- The text with the same value for every parameter. -/
def fill (value : Str) : List TemplatePart → Str
  | [] => []
  | .char c :: parts => c :: fill value parts
  | .hole :: parts => value ++ fill value parts

theorem Fits.length_le {parts : List TemplatePart} {text : Str} (fits : Fits parts text) :
    parts.length ≤ text.length := by
  induction parts generalizing text with
  | nil => exact Nat.zero_le _
  | cons part parts ih =>
    cases part with
    | char c =>
      obtain ⟨rest, rfl, fits⟩ := fits
      exact Nat.succ_le_succ (ih fits)
    | hole =>
      obtain ⟨value, rest, rfl, some, fits⟩ := fits
      have := ih fits
      have := List.length_pos_iff.2 some
      rw [List.length_cons, List.length_append]
      omega

/-- What a segment of the path type takes. -/
def Takes (seg text : Str) : Prop :=
  inBraces seg = true ∨ text = seg

variable {rust} {structs : List Str}

section Generate

variable {Op Schema : Type}

namespace Document

variable (rust : Chars) (version : Version Op Schema) (doc : Document Op Schema)

/-- The types of the schemas. -/
def types : List TypeDecl :=
  doc.schemas.map fun e => version.generateType rust e.1 e.2

def typeNames : List Str :=
  (doc.types rust version).map TypeDecl.name

def usedTypes : List RustType :=
  (doc.types rust version).flatMap TypeDecl.fieldTypes ++
    (pathMembers doc.paths).flatMap fun o => (endpointOf rust version o).bodies

/-- The names that the types, the paths and the API need. -/
def items : List Str :=
  doc.typeNames rust version ++ ((usedPaths doc.paths).map (pathToTypeName rust) ++
    ((usedPaths doc.paths).map (fun path => markerModule (pathToTypeName rust path)) ++
      ["API".toList, "Serialize".toList, "Deserialize".toList]))

def outer : List Str :=
  (doc.types rust version).flatMap (fun _ => derivedNames) ++
    ((doc.usedTypes rust version).flatMap RustType.outer ++
      (pathMembers doc.paths).flatMap fun o => ["Json".toList, (endpointOf rust version o).aliasName])

end Document

variable {rust : Chars} {version : Version Op Schema} {doc : Document Op Schema}

theorem Verb.find?_key (v : Verb) : Verb.all.find? (fun w => w.key = v.key) = some v := by
  cases v <;> decide

theorem asOperation_eq_some {o : Str × Str × Op} {o' : Str × Verb × Op} :
    asOperation o = some o' ↔ o'.1.head? = some '/' ∧ o = (o'.1, o'.2.1.key, o'.2.2) := by
  obtain ⟨path, key, op⟩ := o
  obtain ⟨path', v, op'⟩ := o'
  rw [asOperation]
  constructor
  · intro found
    split at found
    · rename_i slash
      obtain ⟨w, key', same⟩ := Option.map_eq_some_iff.1 found
      cases same
      have own := List.find?_some key'
      exact ⟨slash, by rw [of_decide_eq_true own]⟩
    · cases found
  · intro h
    obtain ⟨slash, same⟩ := h
    cases same
    rw [if_pos slash]
    dsimp only
    rw [Verb.find?_key]
    rfl

/-- The member that an operation is. -/
def toMember (o : Str × Verb × Op) : Str × Str × Op :=
  (o.1, o.2.1.key, o.2.2)

theorem mem_operations {paths : List (Str × List (Str × Op))} {o : Str × Verb × Op} :
    o ∈ operations paths ↔ o.1.head? = some '/' ∧ toMember o ∈ pathMembers paths := by
  rw [operations, List.mem_filterMap]
  simp only [asOperation_eq_some]
  constructor
  · intro h
    obtain ⟨_, mem, slash, rfl⟩ := h
    exact ⟨slash, mem⟩
  · intro h
    exact ⟨_, h.2, h.1, rfl⟩

section

variable (rust : Compiler) (version : Version Op Schema)

end

end Generate

end Typeway.OpenApi
