import Typeway.Base.Segments
import Typeway.Core.Path

/-!
# The model of a migration

`model.rs`, and the part of Rust's syntax that the parsers look into: what `syn` makes of types,
patterns, expressions and items. The two parsers make an `ApiModel` of a file, and the two emitters
print a file from it.
-/

namespace Typeway.Migrate

open Typeway.Core

/-! ## Rust -/

/-- An identifier. Of its characters it matters only that they mean nothing in a path. -/
structure Ident where
  text : Str
  clean : (text.all fun c => c ≠ '/' && c ≠ '*') = true
  deriving DecidableEq

/-- A type. `args` are the type arguments of the last segment. -/
inductive Ty where
  | path (segments : List Str) (args : List Ty)
  | tuple (elems : List Ty)
  | other (text : Str)

inductive Pat where
  | ident (name : Ident)
  | tupleStruct (elems : List Pat)
  | tuple (elems : List Pat)
  | other (text : Str)

inductive Expr where
  | path (segments : List Str)
  | lit (text : Str)
  | call (func : Expr) (args : List Expr)
  | method (receiver : Expr) (name : Str) (args : List Expr)
  | field (base : Expr) (index : Nat)
  | await (base : Expr)
  | tuple (elems : List Expr)
  | struct (segments : List Str)
  | mac (name : Str) (tokens : Str)
  | other (text : Str)

inductive Stmt where
  | expr (e : Expr)
  | local (pat : Pat) (init : Option Expr)
  | other (text : Str)

/-- An argument that is no receiver. -/
structure Param where
  pat : Pat
  ty : Ty

structure ItemFn where
  name : Str
  isAsync : Bool
  params : List Param
  returnType : Ty
  body : List Stmt

/-- What stands between the slashes of a `typeway_path!`. -/
inductive PathToken where
  | literal (text : Str)
  | type (ty : Ty)

inductive Item where
  | fn (func : ItemFn)
  | typewayPath (name : Str) (segments : List PathToken)
  | typeAlias (name : Str) (ty : Ty)
  | use (text : Str)
  | other (text : Str)

def Ty.unit : Ty := .tuple []

def Ty.named (name : Str) : Ty := .path [name] []

/-- `type_to_ident_string` -/
def Ty.identString : Ty → Option Str
  | path segments _ => segments.getLast?
  | _ => none

/-! ## HTTP methods -/

inductive HttpMethod where
  | get | post | put | delete | patch | head | options
  deriving DecidableEq

namespace HttpMethod

def fromAxumMethodName (name : Str) : Option HttpMethod :=
  if name = "get".toList then some get
  else if name = "post".toList then some post
  else if name = "put".toList then some put
  else if name = "delete".toList then some delete
  else if name = "patch".toList then some patch
  else if name = "head".toList then some head
  else if name = "options".toList then some options
  else none

def typewayEndpointName : HttpMethod → Str
  | get => "GetEndpoint".toList
  | post => "PostEndpoint".toList
  | put => "PutEndpoint".toList
  | delete => "DeleteEndpoint".toList
  | patch => "PatchEndpoint".toList
  | head => "GetEndpoint".toList
  | options => "GetEndpoint".toList

def hasBody : HttpMethod → Bool
  | post | put | patch => true
  | _ => false

def axumFnName : HttpMethod → Str
  | get => "get".toList
  | post => "post".toList
  | put => "put".toList
  | delete => "delete".toList
  | patch => "patch".toList
  | head => "head".toList
  | options => "options".toList

end HttpMethod

/-! ## Paths -/

inductive PathSegment where
  | literal (text : Str)
  | capture (name : Str) (ty : Option Ty)

structure PathModel where
  rawPattern : Str
  segments : List PathSegment
  typewayTypeName : Str

section Path

variable (toUppercase : Char → Str)

def toPascalCase (s : Str) : Str :=
  (s.splitOn '_').flatMap fun
    | [] => []
    | c :: rest => toUppercase c ++ rest

def generatePathTypeName (segments : List PathSegment) : Str :=
  let parts := segments.map fun
    | .literal s => toPascalCase toUppercase s
    | .capture name _ => "By".toList ++ toPascalCase toUppercase name
  if parts.isEmpty then "RootPath".toList else parts.flatten ++ "Path".toList

/-- `{name}`, `:name` or a literal. -/
def pathSegment (seg : Str) : PathSegment :=
  if seg.head? = some '{' ∧ seg.tail.getLast? = some '}' then .capture seg.tail.dropLast none
  else if seg.head? = some ':' then .capture seg.tail none
  else .literal seg

def PathModel.fromAxumPath (raw : Str) : PathModel :=
  let segments := (Segments.segments '/' raw).map pathSegment
  { rawPattern := raw
    segments
    typewayTypeName := generatePathTypeName toUppercase segments }

end Path

/-! ## Handlers -/

inductive ExtractorKind where
  | path | state | json | query | header | extension | headerMap | method | uri | bytes | rawString
  | cookie | cookieJar | multipart | form | webSocketUpgrade | unknown
  deriving DecidableEq

def ExtractorKind.all : List (String × ExtractorKind) :=
  [("Path", path), ("State", state), ("Json", json), ("Query", query), ("Header", header),
    ("Extension", extension), ("HeaderMap", headerMap), ("Method", method), ("Uri", uri),
    ("Bytes", bytes), ("String", rawString), ("Cookie", cookie), ("CookieJar", cookieJar),
    ("Multipart", multipart), ("Form", form), ("WebSocketUpgrade", webSocketUpgrade)]

/-- `classify_type` -/
def Ty.extractorKind (ty : Ty) : ExtractorKind :=
  match ty.identString with
  | some last => ((ExtractorKind.all.find? fun k => k.1.toList = last).map Prod.snd).getD .unknown
  | none => .unknown

/-- `extract_inner_type` -/
def Ty.innerType : Ty → Option Ty
  | path _ args => args.head?
  | _ => none

/-- `extract_var_name` -/
def Pat.varName : Pat → Option Ident
  | ident name => some name
  | tupleStruct (.ident name :: _) => some name
  | _ => none

def Pat.identOf : Pat → Option Ident
  | ident name => some name
  | _ => none

/-- `extract_path_var_names` -/
def Pat.pathVarNames : Pat → List Ident
  | tupleStruct elems => elems.flatMap fun
    | .ident name => [name]
    | .tuple inner => inner.filterMap identOf
    | _ => []
  | ident name => [name]
  | _ => []

/-- An argument with what `analyze_extractor` reads off it. -/
structure ExtractorModel where
  pattern : Pat
  fullType : Ty

namespace ExtractorModel

def kind (e : ExtractorModel) : ExtractorKind := e.fullType.extractorKind

def innerType (e : ExtractorModel) : Option Ty := e.fullType.innerType

def varName (e : ExtractorModel) : Option Ident := e.pattern.varName

end ExtractorModel

structure HandlerModel where
  name : Str
  extractors : List ExtractorModel
  returnType : Ty
  body : List Stmt

/-- The type of the first `Json` argument. -/
def jsonBody (extractors : List ExtractorModel) : Option Ty :=
  (extractors.find? fun e => e.kind = .json).bind ExtractorModel.innerType

def analyzeHandler (func : ItemFn) : HandlerModel where
  name := func.name
  extractors := func.params.map fun p => ⟨p.pat, p.ty⟩
  returnType := func.returnType
  body := func.body

/-! ## The model -/

inductive BindMacro where
  | bind | bindAuth | bindValidated
  deriving DecidableEq

structure EndpointModel where
  method : HttpMethod
  path : PathModel
  handler : HandlerModel
  requestBody : Option Ty
  responseType : Ty
  requiresAuth : Bool
  authType : Option Str
  hasValidation : Bool
  validatorName : Option Str
  bindMacro : BindMacro

/-- The items passed through are no functions, paths or `API`. -/
structure ApiModel where
  endpoints : List EndpointModel
  stateType : Option Ty
  layers : List Expr
  passthroughItems : List Str
  useItems : List Str
  pathPrefix : Option Str
  detectedEffects : List Str

end Typeway.Migrate
