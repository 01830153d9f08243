import Typeway.Migrate.Model

/-!
# The printed typeway program

`axum_to_typeway.rs`: the declarations of the paths, the type `API` with one endpoint type for each
endpoint, the handlers, and the function that constructs the server.
-/

namespace Typeway.Migrate

open Typeway.Core

/-! ## Paths and endpoint types -/

def PathSegment.token : PathSegment → PathToken
  | literal s => .literal s
  | capture _ (some ty) => .type ty
  | capture _ none => .type (.named "String".toList)

/-- The declarations of the patterns that have not been seen. -/
def emitPathDeclarations : List Str → List EndpointModel → List Item
  | _, [] => []
  | seen, endpoint :: rest =>
    let key := endpoint.path.rawPattern
    if seen.contains key then emitPathDeclarations seen rest
    else
      .typewayPath endpoint.path.typewayTypeName (endpoint.path.segments.map PathSegment.token) ::
        emitPathDeclarations (key :: seen) rest

/-- The endpoint type without what is wrapped around it. -/
def EndpointModel.bareType (ep : EndpointModel) : Ty :=
  let name := ep.method.typewayEndpointName
  let pathType := Ty.named ep.path.typewayTypeName
  match ep.method with
  | .get | .delete | .head | .options => .path [name] [pathType, ep.responseType]
  | .post | .put | .patch =>
    match ep.requestBody with
    | some reqType => .path [name] [pathType, reqType, ep.responseType]
    | none => .path [name] [pathType, .unit, ep.responseType]

def EndpointModel.validatedType (ep : EndpointModel) : Ty :=
  match ep.validatorName with
  | some validator => .path ["Validated".toList] [.named validator, ep.bareType]
  | none => ep.bareType

def EndpointModel.wrappedType (ep : EndpointModel) : Ty :=
  if ep.requiresAuth then
    match ep.authType with
    | some auth => .path ["Protected".toList] [.named auth, ep.validatedType]
    | none => ep.validatedType
  else ep.validatedType

def corsRequired : Str := "CorsRequired".toList

def EndpointModel.endpointType (hasCors : Bool) (ep : EndpointModel) : Ty :=
  if hasCors ∧ ep.requiresAuth = false ∧ ep.method = .get then
    .path ["Requires".toList] [.named corsRequired, ep.wrappedType]
  else ep.wrappedType

def emitApiType (model : ApiModel) : Item :=
  .typeAlias "API".toList
    (.tuple (model.endpoints.map (EndpointModel.endpointType (model.detectedEffects.contains corsRequired))))

/-- The names of the validators that get a struct and an `impl`. -/
def emitValidatorStructs (model : ApiModel) : List Item :=
  (model.endpoints.filterMap fun ep =>
    match ep.requestBody with
    | some _ => ep.validatorName
    | none => none).dedup.map Item.other

/-! ## Handlers -/

/-- `let <pat> = <base>.0;` -/
def letField (pat : Pat) (base : Ident) : Stmt :=
  .local pat (some (.field (.path [base.text]) 0))

def pathIdent : Ident := ⟨"path".toList, rfl⟩

def bodyIdent : Ident := ⟨"body".toList, rfl⟩

/-- The name of an argument that has none. -/
def ExtractorKind.defaultName : ExtractorKind → Option Ident
  | state => some ⟨"state".toList, rfl⟩
  | json => some bodyIdent
  | query => some ⟨"query".toList, rfl⟩
  | header | headerMap => some ⟨"headers".toList, rfl⟩
  | cookie | cookieJar => some ⟨"cookie".toList, rfl⟩
  | multipart | form => some ⟨"form".toList, rfl⟩
  | webSocketUpgrade => some ⟨"ws".toList, rfl⟩
  | _ => none

/-- The kinds whose patterns are taken apart in the body. -/
def ExtractorKind.opened : ExtractorKind → Bool
  | state | json | query | header | headerMap | cookie | cookieJar => true
  | _ => false

def Pat.isTupleStruct : Pat → Bool
  | tupleStruct _ => true
  | _ => false

def authIdent : Ident := ⟨"auth".toList, rfl⟩

/-- An argument of the printed handler, and what is put in front of its body. -/
def emitExtractor (endpoint : EndpointModel) (ext : ExtractorModel) : Param × List Stmt :=
  match ext.kind, ext.kind.defaultName with
  | .path, _ =>
    let varNames := ext.pattern.pathVarNames
    (⟨.ident pathIdent, .path ["Path".toList] [.named endpoint.path.typewayTypeName]⟩,
      if varNames.isEmpty then [] else [letField (.tuple (varNames.map Pat.ident)) pathIdent])
  | kind, some name =>
    let var := ext.varName.getD name
    (⟨.ident var, ext.fullType⟩,
      if kind.opened ∧ ext.pattern.isTupleStruct then [letField (.ident var) var] else [])
  | .unknown, none =>
    if endpoint.requiresAuth then (⟨.ident (ext.varName.getD authIdent), ext.fullType⟩, [])
    else (⟨ext.pattern, ext.fullType⟩, [])
  | _, none => (⟨ext.pattern, ext.fullType⟩, [])

def emitSingleHandler (endpoint : EndpointModel) : ItemFn :=
  let args := endpoint.handler.extractors.map (emitExtractor endpoint)
  { name := endpoint.handler.name
    isAsync := true
    params := args.map Prod.fst
    returnType := endpoint.handler.returnType
    body := args.flatMap Prod.snd ++ endpoint.handler.body }

/-- The handlers whose names have not been seen. -/
def emitHandlers : List Str → List EndpointModel → List Item
  | _, [] => []
  | seen, endpoint :: rest =>
    let name := endpoint.handler.name
    if seen.contains name then emitHandlers seen rest
    else .fn (emitSingleHandler endpoint) :: emitHandlers (name :: seen) rest

/-! ## The server -/

def BindMacro.macroName : BindMacro → Str
  | bind => "bind".toList
  | bindAuth => "bind_auth".toList
  | bindValidated => "bind_validated".toList

/-- Calls of one method, one behind the other. -/
def chain (receiver : Expr) (name : Str) (args : List (List Expr)) : Expr :=
  args.foldl (fun e arg => .method e name arg) receiver

/-- The argument of `new`. -/
def emitBinds (model : ApiModel) : Expr :=
  .tuple (model.endpoints.map fun ep => .mac ep.bindMacro.macroName ep.handler.name)

def emitServerChain (model : ApiModel) : Expr :=
  let hasEffects := !model.detectedEffects.isEmpty
  let server := if hasEffects then "EffectfulServer".toList else "Server".toList
  let new := Expr.call (.path [server, "new".toList]) [emitBinds model]
  let provided := chain new "provide".toList (model.detectedEffects.map fun _ => [])
  let layered := chain provided "layer".toList (model.layers.map fun layer => [layer])
  let stated :=
    match model.stateType with
    | some _ => Expr.method layered "with_state".toList [.path ["state".toList]]
    | none => layered
  let nested :=
    match model.pathPrefix with
    | some p => Expr.method stated "nest".toList [.lit p]
    | none => stated
  let documented :=
    Expr.method nested "with_openapi".toList [.lit "API".toList, .lit "1.0.0".toList]
  let ready := if hasEffects then Expr.method documented "ready".toList [] else documented
  .await (.method ready "serve".toList [.path ["addr".toList]])

def addrIdent : Ident := ⟨"addr".toList, rfl⟩

def emitServer (model : ApiModel) : Item :=
  .fn
    { name := "serve".toList
      isAsync := true
      params := [⟨.ident addrIdent, .path ["std".toList, "net".toList, "SocketAddr".toList] []⟩]
      returnType := .path ["Result".toList]
        [.unit, .path ["Box".toList] [.other "dyn std::error::Error + Send + Sync".toList]]
      body := [.expr (emitServerChain model)] }

/-! ## The file -/

def emitUseStatements (model : ApiModel) : List Item :=
  let hasValidation := model.endpoints.any fun ep => ep.hasValidation && ep.validatorName.isSome
  let bindValidatedNeeded := model.endpoints.any fun ep => ep.bindMacro = .bindValidated
  [Item.use "typeway::prelude::*".toList] ++
    (if model.detectedEffects.isEmpty then []
    else [.use "typeway_core::effects".toList, .use "typeway_server::EffectfulServer".toList]) ++
    (if hasValidation then
      .use "typeway_server::typed::\x7bValidate, Validated\x7d".toList ::
        (if bindValidatedNeeded then [.use "typeway_server::bind_validated".toList] else [])
    else [])

def emitTypeway (model : ApiModel) : List Item :=
  emitUseStatements model ++ model.passthroughItems.map Item.other ++
    emitPathDeclarations [] model.endpoints ++ emitValidatorStructs model ++ [emitApiType model] ++
    emitHandlers [] model.endpoints ++ [emitServer model]

end Typeway.Migrate
