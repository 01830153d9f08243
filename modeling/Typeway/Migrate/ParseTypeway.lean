import Typeway.Base.IndexMap
import Typeway.Migrate.Model

/-!
# Reading a typeway program

`parse/typeway.rs`: the paths, the endpoint types of `API` and the handlers given to the server are
collected from the items, and the endpoints are paired with the handlers by their positions.
-/

namespace Typeway.Migrate

open Typeway.Core

/-! ## Paths -/

section

-- the text of a type in small letters, which is what a capture is called
variable (lowered : Ty → Str)

def PathToken.segment : PathToken → PathSegment
  | literal text => .literal text
  | type ty => .capture (lowered ty) (some ty)

def segmentsToRawPattern (segments : List PathSegment) : Str :=
  let parts := segments.map fun
    | .literal s => s
    | .capture name _ => '{' :: name ++ ['}']
  if parts.isEmpty then ['/'] else '/' :: ['/'].intercalate parts

def parseTypewayPath (name : Str) (tokens : List PathToken) : PathModel :=
  let segments := tokens.map (PathToken.segment lowered)
  { rawPattern := segmentsToRawPattern segments
    segments
    typewayTypeName := name }

end

/-! ## Endpoint types -/

structure RawEndpoint where
  method : HttpMethod
  path : PathModel
  requestBody : Option Ty
  responseType : Ty
  requiresAuth : Bool
  authType : Option Str
  hasValidation : Bool
  validatorName : Option Str
  bindMacro : BindMacro

def methodFromEndpointName (name : Str) : Option HttpMethod :=
  if "Get".toList.isPrefixOf name then some .get
  else if "Post".toList.isPrefixOf name then some .post
  else if "Put".toList.isPrefixOf name then some .put
  else if "Delete".toList.isPrefixOf name then some .delete
  else if "Patch".toList.isPrefixOf name then some .patch
  else if "Head".toList.isPrefixOf name then some .head
  else if "Options".toList.isPrefixOf name then some .options
  else none

section

variable (toLowercase : Char → Str) (pathTypes : List (Str × PathModel))

/-- The path of a type that is not declared. -/
def placeholderPath (name : Str) : PathModel where
  rawPattern := '/' :: name.flatMap toLowercase
  segments := [.literal (name.flatMap toLowercase)]
  typewayTypeName := name

def parseInnerEndpointType : Ty → Option RawEndpoint
  | .path segments args => do
    let name ← segments.getLast?
    let method ← methodFromEndpointName name
    let pathType ← args.head?
    let pathTypeName ← pathType.identString
    let path := (IndexMap.lookup pathTypeName pathTypes).getD (placeholderPath toLowercase pathTypeName)
    let (requestBody, responseType) :=
      match args with
      | [_] | [] => (none, .unit)
      | _ :: second :: [] => (none, second)
      | _ :: second :: third :: _ =>
        if method.hasBody then (some second, third) else (none, second)
    some
      { method
        path
        requestBody
        responseType
        requiresAuth := false
        authType := none
        hasValidation := false
        validatorName := none
        bindMacro := .bind }
  | _ => none

def parseEndpointType : Ty → Option RawEndpoint
  | .path segments [] => parseInnerEndpointType toLowercase pathTypes (.path segments [])
  | .path segments [arg] =>
    match segments.getLast? with
    | none => none
    | some name =>
      if name = "Protected".toList ∨ name = "Requires".toList ∨ name = "Validated".toList then none
      else parseInnerEndpointType toLowercase pathTypes (.path segments [arg])
  | .path segments (first :: inner :: rest) =>
    match segments.getLast? with
    | none => none
    | some name =>
      if name = "Protected".toList then do
        let authTypeName ← first.identString
        let rawEp ← parseInnerEndpointType toLowercase pathTypes inner
        some
          { rawEp with
            requiresAuth := true
            authType := some authTypeName
            bindMacro := .bindAuth }
      else if name = "Requires".toList then parseEndpointType inner
      else if name = "Validated".toList then do
        let rawEp ← parseInnerEndpointType toLowercase pathTypes inner
        some
          { rawEp with
            hasValidation := true
            validatorName := first.identString
            bindMacro := .bindValidated }
      else parseInnerEndpointType toLowercase pathTypes (.path segments (first :: inner :: rest))
  | _ => none

def parseApiTypeAlias : Ty → List RawEndpoint
  | .tuple elems => elems.filterMap (parseEndpointType toLowercase pathTypes)
  | _ => []

end

/-! ## The server -/

structure ServerInfo where
  handlerNames : List Str := []
  layers : List Expr := []
  stateType : Option Ty := none

def inferTypeFromExpr : Expr → Option Ty
  | .struct segments => some (.path segments [])
  | .call (.path segments) _ => some (.path segments [])
  | .path segments => some (.path segments [])
  | _ => none

def extractSingleBindName : Expr → Option Str
  | .mac name tokens =>
    if name = "bind".toList ∨ name = "bind_auth".toList ∨ name = "bind_validated".toList then
      some tokens
    else none
  | .path segments => segments.getLast?
  | _ => none

def extractBindHandlerNames : Expr → List Str
  | .tuple elems => elems.filterMap extractSingleBindName
  | e => (extractSingleBindName e).toList

/-- `Server::new` or `EffectfulServer::new`, behind any path. -/
def isServerNew : Expr → Bool
  | .path segments =>
    match segments.reverse with
    | last :: server :: _ =>
      last = "new".toList && (server = "Server".toList || server = "EffectfulServer".toList)
    | _ => false
  | _ => false

/-- Calls on the way to the server leave their traces even if there is none. -/
def extractServerChain : Expr → ServerInfo → ServerInfo × Bool
  | .method receiver name args, info =>
    let info :=
      if name = "layer".toList then { info with layers := info.layers ++ args.head?.toList }
      else if name = "with_state".toList then
        match args.head? with
        | some arg => { info with stateType := inferTypeFromExpr arg }
        | none => info
      else info
    extractServerChain receiver info
  | .call func args, info =>
    if isServerNew func then
      (match args.head? with
        | some arg => { info with handlerNames := extractBindHandlerNames arg }
        | none => info, true)
    else (info, false)
  | .await base, info => extractServerChain base info
  | _, info => (info, false)

/-- The expression of a statement, or what a variable is initialised with. -/
def Stmt.expression? : Stmt → Option Expr
  | expr e => some e
  | .local _ init => init
  | other _ => none

def extractServerInfo (func : ItemFn) : Option ServerInfo :=
  let (info, found) := (func.body.filterMap Stmt.expression?).foldl
    (fun (s : ServerInfo × Bool) e =>
      let (info, here) := extractServerChain e s.1
      (info, s.2 || here))
    ({}, false)
  if found then some info else none

/-! ## The file -/

structure Collected where
  handlerFns : List (Str × ItemFn) := []
  pathTypes : List (Str × PathModel) := []
  rawEndpoints : List RawEndpoint := []
  handlerOrder : List Str := []
  layers : List Expr := []
  stateType : Option Ty := none
  passthroughItems : List Str := []
  useItems : List Str := []

section

variable (lowered : Ty → Str) (toLowercase : Char → Str)

def Collected.step (s : Collected) : Item → Collected
  | .fn func =>
    match extractServerInfo func with
    | some info =>
      { s with
        handlerOrder := info.handlerNames
        layers := info.layers
        stateType := info.stateType.or s.stateType }
    | none =>
      if func.isAsync then { s with handlerFns := IndexMap.insert func.name func s.handlerFns }
      else { s with passthroughItems := s.passthroughItems ++ [func.name] }
  | .typewayPath name segments =>
    { s with
      pathTypes := IndexMap.insert name (parseTypewayPath lowered name segments) s.pathTypes }
  | .typeAlias name ty =>
    if name = "API".toList then
      { s with rawEndpoints := parseApiTypeAlias toLowercase s.pathTypes ty }
    else { s with passthroughItems := s.passthroughItems ++ [name] }
  | .use text => { s with useItems := s.useItems ++ [text] }
  | .other text => { s with passthroughItems := s.passthroughItems ++ [text] }

/-- A handler that is not in the file. -/
def placeholderHandler (name : Str) : HandlerModel where
  name := name
  extractors := []
  returnType := .other "impl IntoResponse".toList
  body := []

/-- An endpoint with the handler in its place. -/
def Collected.endpoint (s : Collected) (i : Nat) (rawEp : RawEndpoint) : EndpointModel :=
  let handlerName := s.handlerOrder[i]?.getD ("handler_".toList ++ Nat.toDigits 10 i)
  let handler :=
    match IndexMap.lookup handlerName s.handlerFns with
    | some func => analyzeHandler func
    | none => placeholderHandler handlerName
  { method := rawEp.method
    path := rawEp.path
    handler
    requestBody := rawEp.requestBody.or (jsonBody handler.extractors)
    responseType := rawEp.responseType
    requiresAuth := rawEp.requiresAuth
    authType := rawEp.authType
    hasValidation := rawEp.hasValidation
    validatorName := rawEp.validatorName
    bindMacro := rawEp.bindMacro }

def parseTypewayFile (items : List Item) : ApiModel :=
  let s := items.foldl (Collected.step lowered toLowercase) {}
  { endpoints := s.rawEndpoints.mapIdx s.endpoint
    stateType := s.stateType
    layers := s.layers
    passthroughItems := s.passthroughItems
    useItems := s.useItems
    pathPrefix := none
    detectedEffects := [] }

end

end Typeway.Migrate
