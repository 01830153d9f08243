import Mathlib.Data.Char
import Mathlib.Data.List.Lex
import Typeway.Base.SortedMap
import Typeway.Migrate.Axum

/-!
# The printed axum router

`typeway_to_axum.rs`: the endpoints are grouped by their patterns, and each group is one route. The
captures are called what the handler calls them.
-/

namespace Typeway.Migrate

open Typeway.Core

/-! ## Patterns -/

/-- The names that a statement takes out of the path of a parameter. -/
def Stmt.namesOf (param : Str) : Stmt → Option (List Ident)
  | .local pat (some (.field (.path segments) 0)) =>
    if segments.getLast? = some param then
      match pat with
      | .tuple elems =>
        let names := elems.filterMap Pat.identOf
        if names.isEmpty then none else some names
      | .ident name => some [name]
      | _ => none
    else none
  | _ => none

/-- `endpoint_default_capture_names` -/
def endpointDefaultCaptureNames (extractors : List ExtractorModel) : List Ident :=
  ((extractors.filter fun e => e.kind = .path).findSome? fun e =>
    let names := e.pattern.pathVarNames
    if names.isEmpty then none else some names).getD []

/-- `get_capture_names_for_path` -/
def HandlerModel.captureNames (handler : HandlerModel) : List Ident :=
  match (handler.extractors.find? fun e => e.kind = .path).bind ExtractorModel.varName with
  | none => []
  | some param =>
    (handler.body.findSome? (Stmt.namesOf param.text)).getD
      (endpointDefaultCaptureNames handler.extractors)

/-- The pattern, with the names for the captures as long as there are any. -/
def axumPattern : List PathSegment → List Ident → Str
  | [], _ => []
  | .literal s :: segments, names => '/' :: s ++ axumPattern segments names
  | .capture name _ :: segments, [] => '/' :: '{' :: name ++ ['}'] ++ axumPattern segments []
  | .capture _ _ :: segments, name :: names =>
    '/' :: '{' :: name.text ++ ['}'] ++ axumPattern segments names

/-- `to_axum_path_pattern` at the first endpoint of its group -/
def EndpointModel.toAxumPathPattern (ep : EndpointModel) : Str :=
  let result := axumPattern ep.path.segments ep.handler.captureNames
  if result.isEmpty then ['/'] else result

/-! ## The router -/

/-- The endpoints of each pattern. -/
def groupByPattern (endpoints : List EndpointModel) : List (Str × List EndpointModel) :=
  endpoints.foldl
    (fun groups ep =>
      let key := ep.path.rawPattern
      SortedMap.insert key ((SortedMap.lookup key groups).getD [] ++ [ep]) groups)
    []

/-- `get(h)`, then `.post(h')` and so on. -/
def methodChain : List EndpointModel → Option Expr
  | [] => none
  | ep :: rest =>
    some (rest.foldl
      (fun existing ep => .method existing ep.method.axumFnName [.path [ep.handler.name]])
      (.call (.path [ep.method.axumFnName]) [.path [ep.handler.name]]))

def emitRoute (router : Expr) : List EndpointModel → Expr
  | [] => router
  | ep :: rest =>
    match methodChain (ep :: rest) with
    | some methods => .method router "route".toList [.lit ep.toAxumPathPattern, methods]
    | none => router

/-- The expression that `emit_router` puts into `app`. -/
def emitRouter (model : ApiModel) : Expr :=
  let routed := (groupByPattern model.endpoints).foldl
    (fun router group => emitRoute router group.2) routerNew
  model.layers.foldl (fun router layer => .method router "layer".toList [layer]) routed

end Typeway.Migrate
