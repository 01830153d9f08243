import Typeway.Migrate.Model

/-!
# What a router serves

The axum programs, as far as the migration reads them: a router is built by a chain of calls, and
serves each route under the prefixes it is nested in and behind the layers put around it.
-/

namespace Typeway.Migrate

open Typeway.Core

/-! ## Patterns -/

/-- What stands between two slashes of a pattern. -/
inductive PathPart where
  | literal (text : Str)
  | capture
  | wildcard
  deriving DecidableEq

def PathSegment.part : PathSegment → PathPart
  | literal text => .literal text
  | capture name _ => if name.head? = some '*' then .wildcard else .capture

/-- A pattern without the names of its captures. -/
def pathParts (raw : Str) : List PathPart :=
  (raw.splitOn '/').map fun piece => (pathSegment piece).part

/-! ## Routers -/

structure Route where
  method : HttpMethod
  path : Str
  handler : Str
  /-- The outermost layer comes first. -/
  layers : List Expr

namespace Route

/-- The route of a router that is nested at a prefix. -/
def under (pathPrefix : Str) (route : Route) : Route :=
  { route with path := if route.path = ['/'] then pathPrefix else pathPrefix ++ route.path }

def behind (layer : Expr) (route : Route) : Route :=
  { route with layers := layer :: route.layers }

end Route

/-- The methods and handlers of `get(h)`, `get(h).post(h')` and so on. -/
inductive Routes : Expr → List (HttpMethod × Str) → Prop
  | call {segments handler : List Str} {name h : Str} {method : HttpMethod}
      (last : segments.getLast? = some name) (known : HttpMethod.fromAxumMethodName name = some method)
      (named : handler.getLast? = some h) :
      Routes (.call (.path segments) [.path handler]) [(method, h)]
  | method {receiver : Expr} {routes : List (HttpMethod × Str)} {handler : List Str} {name h : Str}
      {method : HttpMethod} (before : Routes receiver routes)
      (known : HttpMethod.fromAxumMethodName name = some method)
      (named : handler.getLast? = some h) :
      Routes (.method receiver name [.path handler]) (routes ++ [(method, h)])

def routerNew : Expr :=
  .call (.path ["Router".toList, "new".toList]) []

-- the router that a function returns
variable (fns : Str → Option Expr)

/-- The routes of a router. A layer is around the routes before it, and not around later ones. -/
inductive Builds : Expr → List Route → Prop
  | new : Builds routerNew []
  | route {receiver methods : Expr} {routes : List Route} {path : Str}
      {served : List (HttpMethod × Str)} (before : Builds receiver routes)
      (each : Routes methods served) :
      Builds (.method receiver "route".toList [.lit path, methods])
        (routes ++ served.map fun m => ⟨m.1, path, m.2, []⟩)
  | nest {receiver router : Expr} {routes inner : List Route} {path : Str}
      (before : Builds receiver routes) (nested : Builds router inner) :
      Builds (.method receiver "nest".toList [.lit path, router])
        (routes ++ inner.map (Route.under path))
  | layer {receiver layer : Expr} {routes : List Route} (before : Builds receiver routes) :
      Builds (.method receiver "layer".toList [layer]) (routes.map (Route.behind layer))
  | state {receiver state : Expr} {routes : List Route} (before : Builds receiver routes) :
      Builds (.method receiver "with_state".toList [state]) routes
  | function {name : Str} {router : Expr} {routes : List Route} (defined : fns name = some router)
      (built : Builds router routes) :
      Builds (.call (.path [name]) []) routes

end Typeway.Migrate
