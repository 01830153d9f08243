import Mathlib.Logic.Function.Basic
import Typeway.Server.Calls

/-!
# The calls that configure a server

`server.rs`: `with_state`, `nest` and `max_body_size` write to the router that the server and
its layers share, and `layer` wraps the service built so far. `keeps_iff` says for which
sequences of calls every state is found and the layers stand in the order they were added in.
-/

namespace Typeway.Server

open Typeway.Core Grpc

/-! ## States by their types -/

/-- `http::Extensions`, at most one value for a type. -/
def Extensions {Ty : Type} (Val : Ty → Type) : Type :=
  (T : Ty) → Option (Val T)

namespace Extensions

variable {Ty : Type} {Val : Ty → Type}

def empty : Extensions Val := fun _ => none

variable [DecidableEq Ty]

def insert (T : Ty) (v : Val T) (ext : Extensions Val) : Extensions Val :=
  Function.update ext T (some v)

@[simp] theorem insert_same (T : Ty) (v : Val T) (ext : Extensions Val) :
    ext.insert T v T = some v := by
  rw [insert]
  exact Function.update_self T (some v) (ext : (T : Ty) → Option (Val T))

theorem insert_of_ne {T U : Ty} (apart : U ≠ T) (v : Val T) (ext : Extensions Val) :
    ext.insert T v U = ext U := by
  rw [insert]
  exact Function.update_of_ne apart (some v) (ext : (T : Ty) → Option (Val T))

end Extensions

variable {Ty : Type} [DecidableEq Ty] {Val : Ty → Type} {L W R : Type}

/-- The type `PathPrefixOffset`, and its values. -/
structure PathPrefixOffset (Val : Ty → Type) where
  type : Ty
  value : Nat → Val type

/-- `Server::new`, with the routes that the handlers register. -/
def newServer (M : Matchit) (offset : PathPrefixOffset Val)
    (inner : RouterInner (BoxedHandler W (Extensions Val) R))
    (fallback : Option (HttpParts (Extensions Val) → Incoming → W → R × W)) :
    Router W (Extensions Val) R where
  matchit := M
  inner := inner
  insertPrefixOffset n ext := ext.insert offset.type (offset.value n)
  stateInjector := none
  fallback := fallback
  maxBodySize := 2 * 1024 * 1024

/-! ## The calls -/

/-- The calls that leave the type of the server as it is. -/
inductive ConfigCall (Val : Ty → Type) where
  | withState (T : Ty) (state : Val T)
  | nest (pre : Str)
  | maxBodySize (max : Nat)

def Router.configure (router : Router W (Extensions Val) R) :
    ConfigCall Val → Router W (Extensions Val) R
  | .withState T state => { router with stateInjector := some fun ext => ext.insert T state }
  | .nest pre => { router with inner := router.inner.setPrefix pre }
  | .maxBodySize max => { router with maxBodySize := max }

/-- The service of a layered server. `RouterService` refers to the shared router. -/
inductive NestedService (L : Type) where
  | routerService
  | layered (layer : L) (inner : NestedService L)

/-- A service that is called with a request. -/
abbrev HttpService (W X R : Type) :=
  HttpParts X → Incoming → W → Served W X R

namespace NestedService

/-- The service of the layers, where `apply` is what `Layer::layer` makes of a service. -/
def call {X : Type} (apply : L → HttpService W X R → HttpService W X R) (router : Router W X R) :
    NestedService L → HttpService W X R
  | routerService => router.route
  | layered layer inner => apply layer (inner.call apply router)

/-- The layers from the outermost on, as a request passes them. -/
def passes : NestedService L → List L
  | routerService => []
  | layered layer inner => layer :: inner.passes

end NestedService

/-- A `Server` or a `LayeredServer`. -/
inductive AnyServer (L W R : Type) (Val : Ty → Type) where
  | server (router : Router W (Extensions Val) R)
  | layeredServer (service : NestedService L) (router : Router W (Extensions Val) R)

inductive ServerCall (L : Type) (Val : Ty → Type) where
  | config (call : ConfigCall Val)
  | layer (layer : L)

namespace AnyServer

def step : AnyServer L W R Val → ServerCall L Val → AnyServer L W R Val
  | server router, .config call => server (router.configure call)
  | layeredServer service router, .config call => layeredServer service (router.configure call)
  | server router, .layer layer => layeredServer (.layered layer .routerService) router
  | layeredServer service router, .layer layer => layeredServer (.layered layer service) router

def run (s : AnyServer L W R Val) (calls : List (ServerCall L Val)) : AnyServer L W R Val :=
  calls.foldl step s

def router : AnyServer L W R Val → Router W (Extensions Val) R
  | server router => router
  | layeredServer _ router => router

/-- What connections are served with. -/
def service : AnyServer L W R Val → NestedService L
  | server _ => .routerService
  | layeredServer service _ => service

def call (apply : L → HttpService W (Extensions Val) R → HttpService W (Extensions Val) R)
    (s : AnyServer L W R Val) : HttpService W (Extensions Val) R :=
  s.service.call apply s.router

@[simp] theorem run_append (s : AnyServer L W R Val) (calls calls' : List (ServerCall L Val)) :
    s.run (calls ++ calls') = (s.run calls).run calls' :=
  List.foldl_append

@[simp] theorem router_config (s : AnyServer L W R Val) (call : ConfigCall Val) :
    (s.step (.config call)).router = s.router.configure call := by
  cases s <;> rfl

@[simp] theorem router_layer (s : AnyServer L W R Val) (layer : L) :
    (s.step (.layer layer)).router = s.router := by
  cases s <;> rfl

@[simp] theorem service_config (s : AnyServer L W R Val) (call : ConfigCall Val) :
    (s.step (.config call)).service = s.service := by
  cases s <;> rfl

@[simp] theorem service_layer (s : AnyServer L W R Val) (layer : L) :
    (s.step (.layer layer)).service = .layered layer s.service := by
  cases s <;> rfl

end AnyServer

/-- The calls of `layer`, in their order. -/
def layersOf : List (ServerCall L Val) → List L
  | [] => []
  | .config _ :: calls => layersOf calls
  | .layer layer :: calls => layer :: layersOf calls

def configsOf : List (ServerCall L Val) → List (ConfigCall Val)
  | [] => []
  | .config call :: calls => call :: configsOf calls
  | .layer _ :: calls => configsOf calls

/-- Every layer ends up outside of those before it. -/
theorem AnyServer.passes_run (s : AnyServer L W R Val) (calls : List (ServerCall L Val)) :
    (s.run calls).service.passes = (layersOf calls).reverse ++ s.service.passes := by
  induction calls generalizing s with
  | nil => rfl
  | cons call calls ih =>
    rw [run, List.foldl_cons]
    cases call with
    | config call =>
      have rest := ih (s.step (.config call))
      rw [service_config] at rest
      exact rest
    | layer layer =>
      have rest := ih (s.step (.layer layer))
      rw [service_layer, NestedService.passes] at rest
      rw [layersOf, List.reverse_cons, List.append_assoc]
      exact rest

theorem AnyServer.router_run (s : AnyServer L W R Val) (calls : List (ServerCall L Val)) :
    (s.run calls).router = (configsOf calls).foldl Router.configure s.router := by
  induction calls generalizing s with
  | nil => rfl
  | cons call calls ih =>
    rw [run, List.foldl_cons]
    cases call with
    | config call =>
      have rest := ih (s.step (.config call))
      rw [router_config] at rest
      exact rest
    | layer layer =>
      have rest := ih (s.step (.layer layer))
      rw [router_layer] at rest
      exact rest

/-! ## States -/

/-- The last `with_state` of all. -/
def lastState : List (ConfigCall Val) → Option (Σ T, Val T)
  | [] => none
  | .withState T state :: calls => (lastState calls).or (some ⟨T, state⟩)
  | .nest _ :: calls => lastState calls
  | .maxBodySize _ :: calls => lastState calls

/-- The last `with_state` with a value of a type. -/
def lastStateOf (T : Ty) : List (ConfigCall Val) → Option (Val T)
  | [] => none
  | .withState U state :: calls =>
    (lastStateOf T calls).or (if same : U = T then some (same ▸ state) else none)
  | .nest _ :: calls => lastStateOf T calls
  | .maxBodySize _ :: calls => lastStateOf T calls

theorem lastStateOf_eq_none {calls : List (ConfigCall Val)} (without : lastState calls = none)
    {T : Ty} : lastStateOf T calls = none := by
  induction calls with
  | nil => rfl
  | cons call calls ih =>
    cases call with
    | withState U state =>
      rw [lastState, Option.or_eq_none_iff] at without
      cases without.2
    | nest pre => exact ih without
    | maxBodySize max => exact ih without

/-- What the last call leaves is the last state of its type. -/
theorem lastStateOf_of_lastState {calls : List (ConfigCall Val)} {T : Ty} {v : Val T}
    (last : lastState calls = some ⟨T, v⟩) : lastStateOf T calls = some v := by
  induction calls with
  | nil => cases last
  | cons call calls ih =>
    cases call with
    | withState U state =>
      rw [lastState] at last
      rw [lastStateOf]
      cases later : lastState calls with
      | some later' =>
        rw [later, Option.some_or] at last
        rw [ih (later.trans last), Option.some_or]
      | none =>
        rw [later, Option.none_or] at last
        cases last
        rw [lastStateOf_eq_none later, dif_pos rfl]
        rfl
    | nest pre => exact ih last
    | maxBodySize max => exact ih last

/-- The injector of a configured router inserts the last state of all. -/
theorem stateInjector_configure (router : Router W (Extensions Val) R)
    (calls : List (ConfigCall Val)) :
    (calls.foldl Router.configure router).stateInjector =
      ((lastState calls).map fun s ext => ext.insert s.1 s.2).or router.stateInjector := by
  induction calls generalizing router with
  | nil => rfl
  | cons call calls ih =>
    rw [List.foldl_cons, ih]
    cases call with
    | withState T state =>
      rw [lastState]
      cases lastState calls <;> rfl
    | nest pre => rfl
    | maxBodySize max => rfl

theorem insertPrefixOffset_configure (router : Router W (Extensions Val) R)
    (calls : List (ConfigCall Val)) :
    (calls.foldl Router.configure router).insertPrefixOffset = router.insertPrefixOffset := by
  induction calls generalizing router with
  | nil => rfl
  | cons call calls ih =>
    rw [List.foldl_cons, ih]
    cases call <;> rfl

/-! ## What the calls promise -/

section Keeps

variable (M : Matchit) (offset : PathPrefixOffset Val)
  (inner : RouterInner (BoxedHandler W (Extensions Val) R))
  (fallback : Option (HttpParts (Extensions Val) → Incoming → W → R × W))

/-- The server after the calls. -/
def built (calls : List (ServerCall L Val)) : AnyServer L W R Val :=
  (AnyServer.server (newServer M offset inner fallback)).run calls

/-- A route is found for the request, and its handler is called with it. -/
def Router.Hits {X : Type} (router : Router W X R) (parts : HttpParts X) : Prop :=
  ∃ i, Server.route router.matchit router.inner parts.method parts.path = .hit i

/-- The extensions ahead of the states. -/
def Router.marked {X : Type} (router : Router W X R) (extensions : X) : X :=
  match router.inner.prefixStr with
  | some pre => router.insertPrefixOffset (byteLen pre) extensions
  | none => extensions

structure Keeps (calls : List (ServerCall L Val)) : Prop where
  /-- `State<T>` of a handler is the last state of its type. -/
  states : ∀ T v, lastStateOf T (configsOf calls) = some v →
    ∀ parts, (built M offset inner fallback calls).router.Hits parts →
      ((built M offset inner fallback calls).router.handlerParts parts).extensions T = some v
  /-- A configuration call behind a layer could stand before it. -/
  configs : ∀ front layer config back, calls = front ++ .layer layer :: .config config :: back →
    ∀ apply, (built M offset inner fallback calls).call apply =
      (built M offset inner fallback (front ++ .config config :: .layer layer :: back)).call apply
  /-- A request passes the layers in the order of the calls. -/
  order : (built M offset inner fallback calls).service.passes = layersOf calls

/-- What the router itself puts into the extensions. -/
def ownEntry (calls : List (ServerCall L Val)) (T : Ty) : Option (Val T) :=
  (built M offset inner fallback calls).router.marked Extensions.empty T

variable {M offset inner fallback}

/-- The calls of the two kinds commute. -/
theorem AnyServer.step_comm (s : AnyServer L W R Val) (layer : L) (config : ConfigCall Val) :
    (s.step (.layer layer)).step (.config config) =
      (s.step (.config config)).step (.layer layer) := by
  cases s <;> rfl

theorem router_built (calls : List (ServerCall L Val)) :
    (built M offset inner fallback calls).router =
      (configsOf calls).foldl Router.configure (newServer M offset inner fallback) :=
  AnyServer.router_run _ calls

/-- The last state of all goes over what the router has put into the extensions. -/
theorem extensions_built (calls : List (ServerCall L Val)) (parts : HttpParts (Extensions Val)) :
    ((built M offset inner fallback calls).router.handlerParts parts).extensions =
      (lastState (configsOf calls)).elim
        ((built M offset inner fallback calls).router.marked parts.extensions)
        fun s => ((built M offset inner fallback calls).router.marked parts.extensions).insert
          s.1 s.2 := by
  have injector : (built M offset inner fallback calls).router.stateInjector =
      (lastState (configsOf calls)).map fun s ext => ext.insert s.1 s.2 := by
    rw [router_built, stateInjector_configure]
    exact Option.or_none
  rw [Router.handlerParts, Router.marked, injector]
  cases (built M offset inner fallback calls).router.inner.prefixStr <;>
    cases lastState (configsOf calls) <;> rfl

theorem marked_built (calls : List (ServerCall L Val)) (ext : Extensions Val) (T : Ty) :
    (built M offset inner fallback calls).router.marked ext T =
      (ownEntry M offset inner fallback calls T).or (ext T) := by
  have mark : (built M offset inner fallback calls).router.insertPrefixOffset =
      fun n ext => ext.insert offset.type (offset.value n) := by
    rw [router_built, insertPrefixOffset_configure]
    rfl
  rw [ownEntry, Router.marked, Router.marked, mark]
  cases (built M offset inner fallback calls).router.inner.prefixStr with
  | none => rfl
  | some pre =>
    by_cases here : T = offset.type
    · subst here
      simp
    · simp only [Extensions.insert_of_ne here]
      rfl

/-- A type apart from that of the last state has only what was there before. -/
theorem extensions_built_of_ne {calls : List (ServerCall L Val)} {T : Ty}
    (apart : (lastState (configsOf calls)).map Sigma.fst ≠ some T)
    (parts : HttpParts (Extensions Val)) :
    ((built M offset inner fallback calls).router.handlerParts parts).extensions T =
      (ownEntry M offset inner fallback calls T).or (parts.extensions T) := by
  rw [extensions_built, ← marked_built]
  cases last : lastState (configsOf calls) with
  | none => rfl
  | some s =>
    apply Extensions.insert_of_ne
    intro same
    rw [last, same] at apart
    exact apart rfl

theorem configs_built {front back : List (ServerCall L Val)} {layer : L} {config : ConfigCall Val} :
    built M offset inner fallback (front ++ .layer layer :: .config config :: back) =
      built M offset inner fallback (front ++ .config config :: .layer layer :: back) := by
  rw [built, built, AnyServer.run_append, AnyServer.run_append]
  exact congrArg (AnyServer.run · back) (AnyServer.step_comm _ layer config)

/-- Only the state of the last call is kept, and the first layer becomes the innermost. -/
theorem keeps_iff (M : Matchit) (offset : PathPrefixOffset Val)
    (inner : RouterInner (BoxedHandler W (Extensions Val) R))
    (fallback : Option (HttpParts (Extensions Val) → Incoming → W → R × W))
    (calls : List (ServerCall L Val)) :
    Keeps M offset inner fallback calls ↔
      ((∃ parts, (built M offset inner fallback calls).router.Hits parts) →
        ∀ T v, lastStateOf T (configsOf calls) = some v →
          (lastState (configsOf calls)).map Sigma.fst = some T ∨
            ownEntry M offset inner fallback calls T = some v) ∧
      (layersOf calls).reverse = layersOf calls := by
  have passes : (built M offset inner fallback calls).service.passes = (layersOf calls).reverse :=
    (AnyServer.passes_run _ calls).trans (List.append_nil _)
  constructor
  · intro keeps
    refine ⟨?_, passes.symm.trans keeps.order⟩
    intro hit T v last
    by_cases latest : (lastState (configsOf calls)).map Sigma.fst = some T
    · exact .inl latest
    · obtain ⟨parts, hit⟩ := hit
      -- The same request with nothing in its extensions.
      have bare := keeps.states T v last { parts with extensions := Extensions.empty } hit
      rw [extensions_built_of_ne latest] at bare
      exact .inr ((Option.or_none (o := _)).symm.trans bare)
  · intro h
    obtain ⟨kept, palindrome⟩ := h
    refine ⟨?_, ?_, passes.trans palindrome⟩
    · intro T v last parts hit
      by_cases latest : (lastState (configsOf calls)).map Sigma.fst = some T
      · obtain ⟨s, found, rfl⟩ := Option.map_eq_some_iff.1 latest
        have own : v = s.2 := Option.some.inj (last.symm.trans (lastStateOf_of_lastState found))
        rw [extensions_built, found, own]
        exact Extensions.insert_same _ _ _
      · rcases kept ⟨parts, hit⟩ T v last with same | own
        · exact absurd same latest
        · rw [extensions_built_of_ne latest, own]
          rfl
    · intro front layer config back split apply
      rw [split, configs_built]

end Keeps

/-- `GET /health` -/
def healthRoutes (Val : Str → Type) : RouterInner (BoxedHandler Unit (Extensions Val) Unit) :=
  .calls .documented [.addRoute (.ofPath .get (.lit "health".toList .hnil) fun _ w => ((), w))]

/-- The security headers of the recommended stack are added first and traces second, and a
configuration is set before a pool. -/
theorem not_keeps_secureHeaders :
    ¬ Keeps .documented ⟨"PathPrefixOffset".toList, id⟩ (healthRoutes fun _ => Nat) none
        [.layer "SecureHeadersLayer".toList, .layer "TraceLayer".toList] ∧
      ¬ Keeps (L := Str) .documented ⟨"PathPrefixOffset".toList, id⟩ (healthRoutes fun _ => Nat) none
        [.config (.withState "Config".toList 7), .config (.withState "Pool".toList 5)] := by
  constructor
  · intro keeps
    have order := ((keeps_iff _ _ _ _ _).1 keeps).2
    exact absurd order (by decide)
  · intro keeps
    have hit : (built (L := Str) .documented ⟨"PathPrefixOffset".toList, id⟩
        (healthRoutes fun _ => Nat) none [.config (.withState "Config".toList 7),
          .config (.withState "Pool".toList 5)]).router.Hits
            ⟨.get, "/health".toList, [], Extensions.empty⟩ := ⟨0, rfl⟩
    rcases ((keeps_iff _ _ _ _ _).1 keeps).1 ⟨_, hit⟩ "Config".toList 7 (by decide) with last | own
    · exact absurd last (by decide)
    · exact absurd own (by decide)

end Typeway.Server
