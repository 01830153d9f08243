import Typeway.Base.Table
import Typeway.Grpc.Names
import Typeway.Grpc.Service
import Typeway.Server.Resolve

/-!
# The dispatch table of the gRPC server

`grpc_dispatch.rs`: `from_router` looks up the handler of every method of the descriptor among
the routes and enters it under the full path of the method. The names of the methods are the
keys, so that two endpoints whose names agree share one entry. `dispatches_iff` says when this
does not happen.
-/

namespace Typeway.Server

open Typeway.Core Grpc

/-- `GrpcRouteEntry::Standard` as `from_router` makes it, without middleware. -/
structure GrpcRouteEntry (H : Type) where
  handler : H
  methodDescriptor : GrpcMethodDescriptor

abbrev GrpcRouter (H : Type) :=
  AList fun _ : Str => GrpcRouteEntry H

variable {H : Type}

def GrpcRouter.fromRouter (router : RouterInner H) (descriptor : GrpcServiceDescriptor) :
    GrpcRouter H :=
  descriptor.methods.foldl (fun handlers method =>
    match findHandlerByPattern router method.httpMethod method.restPath with
    | some handler => handlers.insert method.fullPath { handler, methodDescriptor := method }
    | none => handlers) ∅

/-- An API with its handlers: no two endpoints agree in both HTTP method and path pattern. -/
structure Api (H : Type) where
  endpoints : List (Endpoint × H)
  distinct : endpoints.Pairwise fun e e' =>
    ¬ (e.1.method = e'.1.method ∧ e.1.path.pattern = e'.1.path.pattern)

namespace Api

variable (M : Matchit) (toUppercase : Char → Str) (serviceName package : Str) (api : Api H)

/-- The REST router that the endpoints are registered in. -/
def router : RouterInner H :=
  ofTable M (api.endpoints.map fun e => (e.1.method, e.1.path, e.2))

def descriptor : GrpcServiceDescriptor :=
  serviceDescriptor toUppercase (api.endpoints.map Prod.fst) serviceName package

def grpcRouter : GrpcRouter H :=
  .fromRouter (api.router M) (api.descriptor toUppercase serviceName package)

/-- The entry of an endpoint with its own handler. -/
def entry (e : Endpoint × H) : GrpcRouteEntry H where
  handler := e.2
  methodDescriptor := (e.1.toRpc toUppercase).descriptor package serviceName

/-- Every endpoint has a name of its own and is reached under its full path. -/
structure Dispatches : Prop where
  names : (api.endpoints.map fun e => (e.1.toRpc toUppercase).name).Nodup
  reached : ∀ e ∈ api.endpoints,
    (api.grpcRouter M toUppercase serviceName package).lookup
      (Grpc.fullPath package serviceName (e.1.toRpc toUppercase).name) =
        some (entry toUppercase serviceName package e)

end Api

/-! ### The table -/

variable (M : Matchit)

namespace Api

variable (toUppercase : Char → Str) (serviceName package : Str) (api : Api H)

omit api in
theorem find_distinct {endpoints : List (Endpoint × H)}
    (distinct : endpoints.Pairwise fun e e' =>
      ¬ (e.1.method = e'.1.method ∧ e.1.path.pattern = e'.1.path.pattern))
    {e : Endpoint × H} (mem : e ∈ endpoints) :
    endpoints.find? (fun e' => e'.1.method = e.1.method ∧ e'.1.path.pattern = e.1.path.pattern) =
      some e := by
  induction endpoints with
  | nil => cases mem
  | cons head endpoints ih =>
    obtain ⟨apart, distinct⟩ := List.pairwise_cons.1 distinct
    rcases List.mem_cons.1 mem with rfl | mem
    · exact List.find?_cons_of_pos (by simp)
    · rw [List.find?_cons_of_neg]
      · exact ih distinct mem
      · have other := apart e mem
        simpa using other

/-- The router finds every endpoint's own handler by its method and pattern. -/
theorem findHandler {e : Endpoint × H} (mem : e ∈ api.endpoints) :
    findHandlerByPattern (api.router M) e.1.method e.1.path.pattern = some e.2 := by
  rw [findHandlerByPattern, router, ofTable_routes, List.map_map, List.find?_map, Option.map_map]
  exact congrArg (Option.map fun e' : Endpoint × H => e'.2) (find_distinct api.distinct mem)

/-- No endpoint is passed over when the table is filled. -/
theorem grpcRouter_eq :
    api.grpcRouter M toUppercase serviceName package =
      Table.fill (api.endpoints.map fun e =>
        (Grpc.fullPath package serviceName (e.1.toRpc toUppercase).name,
          entry toUppercase serviceName package e)) := by
  have run : ∀ (endpoints : List (Endpoint × H)) (handlers : GrpcRouter H),
      (∀ e ∈ endpoints, e ∈ api.endpoints) →
      ((endpoints.map fun e => (e.1.toRpc toUppercase).descriptor package serviceName).foldl
          (fun handlers method =>
            match findHandlerByPattern (api.router M) method.httpMethod method.restPath with
            | some handler => handlers.insert method.fullPath { handler, methodDescriptor := method }
            | none => handlers) handlers) =
        (endpoints.map fun e =>
          (Grpc.fullPath package serviceName (e.1.toRpc toUppercase).name,
            entry toUppercase serviceName package e)).foldl
          (fun table entry => table.insert entry.1 entry.2) handlers := by
    intro endpoints
    induction endpoints with
    | nil =>
      intro handlers _
      rfl
    | cons e endpoints ih =>
      intro handlers mem
      have found : findHandlerByPattern (api.router M)
          ((e.1.toRpc toUppercase).descriptor package serviceName).httpMethod
          ((e.1.toRpc toUppercase).descriptor package serviceName).restPath = some e.2 := by
        have own := api.findHandler M (mem e List.mem_cons_self)
        rwa [← e.1.named] at own
      rw [List.map_cons, List.map_cons, List.foldl_cons, List.foldl_cons, found]
      exact ih _ fun e' here => mem e' (List.mem_cons_of_mem _ here)
  rw [grpcRouter, GrpcRouter.fromRouter, descriptor, serviceDescriptor, collectRpcs, List.map_map,
    List.map_map]
  exact run api.endpoints ∅ fun _ mem => mem

/-- No two endpoints clash. -/
def ClashFree : Prop :=
  api.endpoints.Pairwise fun e e' => ¬ e.1.Clash toUppercase e'.1

theorem names_nodup_iff :
    (api.endpoints.map fun e => (e.1.toRpc toUppercase).name).Nodup ↔ api.ClashFree toUppercase := by
  rw [List.Nodup, List.pairwise_map]
  constructor
  · intro h
    apply h.imp
    intro e e' apart clash
    exact apart ((name_eq_iff toUppercase e.1 e'.1).2 clash)
  · intro h
    apply h.imp
    intro e e' noClash same
    exact noClash ((name_eq_iff toUppercase e.1 e'.1).1 same)

variable {toUppercase serviceName package} in
/-- The entries of two endpoints differ in what is registered with them. -/
theorem ne_of_entry_eq {e e' : Endpoint × H}
    (same : entry toUppercase serviceName package e = entry toUppercase serviceName package e') :
    e.1.method = e'.1.method ∧ e.1.path.pattern = e'.1.path.pattern := by
  have descriptors := congrArg GrpcRouteEntry.methodDescriptor same
  constructor
  · have methods := congrArg GrpcMethodDescriptor.httpMethod descriptors
    exact e.1.named.symm.trans (methods.trans e'.1.named)
  · exact congrArg GrpcMethodDescriptor.restPath descriptors

/-- Where two endpoints clash, the one that is entered first is not reached. -/
theorem reached_iff :
    (∀ e ∈ api.endpoints,
      (api.grpcRouter M toUppercase serviceName package).lookup
        (Grpc.fullPath package serviceName (e.1.toRpc toUppercase).name) =
          some (entry toUppercase serviceName package e)) ↔ api.ClashFree toUppercase := by
  have found := Table.lookup_fill_iff (api.endpoints.map fun e =>
    (Grpc.fullPath package serviceName (e.1.toRpc toUppercase).name,
      entry toUppercase serviceName package e))
  rw [← grpcRouter_eq M, List.forall_mem_map, List.pairwise_map] at found
  rw [found]
  constructor
  · intro agree
    apply (agree.and api.distinct).imp
    intro e e' h clash
    have same := h.1 (fullPath_inj.2 ((name_eq_iff toUppercase e.1 e'.1).2 clash))
    exact h.2 (ne_of_entry_eq same)
  · intro noClash
    apply noClash.imp
    intro e e' apart same
    exact absurd ((name_eq_iff toUppercase e.1 e'.1).1 (fullPath_inj.1 same)) apart

/-- **Every endpoint of an API is reached over gRPC under a name of its own** iff no two
endpoints clash. -/
theorem dispatches_iff (M : Matchit) (toUppercase : Char → Str) (serviceName package : Str)
    (api : Api H) :
    api.Dispatches M toUppercase serviceName package ↔ api.ClashFree toUppercase := by
  constructor
  · intro h
    exact (api.names_nodup_iff toUppercase).1 h.names
  · intro h
    constructor
    · exact (api.names_nodup_iff toUppercase).2 h
    · exact (api.reached_iff M toUppercase serviceName package).2 h

end Api

theorem put_named : parseMethod (methodStr .put) = .put := rfl

theorem patch_named : parseMethod (methodStr .patch) = .patch := rfl

theorem put_ne_patch : Method.put ≠ .patch := Method.noConfusion

/-- PUT and PATCH of one resource. -/
def editUsers : Api Unit where
  endpoints :=
    [({ method := .put
        path := .lit "users".toList (.capture .u32 .hnil)
        req := some { protoTypeName := "string".toList }
        res := { protoTypeName := "string".toList }
        named := put_named }, ()),
      ({ method := .patch
         path := .lit "users".toList (.capture .u32 .hnil)
         req := some { protoTypeName := "string".toList }
         res := { protoTypeName := "string".toList }
         named := patch_named }, ())]
  distinct := List.pairwise_pair.2 fun same => put_ne_patch same.1

/-- Both are called `UpdateUser`, and the handler of PUT is shadowed. -/
theorem not_dispatches_editUsers :
    ¬ editUsers.Dispatches .documented (fun c => [c.toUpper]) "UserService".toList
      "users.v1".toList := by
  intro h
  exact absurd h.names (by decide)

end Typeway.Server
