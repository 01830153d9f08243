import Typeway.Server.Calls

/-!
# Middleware of single gRPC methods

`add_middleware` enters a function that runs before the handler of a method, for instance a check
of credentials. A direct handler has no place for it: a middleware is lost when it is registered
for a path that has a direct handler, and when a direct handler takes over a path that has
middleware. `guarded_iff` says when a request reaches a handler without the middleware of its
path.
-/

namespace Typeway.Server

open Typeway.Core Grpc Json

variable {W X R : Type}

/-- The middleware registered for a path since the table was made. -/
def middlewareAt (path : Str) (calls : List (Registration W X R)) : List (GrpcMiddleware W X R) :=
  calls.foldl (fun registered call =>
    match call with
    | .fromRouter _ _ => []
    | .addDirectHandler _ _ => registered
    | .addMiddleware grpcPath middleware =>
      if grpcPath = path then registered ++ [middleware] else registered) []

/-- The direct handler registered last for a path since the table was made. -/
def directAt (path : Str) (calls : List (Registration W X R)) : Option (DirectHandler W) :=
  calls.foldl (fun registered call =>
    match call with
    | .fromRouter _ _ => none
    | .addDirectHandler grpcPath handler => if grpcPath = path then some handler else registered
    | .addMiddleware _ _ => registered) none

/-- The middleware ran in order, each on what the one before it returned, and all let the request
pass. -/
inductive Passed :
    List (GrpcMiddleware W X R) → HttpRequest X → List (Event W X R) → HttpRequest X → Prop
  | nil (request : HttpRequest X) : Passed [] request [] request
  | cons {mw : GrpcMiddleware W X R} {rpcMiddleware : List (GrpcMiddleware W X R)}
      {arrived next request : HttpRequest X} {events : List (Event W X R)}
      (rest : Passed rpcMiddleware next events request) :
      Passed (mw :: rpcMiddleware) arrived (.middleware mw arrived (.ok next) :: events) request

/-- The handler of a path is called with what is left of the request. -/
def Event.Takes (request : HttpRequest X) : Event W X R → Prop
  | .handler _ arrived => arrived = request
  | .direct _ message => message = request.body
  | _ => False

/-- A registered handler is called. -/
def Event.IsHandler : Event W X R → Prop
  | .handler _ _ | .direct _ _ => True
  | _ => False

/-- Before a handler is called, all of the middleware has run and passed the request on to it. -/
def Guarded (rpcMiddleware : List (GrpcMiddleware W X R)) (events : List (Event W X R)) : Prop :=
  ∀ before call after, events = before ++ call :: after → call.IsHandler →
    ∃ arrived request, Passed rpcMiddleware arrived before request ∧ call.Takes request

/-- Health checks and reflection are answered before the table is looked at. -/
def GrpcMultiplexer.AnswersItself (mux : GrpcMultiplexer W X R) (path : Str) : Prop :=
  isHealthPath path = true ∨ (mux.reflectionEnabled && isReflectionPath path) = true

/-- There is middleware for the path, and a direct handler that takes the message. -/
structure Bypassed (calls : List (Registration W X R)) (path : Str) (body : List UInt8) : Prop where
  guards : middlewareAt path calls ≠ []
  taken : ∃ handler run, directAt path calls = some handler ∧ handler (stripHeader body) = .ok run

/-! ### Registration -/

/-- What the table has at a path, next to what has been registered there. -/
def Kept (entry : Option (GrpcHandler W X R)) (rpcMiddleware : List (GrpcMiddleware W X R))
    (handler : Option (DirectHandler W)) : Prop :=
  match entry with
  | none => handler = none
  | some (.standard _ _ mw) => handler = none ∧ mw = rpcMiddleware
  | some (.direct own) => handler = some own

theorem fromRouter_kept (router : RouterInner (BoxedHandler W X R))
    (descriptor : GrpcServiceDescriptor) (path : Str) :
    Kept ((GrpcHandlers.fromRouter router descriptor).lookup path) [] none := by
  apply List.foldlRecOn descriptor.methods _
    (motive := fun handlers : GrpcHandlers W X R => Kept (handlers.lookup path) [] none)
  · rw [AList.lookup_empty]
    rfl
  · intro handlers kept method _
    cases findHandlerByPattern router method.httpMethod method.restPath with
    | none => exact kept
    | some handler =>
      by_cases same : path = method.fullPath
      · subst same
        rw [AList.lookup_insert]
        exact ⟨rfl, rfl⟩
      · rwa [AList.lookup_insert_ne same]

theorem addDirectHandler_kept {handlers : GrpcHandlers W X R} {path : Str}
    {rpcMiddleware : List (GrpcMiddleware W X R)} {registered : Option (DirectHandler W)}
    (kept : Kept (handlers.lookup path) rpcMiddleware registered) (grpcPath : Str)
    (handler : DirectHandler W) :
    Kept ((handlers.addDirectHandler grpcPath handler).lookup path) rpcMiddleware
      (if grpcPath = path then some handler else registered) := by
  rw [GrpcHandlers.addDirectHandler]
  by_cases same : grpcPath = path
  · subst same
    rw [AList.lookup_insert, if_pos rfl]
    rfl
  · rwa [AList.lookup_insert_ne (Ne.symm same), if_neg same]

theorem addMiddleware_kept {handlers : GrpcHandlers W X R} {path : Str}
    {rpcMiddleware : List (GrpcMiddleware W X R)} {registered : Option (DirectHandler W)}
    (kept : Kept (handlers.lookup path) rpcMiddleware registered) (grpcPath : Str)
    (middleware : GrpcMiddleware W X R) :
    Kept ((handlers.addMiddleware grpcPath middleware).lookup path)
      (if grpcPath = path then rpcMiddleware ++ [middleware] else rpcMiddleware) registered := by
  rw [GrpcHandlers.addMiddleware]
  by_cases same : grpcPath = path
  · subst same
    rw [if_pos rfl]
    cases found : handlers.lookup grpcPath with
    | none =>
      rw [found] at kept
      dsimp only
      rwa [found]
    | some entry =>
      rw [found] at kept
      cases entry with
      | standard handler descriptor mw =>
        obtain ⟨none, rfl⟩ := kept
        dsimp only
        rw [AList.lookup_insert]
        exact ⟨none, rfl⟩
      | direct handler =>
        dsimp only
        rwa [found]
  · rw [if_neg same]
    cases handlers.lookup grpcPath with
    | none => exact kept
    | some entry =>
      cases entry with
      | standard handler descriptor mw =>
        dsimp only
        rwa [AList.lookup_insert_ne (Ne.symm same)]
      | direct handler => exact kept

/-- A standard entry keeps all of its middleware, and a direct handler is never taken back. -/
theorem registered_kept (calls : List (Registration W X R)) (path : Str) :
    Kept ((GrpcHandlers.registered calls).lookup path) (middlewareAt path calls)
      (directAt path calls) := by
  induction calls using List.reverseRecOn with
  | nil =>
    rw [GrpcHandlers.registered, List.foldl_nil, AList.lookup_empty]
    rfl
  | append_singleton calls call ih =>
    rw [GrpcHandlers.registered, middlewareAt, directAt, List.foldl_concat, List.foldl_concat,
      List.foldl_concat]
    cases call with
    | fromRouter router descriptor => exact fromRouter_kept router descriptor path
    | addDirectHandler grpcPath handler => exact addDirectHandler_kept ih grpcPath handler
    | addMiddleware grpcPath middleware => exact addMiddleware_kept ih grpcPath middleware

/-! ### Dispatch -/

theorem guarded_of_none {rpcMiddleware : List (GrpcMiddleware W X R)} {events : List (Event W X R)}
    (none : ∀ event ∈ events, ¬ event.IsHandler) : Guarded rpcMiddleware events := by
  intro before call after split reached
  subst split
  exact absurd reached (none call (by simp))

theorem guarded_last {rpcMiddleware : List (GrpcMiddleware W X R)} {events : List (Event W X R)}
    {arrived request : HttpRequest X} {call : Event W X R}
    (passed : Passed rpcMiddleware arrived events request)
    (none : ∀ event ∈ events, ¬ event.IsHandler) (takes : call.Takes request) :
    Guarded rpcMiddleware (events ++ [call]) := by
  intro before reached after split isHandler
  rcases List.append_eq_append_iff.1 split with ⟨middle, rfl, last⟩ | ⟨middle, rfl, last⟩
  · cases middle with
    | nil =>
      obtain ⟨rfl, -⟩ := List.cons.inj last
      exact ⟨arrived, request, by rwa [List.append_nil], takes⟩
    | cons event middle => exact absurd (List.cons.inj last).2 (by simp)
  · cases middle with
    | nil =>
      obtain ⟨rfl, -⟩ := List.cons.inj last
      exact ⟨arrived, request, by rwa [List.append_nil] at passed, takes⟩
    | cons event middle =>
      obtain ⟨rfl, -⟩ := List.cons.inj last
      exact absurd isHandler (none _ (by simp))

theorem runMiddleware_none (rpcMiddleware : List (GrpcMiddleware W X R)) (request : HttpRequest X)
    (w : W) : ∀ event ∈ (runMiddleware rpcMiddleware request w).1, ¬ event.IsHandler := by
  induction rpcMiddleware generalizing request w with
  | nil =>
    intro event mem
    cases mem
  | cons mw rpcMiddleware ih =>
    intro event mem
    unfold runMiddleware at mem
    split at mem
    · rcases List.mem_cons.1 mem with rfl | mem
      · exact not_false
      · exact ih _ _ event mem
    · rw [List.mem_singleton] at mem
      subst mem
      exact not_false

theorem runMiddleware_passed {rpcMiddleware : List (GrpcMiddleware W X R)}
    {arrived request : HttpRequest X} {w w' : W} {events : List (Event W X R)}
    (run : runMiddleware rpcMiddleware arrived w = (events, .ok request, w')) :
    Passed rpcMiddleware arrived events request := by
  induction rpcMiddleware generalizing arrived w events with
  | nil =>
    cases run
    exact .nil _
  | cons mw rpcMiddleware ih =>
    unfold runMiddleware at run
    split at run
    · next next w _ =>
      obtain ⟨rfl, rest⟩ := Prod.mk.inj run
      exact .cons (ih (Prod.ext rfl rest))
    · cases run

/-- A standard handler is called behind its middleware. -/
theorem callStandard_guarded (mux : GrpcMultiplexer W X R) (handler : BoxedHandler W X R)
    (methodDesc : GrpcMethodDescriptor) (rpcMiddleware : List (GrpcMiddleware W X R))
    (parts : HttpParts X) (unframed : List UInt8) (w : W) :
    Guarded rpcMiddleware
      (mux.callStandard handler methodDesc rpcMiddleware parts unframed w).events := by
  rw [GrpcMultiplexer.callStandard]
  split
  · next request _ =>
    have none := runMiddleware_none rpcMiddleware request w
    split
    · next events request w run =>
      rw [run] at none
      exact guarded_last (runMiddleware_passed run) none rfl
    · next events response w run =>
      rw [run] at none
      exact guarded_of_none none
  · exact guarded_of_none (by simp)
  · exact guarded_of_none (by simp)

/-- A direct handler that takes the message is called, and nothing before it. -/
theorem dispatchDirect_guarded_iff (handler : DirectHandler W)
    (rpcMiddleware : List (GrpcMiddleware W X R)) (parts : HttpParts X) (body : List UInt8) (w : W) :
    Guarded rpcMiddleware (dispatchDirect handler body w : Served W X R).events ↔
      ¬ (rpcMiddleware ≠ [] ∧ ∃ run, handler (stripHeader body) = .ok run) := by
  rw [dispatchDirect, callDirect]
  cases decoded : handler (stripHeader body) with
  | error stop =>
    have none : ∀ rejected : Prop, (∃ run, (.error stop : Checked.Run GrpcStatus
        (W → List UInt8 × W)) = .ok run) → rejected := by
      rintro rejected ⟨run, same⟩
      cases same
    apply iff_of_true
    · cases stop <;> exact guarded_of_none (by simp)
    · exact fun taken => none _ taken.2
  | ok run =>
    constructor
    · rintro guarded ⟨some, -⟩
      obtain ⟨arrived, request, passed, -⟩ := guarded [] _ [] rfl trivial
      cases passed
      exact some rfl
    · intro allowed
      have empty : rpcMiddleware = [] := not_not.1 fun some => allowed ⟨some, run, rfl⟩
      subst empty
      exact guarded_last (.nil ⟨parts, stripHeader body⟩) (by simp) rfl

/-- **A handler is reached only behind the middleware of its path** iff the path is answered by a
built-in service, or it has not been given both middleware and a direct handler that takes the
message. -/
theorem guarded_iff (mux : GrpcMultiplexer W X R) (calls : List (Registration W X R))
    (parts : HttpParts X) (body : Incoming) (w : W) :
    Guarded (middlewareAt parts.path calls)
        ({ mux with handlers := .registered calls }.callGrpc parts body w).events ↔
      mux.AnswersItself parts.path ∨ ¬ Bypassed calls parts.path body.collectOrEmpty := by
  have kept := registered_kept calls parts.path
  rw [GrpcMultiplexer.callGrpc]
  by_cases health : isHealthPath parts.path = true
  · rw [if_pos health]
    exact iff_of_true (guarded_of_none (by simp)) (.inl (.inl health))
  rw [if_neg health]
  by_cases reflection : (mux.reflectionEnabled && isReflectionPath parts.path) = true
  · rw [if_pos reflection]
    apply iff_of_true
    · apply guarded_of_none
      intro event mem
      rw [List.mem_singleton] at mem
      subst mem
      exact not_false
    · exact .inl (.inr reflection)
  rw [if_neg reflection]
  have own : ¬ mux.AnswersItself parts.path := by
    rintro (answers | answers)
    · exact health answers
    · exact reflection answers
  dsimp only
  cases found : (GrpcHandlers.registered calls).lookup parts.path with
  | none =>
    rw [found] at kept
    apply iff_of_true
    · exact guarded_of_none (by simp)
    · right
      rintro ⟨-, handler, run, registered, -⟩
      rw [kept] at registered
      cases registered
  | some entry =>
    rw [found] at kept
    cases entry with
    | standard handler methodDesc mw =>
      obtain ⟨none, rfl⟩ := kept
      apply iff_of_true
      · exact callStandard_guarded _ handler methodDesc _ parts _ w
      · right
        rintro ⟨-, handler, run, registered, -⟩
        rw [none] at registered
        cases registered
    | direct handler =>
      have registered : directAt parts.path calls = some handler := kept
      show Guarded _ (dispatchDirect handler body.collectOrEmpty w).events ↔ _
      rw [dispatchDirect_guarded_iff _ _ parts, or_iff_right own, not_iff_not]
      constructor
      · rintro ⟨guards, run, taken⟩
        exact ⟨guards, handler, run, registered, taken⟩
      · rintro ⟨guards, other, run, same, taken⟩
        obtain rfl := Option.some.inj (registered.symm.trans same)
        exact ⟨guards, run, taken⟩

/-- A route with a middleware that lets nobody in, and then a direct handler for the same path. -/
def deniedUsers : List (Registration Unit Unit Unit) :=
  [.fromRouter
      (RouterInner.calls .documented
        [.addRoute (.ofPath .get (.lit "users".toList .hnil) fun _ w => ((), w))])
      { name := "UserService".toList
        package := "users.v1".toList
        methods :=
          [{ name := "ListUser".toList
             fullPath := listUser
             httpMethod := .get
             restPath := "/users".toList
             serverStreaming := false
             clientStreaming := false }] },
    .addMiddleware listUser fun _ w => (.error (), w),
    .addDirectHandler listUser fun _ => .ok fun w => ([], w)]

/-- The direct handler answers a request that the middleware would have refused. -/
theorem not_guarded_deniedUsers :
    ¬ Guarded (middlewareAt listUser deniedUsers)
      ({ bareMultiplexer with handlers := .registered deniedUsers }.callGrpc
        (grpcParts listUser) { frames := [[0, 0, 0, 0, 0]], broken := false } ()).events := by
  have found : (GrpcHandlers.registered deniedUsers).lookup listUser =
      some (.direct fun _ => .ok fun w => ([], w)) :=
    AList.lookup_insert _
  have direct : ({ bareMultiplexer with handlers := .registered deniedUsers }.callGrpc
      (grpcParts listUser) { frames := [[0, 0, 0, 0, 0]], broken := false } ()).events =
        (dispatchDirect (fun _ => .ok fun w => ([], w)) [0, 0, 0, 0, 0] () :
          Served Unit Unit Unit).events := by
    rw [GrpcMultiplexer.callGrpc, if_neg (by decide), if_neg (by decide)]
    dsimp only [grpcParts]
    rw [found]
    rfl
  have asked : middlewareAt listUser deniedUsers ≠ [] := by
    show (if listUser = listUser then [] ++ [_] else []) ≠ []
    rw [if_pos rfl]
    exact List.cons_ne_nil _ _
  rw [direct, dispatchDirect_guarded_iff _ _ (grpcParts []), not_not]
  exact ⟨asked, _, rfl⟩

end Typeway.Server
