import Typeway.Server.Resolve

/-!
# Endpoint wrappers and their binders

`typed.rs`, `auth.rs` and `typed_bind.rs`: a wrapper in an endpoint type stands for a check on
the request, and the bind function made for it performs that check. Which binders a type takes
is decided by the traits it implements. A binder performs the check of the one wrapper it is made
for, so `enforced_iff` finds the nestings that each binder covers.
-/

namespace Typeway.Server

open Typeway.Core

/-- `http::request::Parts`: the headers, and whatever else extractors look at. -/
structure Parts (X : Type) where
  headers : List (Str × List UInt8)
  rest : X

structure Request (X : Type) where
  parts : Parts X
  body : List UInt8

/-- `HeaderValue::to_str`, for visible ASCII. -/
def headerToStr (value : List UInt8) : Option Str :=
  if value.all fun b => (32 ≤ b && b < 127) || b == 9 then
    some (value.map fun b => Char.ofNat b.toNat)
  else none

/-- The text of the `Content-Type` header, empty without one. -/
def Request.contentType {X : Type} (req : Request X) : Str :=
  match req.parts.headers.find? fun h => h.1 == "content-type".toList with
  | some h => (headerToStr h.2).getD []
  | none => []

/-- A type with `FromRequestParts`, used for authentication. -/
structure AuthType (X R : Type) where
  Val : Type
  fromRequestParts : Parts X → Except R Val

/-- An async function whose arguments are extractors. -/
structure Handler (X R : Type) where
  Args : Type
  fromRequest : Request X → Except R Args
  call : Args → R

/-- A handler with `Auth` as its first argument. -/
structure AuthHandler (X R : Type) (A : AuthType X R) where
  Args : Type
  fromRequest : Request X → Except R Args
  call : A.Val → Args → R

/-- How a bound handler answers: with an error of its binder, with the rejection of an
extractor, or with what the handler body returns. -/
inductive Reply (R : Type) where
  | jsonError (status : Nat) (message : Str)
  | rejected (response : R)
  | handled (response : R)

/-- The handler body ran. -/
def Reply.Ran {R : Type} : Reply R → Prop
  | handled _ => True
  | _ => False

variable {X R Req : Type}

/-- `into_boxed_handler` -/
def intoBoxedHandler (handler : Handler X R) (req : Request X) : Reply R :=
  match handler.fromRequest req with
  | .ok args => .handled (handler.call args)
  | .error e => .rejected e

/-- `AuthHandler::call` -/
def AuthHandler.boxed {A : AuthType X R} (handler : AuthHandler X R A) (req : Request X) :
    Reply R :=
  match A.fromRequestParts req.parts with
  | .error e => .rejected e
  | .ok auth =>
    match handler.fromRequest req with
    | .ok args => .handled (handler.call auth args)
    | .error e => .rejected e

inductive Wrapper where
  | protect
  | validated
  | contentType
deriving DecidableEq

/-- Endpoints over a body type and the nestings of `Protected`, `Validated` and `ContentType`. -/
inductive EndpointType (X R Req : Type) : Type 1 where
  | endpoint (method : Method) (path : PathSpec)
  | protect (A : AuthType X R) (inner : EndpointType X R Req)
  | validated (validate : Req → Except Str Unit) (inner : EndpointType X R Req)
  | contentType (expected : Str) (inner : EndpointType X R Req)

namespace EndpointType

/-- The types with `BindableEndpoint`; it is left out for `Protected`. -/
def Bindable : EndpointType X R Req → Prop
  | endpoint _ _ => True
  | protect _ _ => False
  | validated _ inner => inner.Bindable
  | contentType _ inner => inner.Bindable

/-- The types with `HasReqType`. -/
def HasReqType : EndpointType X R Req → Prop
  | endpoint _ _ => True
  | _ => False

/-- The wrappers, from the outermost on. -/
def wrappers : EndpointType X R Req → List Wrapper
  | endpoint _ _ => []
  | protect _ inner => .protect :: inner.wrappers
  | validated _ inner => .validated :: inner.wrappers
  | contentType _ inner => .contentType :: inner.wrappers

/-- `method()`, and the path behind `pattern()` and `match_fn()`, which every wrapper hands on. -/
def method : EndpointType X R Req → Method
  | endpoint method _ => method
  | protect _ inner | validated _ inner | contentType _ inner => inner.method

def path : EndpointType X R Req → PathSpec
  | endpoint _ path => path
  | protect _ inner | validated _ inner | contentType _ inner => inner.path

end EndpointType

/-- What may stand behind a media type: nothing, or parameters. -/
def Ends (tail : Str) : Prop :=
  tail.dropWhile Char.isWhitespace = [] ∨ (tail.dropWhile Char.isWhitespace).head? = some ';'

/-- The media type of a header is the expected one, whatever its case. -/
def IsContentType (expected ct : Str) : Prop :=
  ∃ head tail, ct = head ++ tail ∧ head.map Char.toLower = expected.map Char.toLower ∧ Ends tail

theorem isContentType_append {expected tail : Str} :
    IsContentType expected (expected ++ tail) ↔ Ends tail := by
  constructor
  · rintro ⟨head, rest, split, same, ends⟩
    have length := congrArg List.length same
    rw [List.length_map, List.length_map] at length
    rwa [(List.append_inj split length.symm).2]
  · intro ends
    exact ⟨expected, tail, rfl, rfl, ends⟩

/-- A header that is too short for the expected media type. -/
theorem not_isContentType_cons (c : Char) (ct : Str) : ¬ IsContentType (c :: ct) ct := by
  rintro ⟨head, tail, split, same, -⟩
  have length := congrArg List.length same
  have whole := congrArg List.length split
  simp only [List.length_map, List.length_cons, List.length_append] at length whole
  omega

section

variable (fromSlice : List UInt8 → Except Str Req)

/-- The validator accepts the decoded body. -/
def ValidBody (validate : Req → Except Str Unit) (req : Request X) : Prop :=
  ∃ parsed, fromSlice req.body = .ok parsed ∧ validate parsed = .ok ()

/-- Every wrapper's check passes on the request. -/
def EndpointType.Passes : EndpointType X R Req → Request X → Prop
  | endpoint _ _, _ => True
  | protect A inner, req => (∃ auth, A.fromRequestParts req.parts = .ok auth) ∧ inner.Passes req
  | validated validate inner, req => ValidBody fromSlice validate req ∧ inner.Passes req
  | contentType expected inner, req => IsContentType expected req.contentType ∧ inner.Passes req

/-- The bind functions. -/
inductive Binder where
  | bind
  | bindProtected
  | bindValidated
  | bindContentType (expected : Str)

/-- A binder covers the one wrapper it is made for, around a bare endpoint. A header that starts
with the expected text must end there. -/
def Binder.Covers : Binder → List Wrapper → Request X → Prop
  | bind, wrappers, _ => wrappers = []
  | bindProtected, wrappers, _ => wrappers = [.protect]
  | bindValidated, wrappers, _ => wrappers = [.validated]
  | bindContentType expected, wrappers, req =>
    ∀ tail, req.contentType = expected ++ tail → wrappers = [.contentType] ∧ Ends tail

/-- The bindings that the trait bounds of the bind functions accept. -/
inductive Binding : EndpointType X R Req → Type 1 where
  | bind {E : EndpointType X R Req} (bindable : E.Bindable) (handler : Handler X R) : Binding E
  | bindProtected {A : AuthType X R} {E : EndpointType X R Req} (bindable : E.Bindable)
      (handler : AuthHandler X R A) : Binding (.protect A E)
  | bindValidated {validate : Req → Except Str Unit} {E : EndpointType X R Req}
      (bindable : E.Bindable) (hasReq : E.HasReqType) (handler : Handler X R) :
      Binding (.validated validate E)
  | bindContentType {expected : Str} {E : EndpointType X R Req} (bindable : E.Bindable)
      (handler : Handler X R) : Binding (.contentType expected E)

namespace Binding

/-- The validation that `bind_validated` wraps around the handler. -/
def validation (validate : Req → Except Str Unit) (req : Request X) : Except Str Unit := do
  let parsed ← (fromSlice req.body).mapError fun e => "invalid request body: ".toList ++ e
  validate parsed

/-- The boxed handler of a binding. -/
def respond : {E : EndpointType X R Req} → Binding E → Request X → Reply R
  | _, bind _ handler, req => intoBoxedHandler handler req
  | _, bindProtected _ handler, req => handler.boxed req
  | _, @bindValidated _ _ _ validate _ _ _ handler, req =>
    match validation fromSlice validate req with
    | .ok () => intoBoxedHandler handler req
    | .error msg => .jsonError 422 msg
  | _, @bindContentType _ _ _ expected _ _ handler, req =>
    let ct := req.contentType
    if !expected.isPrefixOf ct then
      .jsonError 415
        ("expected Content-Type: ".toList ++ expected ++ ", got: ".toList ++ ct)
    else intoBoxedHandler handler req

/-- What is registered with the router. -/
def boundHandler {E : EndpointType X R Req} (b : Binding E) : RouteEntry (Request X → Reply R) :=
  .ofPath E.method E.path (b.respond fromSlice)

/-- The check the bind function makes. -/
def own : {E : EndpointType X R Req} → Binding E → Request X → Prop
  | _, bind _ _, _ => True
  | _, @bindProtected _ _ _ A _ _ _, req => ∃ auth, A.fromRequestParts req.parts = .ok auth
  | _, @bindValidated _ _ _ validate _ _ _ _, req => ValidBody fromSlice validate req
  | _, @bindContentType _ _ _ expected _ _ _, req => expected <+: req.contentType

/-- The arguments of the handler can be extracted. -/
def extracts : {E : EndpointType X R Req} → Binding E → Request X → Prop
  | _, bind _ handler, req | _, bindValidated _ _ handler, req
  | _, bindContentType _ handler, req => ∃ args, handler.fromRequest req = .ok args
  | _, bindProtected _ handler, req => ∃ args, handler.fromRequest req = .ok args

/-- The bind function, with the text that `bind_content_type` looks for. -/
def binder : {E : EndpointType X R Req} → Binding E → Binder
  | _, bind _ _ => .bind
  | _, bindProtected _ _ => .bindProtected
  | _, bindValidated _ _ _ => .bindValidated
  | _, @bindContentType _ _ _ expected _ _ _ => .bindContentType expected

variable {E : EndpointType X R Req}

theorem intoBoxedHandler_ran {handler : Handler X R} {req : Request X} :
    (intoBoxedHandler handler req).Ran ↔ ∃ args, handler.fromRequest req = .ok args := by
  rw [intoBoxedHandler]
  cases handler.fromRequest req with
  | ok args => simp [Reply.Ran]
  | error e => simp [Reply.Ran]

theorem validation_ok_iff {validate : Req → Except Str Unit} {req : Request X} :
    validation fromSlice validate req = .ok () ↔ ValidBody fromSlice validate req := by
  rw [validation, ValidBody]
  cases fromSlice req.body with
  | ok parsed =>
    constructor
    · intro h
      exact ⟨parsed, rfl, h⟩
    · intro h
      obtain ⟨parsed', e, h⟩ := h
      cases e
      exact h
  | error e =>
    constructor
    · intro h
      cases h
    · intro h
      obtain ⟨parsed', e, -⟩ := h
      cases e

/-- The handler body runs iff the bind function's check passes and the arguments are there. -/
theorem ran_iff (b : Binding E) (req : Request X) :
    (b.respond fromSlice req).Ran ↔ b.own fromSlice req ∧ b.extracts req := by
  cases b with
  | bind bindable handler =>
    rw [respond, own, extracts, intoBoxedHandler_ran, true_and]
  | @bindProtected A E bindable handler =>
    rw [respond, own, extracts, AuthHandler.boxed]
    cases A.fromRequestParts req.parts with
    | error e => simp [Reply.Ran]
    | ok auth =>
      cases handler.fromRequest req with
      | ok args => simp [Reply.Ran]
      | error e => simp [Reply.Ran]
  | @bindValidated validate E bindable hasReq handler =>
    rw [respond, own, extracts, ← validation_ok_iff, ← intoBoxedHandler_ran]
    cases validation fromSlice validate req with
    | ok u => simp
    | error msg => simp [Reply.Ran]
  | @bindContentType expected E bindable handler =>
    rw [respond, own, extracts, ← intoBoxedHandler_ran, ← List.isPrefixOf_iff_prefix]
    cases expected.isPrefixOf req.contentType with
    | true => simp
    | false => simp [Reply.Ran]

theorem passes_of_bare {E : EndpointType X R Req} (bare : E.wrappers = []) (req : Request X) :
    E.Passes fromSlice req := by
  cases E with
  | endpoint method path => trivial
  | _ => cases bare

theorem wrappers_of_hasReqType {E : EndpointType X R Req} (hasReq : E.HasReqType) :
    E.wrappers = [] := by
  cases E with
  | endpoint method path => rfl
  | _ => exact hasReq.elim

/-- Behind a binder that covers the nesting, every check has been made. -/
theorem passes_of_covers (b : Binding E) {req : Request X}
    (covers : b.binder.Covers E.wrappers req) (own : b.own fromSlice req) :
    E.Passes fromSlice req := by
  cases b with
  | bind bindable handler => exact passes_of_bare fromSlice covers req
  | bindProtected bindable handler =>
    exact ⟨own, passes_of_bare fromSlice (List.cons.inj covers).2 req⟩
  | bindValidated bindable hasReq handler =>
    exact ⟨own, passes_of_bare fromSlice (wrappers_of_hasReqType hasReq) req⟩
  | @bindContentType expected inner bindable handler =>
    obtain ⟨tail, split⟩ := own
    obtain ⟨bare, ends⟩ := covers tail split.symm
    refine ⟨?_, passes_of_bare fromSlice (List.cons.inj bare).2 req⟩
    rw [← split]
    exact isContentType_append.2 ends

end Binding

/-- The same nesting, with checks that a request fails. -/
def EndpointType.strict (req : Request X) : EndpointType X R Req → EndpointType X R Req
  | endpoint method path => endpoint method path
  | protect A inner => protect A (inner.strict req)
  | validated _ inner => validated (fun _ => .error []) (inner.strict req)
  | contentType _ inner => contentType (' ' :: req.contentType) (inner.strict req)

theorem EndpointType.wrappers_strict (req : Request X) (E : EndpointType X R Req) :
    (E.strict req).wrappers = E.wrappers := by
  induction E with
  | endpoint method path => rfl
  | protect A inner ih | validated validate inner ih | contentType expected inner ih =>
    exact congrArg (_ :: ·) ih

theorem EndpointType.bindable_strict (req : Request X) {E : EndpointType X R Req}
    (bindable : E.Bindable) : (E.strict req).Bindable := by
  induction E with
  | endpoint method path => trivial
  | protect A inner ih => exact bindable.elim
  | validated validate inner ih | contentType expected inner ih => exact ih bindable

theorem EndpointType.not_passes_strict (req : Request X) {E : EndpointType X R Req}
    (bindable : E.Bindable) (wrapped : E.wrappers ≠ []) :
    ¬ (E.strict req).Passes fromSlice req := by
  cases E with
  | endpoint method path => exact absurd rfl wrapped
  | protect A inner => exact bindable.elim
  | validated validate inner =>
    rintro ⟨⟨parsed, -, valid⟩, -⟩
    cases valid
  | contentType expected inner =>
    rintro ⟨is, -⟩
    exact not_isContentType_cons ' ' req.contentType is

/-- The authentications among the checks. -/
def EndpointType.Authenticated : EndpointType X R Req → Request X → Prop
  | endpoint _ _, _ => True
  | protect A inner, req =>
    (∃ auth, A.fromRequestParts req.parts = .ok auth) ∧ inner.Authenticated req
  | validated _ inner, req | contentType _ inner, req => inner.Authenticated req

theorem EndpointType.authenticated_of_bindable {E : EndpointType X R Req} (bindable : E.Bindable)
    (req : Request X) : E.Authenticated req := by
  induction E with
  | endpoint method path => trivial
  | protect A inner ih => exact bindable.elim
  | validated validate inner ih => exact ih bindable
  | contentType expected inner ih => exact ih bindable

namespace Binding

variable {E : EndpointType X R Req}

/-- No accepted binding skips an authentication. -/
theorem authenticated (b : Binding E) {req : Request X}
    (ran : (b.respond fromSlice req).Ran) : E.Authenticated req := by
  have own := ((b.ran_iff fromSlice req).1 ran).1
  cases b with
  | bind bindable handler => exact E.authenticated_of_bindable bindable req
  | @bindProtected A inner bindable handler =>
    exact ⟨own, inner.authenticated_of_bindable bindable req⟩
  | @bindValidated validate inner bindable hasReq handler =>
    exact inner.authenticated_of_bindable bindable req
  | @bindContentType expected inner bindable handler =>
    exact inner.authenticated_of_bindable bindable req

section

variable [Inhabited R]

/-- A handler that takes nothing from the request. -/
def always : Handler X R where
  Args := Unit
  fromRequest _ := .ok ()
  call _ := default

def admitting : AuthType X R where
  Val := Unit
  fromRequestParts _ := .ok ()

def alwaysAuth : AuthHandler X R admitting where
  Args := Unit
  fromRequest _ := .ok ()
  call _ _ := default

/-- Where a binder does not cover a nesting, some binding of its kind skips a check. -/
theorem skips_of_not_covers (b : Binding E) {req : Request X}
    (uncovered : ¬ b.binder.Covers E.wrappers req) :
    ∃ (E' : EndpointType X R Req) (b' : Binding E'), E'.wrappers = E.wrappers ∧
      b'.binder = b.binder ∧ (b'.respond fromSlice req).Ran ∧ ¬ E'.Passes fromSlice req := by
  cases b with
  | bind bindable handler =>
    refine ⟨E.strict req, .bind (E.bindable_strict req bindable) always, E.wrappers_strict req,
      rfl, trivial, ?_⟩
    exact E.not_passes_strict fromSlice req bindable uncovered
  | @bindProtected A inner bindable handler =>
    have wrapped : inner.wrappers ≠ [] := fun bare => uncovered (congrArg (_ :: ·) bare)
    refine ⟨.protect admitting (inner.strict req),
      .bindProtected (inner.bindable_strict req bindable) alwaysAuth,
      congrArg (_ :: ·) (inner.wrappers_strict req), rfl, trivial, ?_⟩
    exact fun passes => inner.not_passes_strict fromSlice req bindable wrapped passes.2
  | bindValidated bindable hasReq handler =>
    exact absurd (congrArg (_ :: ·) (wrappers_of_hasReqType hasReq)) uncovered
  | @bindContentType expected inner bindable handler =>
    obtain ⟨tail, split, uncovered⟩ :
        ∃ tail, req.contentType = expected ++ tail ∧ ¬ (inner.wrappers = [] ∧ Ends tail) := by
      by_contra none
      refine uncovered fun tail split => ?_
      by_contra uncovered
      exact none ⟨tail, split, fun covered =>
        uncovered ⟨congrArg (_ :: ·) covered.1, covered.2⟩⟩
    refine ⟨.contentType expected (inner.strict req),
      .bindContentType (inner.bindable_strict req bindable) always,
      congrArg (_ :: ·) (inner.wrappers_strict req), rfl, ?_, ?_⟩
    · rw [ran_iff]
      exact ⟨⟨tail, split.symm⟩, (), rfl⟩
    · rintro ⟨is, passes⟩
      rw [split] at is
      refine uncovered ⟨?_, isContentType_append.1 is⟩
      by_contra wrapped
      exact inner.not_passes_strict fromSlice req bindable wrapped passes

/-- **The nestings whose checks all stand before the handler, by the binder and the header.**
Whatever the binder, no authentication is skipped. -/
theorem enforced_iff (b : Binding E) (req : Request X) :
    ((∀ (E' : EndpointType X R Req) (b' : Binding E'), E'.wrappers = E.wrappers →
        b'.binder = b.binder → (b'.respond fromSlice req).Ran → E'.Passes fromSlice req) ↔
      b.binder.Covers E.wrappers req) ∧
    ((b.respond fromSlice req).Ran → E.Authenticated req) := by
  refine ⟨⟨?_, ?_⟩, b.authenticated fromSlice⟩
  · intro enforced
    by_contra uncovered
    obtain ⟨E', b', nesting, binder, ran, failing⟩ := b.skips_of_not_covers fromSlice uncovered
    exact failing (enforced E' b' nesting binder ran)
  · intro covers E' b' nesting binder ran
    rw [← nesting, ← binder] at covers
    exact b'.passes_of_covers fromSlice covers ((b'.ran_iff fromSlice req).1 ran).1

end

end Binding

end

/-- A body type whose values are the bytes themselves. -/
def bytesFromSlice (body : List UInt8) : Except Str (List UInt8) :=
  .ok body

/-- A handler without arguments. -/
def unitHandler : Handler Unit Unit where
  Args := Unit
  fromRequest _ := .ok ()
  call _ := ()

/-- `Validated<NonEmpty, PostEndpoint<path!("users"), _, _>>` -/
def nonEmptyUsers : EndpointType Unit Unit (List UInt8) :=
  .validated (fun body => if body.isEmpty then .error "username required".toList else .ok ())
    (.endpoint .post (.lit "users".toList .hnil))

/-- `bind` takes the type too, and runs the handler on the empty body. -/
theorem not_enforced_users :
    ¬ (((Binding.bind (E := nonEmptyUsers) trivial unitHandler).respond bytesFromSlice
          ⟨⟨[], ()⟩, []⟩).Ran →
        nonEmptyUsers.Passes bytesFromSlice ⟨⟨[], ()⟩, []⟩) := by
  intro enforced
  obtain ⟨⟨parsed, decoded, valid⟩, -⟩ := enforced trivial
  cases decoded
  cases valid

end Typeway.Server
