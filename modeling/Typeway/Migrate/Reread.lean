import Typeway.Migrate.ParseTypeway
import Typeway.Migrate.PathNames

/-!
# Reading the printed program

What `parse_typeway_file` collects from the items of the program that `emit_typeway` prints: the
endpoint types that are wrapped once at most, the last path declared under a name, the first handler
printed under a name, and all names of handlers.
-/

namespace Typeway.Migrate

open Typeway.Core

/-! ## Endpoint types -/

namespace EndpointModel

/-- Wrapped once at most. -/
def SingleWrapped (ep : EndpointModel) : Prop :=
  ¬ (ep.requiresAuth = true ∧ ep.authType.isSome = true ∧ ep.validatorName.isSome = true)

/-- The method of the endpoint type. -/
def readMethod (ep : EndpointModel) : HttpMethod :=
  match ep.method with
  | .head | .options => .get
  | method => method

/-- The body of the endpoint type. -/
def readBody (ep : EndpointModel) : Option Ty :=
  if ep.method.hasBody then some (ep.requestBody.getD .unit) else none

variable (toLowercase : Char → Str) (pathTypes : List (Str × PathModel))

/-- What the type without its wrappers is read as. -/
def bareEndpoint (ep : EndpointModel) : RawEndpoint where
  method := ep.readMethod
  path := (IndexMap.lookup ep.path.typewayTypeName pathTypes).getD
    (placeholderPath toLowercase ep.path.typewayTypeName)
  requestBody := ep.readBody
  responseType := ep.responseType
  requiresAuth := false
  authType := none
  hasValidation := false
  validatorName := none
  bindMacro := .bind

/-- What the type of an endpoint is read as. -/
def readEndpoint (ep : EndpointModel) : RawEndpoint :=
  let bare := ep.bareEndpoint toLowercase pathTypes
  match ep.requiresAuth, ep.authType, ep.validatorName with
  | true, some auth, _ =>
    { bare with requiresAuth := true, authType := some auth, bindMacro := .bindAuth }
  | _, _, some validator =>
    { bare with hasValidation := true, validatorName := some validator, bindMacro := .bindValidated }
  | _, _, _ => bare

end EndpointModel

section

variable {toLowercase : Char → Str} {pathTypes : List (Str × PathModel)}

theorem parseInnerEndpointType_bareType (ep : EndpointModel) :
    parseInnerEndpointType toLowercase pathTypes ep.bareType =
      some (ep.bareEndpoint toLowercase pathTypes) := by
  obtain ⟨method, path, handler, requestBody, responseType, _, _, _, _, _⟩ := ep
  cases method <;> cases requestBody <;> rfl

theorem parseEndpointType_bareType (ep : EndpointModel) :
    parseEndpointType toLowercase pathTypes ep.bareType =
      some (ep.bareEndpoint toLowercase pathTypes) := by
  obtain ⟨method, path, handler, requestBody, responseType, _, _, _, _, _⟩ := ep
  cases method <;> cases requestBody <;> rfl

theorem parseEndpointType_validatedType (ep : EndpointModel) :
    parseEndpointType toLowercase pathTypes ep.validatedType =
      some (match ep.validatorName with
        | some validator =>
          { ep.bareEndpoint toLowercase pathTypes with
            hasValidation := true
            validatorName := some validator
            bindMacro := .bindValidated }
        | none => ep.bareEndpoint toLowercase pathTypes) := by
  unfold EndpointModel.validatedType
  cases ep.validatorName with
  | none => exact parseEndpointType_bareType ep
  | some validator =>
    have inner := @parseInnerEndpointType_bareType toLowercase pathTypes ep
    show (parseInnerEndpointType toLowercase pathTypes ep.bareType).bind _ = _
    rw [inner]
    rfl

/-- A type that is wrapped twice is not read. -/
theorem parseEndpointType_protected (ep : EndpointModel) (auth : Str) :
    parseEndpointType toLowercase pathTypes
        (.path ["Protected".toList] [.named auth, ep.validatedType]) =
      if ep.validatorName.isSome then none
      else some
        { ep.bareEndpoint toLowercase pathTypes with
          requiresAuth := true
          authType := some auth
          bindMacro := .bindAuth } := by
  unfold EndpointModel.validatedType
  show (parseInnerEndpointType toLowercase pathTypes _).bind _ = _
  cases ep.validatorName with
  | some validator => rfl
  | none =>
    rw [parseInnerEndpointType_bareType]
    rfl

theorem parseEndpointType_endpointType (hasCors : Bool) (ep : EndpointModel) :
    parseEndpointType toLowercase pathTypes (ep.endpointType hasCors) =
      parseEndpointType toLowercase pathTypes ep.wrappedType := by
  unfold EndpointModel.endpointType
  split
  · rfl
  · rfl

theorem wrappedType_eq (ep : EndpointModel) :
    ep.wrappedType =
      match ep.requiresAuth, ep.authType with
      | true, some auth => .path ["Protected".toList] [.named auth, ep.validatedType]
      | _, _ => ep.validatedType := by
  unfold EndpointModel.wrappedType
  cases ep.requiresAuth <;> cases ep.authType <;> rfl

/-- A printed endpoint type is read when it is not wrapped twice. -/
theorem parseEndpointType_of_single {ep : EndpointModel} (single : ep.SingleWrapped)
    (hasCors : Bool) :
    parseEndpointType toLowercase pathTypes (ep.endpointType hasCors) =
      some (ep.readEndpoint toLowercase pathTypes) := by
  rw [parseEndpointType_endpointType, wrappedType_eq, EndpointModel.readEndpoint]
  cases required : ep.requiresAuth with
  | false =>
    refine parseEndpointType_validatedType ep |>.trans ?_
    cases ep.validatorName <;> rfl
  | true =>
    cases authorized : ep.authType with
    | none =>
      refine parseEndpointType_validatedType ep |>.trans ?_
      cases ep.validatorName <;> rfl
    | some auth =>
      have plain : ¬ ep.validatorName.isSome = true :=
        fun validated => single ⟨required, authorized ▸ rfl, validated⟩
      exact (parseEndpointType_protected ep auth).trans (if_neg plain)

theorem parseEndpointType_of_not_single {ep : EndpointModel} (twice : ¬ ep.SingleWrapped)
    (hasCors : Bool) :
    parseEndpointType toLowercase pathTypes (ep.endpointType hasCors) = none := by
  obtain ⟨required, authorized, validated⟩ := not_not.1 twice
  obtain ⟨auth, found⟩ := Option.isSome_iff_exists.1 authorized
  rw [parseEndpointType_endpointType, wrappedType_eq, required, found]
  exact (parseEndpointType_protected ep auth).trans (if_pos validated)

end

/-! ## The items -/

/-- An item that is passed through. -/
inductive Item.Quiet : Item → Prop
  | use (text : Str) : Quiet (.use text)
  | other (text : Str) : Quiet (.other text)

section

variable {lowered : Ty → Str} {toLowercase : Char → Str}

theorem foldl_quiet {items : List Item} (quiet : ∀ item ∈ items, item.Quiet) (s : Collected) :
    ∃ passed used, items.foldl (Collected.step lowered toLowercase) s =
      { s with passthroughItems := passed, useItems := used } := by
  induction items generalizing s with
  | nil => exact ⟨_, _, rfl⟩
  | cons item items ih =>
    rw [List.forall_mem_cons] at quiet
    rw [List.foldl_cons]
    cases quiet.1 with
    | use text =>
      obtain ⟨passed, used, eq⟩ := ih quiet.2
        { s with useItems := s.useItems ++ [text] }
      exact ⟨passed, used, eq⟩
    | other text =>
      obtain ⟨passed, used, eq⟩ := ih quiet.2
        { s with passthroughItems := s.passthroughItems ++ [text] }
      exact ⟨passed, used, eq⟩

/-- What a declared path is read as. -/
def PathModel.reread (lowered : Ty → Str) (path : PathModel) : PathModel :=
  parseTypewayPath lowered path.typewayTypeName (path.segments.map PathSegment.token)

/-- The last declaration of a name counts. -/
theorem foldl_declarations {items : List Item}
    (declared : ∀ item ∈ items, ∃ path : PathModel, item = path.declaration) (s : Collected) :
    ∃ types, items.foldl (Collected.step lowered toLowercase) s = { s with pathTypes := types } ∧
      ∀ name, (IndexMap.lookup name types = IndexMap.lookup name s.pathTypes ∧
          ∀ path : PathModel, path.declaration ∈ items → path.typewayTypeName ≠ name) ∨
        ∃ path : PathModel, path.declaration ∈ items ∧ path.typewayTypeName = name ∧
          IndexMap.lookup name types = some (path.reread lowered) := by
  induction items generalizing s with
  | nil => exact ⟨_, rfl, fun name => .inl ⟨rfl, by simp⟩⟩
  | cons item items ih =>
    rw [List.forall_mem_cons] at declared
    obtain ⟨⟨path, rfl⟩, rest⟩ := declared
    let inserted := IndexMap.insert path.typewayTypeName (path.reread lowered) s.pathTypes
    obtain ⟨types, eq, spec⟩ := ih rest { s with pathTypes := inserted }
    refine ⟨types, eq, ?_⟩
    intro name
    rcases spec name with ⟨same, others⟩ | ⟨path', mem, named, found⟩
    · rw [show ({ s with pathTypes := inserted } : Collected).pathTypes = inserted from rfl,
        IndexMap.lookup_insert] at same
      by_cases here : name = path.typewayTypeName
      · rw [if_pos here] at same
        exact .inr ⟨path, List.mem_cons_self, here.symm, same⟩
      · rw [if_neg here] at same
        refine .inl ⟨same, ?_⟩
        intro path' mem
        rcases List.mem_cons.1 mem with eq | mem
        · have named := (Item.typewayPath.inj eq).1
          rw [named]
          exact Ne.symm here
        · exact others path' mem
    · exact .inr ⟨path', List.mem_cons_of_mem _ mem, named, found⟩

end

/-! ## Handlers -/

/-- The printed handler, if it is not taken for the server. -/
def EndpointModel.handlerFn (ep : EndpointModel) : Option ItemFn :=
  match extractServerInfo (emitSingleHandler ep) with
  | some _ => none
  | none => some (emitSingleHandler ep)

section

variable {lowered : Ty → Str} {toLowercase : Char → Str}

theorem step_server {func : ItemFn} {info : ServerInfo}
    (server : extractServerInfo func = some info) (s : Collected) :
    s.step lowered toLowercase (.fn func) =
      { s with
        handlerOrder := info.handlerNames
        layers := info.layers
        stateType := info.stateType.or s.stateType } := by
  unfold Collected.step
  simp only [server]

theorem step_async {func : ItemFn} (plain : extractServerInfo func = none)
    (async : func.isAsync = true) (s : Collected) :
    s.step lowered toLowercase (.fn func) =
      { s with handlerFns := IndexMap.insert func.name func s.handlerFns } := by
  unfold Collected.step
  simp only [plain, async, if_true]

theorem step_handler (s : Collected) (ep : EndpointModel) :
    ∃ fns order layers state, s.step lowered toLowercase (.fn (emitSingleHandler ep)) =
        { s with handlerFns := fns, handlerOrder := order, layers := layers, stateType := state } ∧
      ∀ name, IndexMap.lookup name fns =
        if name = ep.handler.name then ep.handlerFn.or (IndexMap.lookup name s.handlerFns)
        else IndexMap.lookup name s.handlerFns := by
  unfold EndpointModel.handlerFn
  cases server : extractServerInfo (emitSingleHandler ep) with
  | some info =>
    refine ⟨_, _, _, _, step_server server s, ?_⟩
    intro name
    exact (ite_self _).symm
  | none =>
    refine ⟨_, _, _, _, step_async server rfl s, ?_⟩
    intro name
    exact IndexMap.lookup_insert _ _ _ _

/-- The first endpoint of a handler prints it. -/
theorem foldl_emitHandlers (endpoints : List EndpointModel) (seen : List Str) (s : Collected) :
    ∃ fns order layers state,
      (emitHandlers seen endpoints).foldl (Collected.step lowered toLowercase) s =
        { s with handlerFns := fns, handlerOrder := order, layers := layers, stateType := state } ∧
      ∀ name, IndexMap.lookup name fns =
        if seen.contains name then IndexMap.lookup name s.handlerFns
        else ((endpoints.find? fun ep => ep.handler.name = name).bind
          EndpointModel.handlerFn).or (IndexMap.lookup name s.handlerFns) := by
  induction endpoints generalizing seen s with
  | nil => exact ⟨_, _, _, _, rfl, fun name => by simp⟩
  | cons ep endpoints ih =>
    rw [emitHandlers]
    by_cases printed : seen.contains ep.handler.name = true
    · rw [if_pos printed]
      obtain ⟨fns, order, layers, state, eq, spec⟩ := ih seen s
      refine ⟨fns, order, layers, state, eq, ?_⟩
      intro name
      rw [spec name]
      by_cases known : seen.contains name = true
      · rw [if_pos known, if_pos known]
      · have other : ep.handler.name ≠ name := fun same => known (same ▸ printed)
        rw [if_neg known, if_neg known, List.find?_cons_of_neg (by simpa using other)]
    · rw [if_neg printed, List.foldl_cons]
      obtain ⟨fns₁, order₁, layers₁, state₁, eq₁, spec₁⟩ := @step_handler lowered toLowercase s ep
      rw [eq₁]
      obtain ⟨fns, order, layers, state, eq, spec⟩ := ih (ep.handler.name :: seen)
        { s with handlerFns := fns₁, handlerOrder := order₁, layers := layers₁, stateType := state₁ }
      refine ⟨fns, order, layers, state, eq, ?_⟩
      intro name
      rw [spec name, spec₁ name]
      by_cases here : name = ep.handler.name
      · subst here
        rw [if_neg printed, if_pos (by simp), if_pos rfl, List.find?_cons_of_pos (by simp)]
        rfl
      · have known : (ep.handler.name :: seen).contains name = seen.contains name := by
          simp [here]
        rw [known, if_neg here, List.find?_cons_of_neg (by simpa using Ne.symm here)]

/-! ## The server -/

/-- A chain of calls that ends at a server with these handlers. -/
def Serves (names : List Str) (e : Expr) : Prop :=
  ∀ info, ((extractServerChain e info).1.handlerNames, (extractServerChain e info).2) = (names, true)

variable {names : List Str} {e : Expr}

theorem Serves.method (serves : Serves names e) (name : Str) (args : List Expr) :
    Serves names (.method e name args) :=
  fun _ => serves _

theorem Serves.await (serves : Serves names e) : Serves names (.await e) :=
  fun _ => serves _

theorem Serves.chain (serves : Serves names e) (name : Str) (args : List (List Expr)) :
    Serves names (chain e name args) := by
  unfold Migrate.chain
  induction args generalizing e with
  | nil => exact serves
  | cons arg args ih => exact ih (serves.method name arg)

theorem extractBindHandlerNames_emitBinds (model : ApiModel) :
    extractBindHandlerNames (emitBinds model) = model.endpoints.map fun ep => ep.handler.name := by
  have bound (ep : EndpointModel) :
      extractSingleBindName (.mac ep.bindMacro.macroName ep.handler.name) = some ep.handler.name := by
    unfold extractSingleBindName
    cases ep.bindMacro <;> exact if_pos (by decide)
  show (model.endpoints.map _).filterMap extractSingleBindName = _
  rw [List.filterMap_map]
  have each : (extractSingleBindName ∘ fun ep : EndpointModel =>
      Expr.mac ep.bindMacro.macroName ep.handler.name) = fun ep => some ep.handler.name :=
    funext bound
  rw [each, List.filterMap_eq_map']

/-- The printed chain is read as a server with all handlers in order. -/
theorem serves_emitServerChain (model : ApiModel) :
    Serves (model.endpoints.map fun ep => ep.handler.name) (emitServerChain model) := by
  have names := extractBindHandlerNames_emitBinds model
  have new (server : Str) (known : isServerNew (.path [server, "new".toList]) = true) :
      Serves (model.endpoints.map fun ep => ep.handler.name)
        (.call (.path [server, "new".toList]) [emitBinds model]) := by
    intro info
    rw [extractServerChain, if_pos known, ← names]
    rfl
  unfold emitServerChain
  cases model.detectedEffects.isEmpty <;> cases model.stateType <;> cases model.pathPrefix
  all_goals
    simp only [Bool.not_true, Bool.not_false, Bool.false_eq_true, if_true, if_false]
    apply Serves.await
    repeat first | apply Serves.method | apply Serves.chain
    exact new _ (by decide)

theorem step_serves (serves : Serves names e) {func : ItemFn} (body : func.body = [.expr e])
    (s : Collected) :
    ∃ layers state, s.step lowered toLowercase (.fn func) =
      { s with handlerOrder := names, layers := layers, stateType := state } := by
  obtain ⟨same, found⟩ := Prod.mk.inj (serves {})
  have server : extractServerInfo func = some (extractServerChain e {}).1 := by
    unfold extractServerInfo
    rw [body]
    show (if (false || (extractServerChain e {}).2) = true then
      some (extractServerChain e {}).1 else none) = _
    rw [found]
    rfl
  subst same
  exact ⟨_, _, step_server server s⟩

theorem step_emitServer (s : Collected) (model : ApiModel) :
    ∃ layers state, s.step lowered toLowercase (emitServer model) =
      { s with
        handlerOrder := model.endpoints.map fun ep => ep.handler.name
        layers := layers
        stateType := state } :=
  step_serves (serves_emitServerChain model) rfl s

end

/-! ## The file -/

section

variable (lowered : Ty → Str) (toLowercase : Char → Str) (model : ApiModel)

/-- The printed handler of a name, if it is not taken for the server. -/
def ApiModel.writtenHandler (name : Str) : Option ItemFn :=
  (model.endpoints.find? fun ep => ep.handler.name = name).bind EndpointModel.handlerFn

def collected : Collected :=
  (emitTypeway model).foldl (Collected.step lowered toLowercase) {}

def reparsed : ApiModel :=
  parseTypewayFile lowered toLowercase (emitTypeway model)

/-- What is collected from the printed program. -/
structure Read (s : Collected) : Prop where
  paths : ∀ ep ∈ model.endpoints, ∃ ep' ∈ model.endpoints,
    ep'.path.typewayTypeName = ep.path.typewayTypeName ∧
      IndexMap.lookup ep.path.typewayTypeName s.pathTypes = some (ep'.path.reread lowered)
  endpoints : s.rawEndpoints = model.endpoints.filterMap fun ep =>
    parseEndpointType toLowercase s.pathTypes
      (ep.endpointType (model.detectedEffects.contains corsRequired))
  handlers : ∀ name, IndexMap.lookup name s.handlerFns = model.writtenHandler name
  order : s.handlerOrder = model.endpoints.map fun ep => ep.handler.name

variable {lowered toLowercase model}

theorem quiet_emitUseStatements : ∀ item ∈ emitUseStatements model, item.Quiet := by
  unfold emitUseStatements
  simp only [List.forall_mem_append, List.forall_mem_singleton]
  refine ⟨⟨.use _, ?_⟩, ?_⟩
  · split
    · exact List.forall_mem_nil _
    · exact List.forall_mem_cons.2 ⟨.use _, List.forall_mem_singleton.2 (.use _)⟩
  · split
    · refine List.forall_mem_cons.2 ⟨.use _, ?_⟩
      split
      · exact List.forall_mem_singleton.2 (.use _)
      · exact List.forall_mem_nil _
    · exact List.forall_mem_nil _

theorem quiet_others (texts : List Str) : ∀ item ∈ texts.map Item.other, item.Quiet := by
  intro item mem
  obtain ⟨text, _, rfl⟩ := List.mem_map.1 mem
  exact .other text

theorem step_api (ty : Ty) (s : Collected) :
    s.step lowered toLowercase (.typeAlias "API".toList ty) =
      { s with rawEndpoints := parseApiTypeAlias toLowercase s.pathTypes ty } := by
  show (if "API".toList = "API".toList then
      { s with rawEndpoints := parseApiTypeAlias toLowercase s.pathTypes ty }
    else { s with passthroughItems := s.passthroughItems ++ ["API".toList] }) = _
  exact if_pos rfl

theorem step_emitApiType (s : Collected) :
    s.step lowered toLowercase (emitApiType model) =
      { s with
        rawEndpoints := model.endpoints.filterMap fun ep =>
          parseEndpointType toLowercase s.pathTypes
            (ep.endpointType (model.detectedEffects.contains corsRequired)) } := by
  have types : parseApiTypeAlias toLowercase s.pathTypes
      (.tuple (model.endpoints.map
        (EndpointModel.endpointType (model.detectedEffects.contains corsRequired)))) =
      model.endpoints.filterMap fun ep =>
        parseEndpointType toLowercase s.pathTypes
          (ep.endpointType (model.detectedEffects.contains corsRequired)) :=
    List.filterMap_map
  rw [← types]
  unfold emitApiType
  exact step_api _ s

/-- **What is collected** from the printed program. -/
theorem read_collected (named : ∀ ep ∈ model.endpoints, ∀ ep' ∈ model.endpoints,
      ep'.path.rawPattern = ep.path.rawPattern →
        ep'.path.typewayTypeName = ep.path.typewayTypeName) :
    Read lowered toLowercase model (collected lowered toLowercase model) := by
  unfold collected emitTypeway
  simp only [List.foldl_append, List.foldl_cons, List.foldl_nil]
  obtain ⟨passed₁, used₁, eq⟩ := @foldl_quiet lowered toLowercase _ quiet_emitUseStatements {}
  rw [eq]
  obtain ⟨passed₂, used₂, eq⟩ := @foldl_quiet lowered toLowercase _
    (quiet_others model.passthroughItems) { passthroughItems := passed₁, useItems := used₁ }
  rw [eq]
  have declared : ∀ item ∈ emitPathDeclarations [] model.endpoints,
      ∃ path : PathModel, item = path.declaration := by
    intro item mem
    obtain ⟨ep, _, same⟩ := mem_emitPathDeclarations mem
    exact ⟨ep.path, same⟩
  obtain ⟨types, eq, spec⟩ := @foldl_declarations lowered toLowercase _ declared
    { passthroughItems := passed₂, useItems := used₂ }
  rw [eq]
  obtain ⟨passed₃, used₃, eq⟩ := @foldl_quiet lowered toLowercase _
    (quiet_others _) { pathTypes := types, passthroughItems := passed₂, useItems := used₂ }
  rw [emitValidatorStructs, eq, step_emitApiType]
  generalize raw : (model.endpoints.filterMap fun ep =>
    parseEndpointType toLowercase types
      (ep.endpointType (model.detectedEffects.contains corsRequired))) = rawEndpoints
  obtain ⟨fns, order, layers, state, eq, handlers⟩ := @foldl_emitHandlers lowered toLowercase
    model.endpoints [] { pathTypes := types, rawEndpoints, passthroughItems := passed₃, useItems := used₃ }
  rw [eq]
  obtain ⟨layers', state', eq⟩ := @step_emitServer lowered toLowercase
    { handlerFns := fns, pathTypes := types, rawEndpoints, handlerOrder := order, layers := layers,
      stateType := state, passthroughItems := passed₃, useItems := used₃ } model
  rw [eq]
  refine ⟨?_, raw.symm, ?_, rfl⟩
  · intro ep mem
    obtain ⟨ep', mem', raw, declared⟩ := declaration_mem mem List.not_mem_nil
    rcases spec ep.path.typewayTypeName with ⟨_, others⟩ | ⟨path, there, name, found⟩
    · exact absurd (named ep mem ep' mem' raw) (others _ declared)
    · obtain ⟨last, known, same⟩ := mem_emitPathDeclarations there
      obtain ⟨name', tokens⟩ := Item.typewayPath.inj same
      refine ⟨last, known, name'.symm.trans name, found.trans ?_⟩
      rw [PathModel.reread, PathModel.reread, name', tokens]
  · intro name
    rw [handlers name]
    exact Option.or_none

end

end Typeway.Migrate
