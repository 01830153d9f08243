import Mathlib.Data.List.Basic

/-!
# Effects that an API requires

`effects.rs`, `mount.rs` and `serves.rs`: `Requires<E, _>` marks an endpoint that needs the
middleware `E`, and the builders count the calls of `provide` in their types. The trait rules are
written as derivations, and a chain of builder calls as a run over the types of the builders.
`effectful_iff` says which chains may end in a server that lacks a required effect: those that no
rule looks at, because they begin with `Server::new` or mount what the API does not list.
-/

namespace Typeway.Server.Effects

/-- The wrappers around an endpoint other than `Requires`. -/
inductive Wrapper where
  | validated
  | protect
  | versioned
  | contentType
  | rateLimited
  | strict
  | serverStream
  | clientStream
  | bidirectionalStream
  deriving DecidableEq

/-- API types over the effects `F`. An endpoint is told apart by its name. -/
inductive ApiType (F : Type) where
  | endpoint (name : String)
  | requires (effect : F) (inner : ApiType F)
  | wrapped (wrapper : Wrapper) (inner : ApiType F)
  | versionedApi (base changes resolved : ApiType F)
  | tuple (elements : List (ApiType F))

variable {F : Type}

/-- The largest arity of tuples that the macros of the crates reach. -/
def maxArity : Nat := 25

inductive ApiSpec : ApiType F → Prop
  | endpoint (name : String) : ApiSpec (.endpoint name)
  | requires (effect : F) {inner : ApiType F} (spec : ApiSpec inner) :
      ApiSpec (.requires effect inner)
  | wrapped (wrapper : Wrapper) {inner : ApiType F} (spec : ApiSpec inner) :
      ApiSpec (.wrapped wrapper inner)
  | versionedApi (base changes : ApiType F) {resolved : ApiType F} (spec : ApiSpec resolved) :
      ApiSpec (.versionedApi base changes resolved)
  | tuple {elements : List (ApiType F)} (arity : 1 ≤ elements.length ∧ elements.length ≤ maxArity)
      (specs : ∀ T ∈ elements, ApiSpec T) : ApiSpec (.tuple elements)

/-- `HasEffect<E, Idx>` on an `ECons` list, for some index. -/
inductive HasEffect (effect : F) : List F → Prop
  | here (tail : List F) : HasEffect effect (effect :: tail)
  | there (head : F) {tail : List F} (has : HasEffect effect tail) : HasEffect effect (head :: tail)

/-- `AllProvided<P, Idx>`, for some index. Of the wrappers only two hand it on. -/
inductive AllProvided (provided : List F) : ApiType F → Prop
  | endpoint (name : String) : AllProvided provided (.endpoint name)
  | requires {effect : F} {inner : ApiType F} (all : AllProvided provided inner)
      (has : HasEffect effect provided) : AllProvided provided (.requires effect inner)
  | validated {inner : ApiType F} (all : AllProvided provided inner) :
      AllProvided provided (.wrapped .validated inner)
  | protect {inner : ApiType F} (all : AllProvided provided inner) :
      AllProvided provided (.wrapped .protect inner)
  | versionedApi {base changes resolved : ApiType F} (all : AllProvided provided resolved) :
      AllProvided provided (.versionedApi base changes resolved)
  | tuple {elements : List (ApiType F)} (arity : elements.length ≤ maxArity)
      (all : ∀ T ∈ elements, AllProvided provided T) : AllProvided provided (.tuple elements)

/-- `Serves<A>`, for handlers that register the given endpoints: a tuple of bound handlers, a tuple
of sub-APIs, or the handlers of the resolved API of a version. -/
inductive Serves : List (ApiType F) → ApiType F → Prop
  | bound {endpoints : List (ApiType F)}
      (arity : 1 ≤ endpoints.length ∧ endpoints.length ≤ maxArity)
      (specs : ∀ T ∈ endpoints, ApiSpec T) : Serves endpoints (.tuple endpoints)
  | subApis {parts : List (List (ApiType F) × ApiType F)}
      (arity : 2 ≤ parts.length ∧ parts.length ≤ 10)
      (serves : ∀ part ∈ parts, Serves part.1 part.2) :
      Serves (parts.flatMap Prod.fst) (.tuple (parts.map Prod.snd))
  | versionedApi {endpoints : List (ApiType F)} {base changes resolved : ApiType F}
      (serves : Serves endpoints resolved) : Serves endpoints (.versionedApi base changes resolved)

/-- `AllMounted<M, Idx>`, for some index. -/
inductive AllMounted (mounted : List (ApiType F)) : ApiType F → Prop
  | tuple {elements : List (ApiType F)} (arity : elements.length ≤ 10)
      (all : ∀ T ∈ elements, T ∈ mounted) : AllMounted mounted (.tuple elements)

/-- The calls of a chain. Handlers are given by the endpoints they register. -/
inductive BuilderCall (F : Type) where
  | serverNew (api : ApiType F) (handlers : List (ApiType F))
  | effectfulNew (api : ApiType F) (handlers : List (ApiType F))
  | builderNew (api : ApiType F)
  | mount (sub : ApiType F) (handlers : List (ApiType F))
  | provide (effect : F)
  | layer
  /-- `nest`, `with_state` and `max_body_size`. -/
  | configure
  | ready
  | build

/-- The types of the builders. `layered` tells the layered forms apart. -/
inductive Builder (F : Type) where
  | server (layered : Bool)
  | effectfulServer (api : ApiType F) (provided : List F) (layered : Bool)
  | serverBuilder (api : ApiType F) (mounted : List (ApiType F)) (provided : List F)
      (layered : Bool)

/-- A chain of calls, the type it ends in and the endpoints in its router. -/
inductive Chain : List (BuilderCall F) → Builder F → List (ApiType F) → Prop
  | serverNew {api : ApiType F} {handlers : List (ApiType F)} (spec : ApiSpec api)
      (serves : Serves handlers api) :
      Chain [.serverNew api handlers] (.server false) handlers
  | effectfulNew {api : ApiType F} {handlers : List (ApiType F)} (spec : ApiSpec api)
      (serves : Serves handlers api) :
      Chain [.effectfulNew api handlers] (.effectfulServer api [] false) handlers
  | builderNew {api : ApiType F} (spec : ApiSpec api) :
      Chain [.builderNew api] (.serverBuilder api [] [] false) []
  | mount {calls : List (BuilderCall F)} {api sub : ApiType F} {mounted : List (ApiType F)}
      {provided : List F} {router handlers : List (ApiType F)}
      (chain : Chain calls (.serverBuilder api mounted provided false) router)
      (spec : ApiSpec sub) (serves : Serves handlers sub) :
      Chain (calls ++ [.mount sub handlers])
        (.serverBuilder api (sub :: mounted) provided false) (router ++ handlers)
  | provideEffectful {calls : List (BuilderCall F)} {api : ApiType F} {provided : List F}
      {layered : Bool} {router : List (ApiType F)} (effect : F)
      (chain : Chain calls (.effectfulServer api provided layered) router) :
      Chain (calls ++ [.provide effect]) (.effectfulServer api (effect :: provided) layered) router
  | provideBuilder {calls : List (BuilderCall F)} {api : ApiType F} {mounted : List (ApiType F)}
      {provided : List F} {layered : Bool} {router : List (ApiType F)} (effect : F)
      (chain : Chain calls (.serverBuilder api mounted provided layered) router) :
      Chain (calls ++ [.provide effect])
        (.serverBuilder api mounted (effect :: provided) layered) router
  | layerServer {calls : List (BuilderCall F)} {layered : Bool} {router : List (ApiType F)}
      (chain : Chain calls (.server layered) router) :
      Chain (calls ++ [.layer]) (.server true) router
  | layerEffectful {calls : List (BuilderCall F)} {api : ApiType F} {provided : List F}
      {layered : Bool} {router : List (ApiType F)}
      (chain : Chain calls (.effectfulServer api provided layered) router) :
      Chain (calls ++ [.layer]) (.effectfulServer api provided true) router
  | layerBuilder {calls : List (BuilderCall F)} {api : ApiType F} {mounted : List (ApiType F)}
      {provided : List F} {layered : Bool} {router : List (ApiType F)}
      (chain : Chain calls (.serverBuilder api mounted provided layered) router) :
      Chain (calls ++ [.layer]) (.serverBuilder api mounted provided true) router
  | configure {calls : List (BuilderCall F)} {builder : Builder F} {router : List (ApiType F)}
      (chain : Chain calls builder router)
      (offered : ∀ api mounted provided, builder ≠ .serverBuilder api mounted provided true) :
      Chain (calls ++ [.configure]) builder router
  | ready {calls : List (BuilderCall F)} {api : ApiType F} {provided : List F} {layered : Bool}
      {router : List (ApiType F)}
      (chain : Chain calls (.effectfulServer api provided layered) router)
      (all : AllProvided provided api) : Chain (calls ++ [.ready]) (.server layered) router
  | build {calls : List (BuilderCall F)} {api : ApiType F} {mounted : List (ApiType F)}
      {provided : List F} {layered : Bool} {router : List (ApiType F)}
      (chain : Chain calls (.serverBuilder api mounted provided layered) router)
      (mounts : AllMounted mounted api) (all : AllProvided provided api) :
      Chain (calls ++ [.build]) (.server layered) router

/-- The effects that are required somewhere in a type. -/
inductive Needs (effect : F) : ApiType F → Prop
  | here (inner : ApiType F) : Needs effect (.requires effect inner)
  | requires (other : F) {inner : ApiType F} (needs : Needs effect inner) :
      Needs effect (.requires other inner)
  | wrapped (wrapper : Wrapper) {inner : ApiType F} (needs : Needs effect inner) :
      Needs effect (.wrapped wrapper inner)
  | versionedApi (base changes : ApiType F) {resolved : ApiType F} (needs : Needs effect resolved) :
      Needs effect (.versionedApi base changes resolved)
  | element {elements : List (ApiType F)} {T : ApiType F} (mem : T ∈ elements)
      (needs : Needs effect T) : Needs effect (.tuple elements)

/-- Every effect that an endpoint in the router requires has been provided. -/
def Effectful (calls : List (BuilderCall F)) (endpoints : List (ApiType F)) : Prop :=
  ∀ T ∈ endpoints, ∀ effect, Needs effect T → .provide effect ∈ calls

/-- The endpoints whose effects no trait rule asks for. -/
inductive Unchecked (calls : List (BuilderCall F)) (T : ApiType F) : Prop
  | server {api : ApiType F} {handlers : List (ApiType F)}
      (new : .serverNew api handlers ∈ calls) (mem : T ∈ handlers)
  | mount {elements : List (ApiType F)} {sub : ApiType F} {handlers : List (ApiType F)}
      (new : .builderNew (.tuple elements) ∈ calls) (mounts : .mount sub handlers ∈ calls)
      (unlisted : sub ∉ elements) (mem : T ∈ handlers)

/-! ### The trait rules -/

theorem HasEffect.mem {effect : F} {provided : List F} (has : HasEffect effect provided) :
    effect ∈ provided := by
  induction has with
  | here tail => exact List.mem_cons_self
  | there head has ih => exact List.mem_cons_of_mem head ih

/-- An effect required at any depth has been provided. -/
theorem AllProvided.covers {provided : List F} {T : ApiType F} {effect : F}
    (all : AllProvided provided T) (needs : Needs effect T) : effect ∈ provided := by
  induction needs with
  | here inner =>
    cases all with
    | requires all has => exact has.mem
  | requires other needs ih =>
    cases all with
    | requires all has => exact ih all
  | wrapped wrapper needs ih =>
    cases all with
    | validated all => exact ih all
    | protect all => exact ih all
  | versionedApi base changes needs ih =>
    cases all with
    | versionedApi all => exact ih all
  | element mem needs ih =>
    cases all with
    | tuple arity all => exact ih (all _ mem)

/-- What holds of an API holds of every endpoint its handlers register. -/
theorem Serves.allProvided {provided : List F} {api : ApiType F} {endpoints : List (ApiType F)}
    (serves : Serves endpoints api) (all : AllProvided provided api) :
    ∀ T ∈ endpoints, AllProvided provided T := by
  induction serves with
  | bound arity specs =>
    cases all with
    | tuple arity all => exact all
  | subApis arity serves ih =>
    cases all with
    | tuple arity all =>
      intro T mem
      obtain ⟨part, here, mem⟩ := List.mem_flatMap.1 mem
      exact ih part here (all part.2 (List.mem_map_of_mem here)) T mem
  | versionedApi serves ih =>
    cases all with
    | versionedApi all => exact ih all

/-! ### Chains of calls -/

/-- Some calls change neither what has been provided nor what is unchecked. -/
def BuilderCall.Neutral : BuilderCall F → Prop
  | .layer | .configure | .ready | .build => True
  | _ => False

/-- The trait rules see to all endpoints but the unchecked ones. -/
def Sound (calls : List (BuilderCall F)) (router : List (ApiType F)) : Prop :=
  Effectful calls router ↔
    ∀ T, Unchecked calls T → ∀ effect, Needs effect T → .provide effect ∈ calls

theorem provide_mem_neutral {calls : List (BuilderCall F)} {call : BuilderCall F}
    (neutral : call.Neutral) (effect : F) :
    .provide effect ∈ calls ++ [call] ↔ .provide effect ∈ calls := by
  cases call <;> simp_all [BuilderCall.Neutral]

theorem unchecked_neutral {calls : List (BuilderCall F)} {call : BuilderCall F}
    (neutral : call.Neutral) (T : ApiType F) :
    Unchecked (calls ++ [call]) T ↔ Unchecked calls T := by
  have kept : ∀ other : BuilderCall F, ¬ other.Neutral → (other ∈ calls ++ [call] ↔ other ∈ calls) := by
    intro other special
    rw [List.mem_append, List.mem_singleton, or_iff_left]
    rintro rfl
    exact special neutral
  constructor
  · intro unchecked
    cases unchecked with
    | server new mem => exact .server ((kept (.serverNew _ _) not_false).1 new) mem
    | mount new mounts unlisted mem =>
      exact .mount ((kept (.builderNew _) not_false).1 new) ((kept (.mount _ _) not_false).1 mounts)
        unlisted mem
  · intro unchecked
    cases unchecked with
    | server new mem => exact .server ((kept (.serverNew _ _) not_false).2 new) mem
    | mount new mounts unlisted mem =>
      exact .mount ((kept (.builderNew _) not_false).2 new) ((kept (.mount _ _) not_false).2 mounts)
        unlisted mem

theorem Sound.neutral {calls : List (BuilderCall F)} {router : List (ApiType F)}
    {call : BuilderCall F} (sound : Sound calls router) (neutral : call.Neutral) :
    Sound (calls ++ [call]) router := by
  rw [Sound, Effectful]
  simp only [provide_mem_neutral neutral, unchecked_neutral neutral]
  exact sound

/-- What the type of a builder says about the calls that led to it. -/
structure EffectfulTracks (calls : List (BuilderCall F)) (api : ApiType F) (provided : List F)
    (router : List (ApiType F)) : Prop where
  serves : Serves router api
  provided : ∀ effect ∈ provided, .provide effect ∈ calls
  noServer : ∀ api handlers, .serverNew api handlers ∉ calls
  noBuilder : ∀ api, .builderNew api ∉ calls

structure BuilderTracks (calls : List (BuilderCall F)) (api : ApiType F) (provided : List F)
    (router : List (ApiType F)) : Prop where
  provided : ∀ effect ∈ provided, .provide effect ∈ calls
  noServer : ∀ api handlers, .serverNew api handlers ∉ calls
  own : ∀ other, .builderNew other ∈ calls ↔ other = api
  mounts : ∀ sub handlers, .mount sub handlers ∈ calls → Serves handlers sub
  router : ∀ T, T ∈ router ↔ ∃ sub handlers, .mount sub handlers ∈ calls ∧ T ∈ handlers

def Tracks (calls : List (BuilderCall F)) (router : List (ApiType F)) : Builder F → Prop
  | .server _ => Sound calls router
  | .effectfulServer api provided _ => EffectfulTracks calls api provided router
  | .serverBuilder api _ provided _ => BuilderTracks calls api provided router

theorem EffectfulTracks.append {calls : List (BuilderCall F)} {api : ApiType F}
    {provided provided' : List F} {router : List (ApiType F)} {call : BuilderCall F}
    (tracks : EffectfulTracks calls api provided router)
    (more : ∀ effect ∈ provided', effect ∈ provided ∨ call = .provide effect)
    (noServer : ∀ api handlers, call ≠ .serverNew api handlers)
    (noBuilder : ∀ api, call ≠ .builderNew api) :
    EffectfulTracks (calls ++ [call]) api provided' router where
  serves := tracks.serves
  provided effect mem := by
    rcases more effect mem with mem | rfl
    · exact List.mem_append_left _ (tracks.provided effect mem)
    · exact List.mem_concat_self
  noServer api handlers mem := by
    rcases List.mem_append.1 mem with mem | mem
    · exact tracks.noServer api handlers mem
    · exact noServer api handlers (List.mem_singleton.1 mem).symm
  noBuilder api mem := by
    rcases List.mem_append.1 mem with mem | mem
    · exact tracks.noBuilder api mem
    · exact noBuilder api (List.mem_singleton.1 mem).symm

theorem BuilderTracks.append {calls : List (BuilderCall F)} {api : ApiType F}
    {provided provided' : List F} {router : List (ApiType F)} {call : BuilderCall F}
    (tracks : BuilderTracks calls api provided router)
    (more : ∀ effect ∈ provided', effect ∈ provided ∨ call = .provide effect)
    (noServer : ∀ api handlers, call ≠ .serverNew api handlers)
    (noBuilder : ∀ api, call ≠ .builderNew api)
    (noMount : ∀ sub handlers, call ≠ .mount sub handlers) :
    BuilderTracks (calls ++ [call]) api provided' router where
  provided effect mem := by
    rcases more effect mem with mem | rfl
    · exact List.mem_append_left _ (tracks.provided effect mem)
    · exact List.mem_concat_self
  noServer api handlers mem := by
    rcases List.mem_append.1 mem with mem | mem
    · exact tracks.noServer api handlers mem
    · exact noServer api handlers (List.mem_singleton.1 mem).symm
  own other := by
    rw [List.mem_append, List.mem_singleton, or_iff_left (noBuilder other).symm, tracks.own]
  mounts sub handlers mem := by
    rcases List.mem_append.1 mem with mem | mem
    · exact tracks.mounts sub handlers mem
    · exact absurd (List.mem_singleton.1 mem).symm (noMount sub handlers)
  router T := by
    rw [tracks.router]
    have kept : ∀ sub handlers, .mount sub handlers ∈ calls ++ [call] ↔
        .mount sub handlers ∈ calls := by
      intro sub handlers
      rw [List.mem_append, List.mem_singleton, or_iff_left (noMount sub handlers).symm]
    simp only [kept]

theorem BuilderTracks.mount {calls : List (BuilderCall F)} {api sub : ApiType F}
    {provided : List F} {router handlers : List (ApiType F)}
    (tracks : BuilderTracks calls api provided router) (serves : Serves handlers sub) :
    BuilderTracks (calls ++ [.mount sub handlers]) api provided (router ++ handlers) where
  provided effect mem := List.mem_append_left _ (tracks.provided effect mem)
  noServer api handlers mem := by
    rcases List.mem_append.1 mem with mem | mem
    · exact tracks.noServer api handlers mem
    · simp at mem
  own other := by
    rw [List.mem_append, List.mem_singleton, or_iff_left (by simp), tracks.own]
  mounts other others mem := by
    rcases List.mem_append.1 mem with mem | mem
    · exact tracks.mounts other others mem
    · cases List.mem_singleton.1 mem
      exact serves
  router T := by
    rw [List.mem_append, tracks.router]
    constructor
    · rintro (⟨other, others, mem, here⟩ | here)
      · exact ⟨other, others, List.mem_append_left _ mem, here⟩
      · exact ⟨sub, handlers, List.mem_concat_self, here⟩
    · rintro ⟨other, others, mem, here⟩
      rcases List.mem_append.1 mem with mem | mem
      · exact .inl ⟨other, others, mem, here⟩
      · cases List.mem_singleton.1 mem
        exact .inr here

/-- An effectful server has no unchecked endpoints. -/
theorem EffectfulTracks.ready {calls : List (BuilderCall F)} {api : ApiType F} {provided : List F}
    {router : List (ApiType F)} (tracks : EffectfulTracks calls api provided router)
    (all : AllProvided provided api) : Sound calls router := by
  apply iff_of_true
  · intro T mem effect needs
    exact tracks.provided effect ((tracks.serves.allProvided all T mem).covers needs)
  · intro T unchecked
    cases unchecked with
    | server new mem => exact absurd new (tracks.noServer _ _)
    | mount new mounts unlisted mem => exact absurd new (tracks.noBuilder _)

/-- The rules of a builder see to what is mounted and listed. -/
theorem BuilderTracks.build {calls : List (BuilderCall F)} {api : ApiType F} {provided : List F}
    {mounted router : List (ApiType F)} (tracks : BuilderTracks calls api provided router)
    (mounts : AllMounted mounted api) (all : AllProvided provided api) : Sound calls router := by
  constructor
  · intro effectful T unchecked
    cases unchecked with
    | server new mem => exact absurd new (tracks.noServer _ _)
    | mount new mounts unlisted mem =>
      exact effectful T ((tracks.router T).2 ⟨_, _, mounts, mem⟩)
  · intro unchecked T mem effect needs
    obtain ⟨sub, handlers, mount, mem⟩ := (tracks.router T).1 mem
    cases mounts with
    | @tuple elements arity here =>
      by_cases listed : sub ∈ elements
      · cases all with
        | tuple arity all =>
          have covered := (tracks.mounts sub handlers mount).allProvided (all sub listed) T mem
          exact tracks.provided effect (covered.covers needs)
      · exact unchecked T (.mount ((tracks.own _).2 rfl) mount listed mem) effect needs

theorem Chain.tracks {calls : List (BuilderCall F)} {builder : Builder F}
    {router : List (ApiType F)} (chain : Chain calls builder router) :
    Tracks calls router builder := by
  induction chain with
  | serverNew spec serves =>
    constructor
    · intro effectful T unchecked
      cases unchecked with
      | server new mem =>
        cases List.mem_singleton.1 new
        exact effectful T mem
      | mount new mounts unlisted mem => simp at new
    · intro unchecked T mem
      exact unchecked T (.server (List.mem_singleton_self _) mem)
  | effectfulNew spec serves => exact ⟨serves, by simp, by simp, by simp⟩
  | builderNew spec => exact ⟨by simp, by simp, by simp, by simp, by simp⟩
  | mount chain spec serves ih => exact ih.mount serves
  | provideEffectful effect chain ih =>
    exact ih.append (fun other mem => (List.mem_cons.1 mem).symm.imp_right fun same => by rw [same])
      (by simp) (by simp)
  | provideBuilder effect chain ih =>
    exact ih.append (fun other mem => (List.mem_cons.1 mem).symm.imp_right fun same => by rw [same])
      (by simp) (by simp) (by simp)
  | layerServer chain ih => exact ih.neutral trivial
  | layerEffectful chain ih => exact ih.append (fun _ => .inl) (by simp) (by simp)
  | layerBuilder chain ih => exact ih.append (fun _ => .inl) (by simp) (by simp) (by simp)
  | @configure calls builder router chain offered ih =>
    cases builder with
    | server layered => exact ih.neutral trivial
    | effectfulServer api provided layered => exact ih.append (fun _ => .inl) (by simp) (by simp)
    | serverBuilder api mounted provided layered =>
      exact ih.append (fun _ => .inl) (by simp) (by simp) (by simp)
  | ready chain all ih => exact (EffectfulTracks.ready ih all).neutral trivial
  | build chain mounts all ih => exact (BuilderTracks.build ih mounts all).neutral trivial

/-- **A servable chain has provided every effect that its endpoints require** iff it has for the
endpoints of a plain `Server::new`, and of mounts that the full API does not list. -/
theorem effectful_iff (calls : List (BuilderCall F)) (layered : Bool) (router : List (ApiType F))
    (chain : Chain calls (.server layered) router) :
    Effectful calls router ↔
      ∀ T, Unchecked calls T → ∀ effect, Needs effect T → .provide effect ∈ calls :=
  chain.tracks

/-- An endpoint behind authentication. -/
def secure : ApiType String :=
  .requires "AuthRequired" (.endpoint "GetUsers")

theorem secure_serves : Serves [secure] (.tuple [secure]) :=
  .bound (by decide) (by simp [secure, ApiSpec.requires, ApiSpec.endpoint])

theorem secure_spec : ApiSpec (.tuple [secure]) :=
  .tuple (by decide) (by simp [secure, ApiSpec.requires, ApiSpec.endpoint])

/-- The effect is provided before the server is ready. -/
theorem effectful_secure :
    Effectful [.effectfulNew (.tuple [secure]) [secure], .provide "AuthRequired", .ready]
      [secure] := by
  have provided : AllProvided ["AuthRequired"] (.tuple [secure]) := by
    refine .tuple (by decide) fun T mem => ?_
    obtain rfl := List.mem_singleton.1 mem
    exact .requires (.endpoint _) (.here _)
  refine (effectful_iff _ false [secure]
    (.ready (.provideEffectful "AuthRequired" (.effectfulNew secure_spec secure_serves))
      provided)).2 ?_
  intro T unchecked
  cases unchecked with
  | server new mem => simp at new
  | mount new mounts unlisted mem => simp at new

/-- A plain server takes the endpoint without its effect. -/
theorem not_effectful_secure : ∃ router, Chain [.serverNew (.tuple [secure]) [secure]]
    (.server false) router ∧ ¬ Effectful [.serverNew (.tuple [secure]) [secure]] router := by
  refine ⟨[secure], .serverNew secure_spec secure_serves, fun effectful => ?_⟩
  have provided := effectful secure (List.mem_singleton_self _) "AuthRequired" (.here _)
  simp at provided

end Typeway.Server.Effects
