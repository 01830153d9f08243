import Typeway.Migrate.EmitAxum
import Typeway.Migrate.ParseTypeway

/-!
# Reprinted patterns and routes

The pattern of a parsed path and the pattern printed for axum have the same parts, and the printed
router serves every endpoint.
-/

namespace Typeway.Migrate

open Typeway.Core

/-! ## Patterns -/

/-- Pieces behind slashes. -/
def written (pieces : List Str) : Str :=
  if pieces.isEmpty then ['/'] else Segments.joined '/' pieces

def PathSegment.text : PathSegment → Str
  | literal s => s
  | capture name _ => '{' :: name ++ ['}']

theorem cons_intercalate_eq_joined {piece : Str} {pieces : List Str} :
    '/' :: ['/'].intercalate (piece :: pieces) = Segments.joined '/' (piece :: pieces) := by
  induction pieces generalizing piece with
  | nil => simp [Segments.joined]
  | cons next pieces ih =>
    rw [List.intercalate_cons_cons, Segments.joined_cons, ← ih]
    simp

theorem segmentsToRawPattern_eq (segments : List PathSegment) :
    segmentsToRawPattern segments = written (segments.map PathSegment.text) := by
  have texts : (segments.map fun
      | .literal s => s
      | .capture name _ => '{' :: name ++ ['}']) = segments.map PathSegment.text := by
    apply List.map_congr_left
    intro seg _
    cases seg <;> rfl
  refine (congrArg (fun parts : List Str =>
    if parts.isEmpty then ['/'] else '/' :: ['/'].intercalate parts) texts).trans ?_
  cases segments with
  | nil => rfl
  | cons seg segments => exact cons_intercalate_eq_joined

/-- A segment that is read as what it is when it stands between slashes. -/
def PathSegment.Clean : PathSegment → Prop
  | literal s => s ≠ [] ∧ '/' ∉ s ∧ pathSegment s = .literal s
  | capture name _ => '/' ∉ name ∧ name.head? ≠ some '*'

theorem pathSegment_braced (name : Str) :
    pathSegment ('{' :: name ++ ['}']) = .capture name none := by
  rw [pathSegment, if_pos]
  · simp
  · simp

/-- The parts of a pattern that is written of these segments. -/
def partsOf (segments : List PathSegment) : List PathPart :=
  .literal [] :: if segments.isEmpty then [.literal []] else segments.map PathSegment.part

theorem pathParts_written {pieces : List Str} (whole : ∀ piece ∈ pieces, '/' ∉ piece) :
    pathParts (written pieces) = .literal [] ::
      if pieces.isEmpty then [.literal []] else pieces.map fun piece => (pathSegment piece).part := by
  cases pieces with
  | nil => rfl
  | cons piece pieces =>
    show pathParts (Segments.joined '/' (piece :: pieces)) = _
    rw [pathParts, Segments.splitOn_joined whole]
    rfl

theorem PathSegment.Clean.slash {seg : PathSegment} (clean : seg.Clean) : '/' ∉ seg.text := by
  cases seg with
  | literal s => exact clean.2.1
  | capture name ty => simpa [text] using clean.1

theorem PathSegment.Clean.part_text {seg : PathSegment} (clean : seg.Clean) :
    (pathSegment seg.text).part = seg.part := by
  cases seg with
  | literal s => exact congrArg part clean.2.2
  | capture name ty =>
    show (pathSegment ('{' :: name ++ ['}'])).part = _
    rw [pathSegment_braced]
    rfl

theorem pathParts_segmentsToRawPattern {segments : List PathSegment}
    (clean : ∀ seg ∈ segments, seg.Clean) :
    pathParts (segmentsToRawPattern segments) = partsOf segments := by
  have whole : ∀ piece ∈ segments.map PathSegment.text, '/' ∉ piece := by
    intro piece mem
    obtain ⟨seg, there, rfl⟩ := List.mem_map.1 mem
    exact (clean seg there).slash
  rw [segmentsToRawPattern_eq, pathParts_written whole, partsOf, List.isEmpty_map, List.map_map]
  have each : segments.map ((fun piece => (pathSegment piece).part) ∘ PathSegment.text) =
      segments.map PathSegment.part :=
    List.map_congr_left fun seg mem => (clean seg mem).part_text
  rw [each]

/-! ## The printed pattern -/

/-- The segments with the names of the handler. -/
def renamed : List PathSegment → List Ident → List PathSegment
  | [], _ => []
  | .literal s :: segments, names => .literal s :: renamed segments names
  | .capture name ty :: segments, [] => .capture name ty :: renamed segments []
  | .capture _ ty :: segments, name :: names => .capture name.text ty :: renamed segments names

theorem axumPattern_eq (segments : List PathSegment) (names : List Ident) :
    axumPattern segments names = Segments.joined '/' ((renamed segments names).map PathSegment.text) := by
  induction segments generalizing names with
  | nil => rfl
  | cons seg segments ih =>
    cases seg with
    | literal s => rw [axumPattern, ih]; rfl
    | capture name ty =>
      cases names with
      | nil => rw [axumPattern, ih]; rfl
      | cons given names => rw [axumPattern, ih]; rfl

theorem toAxumPathPattern_eq (ep : EndpointModel) :
    ep.toAxumPathPattern =
      written ((renamed ep.path.segments ep.handler.captureNames).map PathSegment.text) := by
  rw [EndpointModel.toAxumPathPattern, axumPattern_eq]
  cases renamed ep.path.segments ep.handler.captureNames with
  | nil => rfl
  | cons seg segments => rfl

theorem Ident.not_slash (name : Ident) : '/' ∉ name.text := by
  intro mem
  have := List.all_eq_true.1 name.clean _ mem
  simp at this

theorem Ident.head_ne_star (name : Ident) : name.text.head? ≠ some '*' := by
  intro head
  have := List.all_eq_true.1 name.clean _ (List.mem_of_head? head)
  simp at this

/-- Other names are clean, and no other parts. -/
theorem renamed_clean {segments : List PathSegment} (clean : ∀ seg ∈ segments, seg.Clean)
    (names : List Ident) : (∀ seg ∈ renamed segments names, seg.Clean) ∧
      (renamed segments names).map PathSegment.part = segments.map PathSegment.part := by
  induction segments generalizing names with
  | nil => exact ⟨clean, rfl⟩
  | cons seg segments ih =>
    rw [List.forall_mem_cons] at clean
    have rest := ih clean.2
    cases seg with
    | literal s =>
      exact ⟨List.forall_mem_cons.2 ⟨clean.1, (rest names).1⟩,
        congrArg (PathPart.literal s :: ·) (rest names).2⟩
    | capture name ty =>
      cases names with
      | nil =>
        exact ⟨List.forall_mem_cons.2 ⟨clean.1, (rest []).1⟩,
          congrArg ((PathSegment.capture name ty).part :: ·) (rest []).2⟩
      | cons given names =>
        refine ⟨List.forall_mem_cons.2 ⟨⟨given.not_slash, given.head_ne_star⟩, (rest names).1⟩, ?_⟩
        have part : (PathSegment.capture given.text ty).part = (PathSegment.capture name ty).part :=
          (if_neg given.head_ne_star).trans (if_neg clean.1.2).symm
        rw [renamed, List.map_cons, List.map_cons, part, (rest names).2]

/-- The printed pattern has the parts of the pattern that was parsed. -/
theorem pathParts_toAxumPathPattern {ep : EndpointModel}
    (clean : ∀ seg ∈ ep.path.segments, seg.Clean) :
    pathParts ep.toAxumPathPattern = partsOf ep.path.segments := by
  obtain ⟨clean', parts⟩ := renamed_clean clean ep.handler.captureNames
  have empty : (renamed ep.path.segments ep.handler.captureNames).isEmpty =
      ep.path.segments.isEmpty := by
    have lengths := congrArg List.length parts
    rw [List.length_map, List.length_map] at lengths
    rw [Bool.eq_iff_iff, List.isEmpty_iff, List.isEmpty_iff, ← List.length_eq_zero_iff, lengths,
      List.length_eq_zero_iff]
  rw [toAxumPathPattern_eq, ← segmentsToRawPattern_eq, pathParts_segmentsToRawPattern clean',
    partsOf, partsOf, parts, empty]

/-! ## Groups -/

/-- Every group has a pattern, and endpoints with this pattern. -/
def Grouped (groups : List (Str × List EndpointModel)) : Prop :=
  SortedMap.Sorted groups ∧
    ∀ group ∈ groups, group.2 ≠ [] ∧ ∀ ep ∈ group.2, ep.path.rawPattern = group.1

/-- An endpoint goes into the group of its pattern. -/
theorem insert_perm {groups : List (Str × List EndpointModel)} (sorted : SortedMap.Sorted groups)
    (key : Str) (ep : EndpointModel) :
    ((SortedMap.insert key ((SortedMap.lookup key groups).getD [] ++ [ep]) groups).flatMap
      Prod.snd).Perm (groups.flatMap Prod.snd ++ [ep]) := by
  induction groups with
  | nil => exact .refl _
  | cons group groups ih =>
    obtain ⟨k, eps⟩ := group
    obtain ⟨above, sorted⟩ := SortedMap.sorted_cons.1 sorted
    rw [SortedMap.lookup_cons]
    by_cases same : key = k
    · rw [if_pos same, SortedMap.insert, if_neg (same ▸ lt_irrefl key), if_pos same,
        List.flatMap_cons, List.flatMap_cons]
      simp only [Option.getD_some, List.append_assoc]
      exact List.perm_append_comm.append_left eps
    · rw [if_neg same, SortedMap.insert]
      split
      · rename_i less
        have absent : SortedMap.lookup key groups = none := by
          apply SortedMap.lookup_eq_none.2
          intro e mem
          exact ne_of_lt (lt_trans less (above e mem))
        rw [absent]
        exact List.perm_append_comm
      · rw [List.flatMap_cons, List.flatMap_cons, List.append_assoc]
        exact (ih sorted).append_left eps

theorem groupByPattern_spec (endpoints : List EndpointModel) :
    Grouped (groupByPattern endpoints) ∧
      ((groupByPattern endpoints).flatMap Prod.snd).Perm endpoints := by
  suffices all : ∀ groups, Grouped groups →
      Grouped (endpoints.foldl (fun groups ep =>
        SortedMap.insert ep.path.rawPattern
          ((SortedMap.lookup ep.path.rawPattern groups).getD [] ++ [ep]) groups) groups) ∧
      ((endpoints.foldl (fun groups ep =>
        SortedMap.insert ep.path.rawPattern
          ((SortedMap.lookup ep.path.rawPattern groups).getD [] ++ [ep]) groups) groups).flatMap
        Prod.snd).Perm (groups.flatMap Prod.snd ++ endpoints) from
    all [] ⟨SortedMap.sorted_nil, by simp⟩
  induction endpoints with
  | nil =>
    intro groups grouped
    refine ⟨grouped, ?_⟩
    rw [List.append_nil]
    exact .refl _
  | cons ep endpoints ih =>
    intro groups grouped
    rw [List.foldl_cons]
    have grouped' : Grouped (SortedMap.insert ep.path.rawPattern
        ((SortedMap.lookup ep.path.rawPattern groups).getD [] ++ [ep]) groups) := by
      refine ⟨SortedMap.sorted_insert grouped.1, ?_⟩
      intro group mem
      rcases SortedMap.mem_insert mem with rfl | mem
      · refine ⟨by simp, ?_⟩
        intro e there
        rcases List.mem_append.1 there with there | there
        · cases found : SortedMap.lookup ep.path.rawPattern groups with
          | none => rw [found] at there; cases there
          | some eps =>
            rw [found] at there
            exact (grouped.2 _ (SortedMap.mem_of_lookup found)).2 e there
        · rw [List.mem_singleton.1 there]
      · exact grouped.2 group mem
    obtain ⟨kept, perm⟩ := ih _ grouped'
    refine ⟨kept, perm.trans ?_⟩
    rw [List.append_cons (groups.flatMap Prod.snd)]
    exact (insert_perm grouped.1 _ ep).append_right endpoints

/-! ## Routes -/

theorem fromAxumMethodName_axumFnName (method : HttpMethod) :
    HttpMethod.fromAxumMethodName method.axumFnName = some method := by
  cases method <;> rfl

/-- What a printed method router routes to. -/
theorem routes_methodChain {ep : EndpointModel} {rest : List EndpointModel} {methods : Expr}
    (chain : methodChain (ep :: rest) = some methods) :
    Routes methods ((ep :: rest).map fun e => (e.method, e.handler.name)) := by
  have first : Routes (.call (.path [ep.method.axumFnName]) [.path [ep.handler.name]])
      [(ep.method, ep.handler.name)] :=
    .call rfl (fromAxumMethodName_axumFnName ep.method) rfl
  have all : ∀ (e : Expr) (before : List (HttpMethod × Str)), Routes e before →
      Routes (rest.foldl (fun existing ep =>
        .method existing ep.method.axumFnName [.path [ep.handler.name]]) e)
        (before ++ rest.map fun e => (e.method, e.handler.name)) := by
    clear chain
    induction rest with
    | nil =>
      intro e before routes
      rwa [List.map_nil, List.append_nil]
    | cons next rest ih =>
      intro e before routes
      rw [List.foldl_cons, List.map_cons, List.append_cons]
      exact ih _ _ (.method routes (fromAxumMethodName_axumFnName next.method) rfl)
  cases chain
  exact all _ _ first

abbrev Triple := HttpMethod × List PathPart × Str

def Route.triple (route : Route) : Triple :=
  (route.method, pathParts route.path, route.handler)

def EndpointModel.triple (ep : EndpointModel) : Triple :=
  (ep.method, pathParts ep.path.rawPattern, ep.handler.name)

/-- The pattern that is printed for an endpoint has the parts of its own. -/
def EndpointModel.Kept (ep : EndpointModel) : Prop :=
  pathParts ep.toAxumPathPattern = pathParts ep.path.rawPattern

variable {fns : Str → Option Expr}

/-- One more group. -/
theorem builds_emitRoute {router : Expr} {routes : List Route} (built : Builds fns router routes)
    {group : Str × List EndpointModel} (some : group.2 ≠ [])
    (same : ∀ ep ∈ group.2, ep.path.rawPattern = group.1) (kept : ∀ ep ∈ group.2, ep.Kept) :
    ∃ more, Builds fns (emitRoute router group.2) (routes ++ more) ∧
      more.map Route.triple = group.2.map EndpointModel.triple := by
  obtain ⟨key, eps⟩ := group
  cases eps with
  | nil => exact absurd rfl some
  | cons ep rest =>
    refine ⟨_, .route built (routes_methodChain rfl), ?_⟩
    rw [List.map_map, List.map_map]
    apply List.map_congr_left
    intro e mem
    have parts : pathParts ep.toAxumPathPattern = pathParts e.path.rawPattern := by
      rw [kept ep List.mem_cons_self, same ep List.mem_cons_self, same e mem]
    exact congrArg (fun parts => (e.method, parts, e.handler.name)) parts

theorem builds_groups {groups : List (Str × List EndpointModel)}
    (some : ∀ group ∈ groups, group.2 ≠ [] ∧ ∀ ep ∈ group.2, ep.path.rawPattern = group.1)
    (kept : ∀ ep ∈ groups.flatMap Prod.snd, ep.Kept) {router : Expr} {routes : List Route}
    (built : Builds fns router routes) :
    ∃ more, Builds fns (groups.foldl (fun router group => emitRoute router group.2) router)
      (routes ++ more) ∧
      more.map Route.triple = (groups.flatMap Prod.snd).map EndpointModel.triple := by
  induction groups generalizing router routes with
  | nil => exact ⟨[], by rwa [List.append_nil], rfl⟩
  | cons group groups ih =>
    rw [List.forall_mem_cons] at some
    rw [List.flatMap_cons, List.forall_mem_append] at kept
    obtain ⟨here, built, first⟩ := builds_emitRoute built some.1.1 some.1.2 kept.1
    obtain ⟨more, built, rest⟩ := ih some.2 kept.2 built
    refine ⟨here ++ more, by rwa [← List.append_assoc], ?_⟩
    rw [List.map_append, first, rest, List.flatMap_cons, List.map_append]

theorem builds_layers {layers : List Expr} {router : Expr} {routes : List Route}
    (built : Builds fns router routes) :
    ∃ layered, Builds fns
      (layers.foldl (fun router layer => .method router "layer".toList [layer]) router) layered ∧
      layered.map Route.triple = routes.map Route.triple := by
  induction layers generalizing router routes with
  | nil => exact ⟨routes, built, rfl⟩
  | cons layer layers ih =>
    obtain ⟨layered, built, same⟩ := ih (@Builds.layer fns router layer routes built)
    refine ⟨layered, built, same.trans ?_⟩
    rw [List.map_map]
    rfl

/-- **The printed router serves every endpoint** once, when the patterns are kept. -/
theorem builds_emitRouter {model : ApiModel} (kept : ∀ ep ∈ model.endpoints, ep.Kept) :
    ∃ routes, Builds fns (emitRouter model) routes ∧
      (routes.map Route.triple).Perm (model.endpoints.map EndpointModel.triple) := by
  obtain ⟨grouped, perm⟩ := groupByPattern_spec model.endpoints
  have kept' : ∀ ep ∈ (groupByPattern model.endpoints).flatMap Prod.snd, ep.Kept :=
    fun ep mem => kept ep (perm.mem_iff.1 mem)
  obtain ⟨routes, built, triples⟩ := builds_groups grouped.2 kept' (@Builds.new fns)
  obtain ⟨layered, built, same⟩ := @builds_layers fns model.layers _ _ built
  refine ⟨layered, built, ?_⟩
  rw [same, List.nil_append, triples]
  exact perm.map EndpointModel.triple

end Typeway.Migrate
