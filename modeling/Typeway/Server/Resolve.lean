import Mathlib.Data.List.Induction
import Typeway.Server.RouteTable

/-!
# What `resolve` answers

Compared with a scan of all routes registered for the method, and with the walk over all
buckets that its two shortcuts save.
-/

namespace Typeway.Server

open Typeway.Core

variable {H : Type} {M : Matchit}

/-! ## One bucket -/

section Lookup

variable {bucket : MethodBucket} {routes : List (RouteEntry H)} {path : Str}

/-- The trie picks this route, and its match function accepts the path. -/
def Picked (M : Matchit) (bucket : MethodBucket) (routes : List (RouteEntry H)) (path : Str)
    (i : Nat) : Prop :=
  bucket.trie.at? M path = some i ∧ matches? routes (pathSegments path) i = true

/-- The first of the routes beside the trie that accepts the path is this one. -/
def FirstBeside (bucket : MethodBucket) (routes : List (RouteEntry H)) (path : Str)
    (i : Nat) : Prop :=
  bucket.fallback.find? (matches? routes (pathSegments path)) = some i

theorem lookupInBucket_eq_some {i : Nat} :
    lookupInBucket M bucket routes path = some i ↔
      Picked M bucket routes path i ∨
        (¬ ∃ j, Picked M bucket routes path j) ∧ FirstBeside bucket routes path i := by
  rw [lookupInBucket]
  cases picked : (bucket.trie.at? M path).filter (matches? routes (pathSegments path)) with
  | some j =>
    have here : Picked M bucket routes path j := Option.filter_eq_some_iff.1 picked
    constructor
    · intro e
      cases e
      exact .inl here
    · intro h
      rcases h with there | ⟨no, -⟩
      · exact here.1.symm.trans there.1
      · exact absurd ⟨j, here⟩ no
  | none =>
    have no : ¬ ∃ j, Picked M bucket routes path j := by
      intro h
      obtain ⟨j, there⟩ := h
      rw [Option.filter_eq_some_iff.2 there] at picked
      cases picked
    constructor
    · intro first
      exact .inr ⟨no, first⟩
    · intro h
      rcases h with there | ⟨-, first⟩
      · exact absurd ⟨i, there⟩ no
      · exact first

theorem lookupInBucket_matches {i : Nat} (h : lookupInBucket M bucket routes path = some i) :
    matches? routes (pathSegments path) i = true := by
  rcases lookupInBucket_eq_some.1 h with picked | ⟨-, first⟩
  · exact picked.2
  · exact List.find?_some first

/-- A bucket has an answer iff the trie picks a route that accepts, or a route beside it does. -/
theorem lookupInBucket_isSome :
    (lookupInBucket M bucket routes path).isSome = true ↔
      (∃ i, Picked M bucket routes path i) ∨
        ∃ i ∈ bucket.fallback, matches? routes (pathSegments path) i = true := by
  constructor
  · intro h
    obtain ⟨i, e⟩ := Option.isSome_iff_exists.1 h
    rcases lookupInBucket_eq_some.1 e with picked | ⟨-, first⟩
    · exact .inl ⟨i, picked⟩
    · exact .inr ⟨i, List.mem_of_find?_eq_some first, List.find?_some first⟩
  · intro h
    apply Decidable.byContradiction
    intro none
    rw [Option.isSome_iff_exists] at none
    have no : ¬ ∃ i, Picked M bucket routes path i := by
      intro picked
      obtain ⟨i, picked⟩ := picked
      exact none ⟨i, lookupInBucket_eq_some.2 (.inl picked)⟩
    rcases h with picked | ⟨i, beside, accepts⟩
    · exact no picked
    · obtain ⟨j, first⟩ := Option.isSome_iff_exists.1
        (List.find?_isSome.2 ⟨i, beside, accepts⟩)
      exact none ⟨j, lookupInBucket_eq_some.2 (.inr ⟨no, first⟩)⟩

end Lookup

theorem resolve_eq_hit {inner : RouterInner H} {method : Method} {path : Str} {i : Nat} :
    resolve M inner method path = .hit i ↔
      lookupInBucket M (inner.methodIndex method.bucket) inner.routes path = some i := by
  rw [resolve]
  cases lookupInBucket M (inner.methodIndex method.bucket) inner.routes path with
  | some j => simp
  | none =>
    dsimp only
    split
    · simp
    · split <;> simp

/-! ## Against a scan of the routes -/

/-- The route that a bound endpoint of a path type registers. -/
def RouteEntry.ofPath (method : Method) (P : PathSpec) (handler : H) : RouteEntry H where
  method
  pattern := P.pattern
  matchFn segments := (P.extract segments).isSome
  handler

/-- The router of a table of path types. -/
def ofTable (M : Matchit) (table : List (Method × PathSpec × H)) : RouterInner H :=
  .calls M (table.map fun e => .addRoute (.ofPath e.1 e.2.1 e.2.2))

variable (M) in
/-- `resolve` agrees with a scan of the routes registered for the method. -/
structure AgreesWithScan (inner : RouterInner H) (method : Method) (path : Str) : Prop where
  sound : ∀ i, resolve M inner method path = .hit i →
    ∃ route, inner.routes[i]? = some route ∧ route.method = method ∧
      route.matchFn (pathSegments path) = true
  complete : (∃ route ∈ inner.routes, route.method = method ∧
    route.matchFn (pathSegments path) = true) → ∃ i, resolve M inner method path = .hit i

theorem matches?_eq_true {routes : List (RouteEntry H)} {segments : List Str} {i : Nat} :
    matches? routes segments i = true ↔
      ∃ route, routes[i]? = some route ∧ route.matchFn segments = true := by
  rw [matches?]
  cases routes[i]? with
  | some route => simp
  | none => simp

/-- The seven methods with a bucket of their own meet no other method's routes in it. -/
theorem method_eq_of_bucket {method method' : Method} (named : ∀ name, method ≠ .other name)
    (same : method'.bucket = method.bucket) : method' = method := by
  cases method with
  | other name => exact absurd rfl (named name)
  | _ => cases method' <;> first | rfl | cases same

/-! ### What registration keeps -/

/-- The pattern that the trie is given. -/
def RouteEntry.shape (route : RouteEntry H) : Str :=
  toMatchitPattern route.pattern

/-- The patterns of a bucket that a trie keeps, of those added in this order. -/
def kept (M : Matchit) (b : Bucket) (routes : List (RouteEntry H)) : List Str :=
  routes.foldl (fun patterns route =>
    if route.method.bucket = b ∧ M.accepts patterns route.shape = true then
      patterns ++ [route.shape]
    else patterns) []

theorem kept_append (b : Bucket) (routes : List (RouteEntry H)) (route : RouteEntry H) :
    kept M b (routes ++ [route]) =
      if route.method.bucket = b ∧ M.accepts (kept M b routes) route.shape = true then
        kept M b routes ++ [route.shape]
      else kept M b routes := by
  rw [kept, List.foldl_append, List.foldl_cons, List.foldl_nil]
  rfl

theorem kept_grown (b : Bucket) (routes : List (RouteEntry H)) : M.Grown (kept M b routes) := by
  induction routes using List.reverseRecOn with
  | nil => exact .nil
  | append_singleton routes route ih =>
    rw [kept_append]
    split
    · rename_i accepted
      exact ih.insert accepted.2
    · exact ih

/-- The route at this place conflicts with a pattern kept before. -/
def TrieRefuses (M : Matchit) (routes : List (RouteEntry H)) (i : Nat) (route : RouteEntry H) : Prop :=
  M.accepts (kept M route.method.bucket (routes.take i)) route.shape = false

/-- Every trie holds the patterns kept for it, and the list beside it the refused routes. -/
structure RouterInner.Filed (M : Matchit) (inner : RouterInner H) : Prop where
  consistent : inner.Consistent
  patterns : ∀ b, (inner.methodIndex b).trie.patterns = kept M b inner.routes
  refused : ∀ {i route}, inner.routes[i]? = some route →
    (i ∈ (inner.methodIndex route.method.bucket).fallback ↔ TrieRefuses M inner.routes i route)

theorem trie_insert_eq (trie : Trie Nat) (pattern : Str) (i : Nat) :
    trie.insert M pattern i =
      if M.accepts trie.patterns pattern = true then some ⟨trie.entries ++ [(pattern, i)]⟩
      else none :=
  rfl

theorem insert_patterns (bucket : MethodBucket) (pattern : Str) (i : Nat) :
    (bucket.insert M pattern i).trie.patterns =
      if M.accepts bucket.trie.patterns pattern = true then bucket.trie.patterns ++ [pattern]
      else bucket.trie.patterns := by
  rw [MethodBucket.insert, trie_insert_eq]
  split_ifs with accepted
  · exact List.map_append
  · rfl

theorem insert_fallback (bucket : MethodBucket) (pattern : Str) (i : Nat) :
    (bucket.insert M pattern i).fallback =
      if M.accepts bucket.trie.patterns pattern = true then bucket.fallback
      else bucket.fallback ++ [i] := by
  rw [MethodBucket.insert, trie_insert_eq]
  split_ifs with accepted
  · rfl
  · rfl

theorem RouterInner.Filed.new : (RouterInner.new : RouterInner H).Filed M where
  consistent := .new
  patterns _ := rfl
  refused here := by cases here

namespace RouterInner.Filed

variable {inner : RouterInner H} (filed : inner.Filed M)

include filed

theorem listed_lt {b : Bucket} {i : Nat} (beside : i ∈ (inner.methodIndex b).fallback) :
    i < inner.routes.length := by
  obtain ⟨route, here, -⟩ := filed.consistent.fallback beside
  exact (List.getElem?_eq_some_iff.1 here).1

theorem addRoute (route : RouteEntry H) : (inner.addRoute M route).Filed M where
  consistent := filed.consistent.addRoute route
  patterns b := by
    rw [addRoute_methodIndex, addRoute_routes, kept_append, Function.update_apply]
    split
    · rename_i own
      rw [insert_patterns, filed.patterns, own]
      simp only [true_and, RouteEntry.shape]
    · rename_i other
      rw [filed.patterns, if_neg fun both => other both.1.symm]
  refused {i r} here := by
    rw [addRoute_routes, List.getElem?_append] at here
    rw [addRoute_methodIndex, addRoute_routes, TrieRefuses, Function.update_apply]
    split at here
    · rename_i old
      rw [List.take_append_of_le_length (Nat.le_of_lt old), ← TrieRefuses, ← filed.refused here]
      split
      · rename_i own
        rw [insert_fallback, own]
        split
        · exact Iff.rfl
        · rw [List.mem_append, List.mem_singleton]
          exact ⟨fun mem => mem.resolve_right (Nat.ne_of_lt old), .inl⟩
      · exact Iff.rfl
    · rename_i past
      rw [List.getElem?_singleton] at here
      split at here
      · rename_i last
        cases here
        have place : i = inner.routes.length := by omega
        subst place
        rw [if_pos rfl, insert_fallback, List.take_left' rfl, filed.patterns]
        show _ ↔ M.accepts (kept M route.method.bucket inner.routes)
          (toMatchitPattern route.pattern) = false
        split
        · rename_i accepted
          rw [accepted]
          exact iff_of_false (fun mem => Nat.lt_irrefl _ (filed.listed_lt mem)) (by decide)
        · rename_i refused
          exact iff_of_true (List.mem_append_right _ (List.mem_singleton.2 rfl))
            (Bool.eq_false_iff.2 refused)
      · cases here

end RouterInner.Filed

theorem filed_ofTable (table : List (Method × PathSpec × H)) : (ofTable M table).Filed M := by
  induction table using List.reverseRecOn with
  | nil => exact .new
  | append_singleton table e ih =>
    have step : ofTable M (table ++ [e]) = (ofTable M table).addRoute M (.ofPath e.1 e.2.1 e.2.2) := by
      rw [ofTable, List.map_append, RouterInner.calls, List.foldl_append]
      rfl
    rw [step]
    exact ih.addRoute _

/-! ### Which routes are reached -/

variable (M) in
/-- Some route of the bucket accepts the path that was refused for a conflict, or whose pattern
fits the path and goes before all others kept that fit. -/
def Reached (precedes : Str → Str → Bool) (routes : List (RouteEntry H)) (b : Bucket) (path : Str) :
    Prop :=
  ∃ (i : Nat) (route : RouteEntry H), routes[i]? = some route ∧ route.method.bucket = b ∧
    route.matchFn (pathSegments path) = true ∧
    (TrieRefuses M routes i route ∨
      (M.fits route.shape path = true ∧ ∀ other ∈ kept M b routes, M.fits other path = true →
        other ≠ route.shape → precedes other route.shape = false))

/-- No route of another method that shares the bucket accepts the path. -/
def OwnBucket (routes : List (RouteEntry H)) (method : Method) (path : Str) : Prop :=
  ∀ route ∈ routes, route.method.bucket = method.bucket →
    route.matchFn (pathSegments path) = true → route.method = method

theorem ownBucket_of_named (routes : List (RouteEntry H)) {method : Method}
    (named : ∀ name, method ≠ .other name) (path : Str) : OwnBucket routes method path :=
  fun _ _ bucket _ => method_eq_of_bucket named bucket

namespace RouterInner.Filed

variable {inner : RouterInner H} (filed : inner.Filed M) {precedes : Str → Str → Bool}
  (specific : M.MostSpecific precedes) {b : Bucket} {path : Str}

include filed specific

theorem reached_of_lookup {i : Nat}
    (lookup : lookupInBucket M (inner.methodIndex b) inner.routes path = some i) :
    Reached M precedes inner.routes b path := by
  obtain ⟨route, here, accepts⟩ := matches?_eq_true.1 (lookupInBucket_matches lookup)
  rcases lookupInBucket_eq_some.1 lookup with ⟨picked, -⟩ | ⟨-, first⟩
  · rw [Trie.at?] at picked
    obtain ⟨j, select, entry⟩ := Option.bind_eq_some_iff.1 picked
    obtain ⟨⟨pattern, i'⟩, at_j, e⟩ := Option.bind_eq_some_iff.1 entry
    cases e
    obtain ⟨route', there, bucket, rfl⟩ := filed.consistent.trie (List.mem_of_getElem? at_j)
    cases here.symm.trans there
    obtain ⟨pattern, at_j', fits⟩ := M.select_fits select
    have shape : (inner.methodIndex b).trie.patterns[j]? = some route.shape := by
      rw [Trie.patterns, List.getElem?_map, at_j]
      rfl
    cases shape.symm.trans at_j'
    rw [filed.patterns] at select shape
    exact ⟨_, route, here, bucket, accepts, .inr ⟨fits, fun other mem fits' ne =>
      (specific.foremost (kept_grown b inner.routes) select shape other mem fits' ne).2⟩⟩
  · have beside := List.mem_of_find?_eq_some first
    obtain ⟨route', there, bucket⟩ := filed.consistent.fallback beside
    cases here.symm.trans there
    subst bucket
    exact ⟨i, route, here, rfl, accepts, .inl ((filed.refused here).1 beside)⟩

theorem lookup_of_reached (reached : Reached M precedes inner.routes b path) :
    (lookupInBucket M (inner.methodIndex b) inner.routes path).isSome = true := by
  obtain ⟨i, route, here, rfl, accepts, shown⟩ := reached
  rw [lookupInBucket_isSome]
  have accepts' := matches?_eq_true.2 ⟨route, here, accepts⟩
  by_cases beside : i ∈ (inner.methodIndex route.method.bucket).fallback
  · exact .inr ⟨i, beside, accepts'⟩
  · obtain ⟨fits, foremost⟩ := shown.resolve_left fun refused => beside ((filed.refused here).2 refused)
    have entry := (filed.consistent.listed here).resolve_right beside
    left
    refine ⟨i, ?_, accepts'⟩
    cases select : M.select (inner.methodIndex route.method.bucket).trie.patterns path with
    | none =>
      have unfit := M.select_none select _ (List.mem_map_of_mem entry)
      rw [show M.fits (toMatchitPattern route.pattern) path = true from fits] at unfit
      cases unfit
    | some j =>
      obtain ⟨pattern, at_j, fits'⟩ := M.select_fits select
      -- the pick goes before this pattern unless it is this pattern
      have same : pattern = route.shape := by
        by_contra ne
        rw [filed.patterns] at select at_j
        have mem : route.shape ∈ kept M route.method.bucket inner.routes := by
          rw [← filed.patterns]
          exact List.mem_map_of_mem entry
        have before := (specific.foremost (kept_grown _ _) select at_j _ mem fits
          (fun e => ne e.symm)).1
        rw [foremost pattern (List.mem_of_getElem? at_j) fits' ne] at before
        cases before
      subst same
      have nodup := (kept_grown (M := M) route.method.bucket inner.routes).nodup specific
      rw [← filed.patterns] at nodup
      obtain ⟨j', at_j'⟩ := List.mem_iff_getElem?.1 entry
      have there : (inner.methodIndex route.method.bucket).trie.patterns[j']? = some route.shape := by
        rw [Trie.patterns, List.getElem?_map, at_j']
        rfl
      obtain rfl : j = j' := by
        obtain ⟨short, -⟩ := List.getElem?_eq_some_iff.1 at_j
        exact (List.getElem?_inj short nodup).1 (at_j.trans there.symm)
      rw [Trie.at?, select, Option.bind_eq_bind, Option.bind_some, at_j', Option.bind_eq_bind,
        Option.bind_some]

end RouterInner.Filed

theorem ofTable_routes (M : Matchit) (table : List (Method × PathSpec × H)) :
    (ofTable M table).routes = table.map fun e => .ofPath e.1 e.2.1 e.2.2 := by
  induction table using List.reverseRecOn with
  | nil => rfl
  | append_singleton table e ih =>
    rw [ofTable, List.map_append, RouterInner.calls, List.foldl_append, List.map_append]
    show (RouterInner.addRoute M _ _).routes = _
    rw [addRoute_routes]
    exact congrArg (· ++ _) ih

/-- **The tables and paths for which `resolve` agrees with a scan**: some route of the bucket is
reached where the method has a route that accepts. Routes of another method can only be taken for
its own in the bucket that the methods without a name share. -/
theorem resolve_table_iff (M : Matchit) (precedes : Str → Str → Bool)
    (specific : M.MostSpecific precedes) (table : List (Method × PathSpec × H)) (method : Method)
    (path : Str) :
    let routes : List (RouteEntry H) := table.map fun e => .ofPath e.1 e.2.1 e.2.2
    (OwnBucket routes method path →
      (AgreesWithScan M (ofTable M table) method path ↔
        ((∃ route ∈ routes, route.method = method ∧ route.matchFn (pathSegments path) = true) →
          Reached M precedes routes method.bucket path))) ∧
      ((∀ name, method ≠ .other name) → OwnBucket routes method path) := by
  intro routes
  have routes_eq : (ofTable M table).routes = routes := ofTable_routes M table
  have filed : (ofTable M table).Filed M := filed_ofTable table
  refine ⟨fun own => ?_, fun named => ownBucket_of_named routes named path⟩
  rw [← routes_eq] at own ⊢
  constructor
  · intro agrees accepting
    obtain ⟨i, hit⟩ := agrees.complete accepting
    exact filed.reached_of_lookup specific (resolve_eq_hit.1 hit)
  · intro reached
    constructor
    · intro i hit
      have lookup := resolve_eq_hit.1 hit
      obtain ⟨route, here, accepts⟩ := matches?_eq_true.1 (lookupInBucket_matches lookup)
      obtain ⟨i', route', here', bucket⟩ : ∃ i' route', (ofTable M table).routes[i']? = some route' ∧
          i' = i ∧ route'.method.bucket = method.bucket := by
        rcases lookupInBucket_eq_some.1 lookup with picked | ⟨-, first⟩
        · obtain ⟨pattern, mem, -⟩ := Trie.at?_some picked.1
          obtain ⟨route', there, same, -⟩ := filed.consistent.trie mem
          exact ⟨i, route', there, rfl, same⟩
        · obtain ⟨route', there, same⟩ :=
            filed.consistent.fallback (List.mem_of_find?_eq_some first)
          exact ⟨i, route', there, rfl, same⟩
      obtain ⟨rfl, bucket⟩ := bucket
      cases here.symm.trans here'
      exact ⟨route, here, own route (List.mem_of_getElem? here) bucket accepts, accepts⟩
    · intro accepting
      obtain ⟨i, lookup⟩ := Option.isSome_iff_exists.1
        (filed.lookup_of_reached specific (reached accepting))
      exact ⟨i, resolve_eq_hit.2 lookup⟩

/-- `/files/archive/{u32}` and `/files/{*rest}`. -/
def files : List (Method × PathSpec × Unit) :=
  [(.get, .lit "files".toList (.lit "archive".toList (.capture .u32 .hnil)), ()),
    (.get, .lit "files".toList .captureRest, ())]

theorem agreesWithScan_files :
    AgreesWithScan .documented (ofTable .documented files) .get "/files/archive/7".toList := by
  obtain ⟨iff, own⟩ := resolve_table_iff .documented _ Matchit.documented_mostSpecific files .get
    "/files/archive/7".toList
  refine (iff (own nofun)).2 fun _ => ⟨0, _, rfl, rfl, rfl, .inr ⟨rfl, ?_⟩⟩
  decide

/-- The trie picks the first route, which takes no `old` for a `u32`; the second takes it. -/
theorem not_agreesWithScan_files :
    ¬ AgreesWithScan .documented (ofTable .documented files) .get "/files/archive/old".toList := by
  intro agrees
  obtain ⟨i, hit⟩ := agrees.complete ⟨_, List.mem_of_getElem? (i := 1) rfl, rfl, rfl⟩
  have missed : resolve .documented (ofTable .documented files) .get
      "/files/archive/old".toList = .notFound := by
    decide
  rw [missed] at hit
  cases hit

/-! ## 404 and 405 -/

/-- `resolve` without its shortcuts. -/
def walk (M : Matchit) (inner : RouterInner H) (method : Method) (path : Str) : LookupOutcome :=
  match lookupInBucket M (inner.methodIndex method.bucket) inner.routes path with
  | some i => .hit i
  | none =>
    if allBuckets.any fun b => (lookupInBucket M (inner.methodIndex b) inner.routes path).isSome
    then .methodNotAllowed else .notFound

variable (M) in
/-- No route beside a trie accepts a path that the tries do not know. -/
def ShapeKnown (inner : RouterInner H) (method : Method) (path : Str) : Prop :=
  inner.anyMethodHasFallback = true ∨
    (∃ route ∈ inner.routes, M.fits (toMatchitPattern route.pattern) path = true) ∨
    (∃ i ∈ (inner.methodIndex method.bucket).fallback,
      matches? inner.routes (pathSegments path) i = true) ∨
    ∀ b, ∀ i ∈ (inner.methodIndex b).fallback,
      matches? inner.routes (pathSegments path) i = false

theorem mem_allBuckets (b : Bucket) : b ∈ allBuckets := by
  cases b <;> decide

/-- The bit of one bucket says that no other bucket has a route. -/
theorem bucket_eq_of_bit {method method' : Method}
    (h : methodBit method' ||| methodBit method = methodBit method) :
    method'.bucket = method.bucket := by
  cases method <;> cases method' <;>
    first | rfl | exact absurd h (by simp only [methodBit]; decide)

namespace RouterInner.Consistent

variable {inner : RouterInner H} (h : inner.Consistent) {method : Method} {path : Str}

include h

theorem fits_of_picked {b : Bucket} {i : Nat}
    (picked : Picked M (inner.methodIndex b) inner.routes path i) :
    ∃ route ∈ inner.routes, M.fits (toMatchitPattern route.pattern) path = true := by
  obtain ⟨pattern, mem, fits⟩ := Trie.at?_some picked.1
  obtain ⟨route, here, -, rfl⟩ := h.trie mem
  exact ⟨route, List.mem_of_getElem? here, fits⟩

/-- Without a conflict the trie of all methods knows every path that some route fits. -/
theorem anyMethod_isSome_iff (clean : inner.anyMethodHasFallback = false) :
    (inner.anyMethodTrie.at? M path).isSome = true ↔
      ∃ route ∈ inner.routes, M.fits (toMatchitPattern route.pattern) path = true := by
  rw [Trie.at?_isSome_iff]
  constructor
  · intro some
    obtain ⟨entry, mem, fits⟩ := some
    obtain ⟨route, there, same⟩ := h.shapes entry mem
    exact ⟨route, there, same ▸ fits⟩
  · intro some
    obtain ⟨route, mem, fits⟩ := some
    exact ⟨_, h.mirrored clean _ (h.seen route mem), fits⟩

/-- What `resolve` takes for the existence of a path, in terms of the routes. -/
theorem anyPathShape_iff :
    (inner.anyMethodHasFallback || (inner.anyMethodTrie.at? M path).isSome) = true ↔
      inner.anyMethodHasFallback = true ∨
        ∃ route ∈ inner.routes, M.fits (toMatchitPattern route.pattern) path = true := by
  rw [Bool.or_eq_true]
  cases clean : inner.anyMethodHasFallback with
  | true => simp
  | false => simp only [Bool.false_eq_true, false_or, h.anyMethod_isSome_iff clean]

/-- Only the bucket of the one method with routes can have an answer. -/
theorem bucket_of_isSome (only : inner.methodsPresent = methodBit method) {b : Bucket}
    (some : (lookupInBucket M (inner.methodIndex b) inner.routes path).isSome = true) :
    b = method.bucket := by
  have own : ∀ {route : RouteEntry H} {i : Nat}, inner.routes[i]? = .some route →
      route.method.bucket = method.bucket := by
    intro route i here
    have bit := h.present route (List.mem_of_getElem? here)
    rw [only] at bit
    exact bucket_eq_of_bit bit
  rcases lookupInBucket_isSome.1 some with ⟨i, picked⟩ | ⟨i, beside, -⟩
  · obtain ⟨pattern, mem, -⟩ := Trie.at?_some picked.1
    obtain ⟨route, here, e, -⟩ := h.trie mem
    exact e ▸ own here
  · obtain ⟨route, here, e⟩ := h.fallback beside
    exact e ▸ own here

end RouterInner.Consistent

/-- Exactly when the shortcuts of `resolve` do not show. -/
theorem resolve_eq_walk_iff (M : Matchit) (calls : List (Call H)) (method : Method) (path : Str) :
    resolve M (.calls M calls) method path = walk M (.calls M calls) method path ↔
      ShapeKnown M (.calls M calls) method path := by
  have h : (RouterInner.calls M calls).Consistent := .calls calls
  generalize RouterInner.calls M calls = inner at h
  rw [resolve, walk]
  cases own : lookupInBucket M (inner.methodIndex method.bucket) inner.routes path with
  | some i =>
    refine iff_of_true rfl ?_
    rcases lookupInBucket_eq_some.1 own with picked | ⟨-, first⟩
    · exact .inr (.inl (h.fits_of_picked picked))
    · exact .inr (.inr (.inl ⟨i, List.mem_of_find?_eq_some first, List.find?_some first⟩))
  | none =>
    have missed : ¬ (lookupInBucket M (inner.methodIndex method.bucket) inner.routes path).isSome
        = true := by
      rw [own]
      exact Bool.false_ne_true
    have unlisted : ¬ ∃ i ∈ (inner.methodIndex method.bucket).fallback,
        matches? inner.routes (pathSegments path) i = true := by
      intro some
      exact missed (lookupInBucket_isSome.2 (.inr some))
    have silent : ∀ {b i}, i ∈ (inner.methodIndex b).fallback →
        (lookupInBucket M (inner.methodIndex b) inner.routes path).isSome ≠ true →
        matches? inner.routes (pathSegments path) i = false := by
      intro b i beside none
      apply Bool.eq_false_iff.2
      intro accepts
      exact none (lookupInBucket_isSome.2 (.inr ⟨i, beside, accepts⟩))
    dsimp only
    by_cases only : inner.methodsPresent = methodBit method
    · have others : ¬ (allBuckets.any fun b =>
          (lookupInBucket M (inner.methodIndex b) inner.routes path).isSome) = true := by
        rw [List.any_eq_true]
        intro some
        obtain ⟨b, -, some⟩ := some
        cases h.bucket_of_isSome only some
        exact missed some
      rw [if_pos only, if_neg others]
      refine iff_of_true rfl (.inr (.inr (.inr fun b i beside => silent beside ?_)))
      intro some
      exact others (List.any_eq_true.2 ⟨b, mem_allBuckets b, some⟩)
    · rw [if_neg only]
      cases some : allBuckets.any fun b =>
          (lookupInBucket M (inner.methodIndex b) inner.routes path).isSome with
      | false =>
        rw [Bool.and_false]
        refine iff_of_true rfl (.inr (.inr (.inr fun b i beside => silent beside ?_)))
        exact fun e => List.any_eq_false.1 some b (mem_allBuckets b) e
      | true =>
        rw [Bool.and_true, if_pos rfl]
        by_cases shape : (inner.anyMethodHasFallback ||
            (inner.anyMethodTrie.at? M path).isSome) = true
        · rw [if_pos shape]
          refine iff_of_true rfl ?_
          rcases h.anyPathShape_iff.1 shape with conflict | fits
          · exact .inl conflict
          · exact .inr (.inl fits)
        · rw [if_neg shape]
          refine iff_of_false (by simp) ?_
          intro known
          apply shape
          apply h.anyPathShape_iff.2
          rcases known with conflict | fits | listed | none
          · exact .inl conflict
          · exact .inr fits
          · exact absurd listed unlisted
          · obtain ⟨b, -, found⟩ := List.any_eq_true.1 some
            rcases lookupInBucket_isSome.1 found with ⟨i, picked⟩ | ⟨i, beside, accepts⟩
            · exact .inr (h.fits_of_picked picked)
            · rw [none b i beside] at accepts
              cases accepts

/-- `GET /users/{}` for a `u32` and for a `String`, and `POST /login`. -/
def users : List (Call Unit) :=
  [.addRoute (.ofPath .get (.lit "users".toList (.capture .u32 .hnil)) ()),
    .addRoute (.ofPath .get (.lit "users".toList (.capture .string .hnil)) ()),
    .addRoute (.ofPath .post (.lit "login".toList .hnil) ())]

/-- `POST /users/abc/`: the second route, refused as a duplicate, accepts the path for `GET`. -/
theorem resolve_ne_walk_users :
    resolve .documented (.calls .documented users) .post "/users/abc/".toList ≠
      walk .documented (.calls .documented users) .post "/users/abc/".toList := by
  decide

end Typeway.Server
