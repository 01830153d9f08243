import Typeway.Base.UrlReference
import Typeway.Client.Call

/-!
# The base URL

`call_inner` of `client.rs` and `call_streaming` of `streaming.rs` join the built path to the base
URL and then set the query. The captures are spliced into the path as they are.
-/

namespace Typeway.Client

open Typeway.Core UrlReference

/-- The overrides of a call that concern its URL. `RequestBuilder` passes no empty list. -/
structure CallOverrides where
  queryString : Option Str := none
  queryParams : List (Str × Str) := []

section

variable (encodePair : Str × Str → Str) (parseAuthority : Str → Option Authority)

/-- `append_pair` -/
def appendPair (query : Str) (pair : Str × Str) : Str :=
  if query = [] then encodePair pair else query ++ '&' :: encodePair pair

/-- The query string replaces the query of the URL, the parameters are added to it. -/
def applyQuery (overrides : CallOverrides) (query : Option Str) : Option Str :=
  let query :=
    match overrides.queryString with
    | some qs => if qs = [] then query else some qs
    | none => query
  if overrides.queryParams = [] then query
  else some (overrides.queryParams.foldl (appendPair encodePair) (query.getD []))

/-- The URL that is requested. A call without overrides sets no query, as a streaming call. -/
def requestUrl (base : Url) (path : Str) (overrides : CallOverrides) : Option Url :=
  (join parseAuthority base path).map fun url =>
    { url with query := applyQuery encodePair overrides url.query }

/-- The literal segments before the first capture. -/
def leading : PathSpec → List Str
  | .lit value tail => value :: leading tail
  | _ => []

/-- The URL stays on the base URL, behind the literals, with the query that was passed. -/
structure OnBase (base : Url) (literals : List Str) (overrides : CallOverrides) (url : Url) : Prop where
  scheme : url.scheme = base.scheme
  host : url.authority.host = base.authority.host
  port : url.authority.port = base.authority.port
  path : literals.map written <+: url.path
  query : url.query = applyQuery encodePair overrides none
  fragment : url.fragment = none

/-- A query that comes with the path is replaced, or it is empty and parameters follow. -/
def Unnoticed (overrides : CallOverrides) (query : Option Str) : Prop :=
  query = none ∨ (∃ qs, overrides.queryString = some qs ∧ qs ≠ []) ∨
    query = some [] ∧ overrides.queryParams ≠ []

/-- The parts of a path that leads nowhere else. -/
structure Stays (base : Url) (literals : List Str) (overrides : CallOverrides) (t : Target) :
    Prop where
  authority : ∀ text, t.authority = some text → ∃ authority, parseAuthority text = some authority ∧
    authority.host = base.authority.host ∧ authority.port = base.authority.port
  literals : literals.map written <+: (kept (closed t.pieces)).map written
  query : Unnoticed overrides t.query
  fragment : t.fragment = none

/-- The path leads nowhere else: an empty one brings the query of the base URL, another one is parts
that stay, or it has an authority that is none. -/
def StaysOn (base : Url) (literals : List Str) (overrides : CallOverrides) (path : Str) : Prop :=
  match cleaned path with
  | [] => Unnoticed overrides base.query
  | text => ∀ t, parts text = some t →
      (∃ text, t.authority = some text ∧ parseAuthority text = none) ∨
        Stays parseAuthority base literals overrides t

/-! ## What is built -/

theorem buildPath_slash (captures : List Str) (rest : Str) :
    ∃ rest', buildPath captures ('/' :: rest) = '/' :: rest' := by
  rw [buildPath]
  induction captures generalizing rest with
  | nil => exact ⟨rest, rfl⟩
  | cons capture captures ih =>
    have first : Substring.replaceFirst placeholder capture ('/' :: rest) =
        '/' :: Substring.replaceFirst placeholder capture rest := by
      simp [Substring.replaceFirst, placeholder]
    rw [List.foldl_cons, first]
    exact ih _

theorem buildPath_nil (captures : List Str) : buildPath captures [] = [] := by
  rw [buildPath]
  induction captures with
  | nil => rfl
  | cons capture captures ih =>
    rw [List.foldl_cons]
    exact ih

/-- A path is empty, or it begins with a slash. -/
theorem pattern_eq_or (P : PathSpec) :
    P.pattern = [] ∧ leading P = [] ∨ ∃ rest, P.pattern = '/' :: rest := by
  cases P with
  | hnil => exact .inl ⟨rfl, rfl⟩
  | lit value tail => exact .inr ⟨_, rfl⟩
  | capture U tail => exact .inr ⟨_, rfl⟩
  | captureRest => exact .inr ⟨_, rfl⟩

/-- A slash is not cut off. -/
theorem cleaned_slash (rest : Str) : ∃ rest', cleaned ('/' :: rest) = '/' :: rest' := by
  have some : ('/' :: rest).rdropWhile isBlank ≠ [] := by
    rw [ne_eq, List.rdropWhile_eq_nil_iff]
    intro blank
    have slash := blank '/' List.mem_cons_self
    revert slash
    decide
  obtain ⟨c, front, same⟩ := List.exists_cons_of_ne_nil some
  obtain ⟨back, whole⟩ := List.rdropWhile_prefix isBlank (l := '/' :: rest)
  rw [same] at whole
  obtain rfl : c = '/' := (List.cons.inj whole).1
  refine ⟨front.filter fun c => !isTabOrNewline c, ?_⟩
  rw [cleaned, List.dropWhile_cons_of_neg (by decide), same]
  rfl

/-! ## The query -/

theorem appendPair_length {query query' : Str} (less : query'.length < query.length)
    (pair : Str × Str) :
    (appendPair encodePair query' pair).length < (appendPair encodePair query pair).length := by
  have some : query ≠ [] := by
    rintro rfl
    exact absurd less (Nat.not_lt_zero _)
  rw [appendPair, appendPair, if_neg some]
  split
  · rw [List.length_append, List.length_cons]
    have pos := List.length_pos_of_ne_nil some
    omega
  · rw [List.length_append, List.length_append, List.length_cons]
    omega

/-- A query that is longer stays longer. -/
theorem foldl_appendPair_length {query query' : Str} (less : query'.length < query.length)
    (pairs : List (Str × Str)) :
    (pairs.foldl (appendPair encodePair) query').length <
      (pairs.foldl (appendPair encodePair) query).length := by
  induction pairs generalizing query query' with
  | nil => exact less
  | cons pair pairs ih => exact ih (appendPair_length encodePair less pair)

theorem applyQuery_eq_iff (overrides : CallOverrides) (query : Option Str) :
    applyQuery encodePair overrides query = applyQuery encodePair overrides none ↔
      Unnoticed overrides query := by
  obtain ⟨queryString, queryParams⟩ := overrides
  by_cases replaced : ∃ qs, queryString = some qs ∧ qs ≠ []
  · refine iff_of_true ?_ (.inr (.inl replaced))
    obtain ⟨qs, rfl, some⟩ := replaced
    simp [applyQuery, some]
  · have plain (query : Option Str) : applyQuery encodePair ⟨queryString, queryParams⟩ query =
        if queryParams = [] then query
        else some (queryParams.foldl (appendPair encodePair) (query.getD [])) := by
      cases queryString with
      | none => rfl
      | some qs =>
        have empty : qs = [] := by
          by_contra some
          exact replaced ⟨qs, rfl, some⟩
        simp [applyQuery, empty]
    rw [plain, plain]
    cases query with
    | none => exact iff_of_true rfl (.inl rfl)
    | some query =>
      by_cases params : queryParams = []
      · rw [if_pos params, if_pos params]
        refine iff_of_false (by simp) ?_
        rintro (none | replaced' | ⟨-, some⟩)
        · cases none
        · exact replaced replaced'
        · exact some params
      · rw [if_neg params, if_neg params]
        by_cases empty : query = []
        · rw [empty]
          exact iff_of_true rfl (.inr (.inr ⟨rfl, params⟩))
        · refine iff_of_false ?_ ?_
          · intro same
            have less : ([] : Str).length < query.length := List.length_pos_of_ne_nil empty
            have longer := foldl_appendPair_length encodePair less queryParams
            have equal := Option.some.inj same
            rw [Option.getD_some, Option.getD_none] at equal
            rw [equal] at longer
            exact absurd longer (Nat.lt_irrefl _)
          · rintro (none | replaced' | ⟨same, -⟩)
            · cases none
            · exact replaced replaced'
            · exact empty (Option.some.inj same)

/-! ## The URL -/

/-- Parts that are resolved stay exactly if the URL does. -/
theorem onBase_resolve_iff (base : Url) (literals : List Str) (overrides : CallOverrides)
    (t : Target) :
    (∀ url, (resolve parseAuthority base t).map (fun url =>
        { url with query := applyQuery encodePair overrides url.query }) = some url →
      OnBase encodePair base literals overrides url) ↔
      (∃ text, t.authority = some text ∧ parseAuthority text = none) ∨
        Stays parseAuthority base literals overrides t := by
  rw [resolve]
  cases named : t.authority with
  | none =>
    simp only [Option.map_some, Option.some.injEq, forall_eq']
    constructor
    · intro on
      refine .inr ⟨by simp [named], ?_, (applyQuery_eq_iff encodePair _ _).1 on.query, on.fragment⟩
      rw [← resolvePath_eq]
      exact on.path
    · rintro (⟨text, same, -⟩ | stays)
      · cases same
      · refine ⟨rfl, rfl, rfl, ?_, (applyQuery_eq_iff encodePair _ _).2 stays.query, stays.fragment⟩
        rw [resolvePath_eq]
        exact stays.literals
  | some text =>
    dsimp only
    cases parsed : parseAuthority text with
    | none =>
      refine iff_of_true ?_ (.inl ⟨text, rfl, parsed⟩)
      intro url same
      cases same
    | some authority =>
      simp only [Option.map_some, Option.some.injEq, forall_eq']
      constructor
      · intro on
        refine .inr ⟨?_, ?_, (applyQuery_eq_iff encodePair _ _).1 on.query, on.fragment⟩
        · intro text' same
          rw [named] at same
          obtain rfl := Option.some.inj same
          exact ⟨authority, parsed, on.host, on.port⟩
        · rw [← resolvePath_eq]
          exact on.path
      · rintro (⟨text', same, none⟩ | stays)
        · rw [← same, parsed] at none
          cases none
        · obtain ⟨authority', parsed', host, port⟩ := stays.authority text named
          rw [parsed] at parsed'
          obtain rfl := Option.some.inj parsed'
          refine ⟨rfl, host, port, ?_, (applyQuery_eq_iff encodePair _ _).2 stays.query,
            stays.fragment⟩
          rw [resolvePath_eq]
          exact stays.literals

/-- **The client stays on its base URL exactly where the built path leads nowhere else.** -/
theorem onBase_iff (base : Url) (P : PathSpec) (captures : List Str) (overrides : CallOverrides) :
    (∀ url, requestUrl encodePair parseAuthority base (buildPath captures P.pattern) overrides =
        some url → OnBase encodePair base (leading P) overrides url) ↔
      StaysOn parseAuthority base (leading P) overrides (buildPath captures P.pattern) := by
  obtain ⟨empty, none⟩ | ⟨rest, slash⟩ := pattern_eq_or P
  · rw [empty, none, buildPath_nil, requestUrl]
    have joined : join parseAuthority base [] = some { base with fragment := Option.none } := rfl
    simp only [joined, Option.map_some, Option.some.injEq, forall_eq']
    constructor
    · intro on
      exact (applyQuery_eq_iff encodePair _ _).1 on.query
    · intro unnoticed
      exact ⟨rfl, rfl, rfl, List.nil_prefix, (applyQuery_eq_iff encodePair _ _).2 unnoticed, rfl⟩
  · obtain ⟨built, same⟩ := buildPath_slash captures rest
    obtain ⟨text, clean⟩ := cleaned_slash built
    have found : parts ('/' :: text) = some (behindSlash text) := rfl
    rw [slash, same, requestUrl, join, StaysOn, clean]
    dsimp only
    rw [found, Option.bind_some, onBase_resolve_iff]
    simp

end

/-! ## A capture with a slash -/

def apiBase : Url where
  scheme := .https
  authority := ⟨[], "api.example".toList, none⟩
  path := [[]]
  query := none
  fragment := none

/-- The capture `/evil.example` names another host. -/
theorem not_onBase_slash : ¬ ∀ (parseAuthority : Str → Option Authority) (base : Url)
    (P : PathSpec) (captures : List Str) (overrides : CallOverrides) (url : Url),
    requestUrl (fun _ => []) parseAuthority base (buildPath captures P.pattern) overrides = some url →
      OnBase (fun _ => []) base (leading P) overrides url := by
  intro on
  have host := (on (fun text => some ⟨[], text, none⟩) apiBase (.capture .string .hnil)
    ["/evil.example".toList] {} _ rfl).host
  revert host
  decide

end Typeway.Client
