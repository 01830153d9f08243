import Typeway.Server.Router

/-!
# What every route table satisfies

`RouterInner.Consistent` relates the indexes of a router to its routes; every sequence of calls
keeps it. `listed` is the promise of `add_route` that registration drops no route.
-/

namespace Typeway.Server

open Typeway.Core

variable {H : Type} {M : Matchit}

structure RouterInner.Consistent (inner : RouterInner H) : Prop where
  trie : ∀ {b pattern i}, (pattern, i) ∈ (inner.methodIndex b).trie.entries →
    ∃ route, inner.routes[i]? = some route ∧ route.method.bucket = b ∧
      toMatchitPattern route.pattern = pattern
  fallback : ∀ {b i}, i ∈ (inner.methodIndex b).fallback →
    ∃ route, inner.routes[i]? = some route ∧ route.method.bucket = b
  listed : ∀ {i route}, inner.routes[i]? = some route →
    (toMatchitPattern route.pattern, i) ∈ (inner.methodIndex route.method.bucket).trie.entries ∨
      i ∈ (inner.methodIndex route.method.bucket).fallback
  present : ∀ route ∈ inner.routes,
    methodBit route.method ||| inner.methodsPresent = inner.methodsPresent
  seen : ∀ route ∈ inner.routes, toMatchitPattern route.pattern ∈ inner.anyMethodSeen
  mirrored : inner.anyMethodHasFallback = false → ∀ pattern ∈ inner.anyMethodSeen,
    (pattern, ()) ∈ inner.anyMethodTrie.entries
  shapes : ∀ entry ∈ inner.anyMethodTrie.entries,
    ∃ route ∈ inner.routes, toMatchitPattern route.pattern = entry.1
  nested : ∀ pre, inner.prefixStr = some pre →
    ∃ segments, segments ≠ [] ∧ Segments.Clean '/' segments ∧ pre = Segments.joined '/' segments

/-! ## The fields after a call -/

section Fields

variable (inner : RouterInner H) (pattern : Str) (route : RouteEntry H)

/-- Mirroring a pattern leaves the routes and the buckets alone. -/
theorem mirror_frame :
    (inner.mirror M pattern).routes = inner.routes ∧
      (inner.mirror M pattern).methodIndex = inner.methodIndex ∧
      (inner.mirror M pattern).methodsPresent = inner.methodsPresent ∧
      (inner.mirror M pattern).prefixStr = inner.prefixStr := by
  rw [RouterInner.mirror]
  split
  · exact ⟨rfl, rfl, rfl, rfl⟩
  · dsimp only
    split <;> exact ⟨rfl, rfl, rfl, rfl⟩

@[simp] theorem mem_mirror_seen {p : Str} :
    p ∈ (inner.mirror M pattern).anyMethodSeen ↔ p = pattern ∨ p ∈ inner.anyMethodSeen := by
  rw [RouterInner.mirror]
  split
  · rename_i old
    constructor
    · exact .inr
    · intro h
      rcases h with rfl | h
      · exact old
      · exact h
  · dsimp only
    split <;> exact List.mem_cons

@[simp] theorem addRoute_routes : (inner.addRoute M route).routes = inner.routes ++ [route] :=
  congrArg (· ++ [route]) (mirror_frame _ _).1

@[simp] theorem addRoute_methodIndex :
    (inner.addRoute M route).methodIndex =
      Function.update inner.methodIndex route.method.bucket
        ((inner.methodIndex route.method.bucket).insert M (toMatchitPattern route.pattern)
          inner.routes.length) :=
  (mirror_frame _ _).2.1

@[simp] theorem addRoute_methodsPresent :
    (inner.addRoute M route).methodsPresent = inner.methodsPresent ||| methodBit route.method :=
  (mirror_frame _ _).2.2.1

@[simp] theorem addRoute_prefixStr : (inner.addRoute M route).prefixStr = inner.prefixStr :=
  (mirror_frame _ _).2.2.2

@[simp] theorem mem_addRoute_seen {p : Str} :
    p ∈ (inner.addRoute M route).anyMethodSeen ↔
      p = toMatchitPattern route.pattern ∨ p ∈ inner.anyMethodSeen :=
  mem_mirror_seen _ _

/-- A pattern goes into the trie of a bucket or beside it. -/
theorem insert_cases (bucket : MethodBucket) (idx : Nat) :
    ((bucket.insert M pattern idx).trie.entries = bucket.trie.entries ++ [(pattern, idx)] ∧
        (bucket.insert M pattern idx).fallback = bucket.fallback) ∨
      ((bucket.insert M pattern idx).trie = bucket.trie ∧
        (bucket.insert M pattern idx).fallback = bucket.fallback ++ [idx]) := by
  rw [MethodBucket.insert]
  cases e : bucket.trie.insert M pattern idx with
  | some trie => exact .inl ⟨Trie.entries_insert e, rfl⟩
  | none => exact .inr ⟨rfl, rfl⟩

end Fields

/-! ## Every call keeps the table consistent -/

section Keep

variable {inner : RouterInner H}

theorem RouterInner.Consistent.new : (RouterInner.new : RouterInner H).Consistent where
  trie h := by cases h
  fallback h := by cases h
  listed h := by cases h
  present _ h := by cases h
  seen _ h := by cases h
  mirrored _ _ h := by cases h
  shapes _ h := by cases h
  nested _ h := by cases h

theorem RouterInner.Consistent.setPrefix (h : inner.Consistent) (pre : Str) :
    (inner.setPrefix pre).Consistent := by
  rw [RouterInner.setPrefix]
  split
  · exact h
  · rename_i some
    refine ⟨h.trie, h.fallback, h.listed, h.present, h.seen, h.mirrored, h.shapes, ?_⟩
    intro joined e
    cases e
    exact ⟨_, by simpa [pathSegments] using some, Segments.segments_clean pre, rfl⟩

/-- What a bucket holds after a call: what it held, and the new route if it is its own. -/
theorem mem_addRoute_trie {route : RouteEntry H} {b : Bucket} {pattern : Str} {i : Nat}
    (mem : (pattern, i) ∈ ((inner.addRoute M route).methodIndex b).trie.entries) :
    (pattern, i) ∈ (inner.methodIndex b).trie.entries ∨
      (b = route.method.bucket ∧ pattern = toMatchitPattern route.pattern ∧
        i = inner.routes.length) := by
  rw [addRoute_methodIndex, Function.update_apply] at mem
  split at mem
  · rename_i own
    subst own
    rcases insert_cases (M := M) (toMatchitPattern route.pattern)
      (inner.methodIndex route.method.bucket) inner.routes.length with new | old
    · rw [new.1, List.mem_append, List.mem_singleton] at mem
      rcases mem with mem | e
      · exact .inl mem
      · cases e
        exact .inr ⟨rfl, rfl, rfl⟩
    · rw [old.1] at mem
      exact .inl mem
  · exact .inl mem

theorem mem_addRoute_fallback {route : RouteEntry H} {b : Bucket} {i : Nat}
    (mem : i ∈ ((inner.addRoute M route).methodIndex b).fallback) :
    i ∈ (inner.methodIndex b).fallback ∨
      (b = route.method.bucket ∧ i = inner.routes.length) := by
  rw [addRoute_methodIndex, Function.update_apply] at mem
  split at mem
  · rename_i own
    subst own
    rcases insert_cases (M := M) (toMatchitPattern route.pattern)
      (inner.methodIndex route.method.bucket) inner.routes.length with new | old
    · rw [new.2] at mem
      exact .inl mem
    · rw [old.2, List.mem_append, List.mem_singleton] at mem
      rcases mem with mem | rfl
      · exact .inl mem
      · exact .inr ⟨rfl, rfl⟩
  · exact .inl mem

/-- What a bucket held it keeps, and its own route it takes. -/
theorem addRoute_keeps (route : RouteEntry H) {b : Bucket} {pattern : Str} {i : Nat}
    (held : (pattern, i) ∈ (inner.methodIndex b).trie.entries ∨
        i ∈ (inner.methodIndex b).fallback ∨
      (b = route.method.bucket ∧ pattern = toMatchitPattern route.pattern ∧
        i = inner.routes.length)) :
    (pattern, i) ∈ ((inner.addRoute M route).methodIndex b).trie.entries ∨
      i ∈ ((inner.addRoute M route).methodIndex b).fallback := by
  rw [addRoute_methodIndex, Function.update_apply]
  split
  · rename_i own
    subst own
    rcases insert_cases (M := M) (toMatchitPattern route.pattern)
      (inner.methodIndex route.method.bucket) inner.routes.length with new | old
    · rw [new.1, new.2, List.mem_append, List.mem_singleton]
      rcases held with held | held | ⟨-, rfl, rfl⟩
      · exact .inl (.inl held)
      · exact .inr held
      · exact .inl (.inr rfl)
    · rw [old.1, old.2, List.mem_append, List.mem_singleton]
      rcases held with held | held | ⟨-, -, rfl⟩
      · exact .inl held
      · exact .inr (.inl held)
      · exact .inr (.inr rfl)
  · rename_i other
    rcases held with held | held | ⟨own, -, -⟩
    · exact .inl held
    · exact .inr held
    · exact absurd own other

theorem routes_append_some {route : RouteEntry H} {i : Nat} {r : RouteEntry H}
    (h : inner.routes[i]? = some r) : (inner.routes ++ [route])[i]? = some r := by
  rw [List.getElem?_append_left (List.getElem?_eq_some_iff.1 h).1, h]

theorem mirror_mirrored {pattern : Str}
    (h : inner.anyMethodHasFallback = false → ∀ p ∈ inner.anyMethodSeen,
      (p, ()) ∈ inner.anyMethodTrie.entries)
    (clean : (inner.mirror M pattern).anyMethodHasFallback = false) :
    ∀ p ∈ (inner.mirror M pattern).anyMethodSeen,
      (p, ()) ∈ (inner.mirror M pattern).anyMethodTrie.entries := by
  intro p mem
  rw [RouterInner.mirror] at clean mem ⊢
  split at clean
  · rename_i old
    rw [if_pos old] at mem ⊢
    exact h clean p mem
  · rename_i new
    rw [if_neg new] at mem ⊢
    cases e : inner.anyMethodTrie.insert M pattern () with
    | some trie =>
      simp only [e] at clean mem ⊢
      rw [Trie.entries_insert e, List.mem_append, List.mem_singleton]
      rcases List.mem_cons.1 mem with rfl | mem
      · exact .inr rfl
      · exact .inl (h clean p mem)
    | none =>
      simp only [e] at clean
      cases clean

theorem mem_mirror_trie {pattern : Str} {entry : Str × Unit}
    (mem : entry ∈ (inner.mirror M pattern).anyMethodTrie.entries) :
    entry ∈ inner.anyMethodTrie.entries ∨ entry.1 = pattern := by
  rw [RouterInner.mirror] at mem
  split at mem
  · exact .inl mem
  · cases e : inner.anyMethodTrie.insert M pattern () with
    | some trie =>
      simp only [e] at mem
      rw [Trie.entries_insert e, List.mem_append, List.mem_singleton] at mem
      rcases mem with mem | rfl
      · exact .inl mem
      · exact .inr rfl
    | none =>
      simp only [e] at mem
      exact .inl mem

theorem RouterInner.Consistent.addRoute (h : inner.Consistent) (route : RouteEntry H) :
    (inner.addRoute M route).Consistent where
  trie mem := by
    rw [addRoute_routes]
    rcases mem_addRoute_trie mem with mem | ⟨rfl, rfl, rfl⟩
    · obtain ⟨r, at_i, rest⟩ := h.trie mem
      exact ⟨r, routes_append_some at_i, rest⟩
    · exact ⟨route, List.getElem?_concat_length, rfl, rfl⟩
  fallback mem := by
    rw [addRoute_routes]
    rcases mem_addRoute_fallback mem with mem | ⟨rfl, rfl⟩
    · obtain ⟨r, at_i, own⟩ := h.fallback mem
      exact ⟨r, routes_append_some at_i, own⟩
    · exact ⟨route, List.getElem?_concat_length, rfl⟩
  listed := by
    intro i r at_i
    apply addRoute_keeps route
    rw [addRoute_routes, List.getElem?_append] at at_i
    split at at_i
    · rcases h.listed at_i with held | held
      · exact .inl held
      · exact .inr (.inl held)
    · rename_i past
      rw [List.getElem?_singleton] at at_i
      split at at_i
      · cases at_i
        exact .inr (.inr ⟨rfl, rfl, by omega⟩)
      · cases at_i
  present r mem := by
    rw [addRoute_methodsPresent, ← UInt8.or_assoc]
    rw [addRoute_routes, List.mem_append, List.mem_singleton] at mem
    rcases mem with mem | rfl
    · rw [h.present r mem]
    · rw [UInt8.or_comm (methodBit _) _, UInt8.or_assoc, UInt8.or_self]
  seen r mem := by
    rw [mem_addRoute_seen]
    rw [addRoute_routes, List.mem_append, List.mem_singleton] at mem
    rcases mem with mem | rfl
    · exact .inr (h.seen r mem)
    · exact .inl rfl
  mirrored clean := by
    rw [RouterInner.addRoute] at clean ⊢
    exact mirror_mirrored h.mirrored clean
  shapes entry mem := by
    rw [addRoute_routes]
    rcases mem_mirror_trie mem with mem | e
    · obtain ⟨r, there, same⟩ := h.shapes entry mem
      exact ⟨r, List.mem_append_left _ there, same⟩
    · exact ⟨route, List.mem_append_right _ (List.mem_singleton_self _), e.symm⟩
  nested pre e := by
    rw [addRoute_prefixStr] at e
    exact h.nested pre e

theorem RouterInner.Consistent.call (h : inner.Consistent) (c : Call H) : (inner.call M c).Consistent := by
  cases c with
  | addRoute route => exact h.addRoute route
  | setPrefix pre => exact h.setPrefix pre

/-- Every sequence of calls leaves a consistent table. -/
theorem RouterInner.Consistent.calls (calls : List (Call H)) : (RouterInner.calls M calls).Consistent := by
  suffices ∀ inner : RouterInner H, inner.Consistent →
      (calls.foldl (RouterInner.call M) inner).Consistent from this .new .new
  induction calls with
  | nil =>
    intro inner h
    exact h
  | cons c calls ih =>
    intro inner h
    exact ih _ (h.call c)

end Keep

end Typeway.Server
