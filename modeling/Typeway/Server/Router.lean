import Typeway.Server.Matchit

/-!
# The router

`router.rs`: routes are kept in a table of their own, in a trie for each method and, when that
refuses their pattern, in a list beside it. `resolve` looks a path up and tells 404 from 405.
-/

namespace Typeway.Server

open Typeway.Core

/-- `http::Method`, the seven that have a bucket of their own by name. -/
inductive Method where
  | get | post | put | delete | patch | head | options
  | other (name : Str)
  deriving DecidableEq

inductive Bucket where
  | get | post | put | delete | patch | head | options | other
  deriving DecidableEq

/-- The field of `MethodIndex` that `bucket` and `bucket_mut` select. -/
def Method.bucket : Method → Bucket
  | .get => .get
  | .post => .post
  | .put => .put
  | .delete => .delete
  | .patch => .patch
  | .head => .head
  | .options => .options
  | .other _ => .other

def allBuckets : List Bucket :=
  [.get, .post, .put, .delete, .patch, .head, .options, .other]

def methodBit : Method → UInt8
  | .get => (1 : UInt8) <<< 0
  | .post => (1 : UInt8) <<< 1
  | .put => (1 : UInt8) <<< 2
  | .delete => (1 : UInt8) <<< 3
  | .patch => (1 : UInt8) <<< 4
  | .head => (1 : UInt8) <<< 5
  | .options => (1 : UInt8) <<< 6
  | .other _ => (1 : UInt8) <<< 7

/-- The loop of `to_matchit_pattern`: what is left of the pattern and the counter. The bytes of
a character outside braces are cast to characters one by one. -/
def toMatchitLoop : Nat → Str → Nat → Str
  | 0, _, _ => []
  | _, [], _ => []
  | fuel + 1, '{' :: rest, counter =>
    if '}' ∈ rest then
      let inner := rest.takeWhile (· ≠ '}')
      let behind := rest.drop (inner.length + 1)
      if inner.isEmpty then
        '{' :: 'p' :: (Nat.toDigits 10 counter ++ '}' :: toMatchitLoop fuel behind (counter + 1))
      else
        '{' :: (inner ++ '}' :: toMatchitLoop fuel behind counter)
    else '{' :: rest
  | fuel + 1, c :: rest, counter =>
    (String.utf8EncodeChar c).map (fun byte => Char.ofNat byte.toNat) ++
      toMatchitLoop fuel rest counter

def toMatchitPattern (pat : Str) : Str :=
  toMatchitLoop pat.length pat 0

structure RouteEntry (H : Type) where
  method : Method
  pattern : Str
  matchFn : List Str → Bool
  handler : H

structure MethodBucket where
  trie : Trie Nat := {}
  fallback : List Nat := []

structure RouterInner (H : Type) where
  routes : List (RouteEntry H)
  methodIndex : Bucket → MethodBucket
  anyMethodTrie : Trie Unit
  anyMethodSeen : List Str
  anyMethodHasFallback : Bool
  methodsPresent : UInt8
  prefixStr : Option Str

variable {H : Type}

def RouterInner.new : RouterInner H where
  routes := []
  methodIndex _ := {}
  anyMethodTrie := {}
  anyMethodSeen := []
  anyMethodHasFallback := false
  methodsPresent := 0
  prefixStr := none

/-- A prefix without segments changes nothing. -/
def RouterInner.setPrefix (inner : RouterInner H) (pre : Str) : RouterInner H :=
  let segments := pathSegments pre
  if segments.isEmpty then inner
  else { inner with prefixStr := some (Segments.joined '/' segments) }

/-- The route goes into the trie of its method, or into the list beside it. -/
def MethodBucket.insert (M : Matchit) (bucket : MethodBucket) (pattern : Str) (idx : Nat) :
    MethodBucket :=
  match bucket.trie.insert M pattern idx with
  | some trie => { bucket with trie }
  | none => { bucket with fallback := bucket.fallback ++ [idx] }

/-- The pattern is mirrored into the trie of all methods, unless it has been before. -/
def RouterInner.mirror (M : Matchit) (inner : RouterInner H) (pattern : Str) : RouterInner H :=
  if pattern ∈ inner.anyMethodSeen then inner
  else
    let inner := { inner with anyMethodSeen := pattern :: inner.anyMethodSeen }
    match inner.anyMethodTrie.insert M pattern () with
    | some trie => { inner with anyMethodTrie := trie }
    | none => { inner with anyMethodHasFallback := true }

def RouterInner.addRoute (M : Matchit) (inner : RouterInner H) (route : RouteEntry H) :
    RouterInner H :=
  let idx := inner.routes.length
  let matchitPattern := toMatchitPattern route.pattern
  let b := route.method.bucket
  let inner := { inner with
    methodsPresent := inner.methodsPresent ||| methodBit route.method
    methodIndex := Function.update inner.methodIndex b
      ((inner.methodIndex b).insert M matchitPattern idx) }
  let inner := inner.mirror M matchitPattern
  { inner with routes := inner.routes ++ [route] }

/-- The calls that configure a router. -/
inductive Call (H : Type) where
  | addRoute (route : RouteEntry H)
  | setPrefix (pre : Str)

def RouterInner.call (M : Matchit) (inner : RouterInner H) : Call H → RouterInner H
  | .addRoute route => inner.addRoute M route
  | .setPrefix pre => inner.setPrefix pre

def RouterInner.calls (M : Matchit) (calls : List (Call H)) : RouterInner H :=
  calls.foldl (RouterInner.call M) .new

/-- The post-prefix path, if the path falls under the prefix. -/
def stripPrefix (prefixStr : Option Str) (path : Str) : Option Str :=
  match prefixStr with
  | some pre =>
    if pre.isPrefixOf path then
      match path.drop pre.length with
      | [] => some ['/']
      | '/' :: rest => some ('/' :: rest)
      | _ => none
    else none
  | none => some (if path.isEmpty then ['/'] else path)

/-- `(routes[i].match_fn)(segments)`. -/
def matches? (routes : List (RouteEntry H)) (segments : List Str) (i : Nat) : Bool :=
  match routes[i]? with
  | some route => route.matchFn segments
  | none => false

def lookupInBucket (M : Matchit) (bucket : MethodBucket) (routes : List (RouteEntry H))
    (lookupPath : Str) : Option Nat :=
  let segments := pathSegments lookupPath
  match (bucket.trie.at? M lookupPath).filter (matches? routes segments) with
  | some idx => some idx
  | none => bucket.fallback.find? (matches? routes segments)

inductive LookupOutcome where
  | hit (i : Nat)
  | methodNotAllowed
  | notFound
  deriving DecidableEq

def resolve (M : Matchit) (inner : RouterInner H) (method : Method) (lookupPath : Str) :
    LookupOutcome :=
  match lookupInBucket M (inner.methodIndex method.bucket) inner.routes lookupPath with
  | some i => .hit i
  | none =>
    if inner.methodsPresent = methodBit method then .notFound
    else
      let anyPathShape :=
        inner.anyMethodHasFallback || (inner.anyMethodTrie.at? M lookupPath).isSome
      let pathMatched := anyPathShape && allBuckets.any fun b =>
        (lookupInBucket M (inner.methodIndex b) inner.routes lookupPath).isSome
      if pathMatched then .methodNotAllowed else .notFound

/-- `Router::route` up to the body and the fallback service, which is called where the answer is
`notFound`. -/
def route (M : Matchit) (inner : RouterInner H) (method : Method) (path : Str) : LookupOutcome :=
  match stripPrefix inner.prefixStr path with
  | some lookupPath => resolve M inner method lookupPath
  | none => .notFound

def findHandlerByPattern (inner : RouterInner H) (method : Method) (pattern : Str) : Option H :=
  (inner.routes.find? fun e => e.method = method ∧ e.pattern = pattern).map RouteEntry.handler

end Typeway.Server
