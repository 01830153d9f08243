import Typeway.Base.Json
import Typeway.Client.Call
import Typeway.Grpc.Service

/-!
# The requests a gRPC call is turned into

`build_synthetic_request` of `grpc_dispatch.rs` puts fields of the message in the place of the
placeholders of the REST path. Which fields these are is decided by `extract_capture_values`:
`param1`, `param2`, and so on if all of them are there, else whatever looks like an identifier,
else the first fields of the message.
-/

namespace Typeway.Server

open Typeway.Core Grpc Json

/-- The paths `http::Uri` reads: characters of its tables up to a query or a fragment. -/
structure UriSyntax where
  pathChar : Char → Bool
  queryChar : Char → Bool
  maxLen : Nat
  /-- What is read of a text that does not begin with a slash. -/
  other : Str → Option Str
  slash : pathChar '/' = true
  braces : pathChar '{' = true ∧ pathChar '}' = true
  ends : pathChar '?' = false ∧ pathChar '#' = false
  empty : other [] = none

/-- `text.parse::<Uri>()`, of which the path is kept. -/
def UriSyntax.parse (U : UriSyntax) : Str → Option Str
  | '/' :: rest =>
    let text := '/' :: rest
    if byteLen text > U.maxLen then none
    else
      let path := text.takeWhile fun c => c ≠ '?' ∧ c ≠ '#'
      let query := (text.drop path.length).takeWhile fun c => c ≠ '#'
      if path.all U.pathChar ∧ (query.drop 1).all U.queryChar then some path else none
  | text => U.other text

/-- The tables of the `http` crate. What it reads of other texts is not needed here. -/
def UriSyntax.documented : UriSyntax where
  pathChar c :=
    let n := c.toNat
    n = 0x21 || (0x24 ≤ n && n ≤ 0x3B) || n = 0x3D || (0x40 ≤ n && n ≤ 0x5F) ||
      (0x61 ≤ n && n ≤ 0x7A) || n = 0x7C || 0x7E ≤ n || c = '"' || c = '{' || c = '}'
  queryChar c :=
    let n := c.toNat
    n = 0x21 || (0x24 ≤ n && n ≤ 0x3B) || n = 0x3D || 0x3F ≤ n
  maxLen := 65534
  other _ := none
  slash := rfl
  braces := ⟨rfl, rfl⟩
  ends := ⟨rfl, rfl⟩
  empty := rfl

/-- `http::request::Parts`, with the headers in order and the extensions. -/
structure HttpParts (X : Type) where
  method : Method
  path : Str
  headers : List (Str × List UInt8)
  extensions : X

/-- `HeaderMap::insert`. -/
def insertHeader (name : Str) (value : List UInt8) (headers : List (Str × List UInt8)) :
    List (Str × List UInt8) :=
  (name, value) :: headers.filter fun h => h.1 ≠ name

/-- The number of placeholders in a path. -/
def placeholders : Str → Nat
  | [] => 0
  | c :: rest =>
    if Client.placeholder.isPrefixOf (c :: rest) then placeholders rest + 1 else placeholders rest

section

variable (floatText : UInt64 → Str)

def jsonValueToString : Value → Str
  | .str s => s
  | .number n => n.text floatText
  | .bool b => if b then "true".toList else "false".toList
  | value => value.text floatText

def paramKey (i : Nat) : Str :=
  "param".toList ++ Lines.decimal i

def idFields : List Str :=
  ["id".toList, "user_id".toList, "item_id".toList, "name".toList, "slug".toList]

/-- The texts of the named members that are there. -/
def membersNamed (obj : List (Str × Value)) (names : List Str) : List Str :=
  names.filterMap fun name => (SortedMap.lookup name obj).map (jsonValueToString floatText)

def extractCaptureValues (message : Value) (restPath : Str) : List Str :=
  let placeholderCount := placeholders restPath
  if placeholderCount = 0 then []
  else
    match message.asObject with
    | none => List.replicate placeholderCount []
    | some obj =>
      let values := membersNamed floatText obj ((List.range' 1 placeholderCount).map paramKey)
      if values.length = placeholderCount then values
      else
        let values := (membersNamed floatText obj idFields).take placeholderCount
        let values :=
          if values.length < placeholderCount then
            (obj.take placeholderCount).map fun member => jsonValueToString floatText member.2
          else values
        values ++ List.replicate (placeholderCount - values.length) []

/-- The text that is parsed as the URI. -/
def syntheticUri (message : Value) (restPath : Str) : Str :=
  if Substring.contains Client.placeholder restPath then
    (extractCaptureValues floatText message restPath).foldl
      (fun path val => Substring.replaceFirst Client.placeholder val path) restPath
  else restPath

/-- The path of the URI, of the template itself where the text is none, `/` where that is none
either. -/
def syntheticPath (U : UriSyntax) (uri restPath : Str) : Str :=
  (U.parse uri).getD ((U.parse restPath).getD ['/'])

def buildSyntheticRequest {X : Type} (U : UriSyntax) (originalParts : HttpParts X)
    (methodDesc : GrpcMethodDescriptor) (messageJson : Value) (stateInjector : Option (X → X)) :
    HttpParts X × List UInt8 :=
  let uri := syntheticUri floatText messageJson methodDesc.restPath
  let parts : HttpParts X :=
    { method := methodDesc.httpMethod
      path := syntheticPath U uri methodDesc.restPath
      headers := insertHeader "content-type".toList
        ("application/json".toList.flatMap String.utf8EncodeChar) originalParts.headers
      extensions :=
        match stateInjector with
        | some inject => inject originalParts.extensions
        | none => originalParts.extensions }
  (parts, (messageJson.text floatText).flatMap String.utf8EncodeChar)

end

end Typeway.Server
