import Mathlib.Algebra.GroupWithZero.Nat
import Typeway.Grpc.Mapping
import Typeway.Server.Router

/-!
# The methods of a generated service

`proto_gen.rs`: every endpoint of an API becomes a method of a gRPC service. Its name is
derived from the HTTP method and the path pattern, its request message from the captures and
the body type.
-/

namespace Typeway.Grpc

open Typeway.Core Lines Server

structure ProtoMessage where
  name : Str
  definition : Str
  deriving DecidableEq

structure RpcMethod where
  name : Str
  httpMethod : Str
  pathPattern : Str
  requestMessage : Option ProtoMessage
  responseMessage : ProtoMessage
  serverStreaming : Bool
  clientStreaming : Bool
  deriving DecidableEq

/-- `{}`, or anything else in braces. -/
def isCapture (seg : Str) : Bool :=
  seg = "{}".toList || (seg.head? = some '{' && seg.getLast? = some '}')

def captureField (i : Nat) (seg : Str) : ProtoField where
  name := if seg = "{}".toList then "param".toList ++ decimal (i + 1) else seg.tail.dropLast
  protoType := "string".toList
  tag := i + 1
  repeated := false
  optional := false
  isMap := false
  mapKeyType := none
  mapValueType := none
  doc := none

def capturesFromPattern (pattern : Str) : List ProtoField :=
  ((pattern.splitOn '/').filter isCapture).mapIdx captureField

def buildResponseMessage (Res : ToProtoType) (rpcName : Str) : ProtoMessage :=
  let typeName := Res.protoTypeName
  if Res.isMessage then
    { name := typeName, definition := Res.messageDefinition.getD (buildMessage typeName []) }
  else if typeName = "google.protobuf.Empty".toList then
    { name := "google.protobuf.Empty".toList, definition := [] }
  else
    let resMsgName := rpcName ++ "Response".toList
    { name := resMsgName
      definition := buildMessage resMsgName
        [{ name := "value".toList
           protoType := typeName
           tag := 1
           repeated := Res.isRepeated
           optional := false
           isMap := false
           mapKeyType := none
           mapValueType := none
           doc := none }] }

/-! ### Names -/

section Names

variable (toUppercase : Char → Str)

/-- The first letter of a word in upper case. -/
def capitalize : Str → Str
  | [] => []
  | c :: chars => toUppercase c ++ chars

/-- `str::len`, in bytes. -/
def byteLen (s : Str) : Nat :=
  (s.map Char.utf8Size).sum

def toPascalCaseSingular (s : Str) : Str :=
  let pascal := (s.splitOn '_').flatMap (capitalize toUppercase)
  if pascal.getLast? = some 's' ∧ byteLen pascal > 1 then pascal.dropLast else pascal

def startsWithBrace (seg : Str) : Bool :=
  seg.head? = some '{'

/-- The last segment of a path that is no capture. -/
def lastStatic (path : Str) : Option Str :=
  ((path.splitOn '/').filter fun s => !s.isEmpty && !startsWithBrace s).getLast?

def lastIsCapture (path : Str) : Bool :=
  match ((path.splitOn '/').filter fun s => !s.isEmpty).getLast? with
  | some s => startsWithBrace s
  | none => false

def rpcPrefix (method : Str) (lastIsCapture : Bool) : Str :=
  if method = "GET".toList then
    if lastIsCapture then "Get".toList else "List".toList
  else if method = "POST".toList then "Create".toList
  else if method = "PUT".toList then "Update".toList
  else if method = "PATCH".toList then "Update".toList
  else if method = "DELETE".toList then "Delete".toList
  else if method = "HEAD".toList then "Head".toList
  else if method = "OPTIONS".toList then "Options".toList
  else "Call".toList

def pathToRpcName (method path : Str) : Str :=
  let resource := ((lastStatic path).map (toPascalCaseSingular toUppercase)).getD "Resource".toList
  rpcPrefix method (lastIsCapture path) ++ resource

end Names

/-- `Method::as_str`. -/
def methodStr : Method → Str
  | .get => "GET".toList
  | .post => "POST".toList
  | .put => "PUT".toList
  | .delete => "DELETE".toList
  | .patch => "PATCH".toList
  | .head => "HEAD".toList
  | .options => "OPTIONS".toList
  | .other name => name

/-- `Method::from_str`, which reads what `as_str` writes. -/
def parseMethod (name : Str) : Method :=
  if name = "GET".toList then .get
  else if name = "POST".toList then .post
  else if name = "PUT".toList then .put
  else if name = "DELETE".toList then .delete
  else if name = "PATCH".toList then .patch
  else if name = "HEAD".toList then .head
  else if name = "OPTIONS".toList then .options
  else .other name

/-- An `Endpoint`, maybe wrapped. `req` is absent where the request type is `NoBody`. -/
structure Endpoint where
  method : Method
  path : PathSpec
  req : Option ToProtoType
  res : ToProtoType
  serverStream : Bool := false
  clientStream : Bool := false
  named : parseMethod (methodStr method) = method

/-- The fields of the body, inlined behind the captures or as one field. -/
def bodyFields (Req : ToProtoType) (captures : List ProtoField) : List ProtoField :=
  if Req.protoTypeName = "google.protobuf.Empty".toList then []
  else if Req.isMessage && !Req.protoFields.isEmpty then
    Req.protoFields.map fun field => { field with tag := field.tag + captures.length }
  else
    [{ name := "body".toList
       protoType := Req.protoTypeName
       tag := captures.length + 1
       repeated := Req.isRepeated
       optional := false
       isMap := false
       mapKeyType := none
       mapValueType := none
       doc := none }]

def requestMessage (rpcName : Str) (path : Str) : Option ToProtoType → Option ProtoMessage
  | none =>
    let captures := capturesFromPattern path
    if captures.isEmpty then none
    else
      let reqName := rpcName ++ "Request".toList
      some { name := reqName, definition := buildMessage reqName captures }
  | some Req =>
    let captures := capturesFromPattern path
    let fields := captures ++ bodyFields Req captures
    let reqName := rpcName ++ "Request".toList
    some { name := reqName, definition := buildMessage reqName fields }

def Endpoint.toRpc (toUppercase : Char → Str) (e : Endpoint) : RpcMethod :=
  let methodStr := methodStr e.method
  let path := e.path.pattern
  let rpcName := pathToRpcName toUppercase methodStr path
  { name := rpcName
    httpMethod := methodStr
    pathPattern := path
    requestMessage := requestMessage rpcName path e.req
    responseMessage := buildResponseMessage e.res rpcName
    serverStreaming := e.serverStream
    clientStreaming := e.clientStream }

end Typeway.Grpc
