import Typeway.Base.Text
import Typeway.Grpc.ProtoText
import Typeway.Grpc.Service

/-!
# The specification of a service

`spec.rs`: the methods of an API with the messages they take and return. The messages are read
back from the texts of their definitions.
-/

namespace Typeway.Grpc

open Typeway.Core Lines Segments Text

structure FieldSpec where
  name : Str
  protoType : Str
  tag : UInt32
  repeated : Bool
  optional : Bool
  isMap : Bool
  mapKeyType : Option Str
  mapValueType : Option Str
  description : Option Str
  deriving DecidableEq

structure MessageSpec where
  name : Str
  fields : List FieldSpec
  deriving DecidableEq

structure MethodSpec where
  name : Str
  fullPath : Str
  restPath : Str
  httpMethod : Str
  requestType : Str
  responseType : Str
  serverStreaming : Bool
  clientStreaming : Bool
  deriving DecidableEq

structure GrpcServiceSpec where
  proto : Str
  methods : List (Str × MethodSpec)
  messages : List (Str × MessageSpec)

/-! ## Reading a definition -/

/-- `parse::<u32>()`. -/
def parseU32 (text : Str) : Option UInt32 :=
  CaptureType.u32.fromStr text

/-- `parse_map_field` of `spec.rs`. -/
def parseMapFieldSpec (line : Str) : Option FieldSpec := do
  let (_, behindOpen) ← splitOnce '<' line
  let (inner, afterAngle) ← splitOnce '>' behindOpen
  let (keyType, valueType) ← splitOnce ',' inner
  match splitn ' ' 3 (trim afterAngle) with
  | [name, _, number] =>
    let tag ← parseU32 (trim number)
    some
      { name
        protoType := "map".toList
        tag
        repeated := false
        optional := false
        isMap := true
        mapKeyType := some (trim keyType)
        mapValueType := some (trim valueType)
        description := none }
  | _ => none

/-- A line with the semicolon off. -/
def parseFieldSpec (line : Str) : Option FieldSpec := do
  let line := trim (trimEndMatches ";".toList (trim line))
  if line.isEmpty then none
  else if "map<".toList.isPrefixOf line then parseMapFieldSpec line
  else
    let repeated := "repeated ".toList.isPrefixOf line
    let optional := !repeated && "optional ".toList.isPrefixOf line
    let rest :=
      if repeated then trim (trimStartMatches "repeated ".toList line)
      else if optional then trim (trimStartMatches "optional ".toList line)
      else line
    match splitn ' ' 4 rest with
    | [protoType, name, _, number] =>
      let tag ← parseU32 (trim number)
      some
        { name
          protoType
          tag
          repeated
          optional
          isMap := false
          mapKeyType := none
          mapValueType := none
          description := none }
    | _ => none

/-- The variables of `parse_message_spec`. -/
structure MessageReader where
  name : Str := []
  fields : List FieldSpec := []
  pendingDoc : Option Str := none

def MessageReader.step (s : MessageReader) (line : Str) : MessageReader :=
  let line := trim line
  if "message ".toList.isPrefixOf line && line.getLast? = some '\x7b' then
    { s with
      name := trim (trimEndMatches " \x7b".toList (trimStartMatches "message ".toList line)) }
  else if "//".toList.isPrefixOf line then
    { s with pendingDoc := some (trim (trimStartMatches "//".toList line)) }
  else if !line.isEmpty && line ≠ "\x7d".toList then
    match parseFieldSpec line with
    | some field =>
      let described :=
        match s.pendingDoc with
        | some doc => { field with description := some doc }
        | none => field
      { s with fields := s.fields ++ [described], pendingDoc := none }
    | none => { s with pendingDoc := none }
  else s

def parseMessageSpec (definition : Str) : MessageSpec :=
  let s := (lines definition).foldl MessageReader.step {}
  { name := s.name, fields := s.fields }

/-! ## The specification -/

def RpcMethod.spec (package serviceName : Str) (rpc : RpcMethod) : MethodSpec where
  name := rpc.name
  fullPath := fullPath package serviceName rpc.name
  restPath := rpc.pathPattern
  httpMethod := rpc.httpMethod
  requestType := rpc.requestType
  responseType := rpc.responseMessage.name
  serverStreaming := rpc.serverStreaming
  clientStreaming := rpc.clientStreaming

/-- The message of a name is the first one. -/
def insertMessage (messages : List (Str × MessageSpec)) (m : ProtoMessage) :
    List (Str × MessageSpec) :=
  IndexMap.insertNew m.name (parseMessageSpec m.definition) messages

/-- The messages a method adds. -/
def RpcMethod.insertMessages (messages : List (Str × MessageSpec)) (rpc : RpcMethod) :
    List (Str × MessageSpec) :=
  let messages :=
    match rpc.requestMessage with
    | some req => insertMessage messages req
    | none => messages
  if rpc.responseMessage.name = "google.protobuf.Empty".toList then messages
  else insertMessage messages rpc.responseMessage

/-- `grpc_spec`, the methods under their names. -/
def grpcSpec (toUppercase : Char → Str) (api : List Endpoint) (serviceName package : Str) :
    GrpcServiceSpec :=
  let rpcs := collectRpcs toUppercase api
  { proto := generateProtoFile serviceName package rpcs
    methods := rpcs.foldl
      (fun methods rpc => IndexMap.insert rpc.name (rpc.spec package serviceName) methods) []
    messages := rpcs.foldl RpcMethod.insertMessages [] }

end Typeway.Grpc
