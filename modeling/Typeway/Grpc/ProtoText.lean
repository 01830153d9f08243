import Typeway.Base.IndexMap
import Typeway.Grpc.ProtoGen

/-!
# The text of a `.proto` file

`generate_proto_file` of `proto_gen.rs`: the service with its methods, and every different
definition of a request or response message.
-/

namespace Typeway.Grpc

open Typeway.Core Lines

/-- An insertion into an `IndexSet`. -/
def insertDistinct (items : List Str) (item : Str) : List Str :=
  if items.contains item then items else items ++ [item]

def RpcMethod.requestType (rpc : RpcMethod) : Str :=
  match rpc.requestMessage with
  | some m => m.name
  | none => "google.protobuf.Empty".toList

/-- The definitions of a method, that of the response being empty if there is none. -/
def RpcMethod.definitions (rpc : RpcMethod) : List Str :=
  (rpc.requestMessage.map ProtoMessage.definition).toList ++ [rpc.responseMessage.definition]

def streamPrefix (streaming : Bool) : Str :=
  if streaming then "stream ".toList else []

def RpcMethod.commentLine (rpc : RpcMethod) : Str :=
  "  // ".toList ++ rpc.httpMethod ++ " ".toList ++ rpc.pathPattern

def RpcMethod.rpcLine (rpc : RpcMethod) : Str :=
  "  rpc ".toList ++ rpc.name ++ "(".toList ++ streamPrefix rpc.clientStreaming ++
    rpc.requestType ++ ") returns (".toList ++ streamPrefix rpc.serverStreaming ++
    rpc.responseMessage.name ++ ");".toList

/-- The different definitions in the order of the methods. -/
def collectDefinitions (rpcs : List RpcMethod) : List Str :=
  (rpcs.flatMap RpcMethod.definitions).foldl insertDistinct []

def serviceLines (serviceName : Str) (rpcs : List RpcMethod) : List Str :=
  ("service ".toList ++ serviceName ++ " \x7b".toList) ::
    (rpcs.flatMap fun rpc => [rpc.commentLine, rpc.rpcLine]) ++ ["\x7d".toList, []]

def generateProtoFile (serviceName package : Str) (rpcs : List RpcMethod) : Str :=
  unlines (["syntax = \"proto3\";".toList, [], "package ".toList ++ package ++ ";".toList, []] ++
    serviceLines serviceName rpcs ++
    (collectDefinitions rpcs).flatMap fun definition => [definition, []])

end Typeway.Grpc
