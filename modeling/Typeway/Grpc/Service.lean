import Typeway.Grpc.ProtoGen

/-!
# The descriptor of a service

`service.rs`: the methods of an API under their full gRPC paths.
-/

namespace Typeway.Grpc

open Typeway.Core Server

structure GrpcMethodDescriptor where
  name : Str
  fullPath : Str
  httpMethod : Method
  restPath : Str
  serverStreaming : Bool
  clientStreaming : Bool
  deriving DecidableEq

structure GrpcServiceDescriptor where
  name : Str
  package : Str
  methods : List GrpcMethodDescriptor

def fullPath (package serviceName name : Str) : Str :=
  "/".toList ++ package ++ ".".toList ++ serviceName ++ "/".toList ++ name

def RpcMethod.descriptor (package serviceName : Str) (rpc : RpcMethod) : GrpcMethodDescriptor where
  name := rpc.name
  fullPath := fullPath package serviceName rpc.name
  httpMethod := parseMethod rpc.httpMethod
  restPath := rpc.pathPattern
  serverStreaming := rpc.serverStreaming
  clientStreaming := rpc.clientStreaming

/-- `collect_rpcs` of the tuple of endpoints. -/
def collectRpcs (toUppercase : Char → Str) (api : List Endpoint) : List RpcMethod :=
  api.map (Endpoint.toRpc toUppercase)

def serviceDescriptor (toUppercase : Char → Str) (api : List Endpoint)
    (serviceName package : Str) : GrpcServiceDescriptor where
  name := serviceName
  package
  methods := (collectRpcs toUppercase api).map (RpcMethod.descriptor package serviceName)

theorem fullPath_inj {package serviceName name name' : Str} :
    fullPath package serviceName name = fullPath package serviceName name' ↔ name = name' :=
  List.append_right_inj _

end Typeway.Grpc
