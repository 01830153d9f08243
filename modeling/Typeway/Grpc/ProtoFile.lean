import Typeway.Core.Path

/-!
# Parsed `.proto` files

What `parse_proto` returns, and what the code generator and the schema diff take.
-/

namespace Typeway.Grpc

open Typeway.Core

structure ParsedEnumVariant where
  name : Str
  tag : UInt32
  deriving DecidableEq

structure ParsedEnum where
  name : Str
  variants : List ParsedEnumVariant
  deriving DecidableEq

structure ProtoRpcMethod where
  name : Str
  inputType : Str
  outputType : Str
  comment : Option Str
  deriving DecidableEq

structure ProtoService where
  name : Str
  methods : List ProtoRpcMethod
  deriving DecidableEq

structure ParsedField where
  name : Str
  /-- The name of a type, and the whole `map<K, V>` of a map. -/
  protoType : Str
  tag : UInt32
  repeated : Bool
  optional : Bool
  isMap : Bool
  mapKeyType : Option Str
  mapValueType : Option Str
  deriving DecidableEq

structure ParsedMessage where
  name : Str
  fields : List ParsedField
  deriving DecidableEq

structure ProtoFile where
  syntaxVersion : Str
  package : Str
  imports : List Str
  services : List ProtoService
  messages : List ParsedMessage
  enums : List ParsedEnum
  deriving DecidableEq

end Typeway.Grpc
