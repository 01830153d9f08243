import Typeway.Base.Lines
import Typeway.Core.Path

/-!
# Proto types and messages

`mapping.rs`: what the trait `ToProtoType` says about a type, and the text of a message
definition with its fields.
-/

namespace Typeway.Grpc

open Typeway.Core Lines

structure ProtoField where
  name : Str
  protoType : Str
  tag : Nat
  repeated : Bool
  optional : Bool
  isMap : Bool
  mapKeyType : Option Str
  mapValueType : Option Str
  doc : Option Str
  deriving DecidableEq

def ProtoField.fieldLine (field : ProtoField) : Str :=
  if field.isMap then
    let key := field.mapKeyType.getD "string".toList
    let value := field.mapValueType.getD "string".toList
    "  map<".toList ++ key ++ ", ".toList ++ value ++ "> ".toList ++ field.name ++
      " = ".toList ++ decimal field.tag ++ ";".toList
  else
    let pre :=
      if field.repeated then "repeated ".toList
      else if field.optional then "optional ".toList
      else []
    "  ".toList ++ pre ++ field.protoType ++ " ".toList ++ field.name ++ " = ".toList ++
      decimal field.tag ++ ";".toList

def ProtoField.toProtoLine (field : ProtoField) : Str :=
  match field.doc with
  | some doc =>
    if doc.isEmpty then field.fieldLine
    else
      unlines ((lines doc).map fun line => "  // ".toList ++ line) ++ '\n' :: field.fieldLine
  | none => field.fieldLine

def buildMessage (name : Str) (fields : List ProtoField) : Str :=
  unlines (("message ".toList ++ name ++ " \x7b".toList) ::
    (fields.map ProtoField.toProtoLine ++ ["\x7d".toList]))

/-- What the trait says about a type, with the defaults of the trait. -/
structure ToProtoType where
  protoTypeName : Str
  isMessage : Bool := false
  isRepeated : Bool := false
  isMap : Bool := false
  mapKeyType : Option Str := none
  mapValueType : Option Str := none
  messageDefinition : Option Str := none
  collectMessages : List Str := []
  protoFields : List ProtoField := []

end Typeway.Grpc
