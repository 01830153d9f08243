import Typeway.Grpc.ProtoFile
import Typeway.Macros.Spelling

/-!
# Structs from messages

`codegen.rs` prints a struct for every message of a `.proto` file. With the codec the strings are
`BytesStr`, and every field carries its tag for `#[derive(TypewayCodec)]`.
-/

namespace Typeway.Grpc

open Typeway.Core Macros

/-- The arms of the match of `proto_type_to_rust_impl`. -/
def rustBases (useBytesStr : Bool) : List (Str × Str) :=
  [("string".toList, (if useBytesStr then "BytesStr" else "String").toList),
    ("uint32".toList, "u32".toList), ("uint64".toList, "u64".toList),
    ("int32".toList, "i32".toList), ("int64".toList, "i64".toList),
    ("sint32".toList, "i32".toList), ("sint64".toList, "i64".toList),
    ("fixed32".toList, "u32".toList), ("fixed64".toList, "u64".toList),
    ("sfixed32".toList, "i32".toList), ("sfixed64".toList, "i64".toList),
    ("float".toList, "f32".toList), ("double".toList, "f64".toList),
    ("bool".toList, "bool".toList), ("bytes".toList, "Vec<u8>".toList),
    ("google.protobuf.Empty".toList, "()".toList)]

/-- `replace('.', "_")`. -/
def underscored (name : Str) : Str :=
  name.map fun c => if c = '.' then '_' else c

def wrapped (base : Str) (repeated optional : Bool) : Str :=
  if repeated then "Vec<".toList ++ base ++ ">".toList
  else if optional then "Option<".toList ++ base ++ ">".toList
  else base

def formatComposite (typeName : Str) (repeated optional : Bool) : Str :=
  wrapped typeName repeated optional

def protoTypeToRustImpl (protoType : Str) (repeated optional useBytesStr : Bool) : Str :=
  match (rustBases useBytesStr).lookup protoType with
  | none => formatComposite (underscored protoType) repeated optional
  | some base => wrapped base repeated optional

/-- The type of a struct's field. -/
def rustType (withTypewayCodec : Bool) (field : ParsedField) : Str :=
  if field.isMap then
    let key := protoTypeToRustImpl (field.mapKeyType.getD "string".toList) false false
      withTypewayCodec
    let value := protoTypeToRustImpl (field.mapValueType.getD "string".toList) false false
      withTypewayCodec
    "std::collections::HashMap<".toList ++ key ++ ", ".toList ++ value ++ ">".toList
  else protoTypeToRustImpl field.protoType field.repeated field.optional withTypewayCodec

def structName (msg : ParsedMessage) : Str :=
  underscored msg.name

def fieldLines (withTypewayCodec : Bool) (field : ParsedField) : Str :=
  (if withTypewayCodec then
    "    #[proto(tag = ".toList ++ (toString field.tag).toList ++ ")]\n".toList
  else []) ++
    "    pub ".toList ++ field.name ++ ": ".toList ++ rustType withTypewayCodec field ++ ",\n".toList

def generateStructImpl (msg : ParsedMessage) (withTypewayCodec : Bool) : Str :=
  (if withTypewayCodec then
    "#[derive(Debug, Clone, Default, Serialize, Deserialize, TypewayCodec, ToProtoType)]\n"
  else "#[derive(Debug, Clone, Serialize, Deserialize)]\n").toList ++
    "pub struct ".toList ++ structName msg ++ " \x7b\n".toList ++
    msg.fields.flatMap (fieldLines withTypewayCodec) ++ ['}']

/-! ## What the derive macro gets -/

/-- The type that a field is printed with. -/
def synBase (protoType : Str) : SynType :=
  match (rustBases true).lookup protoType with
  | none => .path (underscored protoType)
  | some base =>
    if base = "Vec<u8>".toList then .generic "Vec".toList (.path "u8".toList)
    else if base = "()".toList then .unit
    else .path base

def synType (field : ParsedField) : SynType :=
  if field.repeated then .generic "Vec".toList (synBase field.protoType)
  else if field.optional then .generic "Option".toList (synBase field.protoType)
  else synBase field.protoType

/-- The printed text of a field that is no map is the text of its type. -/
theorem rustType_eq {field : ParsedField} (plain : field.isMap = false) :
    rustType true field = (synType field).text := by
  have base : ∀ repeated optional, protoTypeToRustImpl field.protoType repeated optional true =
      wrapped (synBase field.protoType).text repeated optional := by
    intro repeated optional
    rw [protoTypeToRustImpl, synBase]
    cases (rustBases true).lookup field.protoType with
    | none => rfl
    | some base =>
      dsimp only
      split
      · rename_i same
        rw [same]
        rfl
      · split
        · rename_i same
          rw [same]
          rfl
        · rfl
  rw [rustType, if_neg (by simp [plain]), base, synType, wrapped]
  split
  · simp [SynType.text]
  · split
    · simp [SynType.text]
    · rfl

/-- **What is printed** for a message without maps is a struct whose fields have these types. -/
theorem generateStructImpl_eq {msg : ParsedMessage} (plain : ∀ field ∈ msg.fields, field.isMap = false) :
    generateStructImpl msg true =
      "#[derive(Debug, Clone, Default, Serialize, Deserialize, TypewayCodec, ToProtoType)]\n".toList ++
        "pub struct ".toList ++ structName msg ++ " \x7b\n".toList ++
        msg.fields.flatMap (fun field =>
          "    #[proto(tag = ".toList ++ (toString field.tag).toList ++ ")]\n".toList ++
            "    pub ".toList ++ field.name ++ ": ".toList ++ (synType field).text ++ ",\n".toList) ++
        ['}'] := by
  have lines : msg.fields.flatMap (fieldLines true) = msg.fields.flatMap _ :=
    List.flatMap_congr fun field mem => by rw [fieldLines, if_pos rfl, rustType_eq (plain field mem)]
  rw [generateStructImpl, if_pos rfl, lines]

/-- A field as the derive macro finds it. -/
def structField (field : ParsedField) : StructField Str where
  ident := String.ofList field.name
  ty := (synType field).rustTy
  protoTag := some field.tag

/-- And as it takes it. -/
def codecField (field : ParsedField) : CodecField Str where
  ident := String.ofList field.name
  ty := (synType field).rustTy
  tag := field.tag

end Typeway.Grpc
