import Typeway.Base.Checked
import Typeway.Base.Text
import Typeway.Grpc.ProtoFile
import Typeway.Grpc.Spec

/-!
# The parser of `.proto` files

`proto_parse.rs` goes over the lines of a file. Each kind of block has a loop of its own, which
ends at the first line that is a closing brace. The lines that are left stand for the index of
the next one.
-/

namespace Typeway.Grpc

open Checked Typeway.Core Lines Segments Text

/-! ## Single lines -/

/-- The name in a block header. -/
def extractBlockName (header keyword : Str) : Run Str Str :=
  let name := trim (trimEndMatches "\x7b".toList (trim (trimStartMatches keyword header)))
  if name.isEmpty then fail ("missing name after '".toList ++ keyword ++ "'".toList) else .ok name

def parseSyntax (line : Str) : Run Str Str :=
  let rest := trim (trimStartMatches "=".toList (trim (trimStartMatches "syntax".toList line)))
  let rest := trimMatches '"' (trim (trimEndMatches ";".toList rest))
  if rest.isEmpty then fail "empty syntax declaration".toList else .ok rest

def parsePackage (line : Str) : Run Str Str :=
  let rest := trim (trimStartMatches "package".toList line)
  let rest := trim (trimEndMatches ";".toList rest)
  if rest.isEmpty then fail "empty package declaration".toList else .ok rest

def parseImport (line : Str) : Run Str Str :=
  let rest := trim (trimStartMatches "import".toList line)
  let rest := trim (trimStartMatches "weak".toList (trimStartMatches "public".toList rest))
  let path := trimMatches '"' (trim (trimEndMatches ";".toList rest))
  if path.isEmpty then fail "empty import path".toList else .ok path

def parseEnumVariant (line : Str) : Option ParsedEnumVariant :=
  let line := trim (trimEndMatches ";".toList (trim (before "//".toList line)))
  match line.splitOn '=' with
  | [name, number] => (parseU32 (trim number)).map fun tag => { name := trim name, tag }
  | _ => none

/-- The text up to the first `c` and behind it, or an error about the line. -/
def cutAt (c : Char) (text message line : Str) : Run Str (Str × Str) :=
  match splitOnce c text with
  | some parts => .ok parts
  | none => fail (message ++ line)

def parseRpc (line : Str) : Run Str ProtoRpcMethod := do
  let rest := trim (trimStartMatches "rpc".toList line)
  let (name, afterOpen) ← cutAt '(' rest "missing '(' in rpc: ".toList line
  let (inputType, afterInput) ← cutAt ')' afterOpen "missing ')' in rpc: ".toList line
  let afterReturns ←
    match after "returns".toList afterInput with
    | some text => Except.ok text
    | none => fail ("missing 'returns' in rpc: ".toList ++ line)
  let (_, afterOutOpen) ← cutAt '(' afterReturns "missing '(' after returns in rpc: ".toList line
  let (outputType, _) ← cutAt ')' afterOutOpen "missing ')' after returns in rpc: ".toList line
  pure
    { name := trim name
      inputType := trim inputType
      outputType := trim outputType
      comment := none }

def parseMapField (line : Str) : Option ParsedField := do
  let (_, behindOpen) ← splitOnce '<' line
  let (inner, behindClose) ← splitOnce '>' behindOpen
  if inner.isEmpty then none
  else
    let (keyType, valueType) ← splitOnce ',' inner
    match splitWhitespace behindClose with
    | name :: eq :: number :: _ =>
      if eq ≠ "=".toList then none
      else
        let tag ← parseU32 number
        some
          { name
            protoType :=
              "map<".toList ++ trim keyType ++ ", ".toList ++ trim valueType ++ ">".toList
            tag
            repeated := false
            optional := false
            isMap := true
            mapKeyType := some (trim keyType)
            mapValueType := some (trim valueType) }
    | _ => none

def parseField (line : Str) : Option ParsedField :=
  let line := trim (trimEndMatches ";".toList (trim (before "//".toList line)))
  if "map<".toList.isPrefixOf line || "map <".toList.isPrefixOf line then parseMapField line
  else
    let tokens := splitWhitespace line
    if tokens.length < 4 then none
    else
      let repeated := tokens.head? = some "repeated".toList
      let optional := tokens.head? = some "optional".toList
      match if repeated || optional then tokens.tail else tokens with
      | protoType :: name :: eq :: number :: _ =>
        if eq ≠ "=".toList then none
        else
          (parseU32 number).map fun tag =>
            { name
              protoType
              tag
              repeated
              optional
              isMap := false
              mapKeyType := none
              mapValueType := none }
      | _ => none

/-! ## Blocks -/

/-- The loop of `parse_enum_block`. -/
def enumLoop (name : Str) (variants : List ParsedEnumVariant) : List Str → Run Str (ParsedEnum × List Str)
  | [] => fail ("unclosed enum block '".toList ++ name ++ "'".toList)
  | line :: rest =>
    let trimmed := trim line
    if trimmed = "\x7d".toList then .ok ({ name, variants }, rest)
    else if trimmed.isEmpty || "//".toList.isPrefixOf trimmed || "option".toList.isPrefixOf trimmed
        || "reserved".toList.isPrefixOf trimmed then
      enumLoop name variants rest
    else enumLoop name (variants ++ (parseEnumVariant trimmed).toList) rest

def parseEnumBlock (header : Str) (rest : List Str) : Run Str (ParsedEnum × List Str) := do
  let name ← extractBlockName (trim header) "enum".toList
  enumLoop name [] rest

/-- The loop of `parse_service`. -/
def serviceLoop (name : Str) (methods : List ProtoRpcMethod) (pendingComment : Option Str) :
    List Str → Run Str (ProtoService × List Str)
  | [] => fail ("unclosed service block '".toList ++ name ++ "'".toList)
  | line :: rest =>
    let trimmed := trim line
    if trimmed = "\x7d".toList then .ok ({ name, methods }, rest)
    else if "//".toList.isPrefixOf trimmed then serviceLoop name methods (some trimmed) rest
    else if "rpc".toList.isPrefixOf trimmed then do
      let method ← parseRpc trimmed
      serviceLoop name (methods ++ [{ method with comment := pendingComment }]) none rest
    else if trimmed.isEmpty then serviceLoop name methods pendingComment rest
    else serviceLoop name methods none rest

def parseService (header : Str) (rest : List Str) : Run Str (ProtoService × List Str) := do
  let name ← extractBlockName (trim header) "service".toList
  serviceLoop name [] none rest

/-- The loop of `parse_message_block`, with a bound on its turns and those of the loops in it. A
nested block is read by the loop again, under its dotted name. -/
def messageLoop : Nat → Str → Str → List ParsedField → List ParsedMessage → List Str →
    Run Str (List ParsedMessage × List Str)
  | _, _, rawName, _, _, [] => fail ("unclosed message block '".toList ++ rawName ++ "'".toList)
  | 0, _, _, _, _, _ :: _ => .error .unfinished
  | turns + 1, fullName, rawName, fields, nested, line :: rest =>
    let trimmed := trim line
    if trimmed = "\x7d".toList then .ok ({ name := fullName, fields } :: nested, rest)
    else if "message".toList.isPrefixOf trimmed then do
      let innerName ← extractBlockName trimmed "message".toList
      let (msgs, next) ←
        messageLoop turns (fullName ++ ".".toList ++ innerName) innerName [] [] rest
      messageLoop turns fullName rawName fields (nested ++ msgs) next
    else if trimmed.isEmpty || "//".toList.isPrefixOf trimmed then
      messageLoop turns fullName rawName fields nested rest
    else messageLoop turns fullName rawName (fields ++ (parseField trimmed).toList) nested rest

/-- `parse_message_block` with an empty prefix. -/
def parseMessageBlock (header : Str) (rest : List Str) : Run Str (List ParsedMessage × List Str) := do
  let name ← extractBlockName (trim header) "message".toList
  messageLoop rest.length name name [] [] rest

/-! ## Files -/

/-- The loop of `parse_proto`, with a bound on its turns. -/
def fileLoop : Nat → ProtoFile → List Str → Run Str ProtoFile
  | _, file, [] => .ok file
  | 0, _, _ :: _ => .error .unfinished
  | turns + 1, file, line :: rest =>
    let trimmed := trim line
    if trimmed.isEmpty || "//".toList.isPrefixOf trimmed then fileLoop turns file rest
    else if "syntax".toList.isPrefixOf trimmed then do
      let version ← parseSyntax trimmed
      fileLoop turns { file with syntaxVersion := version } rest
    else if "package".toList.isPrefixOf trimmed then do
      let package ← parsePackage trimmed
      fileLoop turns { file with package } rest
    else if "import".toList.isPrefixOf trimmed then do
      let path ← parseImport trimmed
      fileLoop turns { file with imports := file.imports ++ [path] } rest
    else if "service".toList.isPrefixOf trimmed then do
      let (svc, next) ← parseService line rest
      fileLoop turns { file with services := file.services ++ [svc] } next
    else if "message".toList.isPrefixOf trimmed then do
      let (msgs, next) ← parseMessageBlock line rest
      fileLoop turns { file with messages := file.messages ++ msgs } next
    else if "enum".toList.isPrefixOf trimmed then do
      let (parsedEnum, next) ← parseEnumBlock line rest
      fileLoop turns { file with enums := file.enums ++ [parsedEnum] } next
    else fileLoop turns file rest

def parseProto (source : Str) : Run Str ProtoFile :=
  fileLoop (lines source).length
    { syntaxVersion := []
      package := []
      imports := []
      services := []
      messages := []
      enums := [] }
    (lines source)

end Typeway.Grpc
