import Typeway.Grpc.ReadsBack

/-!
# Validation of schema texts

`validate_proto` parses a text and checks what the parser does not: the numbers of the fields, their
names and types, and the types of the methods. It reads nothing of a parsed file but the shapes of
its messages and methods, so its verdict on a generated text is one on the descriptions.
-/

namespace Typeway.Grpc

open Checked Typeway.Core Lines Text

structure ProtoValidationError where
  messageName : Option Str
  fieldName : Option Str
  error : Str
  deriving DecidableEq

/-- `char::is_uppercase`, which is known of ASCII characters. -/
structure CharCase where
  isUppercase : Char → Bool
  ascii : ∀ c, c.toNat < 128 → isUppercase c = c.isUpper

/-- Only the upper case letters of ASCII. -/
def asciiCase : CharCase where
  isUppercase := Char.isUpper
  ascii _ _ := rfl

def protoReservedWords : List Str :=
  ["syntax".toList, "import".toList, "package".toList, "option".toList, "message".toList,
    "enum".toList, "service".toList, "rpc".toList, "returns".toList, "stream".toList,
    "repeated".toList, "optional".toList, "map".toList, "oneof".toList, "reserved".toList,
    "extensions".toList, "extend".toList]

def validScalars : List Str :=
  ["double".toList, "float".toList, "int32".toList, "int64".toList, "uint32".toList,
    "uint64".toList, "sint32".toList, "sint64".toList, "fixed32".toList, "fixed64".toList,
    "sfixed32".toList, "sfixed64".toList, "bool".toList, "string".toList, "bytes".toList]

def emptyType : Str :=
  "google.protobuf.Empty".toList

section

variable (U : CharCase)

/-- `starts_with(char::is_uppercase)` -/
def startsUppercase : Str → Bool
  | [] => false
  | c :: _ => U.isUppercase c

/-- An error about a field of a message. -/
def fieldError (msg : Str) (field : ParsedField) (error : Str) : ProtoValidationError :=
  ⟨some msg, some field.name, error⟩

/-- The checks of a field that do not depend on the others. -/
def validateField (msg : Str) (field : ParsedField) : List ProtoValidationError :=
  (if field.tag = 0 then [fieldError msg field "tag must be >= 1".toList] else []) ++
    (if field.tag > 536870911 then
      [fieldError msg field ("tag ".toList ++ decimal field.tag.toNat ++
        " exceeds maximum (536870911)".toList)]
    else []) ++
    (if 19000 ≤ field.tag ∧ field.tag ≤ 19999 then
      [fieldError msg field ("tag ".toList ++ decimal field.tag.toNat ++
        " is in the reserved range 19000-19999".toList)]
    else []) ++
    (if protoReservedWords.contains field.name then
      [fieldError msg field ("'".toList ++ field.name ++ "' is a proto reserved word".toList)]
    else []) ++
    (if !field.isMap && !validScalars.contains field.protoType &&
        !startsUppercase U field.protoType && field.protoType != emptyType then
      [fieldError msg field ("'".toList ++ field.protoType ++ "' is not a valid proto type".toList)]
    else [])

/-- The loop over the fields, with the names of the fields that the numbers were seen on. -/
def validateFields (msg : Str) : List (UInt32 × Str) → List ParsedField → List ProtoValidationError
  | _, [] => []
  | seenTags, field :: fields =>
    match seenTags.lookup field.tag with
    | some existing =>
      fieldError msg field ("duplicate tag ".toList ++ decimal field.tag.toNat ++
          ": already used by field '".toList ++ existing ++ "'".toList) ::
        (validateField U msg field ++ validateFields msg seenTags fields)
    | none =>
      validateField U msg field ++ validateFields msg ((field.tag, field.name) :: seenTags) fields

def validateMessage (msg : ParsedMessage) : List ProtoValidationError :=
  validateFields U msg.name [] msg.fields

/-- The check of one of the types of a method. -/
def validateType (messageNames : List Str) (service : ProtoService) (method : ProtoRpcMethod)
    (place : Str) (type : Str) : List ProtoValidationError :=
  if type != emptyType && !messageNames.contains type then
    [⟨some service.name, some method.name,
      "RPC ".toList ++ place ++ " type '".toList ++ type ++ "' not defined".toList⟩]
  else []

def validateProtoFile (file : ProtoFile) : List ProtoValidationError :=
  let messageNames := file.messages.map ParsedMessage.name
  (if file.syntaxVersion != "proto3".toList then
      [⟨none, none, "expected syntax \"proto3\", got \"".toList ++ file.syntaxVersion ++
        "\"".toList⟩]
    else []) ++
    file.messages.flatMap (validateMessage U) ++
    file.services.flatMap fun service => service.methods.flatMap fun method =>
      validateType messageNames service method "input".toList (stripStream method.inputType) ++
        validateType messageNames service method "output".toList (stripStream method.outputType)

/-- A text that is not parsed has one error. The parser itself always comes to an end. -/
def validateProto (proto : Str) : Run Str (List ProtoValidationError) :=
  match parseProto proto with
  | .ok file => .ok (validateProtoFile U file)
  | .error (.err e) => .ok [⟨none, none, "parse error: ".toList ++ e⟩]
  | .error stop => .error stop

/-! ## What is valid -/

/-- A field as the schema language allows it. -/
structure FieldShape.Valid (f : FieldShape) : Prop where
  positive : 0 < f.tag
  small : f.tag ≤ 536870911
  unreserved : ¬ (19000 ≤ f.tag ∧ f.tag ≤ 19999)
  name : f.name ∉ protoReservedWords
  typed : ∀ t ∈ f.protoType, t ∈ validScalars ∨ startsUppercase U t = true ∨ t = emptyType

structure MessageShape.Valid (m : MessageShape) : Prop where
  tags : (m.fields.map FieldShape.tag).Nodup
  fields : ∀ f ∈ m.fields, f.Valid U

/-- A type that a method can have. -/
def MessageDefined (file : ProtoFile) (type : Str) : Prop :=
  type = emptyType ∨ ∃ m ∈ file.messages, m.name = type

structure ProtoFile.Valid (file : ProtoFile) : Prop where
  proto3 : file.syntaxVersion = "proto3".toList
  messages : ∀ m ∈ file.messages, m.shape.Valid U
  methods : ∀ svc ∈ file.services, ∀ m ∈ svc.methods,
    MessageDefined file m.shape.request ∧ MessageDefined file m.shape.response

end

variable {U : CharCase}

/-- A report without an entry. -/
theorem unless_eq_nil {p : Prop} [Decidable p] {e : ProtoValidationError} :
    (if p then [e] else []) = [] ↔ ¬ p := by
  by_cases here : p <;> simp [here]

/-- The type of a field that is no map. -/
theorem typed_iff {field : ParsedField} :
    ¬ (!field.isMap && !validScalars.contains field.protoType &&
        !startsUppercase U field.protoType && field.protoType != emptyType) = true ↔
      ∀ t ∈ field.shape.protoType,
        t ∈ validScalars ∨ startsUppercase U t = true ∨ t = emptyType := by
  have type : field.shape.protoType = if field.isMap then none else some field.protoType := rfl
  rw [type]
  cases field.isMap with
  | true => simp
  | false =>
    simp only [Bool.not_false, Bool.true_and, Bool.and_eq_true, Bool.not_eq_true', bne_iff_ne,
      List.contains_eq_mem, decide_eq_false_iff_not, Bool.false_eq_true, if_false, Option.mem_def,
      Option.some.injEq, forall_eq']
    by_cases upper : startsUppercase U field.protoType = true
    · simp [upper]
    · simp only [Bool.not_eq_true] at upper
      simp only [upper, and_true, Bool.false_eq_true, false_or, not_and_or, not_not, ne_eq]

theorem validateField_eq_nil {msg : Str} {field : ParsedField} :
    validateField U msg field = [] ↔ field.shape.Valid U := by
  have zero : field.tag = 0 ↔ field.tag.toNat = 0 := UInt32.toNat_inj.symm
  simp only [validateField, List.append_eq_nil_iff, unless_eq_nil]
  rw [typed_iff, zero, List.contains_iff_mem]
  simp only [UInt32.lt_iff_toNat_lt, UInt32.le_iff_toNat_le, gt_iff_lt]
  constructor
  · rintro ⟨⟨⟨⟨positive, small⟩, unreserved⟩, name⟩, typed⟩
    exact ⟨Nat.pos_of_ne_zero positive, Nat.le_of_not_lt small, unreserved, name, typed⟩
  · intro valid
    exact ⟨⟨⟨⟨Nat.ne_of_gt valid.positive, Nat.not_lt.2 valid.small⟩, valid.unreserved⟩,
      valid.name⟩, valid.typed⟩

/-- The loop reports nothing if and only if the fields are valid and have numbers of their own, apart
from those that were seen. -/
theorem validateFields_eq_nil {msg : Str} {fields : List ParsedField} :
    ∀ {seenTags : List (UInt32 × Str)}, validateFields U msg seenTags fields = [] ↔
      (∀ f ∈ fields, f.shape.Valid U) ∧ (fields.map ParsedField.tag).Nodup ∧
        ∀ f ∈ fields, seenTags.lookup f.tag = none := by
  induction fields with
  | nil =>
    intro seenTags
    simp [validateFields]
  | cons field fields ih =>
    intro seenTags
    rw [validateFields, List.forall_mem_cons, List.forall_mem_cons, List.map_cons, List.nodup_cons]
    cases seen : seenTags.lookup field.tag with
    | some existing => simp
    | none =>
      dsimp only
      rw [List.append_eq_nil_iff, validateField_eq_nil, ih]
      have fresh : (∀ f ∈ fields, List.lookup f.tag ((field.tag, field.name) :: seenTags) = none) ↔
          field.tag ∉ fields.map ParsedField.tag ∧ ∀ f ∈ fields, seenTags.lookup f.tag = none := by
        rw [List.mem_map, not_exists, ← forall_and]
        refine forall_congr' fun f => ?_
        rw [List.lookup_cons]
        by_cases same : f.tag = field.tag
        · rw [same, beq_self_eq_true]
          constructor
          · intro none
            have absent : f ∉ fields := fun mem => nomatch none mem
            exact ⟨fun here => absent here.1, fun mem => absurd mem absent⟩
          · intro h mem
            exact absurd ⟨mem, rfl⟩ h.1
        · rw [beq_eq_false_iff_ne.2 same]
          simp only [same, and_false, not_false_eq_true, true_and]
      rw [fresh]
      tauto

theorem validateMessage_eq_nil {msg : ParsedMessage} :
    validateMessage U msg = [] ↔ msg.shape.Valid U := by
  have numbers : msg.shape.fields.map FieldShape.tag =
      (msg.fields.map ParsedField.tag).map UInt32.toNat := by
    rw [ParsedMessage.shape, List.map_map, List.map_map]
    rfl
  have nodup : (msg.fields.map ParsedField.tag).Nodup ↔ (msg.shape.fields.map FieldShape.tag).Nodup := by
    rw [numbers, List.nodup_map_iff (fun a b => UInt32.toNat_inj.1)]
  have each : (∀ f ∈ msg.fields, f.shape.Valid U) ↔ ∀ f ∈ msg.shape.fields, f.Valid U := by
    rw [ParsedMessage.shape, List.forall_mem_map]
  rw [validateMessage, validateFields_eq_nil, nodup, each]
  constructor
  · rintro ⟨valid, tags, -⟩
    exact ⟨tags, valid⟩
  · intro valid
    exact ⟨valid.fields, valid.tags, fun _ _ => rfl⟩

theorem validateType_eq_nil {file : ProtoFile} {service : ProtoService} {method : ProtoRpcMethod}
    {place type : Str} :
    validateType (file.messages.map ParsedMessage.name) service method place type = [] ↔
      MessageDefined file type := by
  rw [validateType, unless_eq_nil, MessageDefined, Bool.and_eq_true, bne_iff_ne, not_and_or, not_not,
    Bool.not_eq_true', Bool.not_eq_false, List.contains_iff_mem, List.mem_map]

/-- The validator accepts the valid files. -/
theorem validateProtoFile_eq_nil {file : ProtoFile} :
    validateProtoFile U file = [] ↔ file.Valid U := by
  rw [validateProtoFile, List.append_eq_nil_iff, List.append_eq_nil_iff, unless_eq_nil, bne_iff_ne,
    not_not]
  simp only [List.flatMap_eq_nil_iff, List.append_eq_nil_iff, validateMessage_eq_nil,
    validateType_eq_nil]
  constructor
  · rintro ⟨⟨proto3, messages⟩, methods⟩
    exact ⟨proto3, messages, methods⟩
  · intro valid
    exact ⟨⟨valid.proto3, valid.messages⟩, valid.methods⟩

theorem validateProto_eq_nil {proto : Str} :
    validateProto U proto = .ok [] ↔ ∃ file, parseProto proto = .ok file ∧ file.Valid U := by
  rw [validateProto]
  cases parseProto proto with
  | ok file => simp [validateProtoFile_eq_nil]
  | error stop => cases stop <;> simp

/-! ## Generated texts -/

theorem ServiceDesc.parseProto_protoText (s : ServiceDesc)
    (none : ∀ m, some m ∈ s.messages → m.OpensNone) :
    parseProto s.protoText = .ok
      { syntaxVersion := "proto3".toList
        package := s.package
        imports := []
        services := [{ name := s.name, methods := serviceMethods Option.none s.methodLines }]
        messages := s.messages.reduceOption.map MessageDesc.parsed
        enums := [] } := by
  rw [parseProto_parts s.lines_parts (s.reads_parts none), foldl_parts]

/-- Definitions of the same text have the same name. -/
theorem name_of_definition {m m' : MessageDesc} (same : m.message.definition = m'.message.definition) :
    m.name = m'.name := by
  have texts : lines (buildMessage m.name m.fields) = lines (buildMessage m'.name m'.fields) :=
    congrArg lines same
  rw [lines_buildMessage, lines_buildMessage] at texts
  have header := (List.cons.inj texts).1
  rw [List.append_cancel_right_eq] at header
  exact List.append_cancel_left header

/-- A message that a method takes or returns is in the file. -/
theorem ServiceDesc.exists_named {s : ServiceDesc} {d : MethodDesc} (inMethods : d ∈ s.methods)
    {m : MessageDesc} (own : some m ∈ d.messages) :
    ∃ m' ∈ s.messages.reduceOption, m'.name = m.name := by
  obtain ⟨m', mem, same⟩ := exists_distinct (List.mem_flatMap.2 ⟨d, inMethods, own⟩)
  cases m' with
  | none =>
    have empty : lines [] = lines (buildMessage m.name m.fields) := congrArg lines same
    rw [lines_buildMessage] at empty
    cases empty
  | some m' => exact ⟨m', List.reduceOption_mem_iff.2 mem, name_of_definition same⟩

theorem MethodDesc.requestType_cases (d : MethodDesc) :
    d.rpc.requestType = emptyType ∨ ∃ m, some m ∈ d.messages ∧ d.rpc.requestType = m.name := by
  cases request : d.request with
  | none =>
    refine .inl ?_
    rw [RpcMethod.requestType, rpc, request]
    rfl
  | some m =>
    refine .inr ⟨m, ?_, ?_⟩
    · rw [messages, request]
      exact List.mem_cons_self
    · rw [RpcMethod.requestType, rpc, request]
      rfl

theorem MethodDesc.responseType_cases (d : MethodDesc) :
    d.rpc.responseMessage.name = emptyType ∨
      ∃ m, some m ∈ d.messages ∧ d.rpc.responseMessage.name = m.name := by
  cases response : d.response with
  | none =>
    refine .inl ?_
    rw [rpc, response]
    rfl
  | some m =>
    refine .inr ⟨m, ?_, ?_⟩
    · rw [messages, response]
      exact List.mem_append_right _ List.mem_cons_self
    · rw [rpc, response]
      rfl

/-- A field that opens a block has no valid type. -/
theorem ProtoField.OpensBlock.not_valid {f : ProtoField} (opens : f.OpensBlock) :
    ¬ f.shape.Valid U := by
  obtain ⟨plain, -, rest, type⟩ := opens
  intro valid
  have shape : f.shape.protoType = some f.protoType := by
    rw [ProtoField.shape]
    exact if_neg (by rw [plain]; exact Bool.false_ne_true)
  rcases valid.typed f.protoType shape with scalar | upper | empty
  · have other : ∀ t ∈ validScalars, (t.head? != some 'm') = true := List.all_eq_true.1 rfl
    have away := other f.protoType scalar
    rw [← type] at away
    cases away
  · have lower : startsUppercase U f.protoType = U.isUppercase 'm' := type ▸ rfl
    rw [lower, U.ascii 'm' (by decide)] at upper
    cases upper
  · rw [← type] at empty
    cases empty

/-- **The validator on generated texts**: it reports nothing if and only if the numbers of each
message are apart and each of its fields has a number, a name and a type that the schema language
allows. The types of the methods are always defined. -/
theorem validateProto_protoText (U : CharCase) (s : ServiceDesc)
    (read : ∀ m, some m ∈ s.messages → ∀ f ∈ m.fields, f.SpecRead) :
    validateProto U s.protoText = .ok [] ↔ ∀ m, some m ∈ s.messages → m.shape.Valid U := by
  rw [validateProto_eq_nil]
  by_cases opens : ∃ m, some m ∈ s.messages ∧ ∃ f ∈ m.fields, f.OpensBlock
  · -- The text is not parsed, and the type of the field is not valid.
    obtain ⟨m, mem, f, inFields, opens⟩ := opens
    constructor
    · rintro ⟨file, parsed, -⟩
      exact absurd parsed (ServiceDesc.not_parsed mem inFields opens file)
    · intro valid
      exact absurd ((valid m mem).fields f.shape (List.mem_map_of_mem inFields)) opens.not_valid
  · have none : ∀ m, some m ∈ s.messages → m.OpensNone := fun m mem f inFields here =>
      opens ⟨m, mem, f, inFields, here⟩
    have shape : ∀ m, some m ∈ s.messages → m.parsed.shape = m.shape := fun m mem =>
      MessageDesc.shape_of_readBack fun f inFields => ⟨read m mem f inFields, none m mem f inFields⟩
    rw [s.parseProto_protoText none]
    constructor
    · rintro ⟨file, parsed, valid⟩ m mem
      cases parsed
      have inFile := List.mem_map_of_mem (f := MessageDesc.parsed) (List.reduceOption_mem_iff.2 mem)
      rw [← shape m mem]
      exact valid.messages m.parsed inFile
    · intro valid
      refine ⟨_, rfl, rfl, ?_, ?_⟩
      · rintro parsed inFile
        obtain ⟨m, mem, rfl⟩ := List.mem_map.1 inFile
        have mem := List.reduceOption_mem_iff.1 mem
        rw [shape m mem]
        exact valid m mem
      · rintro svc one method inMethods
        rw [List.mem_singleton.1 one] at inMethods
        have inShapes := List.mem_map_of_mem (f := ProtoRpcMethod.shape) inMethods
        rw [ServiceDesc.methodLines, shapes_serviceMethods] at inShapes
        obtain ⟨d, inMethods, same⟩ := List.mem_map.1 inShapes
        have defined {type : Str}
            (cases : type = emptyType ∨ ∃ m, some m ∈ d.messages ∧ type = m.name) :
            type = emptyType ∨
              ∃ m ∈ s.messages.reduceOption.map MessageDesc.parsed, m.name = type := by
          refine cases.imp_right ?_
          rintro ⟨m, own, rfl⟩
          obtain ⟨m', mem, named⟩ := ServiceDesc.exists_named inMethods own
          exact ⟨m'.parsed, List.mem_map_of_mem mem, named⟩
        rw [← same]
        exact ⟨defined d.requestType_cases, defined d.responseType_cases⟩

/-- A field of a scalar type. -/
def scalarField (name type : Str) (tag : Nat) : ProtoField where
  name := name
  protoType := type
  tag := tag
  repeated := false
  optional := false
  isMap := false
  mapKeyType := none
  mapValueType := none
  doc := none

theorem scalarField_named {name type : Str} {tag : Nat} (ident : isIdent name = true)
    (typed : isFullIdent type = true) (positive : 0 < tag) (small : tag < 2 ^ 32) :
    (scalarField name type tag).Named where
  name := ident
  protoType := typed
  mapKeyType _ none := nomatch none
  mapValueType _ none := nomatch none
  positive := positive
  small := small

def accountDesc : MessageDesc where
  name := "Account".toList
  fields := [scalarField "id".toList "uint32".toList 1, scalarField "owner".toList "string".toList 2]
  named := rfl
  each := List.forall_mem_cons.2 ⟨scalarField_named rfl rfl (by decide) (by decide),
    List.forall_mem_singleton.2 (scalarField_named rfl rfl (by decide) (by decide))⟩

def accountService : ServiceDesc where
  package := "accounts.v1".toList
  name := "AccountService".toList
  methods :=
    [{ name := "ListAccount".toList
       httpMethod := "GET".toList
       pathPattern := "/mail".toList
       request := none
       response := some accountDesc
       serverStreaming := false
       clientStreaming := false
       named := rfl
       methodLine := get_line
       patternLine := mail_line }]
  packaged := rfl
  named := rfl

theorem messages_accountService {m : MessageDesc} (mem : some m ∈ accountService.messages) :
    m = accountDesc := by
  have one : accountService.methods.flatMap MethodDesc.messages = [some accountDesc] := rfl
  have inMethods := distinctMessages_subset _ mem
  rw [one, List.mem_singleton] at inMethods
  exact Option.some.inj inMethods

theorem validateProto_accountService : validateProto asciiCase accountService.protoText = .ok [] := by
  have numbers : accountDesc.shape.fields.map FieldShape.tag = [1, 2] := rfl
  refine (validateProto_protoText asciiCase accountService fun m mem f inFields => ?_).2 fun m mem => ?_
  · rw [messages_accountService mem] at inFields
    rcases List.mem_cons.1 inFields with rfl | inFields
    · exact ⟨⟨rfl, rfl, by decide⟩, fun _ => ⟨by decide, by decide⟩⟩
    · rw [List.mem_singleton.1 inFields]
      exact ⟨⟨rfl, rfl, by decide⟩, fun _ => ⟨by decide, by decide⟩⟩
  · rw [messages_accountService mem]
    refine ⟨by rw [numbers]; decide, List.forall_mem_cons.2 ⟨?_, List.forall_mem_singleton.2 ?_⟩⟩
    · exact ⟨by decide, by decide, by decide, by decide, fun t same => .inl (by cases same; decide)⟩
    · exact ⟨by decide, by decide, by decide, by decide, fun t same => .inl (by cases same; decide)⟩

end Typeway.Grpc
