import Typeway.Grpc.ReadLines

/-!
# Generated files are read back

`parse_proto` on the text of `generate_proto_file`, and `parse_message_spec` on the text of
`build_message`. A generated file is laid out in parts. A field whose line is taken for the header
of a block leaves one block more open than the lines behind it close.
-/

namespace Typeway.Grpc

open Checked Typeway.Core Lines Text

/-- The file and the definitions are read back. -/
structure ServiceDesc.ReadsBack (s : ServiceDesc) : Prop where
  file : ∃ file, parseProto s.protoText = .ok file ∧ file.package = s.package ∧
    (file.services.map fun svc => (svc.name, svc.methods.map ProtoRpcMethod.shape)) =
      [(s.name, s.methods.map MethodDesc.shape)] ∧
    file.messages.map ParsedMessage.shape = s.messages.reduceOption.map MessageDesc.shape
  definitions : ∀ d ∈ s.methods, ∀ m, some m ∈ d.messages →
    (parseMessageSpec (buildMessage m.name m.fields)).fields.map FieldSpec.shape =
      m.fields.map ProtoField.shape

/-! ## Parts of a generated file -/

def MessageDesc.OpensNone (m : MessageDesc) : Prop :=
  ∀ f ∈ m.fields, ¬ f.OpensBlock

def MessageDesc.entries (m : MessageDesc) : List Entry :=
  ((m.fields.flatMap ProtoField.protoLines).map stripCr).map Entry.line

def MessageDesc.part (m : MessageDesc) : Part :=
  .message ("message ".toList ++ m.name ++ " \x7b".toList) m.name m.entries "\x7d".toList

/-- An empty line, and the definition or another empty line. -/
def partsOf : Option MessageDesc → List Part
  | some m => [.skip [], m.part]
  | none => [.skip [], .skip []]

def ServiceDesc.methodLines (s : ServiceDesc) : List Str :=
  s.methods.flatMap fun d => [stripCr d.rpc.commentLine, d.rpc.rpcLine]

def ServiceDesc.frontParts (s : ServiceDesc) : List Part :=
  [.syntaxLine "syntax = \"proto3\";".toList "proto3".toList, .skip [],
    .packageLine ("package ".toList ++ s.package ++ ";".toList) s.package, .skip [],
    .service ("service ".toList ++ s.name ++ " \x7b".toList) s.name s.methodLines "\x7d".toList]

theorem Part.lines_skip (line : Str) : (Part.skip line).lines = [line] := rfl

theorem allLines_line (lines : List Str) : Entry.allLines (lines.map Entry.line) = lines := by
  induction lines with
  | nil => rfl
  | cons line lines ih => rw [List.map_cons, Entry.allLines, ih, Entry.lines, List.singleton_append]

theorem MessageDesc.lines_entries (m : MessageDesc) :
    Entry.allLines m.entries = (m.fields.flatMap ProtoField.protoLines).map stripCr :=
  allLines_line _

theorem MessageDesc.lines_part (m : MessageDesc) :
    m.part.lines = ("message ".toList ++ m.name ++ " \x7b".toList) ::
      ((m.fields.flatMap ProtoField.protoLines).map stripCr ++ ["\x7d".toList]) := by
  rw [part, Part.lines, lines_entries]

theorem lines_partsOf (m : Option MessageDesc) :
    (partsOf m).flatMap Part.lines = ([] :: linesOf m).map stripCr := by
  cases m with
  | none => rfl
  | some m =>
    have header := notMem_header (c := '\r') (Name.of_fullIdent m.named) rfl rfl
      (rfl : "message ".toList.all (fun d => isNameChar d || isMark d) = true)
    rw [partsOf, linesOf, definitionLines, List.map_cons, List.map_cons, List.map_append,
      stripCr_of_notMem header, List.flatMap_cons, List.flatMap_singleton, MessageDesc.lines_part]
    rfl

theorem ServiceDesc.lines_frontParts (s : ServiceDesc) :
    s.frontParts.flatMap Part.lines =
      (["syntax = \"proto3\";".toList, [], "package ".toList ++ s.package ++ ";".toList, [],
        "service ".toList ++ s.name ++ " \x7b".toList] ++
        (s.methods.flatMap fun d => [d.rpc.commentLine, d.rpc.rpcLine]) ++
          ["\x7d".toList]).map stripCr := by
  have header := notMem_header (c := '\r') (Name.of_ident s.named) rfl rfl
    (rfl : "service ".toList.all (fun d => isNameChar d || isMark d) = true)
  have package : '\r' ∉ "package ".toList ++ s.package ++ ";".toList := by
    simp only [List.mem_append, not_or]
    exact ⟨⟨by decide, (Name.of_fullIdent s.packaged).notMem rfl⟩, by decide⟩
  have methods : s.methodLines =
      (s.methods.flatMap fun d => [d.rpc.commentLine, d.rpc.rpcLine]).map stripCr := by
    rw [methodLines, List.map_flatMap]
    refine List.flatMap_congr fun d _ => ?_
    rw [List.map_cons, List.map_singleton, stripCr_of_notMem (d.notMem_rpcLine rfl rfl)]
  rw [List.map_append, List.map_append, ← methods, List.map_cons, List.map_cons, List.map_cons,
    List.map_cons, List.map_singleton, stripCr_of_notMem header, stripCr_of_notMem package]
  simp only [frontParts, List.flatMap_cons, List.flatMap_nil, Part.lines, List.append_nil]
  rfl

def ServiceDesc.parts (s : ServiceDesc) : List Part :=
  s.frontParts ++ s.messages.flatMap partsOf

/-- A generated file is laid out in its parts. -/
theorem ServiceDesc.lines_parts (s : ServiceDesc) :
    lines s.protoText = s.parts.flatMap Part.lines := by
  rw [lines_protoText, textLines, List.map_append, ← lines_frontParts, parts, List.flatMap_append,
    List.flatMap_assoc, List.map_flatMap]
  congr 1
  exact List.flatMap_congr fun m _ => (lines_partsOf m).symm

/-! ### Reading the parts -/

theorem reads_skip_nil : (Part.skip []).Reads :=
  .skip (.inl rfl)

theorem trim_close : trim "\x7d".toList = "\x7d".toList :=
  trim_word (.of_all rfl rfl)

theorem prefix_messageHeader {name : Str} (named : Name name) :
    "message".toList <+: trim ("message ".toList ++ name ++ " \x7b".toList) := by
  rw [trim_messageHeader named, messageHeader_eq]
  exact List.prefix_append _ _

theorem extractBlockName_messageHeader {name : Str} (named : Name name) :
    extractBlockName (trim ("message ".toList ++ name ++ " \x7b".toList)) "message".toList =
      .ok name := by
  rw [trim_messageHeader named, messageHeader_eq]
  exact extractBlockName_header word_message named

/-- No line of a field closes a block. -/
theorem ProtoField.stays {f : ProtoField} (named : f.Named) {line : Str} (mem : line ∈ f.protoLines) :
    trim line ≠ "\x7d".toList := by
  rcases List.mem_append.1 mem with doc | own
  · intro same
    have comment := prefix_docLine doc
    rw [same] at comment
    exact absurd comment (by decide)
  · rw [List.mem_singleton.1 own, trim_fieldLine named]
    intro same
    have last := congrArg List.getLast? same
    rw [List.getLast?_concat] at last
    cases last

/-- The line of a field that opens no block opens none. -/
theorem ProtoField.plain {f : ProtoField} (named : f.Named) (opens : ¬ f.OpensBlock) {line : Str}
    (mem : line ∈ f.protoLines) : ¬ "message".toList <+: trim line := by
  rcases List.mem_append.1 mem with doc | own
  · exact prefixes_apart (prefix_docLine doc) (by decide) (by decide)
  · rw [List.mem_singleton.1 own, opensBlock_iff named]
    exact opens

theorem MessageDesc.reads_part {m : MessageDesc} (none : m.OpensNone) : m.part.Reads := by
  have name := Name.of_fullIdent m.named
  refine .message (prefix_messageHeader name) (extractBlockName_messageHeader name) trim_close ?_
  intro e mem
  obtain ⟨stripped, inStripped, rfl⟩ := List.mem_map.1 mem
  obtain ⟨line, inLines, rfl⟩ := List.mem_map.1 inStripped
  obtain ⟨f, inFields, own⟩ := List.mem_flatMap.1 inLines
  constructor
  · rw [trim_stripCr]
    exact ProtoField.stays (m.each f inFields) own
  · rw [trim_stripCr]
    exact ProtoField.plain (m.each f inFields) (none f inFields) own

theorem filterMap_protoLines (f : ProtoField) :
    f.protoLines.filterMap (fun line => parseField (trim line)) =
      (parseField (trim f.fieldLine)).toList := by
  have docs : f.docLines.filterMap (fun line => parseField (trim line)) = [] := by
    rw [List.filterMap_eq_nil_iff]
    exact fun line mem => parseField_comment (ProtoField.prefix_docLine mem)
  rw [ProtoField.protoLines, List.filterMap_append, docs, List.nil_append, List.filterMap_cons,
    List.filterMap_nil]
  cases parseField (trim f.fieldLine) <;> rfl

/-- The fields of a part. -/
theorem MessageDesc.fields_part (m : MessageDesc) :
    m.entries.filterMap Entry.field = m.fields.filterMap fun f => parseField (trim f.fieldLine) := by
  have each : (Entry.field ∘ Entry.line) ∘ stripCr = fun line => parseField (trim line) := by
    funext line
    rw [Function.comp_apply, Function.comp_apply, Entry.field, trim_stripCr]
  rw [entries, List.filterMap_map, List.filterMap_map, each, List.filterMap_flatMap,
    List.filterMap_eq_flatMap_toList]
  exact List.flatMap_congr fun f _ => filterMap_protoLines f

theorem MethodDesc.serviceLine_comment (d : MethodDesc) : ServiceLine (stripCr d.rpc.commentLine) := by
  have comment : "//".toList <+: trim (stripCr d.rpc.commentLine) := by
    rw [trim_stripCr, RpcMethod.commentLine_eq]
    exact prefix_trim (.of_all rfl rfl) (' ' :: (d.httpMethod ++ (" ".toList ++ d.pathPattern)))
  constructor
  · intro same
    rw [same] at comment
    exact absurd comment (by decide)
  · exact fun rpc => absurd rpc (prefixes_apart comment (by decide) (by decide))

theorem MethodDesc.serviceLine_rpc (d : MethodDesc) : ServiceLine d.rpc.rpcLine := by
  constructor
  · intro same
    have rpc : "rpc".toList <+: trim d.rpc.rpcLine := by
      rw [trim_rpcLine]
      exact List.prefix_append _ _
    rw [same] at rpc
    exact absurd rpc (by decide)
  · exact fun _ => ⟨_, d.parseRpc_rpcLine⟩

theorem parsePackage_line {package : Str} (named : Name package) :
    parsePackage ("package".toList ++ ' ' :: (package ++ [';'])) = .ok package := by
  have apart : ¬ "package".toList <+: ' ' :: (package ++ [';']) := by
    intro here
    exact absurd (List.cons_prefix_cons.1 here).1 (by decide)
  have inner : trim (' ' :: (package ++ [';'])) = package ++ [';'] := by
    rw [trim_cons rfl]
    have solid : trim (package ++ [] ++ [';']) = package ++ [] ++ [';'] :=
      trim_solid named.word.1 named.word.2 rfl
    rwa [List.append_nil] at solid
  have cut : trimEndMatches ";".toList (package ++ [';']) = package := by
    apply trimEndMatches_char
    exact fun last => named.notMem rfl (List.mem_of_getLast? last)
  rw [parsePackage, trimStartMatches_append (by decide) apart, inner, cut, trim_word named.word]
  rw [if_neg]
  simpa using named.solid

theorem ServiceDesc.reads_frontParts (s : ServiceDesc) : ∀ part ∈ s.frontParts, part.Reads := by
  have name := Name.of_ident s.named
  have header : "service ".toList ++ s.name ++ " \x7b".toList =
      "service".toList ++ ' ' :: (s.name ++ [' ', '\x7b']) := by
    rw [List.append_assoc]
    rfl
  have service : Word "service".toList := (Name.of_ident rfl).word
  have package : trim ("package ".toList ++ s.package ++ ";".toList) =
      "package".toList ++ ' ' :: (s.package ++ [';']) := by
    have whole : "package ".toList ++ s.package ++ ";".toList =
        "package".toList ++ ' ' :: s.package ++ [';'] := by
      simp only [List.append_assoc]
      rfl
    have package : Word "package".toList := .of_all rfl rfl
    rw [whole, trim_solid package.1 package.2 rfl, List.append_assoc]
    rfl
  intro part mem
  simp only [frontParts, List.mem_cons, List.not_mem_nil, or_false] at mem
  obtain rfl | rfl | rfl | rfl | rfl := mem
  · exact .syntaxLine (by decide) rfl
  · exact reads_skip_nil
  · apply Part.Reads.packageLine
    · rw [package]
      exact List.prefix_append _ _
    · rw [package]
      exact parsePackage_line (Name.of_fullIdent s.packaged)
  · exact reads_skip_nil
  · rw [header]
    refine .service ?_ ?_ trim_close ?_
    · rw [trim_header service name]
      exact List.prefix_append _ _
    · rw [trim_header service name]
      exact extractBlockName_header service name
    · intro line mem
      obtain ⟨d, _, own⟩ := List.mem_flatMap.1 mem
      simp only [List.mem_cons, List.not_mem_nil, or_false] at own
      obtain same | same := own <;> rw [same]
      · exact d.serviceLine_comment
      · exact d.serviceLine_rpc

/-! ## Reading the file -/

theorem stripStream_streamed {name : Str} (named : Name name) (streaming : Bool) :
    stripStream (streamed streaming name) = name ∧
      "stream ".toList.isPrefixOf (streamed streaming name) = streaming := by
  cases streaming with
  | true => exact ⟨rfl, rfl⟩
  | false =>
    have apart : ¬ "stream ".toList.isPrefixOf name = true := by
      rw [List.isPrefixOf_iff_prefix]
      exact fun here => named.notMem (c := ' ') rfl (here.subset (by decide))
    exact ⟨if_neg apart, Bool.eq_false_iff.2 apart⟩

theorem MethodDesc.shape_parsed (d : MethodDesc) (comment : Option Str) :
    ProtoRpcMethod.shape
      { name := d.name, inputType := d.input, outputType := d.output, comment } = d.shape := by
  obtain ⟨request, clientStreaming⟩ := stripStream_streamed d.name_requestType d.clientStreaming
  obtain ⟨response, serverStreaming⟩ :=
    stripStream_streamed d.name_responseType d.serverStreaming
  rw [ProtoRpcMethod.shape, shape]
  dsimp only [input, output]
  rw [request, clientStreaming, response, serverStreaming]

theorem shapes_serviceMethods (methods : List MethodDesc) : ∀ pendingComment,
    (serviceMethods pendingComment
      (methods.flatMap fun d => [stripCr d.rpc.commentLine, d.rpc.rpcLine])).map
        ProtoRpcMethod.shape = methods.map MethodDesc.shape := by
  induction methods with
  | nil => exact fun _ => rfl
  | cons d methods ih =>
    intro pendingComment
    have comment : "//".toList.isPrefixOf (trim (stripCr d.rpc.commentLine)) = true := by
      rw [List.isPrefixOf_iff_prefix, trim_stripCr, RpcMethod.commentLine_eq]
      exact prefix_trim (.of_all rfl rfl)
        (' ' :: (d.httpMethod ++ (" ".toList ++ d.pathPattern)))
    have starts : "rpc".toList <+: trim d.rpc.rpcLine := by
      rw [d.trim_rpcLine]
      exact List.prefix_append _ _
    rw [List.flatMap_cons, List.cons_append, List.singleton_append, serviceMethods, if_pos comment,
      serviceMethods, if_neg (not_isPrefixOf starts (by decide) (by decide)),
      if_pos (List.isPrefixOf_iff_prefix.2 starts), d.parseRpc_rpcLine]
    dsimp only
    rw [List.map_cons, List.map_cons, ih none, d.shape_parsed]

def MessageDesc.parsed (m : MessageDesc) : ParsedMessage where
  name := m.name
  fields := m.entries.filterMap Entry.field

theorem allMessages_line (outer : Str) (lines : List Str) :
    Entry.allMessages outer (lines.map Entry.line) = [] := by
  induction lines with
  | nil => rfl
  | cons line lines ih => rw [List.map_cons, Entry.allMessages, ih, Entry.messages, List.nil_append]

theorem MessageDesc.add_part (m : MessageDesc) (file : ProtoFile) :
    Part.add file m.part = { file with messages := file.messages ++ [m.parsed] } := by
  have nested : Entry.allMessages m.name m.entries = [] := allMessages_line _ _
  change { file with messages := file.messages ++ m.parsed :: Entry.allMessages m.name m.entries } = _
  rw [nested]

theorem foldl_partsOf (messages : List (Option MessageDesc)) : ∀ file : ProtoFile,
    (messages.flatMap partsOf).foldl Part.add file =
      { file with messages := file.messages ++ messages.reduceOption.map MessageDesc.parsed } := by
  induction messages with
  | nil =>
    intro file
    rw [List.reduceOption_nil, List.map_nil, List.append_nil]
    rfl
  | cons m messages ih =>
    intro file
    rw [List.flatMap_cons, List.foldl_append, ih]
    cases m with
    | none => rfl
    | some m =>
      rw [partsOf, List.foldl_cons, List.foldl_cons, List.foldl_nil, m.add_part,
        List.reduceOption_cons_of_some, List.map_cons]
      dsimp only
      rw [List.append_assoc]
      rfl

theorem ServiceDesc.foldl_parts (s : ServiceDesc) :
    s.parts.foldl Part.add emptyFile =
      { syntaxVersion := "proto3".toList
        package := s.package
        imports := []
        services := [{ name := s.name, methods := serviceMethods none s.methodLines }]
        messages := s.messages.reduceOption.map MessageDesc.parsed
        enums := [] } := by
  rw [parts, List.foldl_append, foldl_partsOf]
  rfl

/-- A described service whose generated text is read back: its fields are read by both parsers. -/
def ProtoField.ReadBack (f : ProtoField) : Prop :=
  f.SpecRead ∧ ¬ f.OpensBlock

theorem MessageDesc.shape_of_readBack {m : MessageDesc} (read : ∀ f ∈ m.fields, f.ReadBack) :
    m.parsed.shape = m.shape := by
  have each : ∀ f ∈ m.fields,
      (parseField (trim f.fieldLine)).map ParsedField.shape = some f.shape := fun f mem =>
    ProtoField.parseField_shape (m.each f mem) (read f mem).1
  have fields : (m.fields.filterMap fun f => parseField (trim f.fieldLine)).map ParsedField.shape =
      m.fields.map ProtoField.shape := by
    rw [List.map_filterMap, List.filterMap_congr each, List.filterMap_eq_map']
  rw [ParsedMessage.shape, shape, parsed, fields_part, fields]

theorem reads_partsOf {messages : List (Option MessageDesc)}
    (none : ∀ m, some m ∈ messages → m.OpensNone) : ∀ part ∈ messages.flatMap partsOf, part.Reads := by
  intro part mem
  obtain ⟨m, inMessages, own⟩ := List.mem_flatMap.1 mem
  cases m with
  | none =>
    simp only [partsOf, List.mem_cons, List.not_mem_nil, or_false] at own
    obtain rfl | rfl := own <;> exact reads_skip_nil
  | some m =>
    simp only [partsOf, List.mem_cons, List.not_mem_nil, or_false] at own
    obtain rfl | rfl := own
    · exact reads_skip_nil
    · exact MessageDesc.reads_part (none m inMessages)

theorem ServiceDesc.reads_parts {s : ServiceDesc}
    (none : ∀ m, some m ∈ s.messages → m.OpensNone) : ∀ part ∈ s.parts, part.Reads := by
  intro part mem
  rcases List.mem_append.1 mem with front | mem
  · exact s.reads_frontParts part front
  · exact reads_partsOf none part mem

/-- A message of a service, which one of its methods takes or returns. -/
theorem ServiceDesc.exists_method {s : ServiceDesc} {m : MessageDesc} (mem : some m ∈ s.messages) :
    ∃ d ∈ s.methods, some m ∈ d.messages :=
  List.mem_flatMap.1 (distinctMessages_subset _ mem)

/-- A service whose fields are read back. -/
theorem ServiceDesc.readsBack_of_readBack {s : ServiceDesc}
    (read : ∀ d ∈ s.methods, ∀ m, some m ∈ d.messages → ∀ f ∈ m.fields, f.ReadBack) :
    s.ReadsBack := by
  have each : ∀ m, some m ∈ s.messages → ∀ f ∈ m.fields, f.ReadBack := by
    intro m mem
    obtain ⟨d, inMethods, own⟩ := exists_method mem
    exact read d inMethods m own
  have reads := s.reads_parts fun m mem f inFields => (each m mem f inFields).2
  constructor
  · refine ⟨_, parseProto_parts s.lines_parts reads, ?_⟩
    rw [foldl_parts]
    refine ⟨rfl, ?_, ?_⟩
    · rw [List.map_singleton, methodLines, shapes_serviceMethods]
    · rw [List.map_map]
      refine List.map_congr_left fun m mem => ?_
      exact MessageDesc.shape_of_readBack (each m (List.reduceOption_mem_iff.1 mem))
  · intro d inMethods m own
    have each : ∀ f ∈ m.fields,
        (parseFieldSpec (trim f.fieldLine)).map FieldSpec.shape = some f.shape := fun f mem =>
      (ProtoField.parseFieldSpec_shape_iff (m.each f mem)).2 (read d inMethods m own f mem).1
    rw [parseMessageSpec_shapes, List.filterMap_congr each, List.filterMap_eq_map']

/-! ## What is not read back -/

/-- Every member has an image if all the images are there. -/
theorem eq_some_of_filterMap_eq_map {α β : Type} {g : α → Option β} {h : α → β} {items : List α}
    (whole : items.filterMap g = items.map h) : ∀ a ∈ items, g a = some (h a) := by
  induction items with
  | nil => exact List.forall_mem_nil _
  | cons a items ih =>
    rw [List.filterMap_cons, List.map_cons] at whole
    cases here : g a with
    | none =>
      rw [here] at whole
      dsimp only at whole
      have short := List.length_filterMap_le g items
      rw [whole, List.length_cons, List.length_map] at short
      omega
    | some b =>
      rw [here] at whole
      obtain ⟨same, rest⟩ := List.cons.inj whole
      exact List.forall_mem_cons.2 ⟨by rw [here, same], ih rest⟩

/-- The first of a list with a property. -/
theorem exists_first {α : Type} {p : α → Prop} {items : List α} {a : α} (mem : a ∈ items) (here : p a) :
    ∃ front b rest, items = front ++ b :: rest ∧ (∀ c ∈ front, ¬ p c) ∧ p b := by
  induction items with
  | nil => cases mem
  | cons b items ih =>
    by_cases own : p b
    · exact ⟨[], b, items, rfl, List.forall_mem_nil _, own⟩
    · rcases List.mem_cons.1 mem with rfl | mem
      · exact absurd here own
      · obtain ⟨front, c, rest, split, none, has⟩ := ih mem
        exact ⟨b :: front, c, rest, congrArg _ split, List.forall_mem_cons.2 ⟨own, none⟩, has⟩

theorem StaysOpen.blank {depth : Nat} {rest : List Str} (opened : StaysOpen depth rest) :
    StaysOpen depth ([] :: rest) := by
  rw [StaysOpen, if_neg (by decide), if_neg (by decide)]
  exact opened

theorem StaysOpen.close {depth : Nat} {rest : List Str} (opened : StaysOpen depth rest) :
    StaysOpen (depth + 1) ("\x7d".toList :: rest) := by
  rw [StaysOpen, if_pos trim_close]
  exact ⟨Nat.succ_pos _, opened⟩

theorem StaysOpen.header {depth : Nat} {line : Str} {rest : List Str} (header : isHeader line = true)
    (opened : StaysOpen (depth + 1) rest) : StaysOpen depth (line :: rest) := by
  have stays : trim line ≠ "\x7d".toList := by
    intro same
    rw [isHeader_iff, same] at header
    exact absurd header (by decide)
  rw [StaysOpen, if_neg stays, if_pos header]
  exact opened

/-- The fields of a message and its closing brace, when blocks are open that are not closed. -/
theorem MessageDesc.staysOpen_fields (m : MessageDesc) {depth : Nat} {rest : List Str}
    (more : 0 < depth + ((m.fields.flatMap ProtoField.protoLines).map stripCr).countP isHeader)
    (opened : ∀ depth, StaysOpen depth rest) :
    StaysOpen depth
      ((m.fields.flatMap ProtoField.protoLines).map stripCr ++ "\x7d".toList :: rest) := by
  apply StaysOpen.append
  · intro stripped mem
    obtain ⟨line, inLines, rfl⟩ := List.mem_map.1 mem
    obtain ⟨f, inFields, own⟩ := List.mem_flatMap.1 inLines
    rw [trim_stripCr]
    exact ProtoField.stays (m.each f inFields) own
  · obtain ⟨rest', same⟩ := Nat.exists_eq_add_one_of_ne_zero (Nat.ne_of_gt more)
    rw [same]
    exact (opened rest').close

theorem isHeader_messageHeader {name : Str} (named : Name name) :
    isHeader ("message ".toList ++ name ++ " \x7b".toList) = true :=
  isHeader_iff.2 (prefix_messageHeader named)

/-- The definitions behind a block that is open do not close it. -/
theorem staysOpen_partsOf (messages : List (Option MessageDesc)) : ∀ depth,
    StaysOpen depth ((messages.flatMap partsOf).flatMap Part.lines) := by
  induction messages with
  | nil => exact fun _ => trivial
  | cons m messages ih =>
    intro depth
    rw [List.flatMap_cons, List.flatMap_append]
    cases m with
    | none => exact (ih depth).blank.blank
    | some m =>
      have name := Name.of_fullIdent m.named
      have laid : (partsOf (some m)).flatMap Part.lines ++ (messages.flatMap partsOf).flatMap Part.lines =
          [] :: ("message ".toList ++ m.name ++ " \x7b".toList) ::
            ((m.fields.flatMap ProtoField.protoLines).map stripCr ++
              "\x7d".toList :: (messages.flatMap partsOf).flatMap Part.lines) := by
        rw [partsOf, List.flatMap_cons, List.flatMap_singleton, m.lines_part, Part.lines]
        simp only [List.append_assoc, List.cons_append, List.nil_append]
      rw [laid]
      apply StaysOpen.blank
      apply StaysOpen.header (isHeader_messageHeader name)
      exact m.staysOpen_fields (by omega) ih

/-- A generated file with a field that opens a block is not parsed. -/
theorem ServiceDesc.not_parsed {s : ServiceDesc} {m : MessageDesc} (mem : some m ∈ s.messages)
    {f : ProtoField} (inFields : f ∈ m.fields) (opens : f.OpensBlock) (file : ProtoFile) :
    parseProto s.protoText ≠ .ok file := by
  let bad (m : Option MessageDesc) : Prop := ∃ m', m = some m' ∧ ∃ f ∈ m'.fields, f.OpensBlock
  obtain ⟨front, -, rest, split, none, m, rfl, f, inFields, opens⟩ :=
    exists_first (p := bad) mem ⟨m, rfl, f, inFields, opens⟩
  have frontReads : ∀ part ∈ s.frontParts ++ front.flatMap partsOf ++ [Part.skip []], part.Reads := by
    intro part mem
    rcases List.mem_append.1 mem with mem | blank
    · rcases List.mem_append.1 mem with mem | mem
      · exact s.reads_frontParts part mem
      · refine reads_partsOf (fun m own f inFields opens => ?_) part mem
        exact none (some m) own ⟨m, rfl, f, inFields, opens⟩
    · rw [List.mem_singleton.1 blank]
      exact reads_skip_nil
  have header : 0 < ((m.fields.flatMap ProtoField.protoLines).map stripCr).countP isHeader := by
    rw [List.countP_pos_iff]
    refine ⟨stripCr f.fieldLine, List.mem_map_of_mem (List.mem_flatMap.2 ⟨f, inFields,
      List.mem_append_right _ List.mem_cons_self⟩), ?_⟩
    rw [isHeader_iff, trim_stripCr, ProtoField.opensBlock_iff (m.each f inFields)]
    exact opens
  have laid : lines s.protoText =
      (s.frontParts ++ front.flatMap partsOf ++ [Part.skip []]).flatMap Part.lines ++
        ("message ".toList ++ m.name ++ " \x7b".toList) ::
          ((m.fields.flatMap ProtoField.protoLines).map stripCr ++
            "\x7d".toList :: (rest.flatMap partsOf).flatMap Part.lines) := by
    rw [lines_parts, parts, split, List.flatMap_append, List.flatMap_append, List.flatMap_cons, partsOf]
    simp only [List.flatMap_append, List.flatMap_cons, List.flatMap_nil, m.lines_part, Part.lines_skip,
      List.append_assoc, List.cons_append, List.nil_append]
  exact parseProto_open laid frontReads (prefix_messageHeader (Name.of_fullIdent m.named))
    (m.staysOpen_fields (by omega) (staysOpen_partsOf rest)) file

/-- Another definition of the same text has a field that opens a block, too. -/
theorem exists_opens {m m' : MessageDesc} (same : m'.message.definition = m.message.definition)
    {f : ProtoField} (inFields : f ∈ m.fields) (opens : f.OpensBlock) :
    ∃ f' ∈ m'.fields, f'.OpensBlock := by
  have texts : lines (buildMessage m'.name m'.fields) = lines (buildMessage m.name m.fields) :=
    congrArg lines same
  rw [lines_buildMessage, lines_buildMessage] at texts
  have fields := List.append_cancel_right (List.cons.inj texts).2
  have own : stripCr f.fieldLine ∈ (m.fields.flatMap ProtoField.protoLines).map stripCr :=
    List.mem_map_of_mem (List.mem_flatMap.2 ⟨f, inFields,
      List.mem_append_right _ List.mem_cons_self⟩)
  rw [← fields] at own
  obtain ⟨line, inLines, stripped⟩ := List.mem_map.1 own
  obtain ⟨f', inFields', there⟩ := List.mem_flatMap.1 inLines
  refine ⟨f', inFields', ?_⟩
  by_contra plain
  apply ProtoField.plain (m'.each f' inFields') plain there
  rw [← trim_stripCr, stripped, trim_stripCr, ProtoField.opensBlock_iff (m.each f inFields)]
  exact opens

/-- The text generated for a service is read back if and only if no field loses its label or its
place: in every message of the service, the flags of each field agree, the type of a field is not
taken for a label, and that of a field without a label does not begin with `message`. -/
theorem readsBack_iff (s : ServiceDesc) :
    s.ReadsBack ↔ ∀ d ∈ s.methods, ∀ m, some m ∈ d.messages → ∀ f ∈ m.fields, f.ReadBack := by
  constructor
  · intro back d inMethods m own f inFields
    constructor
    · have whole := back.definitions d inMethods m own
      rw [parseMessageSpec_shapes] at whole
      exact (ProtoField.parseFieldSpec_shape_iff (m.each f inFields)).1
        (eq_some_of_filterMap_eq_map whole f inFields)
    · intro opens
      obtain ⟨file, parsed, -⟩ := back.file
      obtain ⟨m', mem, same⟩ := exists_distinct (List.mem_flatMap.2 ⟨d, inMethods, own⟩)
      cases m' with
      | none =>
        have empty : lines [] = lines (buildMessage m.name m.fields) := congrArg lines same
        rw [lines_buildMessage] at empty
        cases empty
      | some m' =>
        obtain ⟨f', inFields', opens'⟩ := exists_opens same inFields opens
        exact ServiceDesc.not_parsed mem inFields' opens' file parsed
  · exact ServiceDesc.readsBack_of_readBack

/-- A field whose type is the message `message_body`. -/
def bodyField : ProtoField where
  name := "body".toList
  protoType := "message_body".toList
  tag := 1
  repeated := false
  optional := false
  isMap := false
  mapKeyType := none
  mapValueType := none
  doc := none

theorem bodyField_named : bodyField.Named where
  name := rfl
  protoType := rfl
  mapKeyType := fun _ none => nomatch none
  mapValueType := fun _ none => nomatch none
  positive := Nat.one_pos
  small := by decide

theorem get_line : '\n' ∉ "GET".toList := by decide

theorem mail_line : '\n' ∉ "/mail".toList := by decide

def mailDesc : MessageDesc where
  name := "Mail".toList
  fields := [bodyField]
  named := rfl
  each := List.forall_mem_singleton.2 bodyField_named

def mailService : ServiceDesc where
  package := "mail.v1".toList
  name := "MailService".toList
  methods :=
    [{ name := "ListMail".toList
       httpMethod := "GET".toList
       pathPattern := "/mail".toList
       request := none
       response := some mailDesc
       serverStreaming := false
       clientStreaming := false
       named := rfl
       methodLine := get_line
       patternLine := mail_line }]
  packaged := rfl
  named := rfl

/-- The field is taken for a block that is not closed. -/
theorem mail_not_readsBack : ¬ ∀ s : ServiceDesc, s.ReadsBack := by
  intro all
  obtain ⟨file, parsed, -⟩ := (all mailService).file
  have mem : some mailDesc ∈ mailService.messages := by
    have one : mailService.methods.flatMap MethodDesc.messages = [some mailDesc] := rfl
    rw [ServiceDesc.messages, one]
    simp [distinctMessages]
  have opens : bodyField.OpensBlock := ⟨rfl, rfl, by decide⟩
  exact ServiceDesc.not_parsed mem List.mem_cons_self opens file parsed

end Typeway.Grpc
