import Typeway.Grpc.FieldLines

/-!
# The lines of a generated file

What the parsers make of the line of a method, of a field and of a whole definition, and what of it
is compared with the description.
-/

namespace Typeway.Grpc

open Checked Typeway.Core Lines Segments Text

/-! ## Methods -/

theorem after_blank {gap rest : Str} (blank : Blank gap) :
    after "returns".toList (gap ++ ("returns".toList ++ rest)) = some rest := by
  induction gap with
  | nil => rfl
  | cons c gap ih =>
    have other : ¬ "returns".toList.isPrefixOf (c :: (gap ++ ("returns".toList ++ rest))) = true := by
      rw [List.isPrefixOf_iff_prefix]
      intro here
      have first : 'r' = c := (List.cons_prefix_cons.1 here).1
      have space := blank.of_cons.1
      rw [← first] at space
      cases space
    rw [List.cons_append, after, if_neg other, ih blank.of_cons.2]

/-- A line with the parts of a method. -/
theorem parseRpc_parts {line name input gap gap' output tail : Str}
    (parted : trim (trimStartMatches "rpc".toList line) = name ++ '(' :: (input ++ ')' ::
      (gap ++ ("returns".toList ++ (gap' ++ '(' :: (output ++ ')' :: tail))))))
    (noOpen : '(' ∉ name) (noClose : ')' ∉ input) (noClose' : ')' ∉ output) (blank : Blank gap)
    (blank' : Blank gap') :
    parseRpc line = .ok
      { name := trim name, inputType := trim input, outputType := trim output, comment := none } := by
  have noOpen' : '(' ∉ gap' := fun mem => absurd (blank' _ mem) (by decide)
  rw [parseRpc, parted, cutAt, splitOnce_append noOpen]
  dsimp only
  rw [ok_bind]
  dsimp only
  rw [cutAt, splitOnce_append noClose]
  dsimp only
  rw [ok_bind, after_blank blank]
  dsimp only
  rw [ok_bind, cutAt, splitOnce_append noOpen']
  dsimp only
  rw [ok_bind]
  dsimp only
  rw [cutAt, splitOnce_append noClose']
  dsimp only
  rw [ok_bind]
  rfl

/-- A type as it stands in the line of a method. -/
def streamed (streaming : Bool) (name : Str) : Str :=
  streamPrefix streaming ++ name

theorem trim_streamed {name : Str} (named : Name name) (streaming : Bool) :
    trim (streamed streaming name) = streamed streaming name := by
  cases streaming with
  | false => exact trim_word named.word
  | true => exact (Spaced.space (Name.of_ident (rfl : isIdent "stream".toList = true)).word
      (.one named.word)).trim_eq

theorem close_notMem_streamed {name : Str} (named : Name name) (streaming : Bool) :
    ')' ∉ streamed streaming name := by
  rw [streamed, List.mem_append, not_or]
  exact ⟨by cases streaming <;> decide, named.notMem rfl⟩

namespace MethodDesc

variable (d : MethodDesc)

def input : Str :=
  streamed d.clientStreaming d.rpc.requestType

def output : Str :=
  streamed d.serverStreaming d.rpc.responseMessage.name

/-- The line of a method behind `rpc`. -/
def signature : Str :=
  d.name ++ '(' :: (d.input ++ ')' :: ([' '] ++ ("returns".toList ++ ([' '] ++ '(' ::
    (d.output ++ ')' :: [';'])))))

theorem getLast?_signature : d.signature.getLast? = some ';' := by
  have last : d.signature = d.name ++ '(' :: (d.input ++ ')' :: ([' '] ++ ("returns".toList ++
      ([' '] ++ '(' :: (d.output ++ [')']))))) ++ [';'] := by
    simp only [signature, List.append_assoc, List.cons_append, List.nil_append]
  rw [last, List.getLast?_concat]

theorem trim_signature : trim d.signature = d.signature := by
  have name := Name.of_ident d.named
  apply trim_of_ends
  · intro c head
    rw [signature, List.head?_append_of_ne_nil _ name.solid] at head
    exact name.word.first c head
  · intro c last
    rw [getLast?_signature] at last
    cases last
    rfl

theorem trim_rpcLine : trim d.rpc.rpcLine = "rpc".toList ++ ' ' :: d.signature := by
  have line : d.rpc.rpcLine = ' ' :: ' ' :: ("rpc".toList ++ ' ' :: d.signature) := by
    have front : "  rpc ".toList = ' ' :: ' ' :: ("rpc".toList ++ [' ']) := rfl
    have middle : ") returns (".toList = ')' :: ' ' :: ("returns".toList ++ [' ', '(']) := rfl
    have back : ");".toList = [')', ';'] := rfl
    have paren : "(".toList = ['('] := rfl
    rw [RpcMethod.rpcLine_eq, front, middle, back, paren, signature, input, output, streamed, streamed]
    simp only [List.append_assoc, List.cons_append, List.nil_append]
    rfl
  have last : ("rpc".toList ++ ' ' :: d.signature).getLast? = some ';' := by
    have solid : d.signature ≠ [] := fun empty => by
      have last := d.getLast?_signature
      rw [empty] at last
      cases last
    rw [List.append_cons, List.getLast?_append_of_ne_nil _ solid, getLast?_signature]
  rw [line, trim_cons rfl, trim_cons rfl]
  apply trim_of_ends
  · intro c head
    cases head
    rfl
  · intro c last'
    rw [last] at last'
    cases last'
    rfl

theorem parseRpc_rpcLine : parseRpc (trim d.rpc.rpcLine) = .ok
    { name := d.name, inputType := d.input, outputType := d.output, comment := none } := by
  have name := Name.of_ident d.named
  have parted : trim (trimStartMatches "rpc".toList (trim d.rpc.rpcLine)) = d.signature := by
    have apart : ¬ "rpc".toList <+: ' ' :: d.signature := by
      intro here
      exact absurd (List.cons_prefix_cons.1 here).1 (by decide)
    rw [trim_rpcLine, trimStartMatches_append (by decide) apart, trim_cons rfl, trim_signature]
  have input : trim d.input = d.input := trim_streamed d.name_requestType _
  have output : trim d.output = d.output := trim_streamed d.name_responseType _
  rw [parseRpc_parts parted (name.notMem rfl) (close_notMem_streamed d.name_requestType _)
    (close_notMem_streamed d.name_responseType _) Blank.space Blank.space, trim_word name.word,
    input, output]

end MethodDesc

/-! ## What is compared -/

/-- What a field is, the type of a map being that of its keys and values. -/
structure FieldShape where
  name : Str
  protoType : Option Str
  tag : Nat
  repeated : Bool
  optional : Bool
  isMap : Bool
  mapKeyType : Option Str
  mapValueType : Option Str
  deriving DecidableEq

def ProtoField.shape (f : ProtoField) : FieldShape where
  name := f.name
  protoType := if f.isMap then none else some f.protoType
  tag := f.tag
  repeated := f.repeated
  optional := f.optional
  isMap := f.isMap
  mapKeyType := f.mapKeyType
  mapValueType := f.mapValueType

def ParsedField.shape (f : ParsedField) : FieldShape where
  name := f.name
  protoType := if f.isMap then none else some f.protoType
  tag := f.tag.toNat
  repeated := f.repeated
  optional := f.optional
  isMap := f.isMap
  mapKeyType := f.mapKeyType
  mapValueType := f.mapValueType

def FieldSpec.shape (f : FieldSpec) : FieldShape where
  name := f.name
  protoType := if f.isMap then none else some f.protoType
  tag := f.tag.toNat
  repeated := f.repeated
  optional := f.optional
  isMap := f.isMap
  mapKeyType := f.mapKeyType
  mapValueType := f.mapValueType

structure MessageShape where
  name : Str
  fields : List FieldShape
  deriving DecidableEq

def MessageDesc.shape (m : MessageDesc) : MessageShape where
  name := m.name
  fields := m.fields.map ProtoField.shape

def ParsedMessage.shape (m : ParsedMessage) : MessageShape where
  name := m.name
  fields := m.fields.map ParsedField.shape

structure MethodShape where
  name : Str
  request : Str
  response : Str
  clientStreaming : Bool
  serverStreaming : Bool
  deriving DecidableEq

def MethodDesc.shape (d : MethodDesc) : MethodShape where
  name := d.name
  request := d.rpc.requestType
  response := d.rpc.responseMessage.name
  clientStreaming := d.clientStreaming
  serverStreaming := d.serverStreaming

/-- `strip_prefix("stream ")`, as the validator reads the types of a parsed method. -/
def stripStream (text : Str) : Str :=
  if "stream ".toList.isPrefixOf text then text.drop "stream ".toList.length else text

def ProtoRpcMethod.shape (m : ProtoRpcMethod) : MethodShape where
  name := m.name
  request := stripStream m.inputType
  response := stripStream m.outputType
  clientStreaming := "stream ".toList.isPrefixOf m.inputType
  serverStreaming := "stream ".toList.isPrefixOf m.outputType

/-! ## Fields -/

namespace ProtoField

variable {f : ProtoField}

/-- The flags of a field agree: a map has a type for keys and one for values and no label, and
another field at most one label. -/
def Consistent (f : ProtoField) : Prop :=
  if f.isMap then
    f.mapKeyType.isSome ∧ f.mapValueType.isSome ∧ f.repeated = false ∧ f.optional = false
  else f.mapKeyType = none ∧ f.mapValueType = none ∧ ¬ (f.repeated = true ∧ f.optional = true)

/-- The line of the field is taken for the header of a block. -/
def OpensBlock (f : ProtoField) : Prop :=
  f.isMap = false ∧ f.label = .implicit ∧ "message".toList <+: f.protoType

theorem toNat_tag (named : f.Named) : (UInt32.ofNat f.tag).toNat = f.tag :=
  UInt32.toNat_ofNat_of_lt' named.small

theorem opensBlock_iff (named : f.Named) :
    "message".toList <+: trim f.fieldLine ↔ f.OpensBlock := by
  rw [trim_fieldLine named, OpensBlock]
  cases map : f.isMap with
  | true =>
    have other : "map".toList <+: f.body ++ [';'] := by
      rw [body_map map, List.append_assoc]
      exact List.prefix_append _ _
    exact iff_of_false (prefixes_apart other (by decide) (by decide)) (by simp)
  | false =>
    have whole := body_plain map
    cases label : f.label with
    | implicit =>
      rw [label] at whole
      rw [whole, typed, List.append_assoc, List.cons_append, prefix_word_iff (by decide)]
      simp
    | repeated =>
      rw [label] at whole
      have other : "repeated".toList <+: f.body ++ [';'] := by
        rw [whole, List.append_assoc, List.append_assoc]
        exact List.prefix_append _ _
      exact iff_of_false (prefixes_apart other (by decide) (by decide)) (by simp)
    | optional =>
      rw [label] at whole
      have other : "optional".toList <+: f.body ++ [';'] := by
        rw [whole, List.append_assoc, List.append_assoc]
        exact List.prefix_append _ _
      exact iff_of_false (prefixes_apart other (by decide) (by decide)) (by simp)

/-- The parser of definitions reads the field. -/
def SpecRead (f : ProtoField) : Prop :=
  f.Consistent ∧ (f.isMap = false → f.TypeRead)

theorem label_eq_repeated (f : ProtoField) : decide (f.label = .repeated) = f.repeated := by
  rw [label]
  cases f.repeated <;> cases f.optional <;> rfl

theorem label_eq_optional (f : ProtoField) :
    decide (f.label = .optional) = (!f.repeated && f.optional) := by
  rw [label]
  cases f.repeated <;> cases f.optional <;> rfl

theorem eq_and_not_iff {repeated optional : Bool} :
    (!repeated && optional) = optional ↔ ¬ (repeated = true ∧ optional = true) := by
  cases repeated <;> cases optional <;> decide

theorem getD_eq_iff {text : Option Str} {default : Str} :
    some (text.getD default) = text ↔ text.isSome := by
  cases text <;> simp

theorem parseField_shape (named : f.Named) (read : f.SpecRead) :
    (parseField (trim f.fieldLine)).map ParsedField.shape = some f.shape := by
  obtain ⟨consistent, typed⟩ := read
  rw [trim_fieldLine named]
  rw [Consistent] at consistent
  cases map : f.isMap with
  | true =>
    rw [map, if_pos rfl] at consistent
    obtain ⟨key, value, repeated, optional⟩ := consistent
    rw [parseField_mapBody named map, Option.map_some, ParsedField.shape, shape, toNat_tag named, map,
      repeated, optional, keyText, valueText, getD_eq_iff.2 key, getD_eq_iff.2 value]
    rfl
  | false =>
    rw [map, if_neg Bool.false_ne_true] at consistent
    obtain ⟨key, value, once⟩ := consistent
    have free : f.label = .implicit →
        f.protoType ≠ "repeated".toList ∧ f.protoType ≠ "optional".toList := by
      intro label
      have typed := typed map
      rw [TypeRead, label] at typed
      exact typed
    rw [parseField_body named map free, Option.map_some, ParsedField.shape, shape, toNat_tag named, map,
      key, value, label_eq_repeated, label_eq_optional, eq_and_not_iff.2 once]

theorem parseFieldSpec_shape_iff (named : f.Named) :
    (parseFieldSpec (trim f.fieldLine)).map FieldSpec.shape = some f.shape ↔ f.SpecRead := by
  rw [trim_fieldLine named, SpecRead, Consistent]
  cases map : f.isMap with
  | true =>
    rw [parseFieldSpec_mapBody named map, Option.map_some, Option.some_inj, FieldSpec.shape, shape,
      toNat_tag named, map, keyText, valueText]
    simp only [FieldShape.mk.injEq, getD_eq_iff, true_and, if_true, Bool.true_eq_false, false_implies,
      and_true]
    constructor
    · rintro ⟨repeated, optional, key, value⟩
      exact ⟨key, value, repeated.symm, optional.symm⟩
    · rintro ⟨key, value, repeated, optional⟩
      exact ⟨repeated.symm, optional.symm, key, value⟩
  | false =>
    by_cases typed : f.TypeRead
    · rw [parseFieldSpec_body named map typed, Option.map_some, Option.some_inj, FieldSpec.shape, shape,
        toNat_tag named, map, label_eq_repeated, label_eq_optional]
      simp only [FieldShape.mk.injEq, eq_and_not_iff, true_and, if_false, Bool.false_eq_true, typed,
        implies_true, and_true]
      constructor
      · rintro ⟨once, key, value⟩
        exact ⟨key.symm, value.symm, once⟩
      · rintro ⟨key, value, once⟩
        exact ⟨once, key.symm, value.symm⟩
    · rw [parseFieldSpec_none named map typed]
      simp [typed]

end ProtoField

/-! ## Definitions -/

/-- A word at the front of a text stays there. -/
theorem prefix_trim {word : Str} (solid : Word word) (rest : Str) : word <+: trim (word ++ rest) := by
  induction rest using List.reverseRecOn with
  | nil => rw [List.append_nil, trim_word solid]
  | append_singleton rest c ih =>
    cases space : isWhitespace c with
    | true => rwa [← List.append_assoc, trim_append space]
    | false =>
      have whole : trim (word ++ (rest ++ [c])) = word ++ (rest ++ [c]) := by
        rw [← List.append_assoc]
        exact trim_solid solid.1 solid.2 space
      rw [whole]
      exact List.prefix_append _ _

theorem ProtoField.prefix_docLine {f : ProtoField} {line : Str} (mem : line ∈ f.docLines) :
    "//".toList <+: trim line := by
  rw [docLines] at mem
  split at mem
  · split at mem
    · cases mem
    · obtain ⟨own, -, rfl⟩ := List.mem_map.1 mem
      exact prefix_trim (.of_all rfl rfl) (' ' :: own)
  · cases mem

theorem stripCr_fieldLine {f : ProtoField} (named : f.Named) : stripCr f.fieldLine = f.fieldLine :=
  stripCr_of_notMem (notMem_fieldLine named rfl rfl)

theorem trim_header {keyword name : Str} (word : Word keyword) (named : Name name) :
    trim (keyword ++ ' ' :: (name ++ [' ', '\x7b'])) = keyword ++ ' ' :: (name ++ [' ', '\x7b']) := by
  have brace : Word ['\x7b'] := .of_all rfl rfl
  exact (Spaced.space word (.space named.word (.one brace))).trim_eq

theorem messageHeader_eq (name : Str) :
    "message ".toList ++ name ++ " \x7b".toList =
      "message".toList ++ ' ' :: (name ++ [' ', '\x7b']) := by
  rw [List.append_assoc]
  rfl

theorem word_message : Word "message".toList :=
  (Name.of_ident rfl).word

theorem trim_messageHeader {name : Str} (named : Name name) :
    trim ("message ".toList ++ name ++ " \x7b".toList) = "message ".toList ++ name ++ " \x7b".toList := by
  rw [messageHeader_eq]
  exact trim_header word_message named

namespace MessageReader

/-- A comment changes no field. -/
theorem step_comment {s : MessageReader} {line : Str} (comment : "//".toList <+: trim line) :
    (s.step line).fields = s.fields := by
  have other : ¬ ("message ".toList.isPrefixOf (trim line) && (trim line).getLast? = some '\x7b') = true := by
    rw [Bool.and_eq_true, List.isPrefixOf_iff_prefix]
    exact fun here => prefixes_apart comment (by decide) (by decide) here.1
  rw [step]
  dsimp only
  rw [if_neg other, if_pos (List.isPrefixOf_iff_prefix.2 comment)]

theorem step_comments {lines : List Str} (comments : ∀ line ∈ lines, "//".toList <+: trim line) :
    ∀ s : MessageReader, (lines.foldl step s).fields = s.fields := by
  induction lines with
  | nil => exact fun _ => rfl
  | cons line lines ih =>
    intro s
    rw [List.foldl_cons, ih fun line mem => comments line (List.mem_cons_of_mem _ mem),
      step_comment (comments line List.mem_cons_self)]

theorem step_fieldLine {f : ProtoField} (named : f.Named) (s : MessageReader) :
    (s.step f.fieldLine).fields.map FieldSpec.shape =
      s.fields.map FieldSpec.shape ++
        ((parseFieldSpec (trim f.fieldLine)).map FieldSpec.shape).toList := by
  have last : (trim f.fieldLine).getLast? = some ';' := by
    rw [ProtoField.trim_fieldLine named, List.getLast?_concat]
  have noHeader : ¬ ("message ".toList.isPrefixOf (trim f.fieldLine) &&
      (trim f.fieldLine).getLast? = some '\x7b') = true := by
    rw [last]
    simp
  have noComment : ¬ "//".toList.isPrefixOf (trim f.fieldLine) = true := by
    rw [List.isPrefixOf_iff_prefix, ProtoField.trim_fieldLine named]
    intro here
    have clean : '/' ∉ f.fieldLine := notMem_fieldLine named rfl rfl
    rw [ProtoField.fieldLine_eq] at clean
    exact clean (List.mem_cons_of_mem _ (List.mem_cons_of_mem _ (here.subset (by decide))))
  have content : (!(trim f.fieldLine).isEmpty && trim f.fieldLine ≠ "\x7d".toList) = true := by
    have other : trim f.fieldLine ≠ "\x7d".toList := by
      intro same
      rw [same] at last
      cases last
    have solid : trim f.fieldLine ≠ [] := by
      intro empty
      rw [empty] at last
      cases last
    rw [Bool.and_eq_true, Bool.not_eq_true', List.isEmpty_eq_false_iff, decide_eq_true_eq]
    exact ⟨solid, other⟩
  rw [step]
  dsimp only
  rw [if_neg noHeader, if_neg noComment, if_pos content]
  cases parseFieldSpec (trim f.fieldLine) with
  | none => exact (List.append_nil _).symm
  | some field =>
    dsimp only
    rw [List.map_append]
    congr 1
    cases s.pendingDoc <;> rfl

theorem step_header {m : Str} (named : Name m) (s : MessageReader) :
    (s.step ("message ".toList ++ m ++ " \x7b".toList)).fields = s.fields := by
  have header : ("message ".toList.isPrefixOf (trim ("message ".toList ++ m ++ " \x7b".toList)) &&
      (trim ("message ".toList ++ m ++ " \x7b".toList)).getLast? = some '\x7b') = true := by
    have last : "message ".toList ++ m ++ " \x7b".toList = ("message ".toList ++ m ++ [' ']) ++ ['\x7b'] := by
      simp only [List.append_assoc]
      rfl
    rw [trim_messageHeader named, Bool.and_eq_true, List.isPrefixOf_iff_prefix, decide_eq_true_eq]
    constructor
    · rw [List.append_assoc]
      exact List.prefix_append _ _
    · rw [last, List.getLast?_concat]
  rw [step]
  dsimp only
  rw [if_pos header]

theorem step_close (s : MessageReader) : s.step "\x7d".toList = s := by
  rfl

/-- The lines of a field. -/
theorem step_protoLines {f : ProtoField} (named : f.Named) (s : MessageReader) :
    ((f.protoLines.map stripCr).foldl step s).fields.map FieldSpec.shape =
      s.fields.map FieldSpec.shape ++
        ((parseFieldSpec (trim f.fieldLine)).map FieldSpec.shape).toList := by
  have comments : ∀ line ∈ f.docLines.map stripCr, "//".toList <+: trim line := by
    intro line mem
    obtain ⟨doc, found, rfl⟩ := List.mem_map.1 mem
    rw [trim_stripCr]
    exact ProtoField.prefix_docLine found
  rw [ProtoField.protoLines, List.map_append, List.foldl_append, List.map_singleton,
    stripCr_fieldLine named, List.foldl_cons, List.foldl_nil, step_fieldLine named,
    step_comments comments]

theorem step_fields {fields : List ProtoField} (named : ∀ f ∈ fields, f.Named) :
    ∀ s : MessageReader,
      (((fields.flatMap ProtoField.protoLines).map stripCr).foldl step s).fields.map FieldSpec.shape =
        s.fields.map FieldSpec.shape ++
          fields.filterMap fun f => (parseFieldSpec (trim f.fieldLine)).map FieldSpec.shape := by
  induction fields with
  | nil => exact fun s => (List.append_nil _).symm
  | cons f fields ih =>
    intro s
    rw [List.flatMap_cons, List.map_append, List.foldl_append,
      ih fun f mem => named f (List.mem_cons_of_mem _ mem),
      step_protoLines (named f List.mem_cons_self), List.append_assoc, List.filterMap_cons]
    cases (parseFieldSpec (trim f.fieldLine)).map FieldSpec.shape <;> rfl

end MessageReader

theorem lines_buildMessage (m : MessageDesc) :
    lines (buildMessage m.name m.fields) =
      ("message ".toList ++ m.name ++ " \x7b".toList) ::
        ((m.fields.flatMap ProtoField.protoLines).map stripCr ++ ["\x7d".toList]) := by
  have whole : definitionLines m.name m.fields =
      (("message ".toList ++ m.name ++ " \x7b".toList) :: m.fields.flatMap ProtoField.protoLines) ++
        ["\x7d".toList] := rfl
  have header := notMem_header (c := '\r') (Name.of_fullIdent m.named) rfl rfl
    (rfl : "message ".toList.all (fun d => isNameChar d || isMark d) = true)
  rw [buildMessage_eq, whole, lines_unlines]
  · rw [List.map_cons, stripCr_of_notMem header]
    rfl
  · intro line mem
    exact feed_notMem_linesOf (m := some m) mem

theorem parseMessageSpec_shapes (m : MessageDesc) :
    (parseMessageSpec (buildMessage m.name m.fields)).fields.map FieldSpec.shape =
      m.fields.filterMap fun f => (parseFieldSpec (trim f.fieldLine)).map FieldSpec.shape := by
  rw [parseMessageSpec]
  dsimp only
  rw [lines_buildMessage, List.foldl_cons, List.foldl_append, List.foldl_cons, List.foldl_nil,
    MessageReader.step_close, MessageReader.step_fields m.each,
    MessageReader.step_header (Name.of_fullIdent m.named)]
  rfl

end Typeway.Grpc
