import Mathlib
import Typeway.Base.RustIdent
import Typeway.Base.Words
import Typeway.Grpc.ProtoText

/-!
# Descriptions of services

A service is described by its methods, and a message by its fields. `generate_proto_file` makes a
text of the descriptions, whose lines are listed here.
-/

namespace Typeway.Grpc

open Typeway.Core Lines Segments Text

/-! ## Names -/

/-- An identifier of proto3, which are those of Rust in ASCII. -/
def isIdent (text : Str) : Bool :=
  RustIdent.isIdent RustIdent.ascii text

/-- Identifiers with dots between them. -/
def isFullIdent (text : Str) : Bool :=
  (text.splitOn '.').all isIdent

def isNameChar (c : Char) : Bool :=
  c.isAlphanum || c = '_' || c = '.'

/-- What names have in common. -/
structure Name (text : Str) : Prop where
  solid : text ≠ []
  chars : ∀ c ∈ text, isNameChar c = true

theorem Name.of_ident {text : Str} (ident : isIdent text = true) : Name text := by
  cases text with
  | nil => cases ident
  | cons c rest =>
    obtain ⟨starts, continues⟩ := RustIdent.isIdent_cons.1 ident
    refine ⟨List.cons_ne_nil _ _, List.forall_mem_cons.2 ⟨?_, fun d mem => ?_⟩⟩
    · simp only [RustIdent.ascii, Bool.or_eq_true] at starts
      rcases starts with alpha | underscore
      · simp [isNameChar, Char.isAlphanum, alpha]
      · simp [isNameChar, underscore]
    · have continues := List.all_eq_true.1 continues d mem
      simp only [RustIdent.ascii] at continues
      simp [isNameChar, continues]

theorem eq_or_mem_piece (sep : Char) {c : Char} {text : Str} (mem : c ∈ text) :
    c = sep ∨ ∃ piece ∈ text.splitOn sep, c ∈ piece := by
  induction text with
  | nil => cases mem
  | cons d text ih =>
    obtain ⟨first, pieces, split⟩ := List.exists_cons_of_ne_nil (List.splitOn_ne_nil sep text)
    rw [List.splitOn_cons_eq_if_modifyHead]
    by_cases here : d = sep
    · rw [if_pos (by simpa using here)]
      rcases List.mem_cons.1 mem with rfl | mem
      · exact .inl here
      · exact (ih mem).imp id fun ⟨piece, found, own⟩ => ⟨piece, List.mem_cons_of_mem _ found, own⟩
    · rw [if_neg (by simpa using here), split, List.modifyHead_cons]
      rw [split] at ih
      rcases List.mem_cons.1 mem with rfl | mem
      · exact .inr ⟨_, List.mem_cons_self, List.mem_cons_self⟩
      · refine (ih mem).imp id fun ⟨piece, found, own⟩ => ?_
        rcases List.mem_cons.1 found with rfl | found
        · exact ⟨_, List.mem_cons_self, List.mem_cons_of_mem _ own⟩
        · exact ⟨piece, List.mem_cons_of_mem _ found, own⟩

theorem Name.of_fullIdent {text : Str} (ident : isFullIdent text = true) : Name text := by
  have pieces : ∀ piece ∈ text.splitOn '.', Name piece := fun piece mem =>
    .of_ident (List.all_eq_true.1 ident piece mem)
  constructor
  · rintro rfl
    exact (pieces [] List.mem_cons_self).solid rfl
  · intro c mem
    rcases eq_or_mem_piece '.' mem with rfl | ⟨piece, found, own⟩
    · rfl
    · exact (pieces piece found).chars c own

theorem not_whitespace_of_isNameChar {c : Char} (char : isNameChar c = true) :
    isWhitespace c = false := by
  have range : c.toNat = 95 ∨ c.toNat = 46 ∨ (48 ≤ c.toNat ∧ c.toNat ≤ 57) ∨
      (65 ≤ c.toNat ∧ c.toNat ≤ 90) ∨ (97 ≤ c.toNat ∧ c.toNat ≤ 122) := by
    simp only [isNameChar, Char.isAlphanum, Char.isAlpha, Char.isUpper, Char.isLower, Char.isDigit,
      UInt32.le_iff_toNat_le, Char.toNat_val, Bool.or_eq_true, Bool.and_eq_true,
      decide_eq_true_eq, ge_iff_le] at char
    rcases char with ((((upper | lower) | digit) | rfl) | rfl)
    · exact .inr (.inr (.inr (.inl upper)))
    · exact .inr (.inr (.inr (.inr lower)))
    · exact .inr (.inr (.inl digit))
    · exact .inl rfl
    · exact .inr (.inl rfl)
  simp [isWhitespace]
  omega

namespace Name

variable {text : Str}

theorem word (name : Name text) : Word text :=
  ⟨name.solid, fun c mem => not_whitespace_of_isNameChar (name.chars c mem)⟩

theorem notMem (name : Name text) {c : Char} (other : isNameChar c = false) : c ∉ text := by
  intro mem
  have char := name.chars c mem
  rw [other] at char
  cases char

end Name

/-! ## Descriptions -/

/-- The names of a field are identifiers, and its number is a positive `u32`. -/
structure ProtoField.Named (f : ProtoField) : Prop where
  name : isIdent f.name = true
  protoType : isFullIdent f.protoType = true
  mapKeyType : ∀ k ∈ f.mapKeyType, isFullIdent k = true
  mapValueType : ∀ v ∈ f.mapValueType, isFullIdent v = true
  positive : 0 < f.tag
  small : f.tag < 2 ^ 32

structure MessageDesc where
  name : Str
  fields : List ProtoField
  named : isFullIdent name = true
  each : ∀ f ∈ fields, f.Named

/-- A method. Without a request or response it takes or returns `google.protobuf.Empty`. -/
structure MethodDesc where
  name : Str
  httpMethod : Str
  pathPattern : Str
  request : Option MessageDesc
  response : Option MessageDesc
  serverStreaming : Bool
  clientStreaming : Bool
  named : isIdent name = true
  methodLine : '\n' ∉ httpMethod
  patternLine : '\n' ∉ pathPattern

structure ServiceDesc where
  package : Str
  name : Str
  methods : List MethodDesc
  packaged : isFullIdent package = true
  named : isIdent name = true

namespace MessageDesc

def message (m : MessageDesc) : ProtoMessage where
  name := m.name
  definition := buildMessage m.name m.fields

end MessageDesc

namespace MethodDesc

def rpc (d : MethodDesc) : RpcMethod where
  name := d.name
  httpMethod := d.httpMethod
  pathPattern := d.pathPattern
  requestMessage := d.request.map MessageDesc.message
  responseMessage :=
    match d.response with
    | some m => m.message
    | none => { name := "google.protobuf.Empty".toList, definition := [] }
  serverStreaming := d.serverStreaming
  clientStreaming := d.clientStreaming

/-- The request, if there is one, and the response. -/
def messages (d : MethodDesc) : List (Option MessageDesc) :=
  (d.request.map some).toList ++ [d.response]

end MethodDesc

/-- The text that stands for a message, which is empty where there is none. -/
def definitionOf : Option MessageDesc → Str
  | some m => m.message.definition
  | none => []

/-- The first of every definition. -/
def distinctMessages (messages : List (Option MessageDesc)) : List (Option MessageDesc) :=
  messages.foldl (fun distinct m =>
    if (distinct.map definitionOf).contains (definitionOf m) then distinct else distinct ++ [m]) []

namespace ServiceDesc

variable (s : ServiceDesc)

def messages : List (Option MessageDesc) :=
  distinctMessages (s.methods.flatMap MethodDesc.messages)

/-- The text that is generated. -/
def protoText : Str :=
  generateProtoFile s.name s.package (s.methods.map MethodDesc.rpc)

end ServiceDesc

theorem distinctMessages_definitions (messages : List (Option MessageDesc)) :
    (distinctMessages messages).map definitionOf =
      (messages.map definitionOf).foldl insertDistinct [] := by
  have loop (distinct : List (Option MessageDesc)) :
      (messages.foldl (fun distinct m =>
        if (distinct.map definitionOf).contains (definitionOf m) then distinct else distinct ++ [m])
          distinct).map definitionOf =
        (messages.map definitionOf).foldl insertDistinct (distinct.map definitionOf) := by
    induction messages generalizing distinct with
    | nil => rfl
    | cons m messages ih =>
      rw [List.foldl_cons, ih, List.map_cons, List.foldl_cons, insertDistinct]
      congr 1
      by_cases there : (distinct.map definitionOf).contains (definitionOf m)
      · rw [if_pos there, if_pos there]
      · rw [if_neg there, if_neg there]
        simp
  exact loop []

theorem distinctMessages_subset (messages : List (Option MessageDesc)) :
    distinctMessages messages ⊆ messages := by
  have loop (rest distinct : List (Option MessageDesc)) :
      rest.foldl (fun distinct m =>
        if (distinct.map definitionOf).contains (definitionOf m) then distinct else distinct ++ [m])
          distinct ⊆ distinct ++ rest := by
    induction rest generalizing distinct with
    | nil => exact List.subset_append_left _ _
    | cons m rest ih =>
      rw [List.foldl_cons]
      refine List.Subset.trans (ih _) ?_
      split
      · exact List.append_subset.2 ⟨List.subset_append_left _ _, fun x mem =>
          List.mem_append_right _ (List.mem_cons_of_mem _ mem)⟩
      · rw [List.append_assoc]
        exact List.Subset.refl _
  exact loop messages []

theorem mem_foldl_insertDistinct (items : List Str) : ∀ distinct item,
    item ∈ items.foldl insertDistinct distinct ↔ item ∈ distinct ∨ item ∈ items := by
  induction items with
  | nil => simp
  | cons first items ih =>
    intro distinct item
    rw [List.foldl_cons, ih, List.mem_cons, insertDistinct, ← or_assoc]
    apply or_congr_left
    by_cases there : first ∈ distinct
    · rw [if_pos (List.contains_iff_mem.2 there)]
      exact ⟨.inl, fun h => h.elim id fun same => same ▸ there⟩
    · rw [if_neg (by rwa [List.contains_iff_mem]), List.mem_append, List.mem_singleton]

/-- Every message has its definition among the different ones. -/
theorem exists_distinct {messages : List (Option MessageDesc)} {m : Option MessageDesc}
    (mem : m ∈ messages) :
    ∃ m' ∈ distinctMessages messages, definitionOf m' = definitionOf m := by
  rw [← List.mem_map, distinctMessages_definitions, mem_foldl_insertDistinct]
  exact .inr (List.mem_map_of_mem mem)

theorem MethodDesc.rpc_definitions (d : MethodDesc) :
    d.rpc.definitions = d.messages.map definitionOf := by
  obtain ⟨_, _, _, request, response, _, _, _, _, _⟩ := d
  cases request <;> cases response <;> rfl

/-! ## Lines -/

def ProtoField.docLines (f : ProtoField) : List Str :=
  match f.doc with
  | some doc => if doc.isEmpty then [] else (lines doc).map fun line => "  // ".toList ++ line
  | none => []

def ProtoField.protoLines (f : ProtoField) : List Str :=
  f.docLines ++ [f.fieldLine]

theorem ProtoField.toProtoLine_eq (f : ProtoField) : f.toProtoLine = unlines f.protoLines := by
  rw [toProtoLine, protoLines, docLines]
  cases f.doc with
  | none => exact (unlines_singleton _).symm
  | some doc =>
    dsimp only
    cases doc with
    | nil => exact (unlines_singleton _).symm
    | cons c doc =>
      have some : lines (c :: doc) ≠ [] := lines_ne_nil (List.cons_ne_nil _ _)
      rw [List.isEmpty_cons, if_neg Bool.false_ne_true, if_neg Bool.false_ne_true,
        unlines_append (by simpa using some) (List.cons_ne_nil _ _), unlines_singleton]

/-- The lines of a message definition. -/
def definitionLines (name : Str) (fields : List ProtoField) : List Str :=
  ("message ".toList ++ name ++ " \x7b".toList) ::
    (fields.flatMap ProtoField.protoLines ++ ["\x7d".toList])

theorem buildMessage_eq (name : Str) (fields : List ProtoField) :
    buildMessage name fields = unlines (definitionLines name fields) := by
  let groups : List (List Str) :=
    ["message ".toList ++ name ++ " \x7b".toList] ::
      (fields.map ProtoField.protoLines ++ [["\x7d".toList]])
  have solid : ∀ group ∈ groups, group ≠ [] := by
    intro group mem
    rcases List.mem_cons.1 mem with rfl | mem
    · exact List.cons_ne_nil _ _
    rcases List.mem_append.1 mem with mem | mem
    · obtain ⟨f, _, rfl⟩ := List.mem_map.1 mem
      exact List.append_ne_nil_of_right_ne_nil _ (List.cons_ne_nil _ _)
    · rw [List.mem_singleton.1 mem]
      exact List.cons_ne_nil _ _
  have texts : groups.map unlines = ("message ".toList ++ name ++ " \x7b".toList) ::
      (fields.map ProtoField.toProtoLine ++ ["\x7d".toList]) := by
    simp only [groups, List.map_cons, List.map_append, List.map_map, unlines_singleton,
      List.map_nil]
    congr 3
    exact funext fun f => (f.toProtoLine_eq).symm
  have flat : groups.flatMap id = definitionLines name fields := by
    simp [groups, definitionLines, List.flatMap]
  rw [buildMessage, ← texts, ← flat]
  exact unlines_flatMap solid

/-- The lines of a message, and an empty one where there is none. -/
def linesOf : Option MessageDesc → List Str
  | some m => definitionLines m.name m.fields
  | none => [[]]

theorem definitionOf_eq (m : Option MessageDesc) : definitionOf m = unlines (linesOf m) := by
  cases m with
  | none => rfl
  | some m => exact buildMessage_eq m.name m.fields

namespace ServiceDesc

variable (s : ServiceDesc)

/-- The lines of the generated text but the last one, which is empty. -/
def textLines : List Str :=
  ["syntax = \"proto3\";".toList, [], "package ".toList ++ s.package ++ ";".toList, [],
    "service ".toList ++ s.name ++ " \x7b".toList] ++
    (s.methods.flatMap fun d => [d.rpc.commentLine, d.rpc.rpcLine]) ++ ["\x7d".toList] ++
    s.messages.flatMap fun m => [] :: linesOf m

theorem collectDefinitions_eq :
    collectDefinitions (s.methods.map MethodDesc.rpc) = s.messages.map definitionOf := by
  rw [collectDefinitions, messages, distinctMessages_definitions, List.flatMap_map,
    List.map_flatMap]
  congr 1
  exact List.flatMap_congr fun d _ => d.rpc_definitions

/-- An empty line stands before every definition as well as behind it. -/
theorem blanks_shift (ms : List (Option MessageDesc)) :
    [] :: ms.flatMap (fun m => [definitionOf m, []]) =
      (ms.flatMap fun m => [[], definitionOf m]) ++ [[]] := by
  induction ms with
  | nil => rfl
  | cons m ms ih =>
    rw [List.flatMap_cons, List.flatMap_cons]
    simpa using ih

theorem protoText_eq : s.protoText = unlines (s.textLines ++ [[]]) := by
  let front : List Str := ["syntax = \"proto3\";".toList, [],
    "package ".toList ++ s.package ++ ";".toList, [], "service ".toList ++ s.name ++ " \x7b".toList] ++
    (s.methods.flatMap fun d => [d.rpc.commentLine, d.rpc.rpcLine]) ++ ["\x7d".toList]
  let groups : List (List Str) :=
    front.map (fun line => [line]) ++ (s.messages.flatMap fun m => [[[]], linesOf m]) ++ [[[]]]
  have solid : ∀ group ∈ groups, group ≠ [] := by
    intro group mem
    rcases List.mem_append.1 mem with mem | mem
    · rcases List.mem_append.1 mem with mem | mem
      · obtain ⟨line, _, rfl⟩ := List.mem_map.1 mem
        exact List.cons_ne_nil _ _
      · obtain ⟨m, _, mem⟩ := List.mem_flatMap.1 mem
        rcases List.mem_cons.1 mem with rfl | mem
        · exact List.cons_ne_nil _ _
        · rw [List.mem_singleton.1 mem]
          cases m <;> exact List.cons_ne_nil _ _
    · rw [List.mem_singleton.1 mem]
      exact List.cons_ne_nil _ _
  have texts : groups.map unlines =
      front ++ (s.messages.flatMap fun m => [[], definitionOf m]) ++ [[]] := by
    simp only [groups, List.map_append, List.map_map, List.map_flatMap, List.map_cons, List.map_nil,
      unlines_singleton, ← definitionOf_eq]
    congr 2
    exact (List.map_congr_left fun line _ => unlines_singleton line).trans (List.map_id _)
  have single (ls : List Str) : (ls.map fun line => [line]).flatMap id = ls := by
    rw [List.flatMap_map]
    exact List.flatMap_singleton' ls
  have flat : groups.flatMap id = s.textLines ++ [[]] := by
    simp [groups, single, front, textLines, List.flatMap_assoc, -List.flatMap_id]
  have whole : ["syntax = \"proto3\";".toList, [], "package ".toList ++ s.package ++ ";".toList, []] ++
      serviceLines s.name (s.methods.map MethodDesc.rpc) ++
      (collectDefinitions (s.methods.map MethodDesc.rpc)).flatMap (fun definition => [definition, []]) =
      front ++ ([] :: s.messages.flatMap fun m => [definitionOf m, []]) := by
    simp [front, serviceLines, List.flatMap_map, collectDefinitions_eq]
  rw [protoText, generateProtoFile, whole, blanks_shift, ← List.append_assoc, ← texts, ← flat]
  exact unlines_flatMap solid

end ServiceDesc

/-! ## What is in a line -/

/-- The characters between the names. -/
def isMark (c : Char) : Bool :=
  c = ' ' || c = '<' || c = '>' || c = ',' || c = '=' || c = ';' || c = '(' || c = ')' || c = '\x7b' ||
    c = '\x7d'

theorem notMem_literal {c : Char} (other : isNameChar c = false) (mark : isMark c = false) {text : Str}
    (plain : text.all fun d => isNameChar d || isMark d) : c ∉ text := by
  intro mem
  have here := List.all_eq_true.1 plain c mem
  rw [other, mark] at here
  cases here

section

variable {f : ProtoField} {c : Char}

theorem Name.getD {text : Option Str} {default : Str} (named : ∀ t ∈ text, isFullIdent t = true)
    (named' : Name default) : Name (text.getD default) := by
  cases text with
  | none => exact named'
  | some t => exact .of_fullIdent (named t rfl)

theorem name_string : Name "string".toList :=
  .of_ident rfl

theorem name_empty : Name "google.protobuf.Empty".toList :=
  .of_fullIdent rfl

theorem notMem_decimal_of_isNameChar (other : isNameChar c = false) (n : Nat) : c ∉ decimal n := by
  apply notMem_decimal
  simp only [isNameChar, Char.isAlphanum, Bool.or_eq_false_iff] at other
  exact other.1.1.2

theorem notMem_fieldLine (named : f.Named) (other : isNameChar c = false)
    (mark : isMark c = false) : c ∉ f.fieldLine := by
  have name := (Name.of_ident named.name).notMem other
  have protoType := (Name.of_fullIdent named.protoType).notMem other
  have key := (Name.getD named.mapKeyType name_string).notMem other
  have value := (Name.getD named.mapValueType name_string).notMem other
  have tag := notMem_decimal_of_isNameChar other f.tag
  have literal {text : Str} (plain : text.all fun d => isNameChar d || isMark d) : c ∉ text :=
    notMem_literal other mark plain
  rw [ProtoField.fieldLine]
  dsimp only
  split
  · simp only [List.mem_append, not_or]
    exact ⟨⟨⟨⟨⟨⟨⟨⟨literal rfl, key⟩, literal rfl⟩, value⟩, literal rfl⟩, name⟩, literal rfl⟩, tag⟩,
      literal rfl⟩
  · simp only [List.mem_append, not_or]
    refine ⟨⟨⟨⟨⟨⟨⟨literal rfl, ?_⟩, protoType⟩, literal rfl⟩, name⟩, literal rfl⟩, tag⟩, literal rfl⟩
    split
    · exact literal rfl
    · split
      · exact literal rfl
      · exact List.not_mem_nil

theorem feed_notMem_docLines {line : Str} (mem : line ∈ f.docLines) : '\n' ∉ line := by
  rw [ProtoField.docLines] at mem
  split at mem
  · split at mem
    · cases mem
    · obtain ⟨own, found, rfl⟩ := List.mem_map.1 mem
      rw [List.mem_append, not_or]
      exact ⟨by decide, notMem_of_mem_lines found⟩
  · cases mem

theorem feed_notMem_protoLines (named : f.Named) {line : Str} (mem : line ∈ f.protoLines) :
    '\n' ∉ line := by
  rcases List.mem_append.1 mem with doc | own
  · exact feed_notMem_docLines doc
  · rw [List.mem_singleton.1 own]
    exact notMem_fieldLine named rfl rfl

end

theorem feed_notMem_linesOf {m : Option MessageDesc} {line : Str} (mem : line ∈ linesOf m) :
    '\n' ∉ line := by
  cases m with
  | none =>
    rw [List.mem_singleton.1 mem]
    exact List.not_mem_nil
  | some m =>
    rcases List.mem_cons.1 mem with rfl | mem
    · simp only [List.mem_append, not_or]
      exact ⟨⟨by decide, (Name.of_fullIdent m.named).notMem rfl⟩, by decide⟩
    rcases List.mem_append.1 mem with mem | mem
    · obtain ⟨f, inFields, mem⟩ := List.mem_flatMap.1 mem
      exact feed_notMem_protoLines (m.each f inFields) mem
    · rw [List.mem_singleton.1 mem]
      decide

theorem MethodDesc.name_requestType (d : MethodDesc) : Name d.rpc.requestType := by
  obtain ⟨_, _, _, request, _, _, _, _, _, _⟩ := d
  cases request with
  | none => exact name_empty
  | some m => exact .of_fullIdent m.named

theorem MethodDesc.name_responseType (d : MethodDesc) : Name d.rpc.responseMessage.name := by
  obtain ⟨_, _, _, _, response, _, _, _, _, _⟩ := d
  cases response with
  | none => exact name_empty
  | some m => exact .of_fullIdent m.named

theorem RpcMethod.commentLine_eq (rpc : RpcMethod) :
    rpc.commentLine = "  // ".toList ++ (rpc.httpMethod ++ (" ".toList ++ rpc.pathPattern)) := by
  simp only [← List.append_assoc]
  rfl

theorem RpcMethod.rpcLine_eq (rpc : RpcMethod) :
    rpc.rpcLine = "  rpc ".toList ++ (rpc.name ++ ("(".toList ++ (streamPrefix rpc.clientStreaming ++
      (rpc.requestType ++ (") returns (".toList ++ (streamPrefix rpc.serverStreaming ++
        (rpc.responseMessage.name ++ ");".toList))))))) := by
  simp only [← List.append_assoc]
  rfl

theorem MethodDesc.feed_notMem_commentLine (d : MethodDesc) : '\n' ∉ d.rpc.commentLine := by
  simp only [RpcMethod.commentLine_eq, List.mem_append, not_or]
  exact ⟨by decide, d.methodLine, by decide, d.patternLine⟩

theorem MethodDesc.notMem_rpcLine (d : MethodDesc) {c : Char} (other : isNameChar c = false)
    (mark : isMark c = false) : c ∉ d.rpc.rpcLine := by
  have literal {text : Str} (plain : text.all fun d => isNameChar d || isMark d) : c ∉ text :=
    notMem_literal other mark plain
  have stream (streaming : Bool) : c ∉ streamPrefix streaming := by
    cases streaming
    · exact List.not_mem_nil
    · exact literal rfl
  simp only [RpcMethod.rpcLine_eq, List.mem_append, not_or]
  exact ⟨literal rfl, (Name.of_ident d.named).notMem other, literal rfl, stream _,
    d.name_requestType.notMem other, literal rfl, stream _, d.name_responseType.notMem other,
    literal rfl⟩

/-- The header of a block. -/
theorem notMem_header {keyword name : Str} (named : Name name) {c : Char} (other : isNameChar c = false)
    (mark : isMark c = false) (plain : keyword.all fun d => isNameChar d || isMark d) :
    c ∉ keyword ++ name ++ " \x7b".toList := by
  simp only [List.mem_append, not_or]
  exact ⟨⟨notMem_literal other mark plain, named.notMem other⟩, notMem_literal other mark rfl⟩

namespace ServiceDesc

variable (s : ServiceDesc)

theorem feed_notMem_textLines {line : Str} (mem : line ∈ s.textLines) : '\n' ∉ line := by
  rw [textLines] at mem
  rcases List.mem_append.1 mem with mem | mem
  · rcases List.mem_append.1 mem with mem | mem
    · rcases List.mem_append.1 mem with mem | mem
      · simp only [List.mem_cons, List.not_mem_nil, or_false] at mem
        obtain rfl | rfl | rfl | rfl | rfl := mem
        · decide
        · exact List.not_mem_nil
        · simp only [List.mem_append, not_or]
          exact ⟨⟨by decide, (Name.of_fullIdent s.packaged).notMem rfl⟩, by decide⟩
        · exact List.not_mem_nil
        · exact notMem_header (Name.of_ident s.named) rfl rfl rfl
      · obtain ⟨d, _, mem⟩ := List.mem_flatMap.1 mem
        simp only [List.mem_cons, List.not_mem_nil, or_false] at mem
        obtain same | same := mem <;> rw [same]
        · exact d.feed_notMem_commentLine
        · exact d.notMem_rpcLine rfl rfl
    · rw [List.mem_singleton.1 mem]
      decide
  · obtain ⟨m, _, mem⟩ := List.mem_flatMap.1 mem
    rcases List.mem_cons.1 mem with rfl | mem
    · exact List.not_mem_nil
    · exact feed_notMem_linesOf mem

/-- The lines that a parser of the generated text goes over. -/
theorem lines_protoText : lines s.protoText = s.textLines.map stripCr := by
  rw [protoText_eq, lines_unlines]
  · exact List.append_nil _
  · intro line mem
    rcases List.mem_append.1 mem with mem | mem
    · exact s.feed_notMem_textLines mem
    · rw [List.mem_singleton.1 mem]
      exact List.not_mem_nil

end ServiceDesc

end Typeway.Grpc
