import Typeway.Base.JsonText
import Typeway.Base.Serde
import Typeway.Base.Substring
import Typeway.Core.Path

/-!
# Server reflection

`reflection.rs`: the answers are put together as texts. The names of the services go in as they
are, and of the characters of the proto file three are escaped.
-/

namespace Typeway.Grpc

open Typeway.Core JsonText

structure ReflectionService where
  protoContent : Str
  serviceNames : List Str
  deriving DecidableEq

/-- `text.replace(c, value)`. -/
def replaceChar (c : Char) (value text : Str) : Str :=
  text.flatMap fun d => if d = c then value else [d]

namespace ReflectionService

/-- The object of one service, whose name is not escaped. -/
def serviceJson (s : Str) : Str :=
  "\x7b\"name\":\"".toList ++ s ++ "\"\x7d".toList

def handleRequest (svc : ReflectionService) (requestBody : Str) : Str :=
  if Substring.contains "list_services".toList requestBody then
    "\x7b\"listServicesResponse\":\x7b\"service\":[".toList ++
      List.intercalate ",".toList (svc.serviceNames.map serviceJson) ++ "]\x7d\x7d".toList
  else
    let escaped := replaceChar '\n' "\\n".toList
      (replaceChar '"' "\\\"".toList (replaceChar '\\' "\\\\".toList svc.protoContent))
    "\x7b\"fileDescriptorResponse\":\x7b\"fileDescriptorProto\":\"".toList ++ escaped ++
      "\"\x7d\x7d".toList

end ReflectionService

/-! ## What an answer carries -/

/-- The service names in a parsed answer. -/
def namesIn (answer : Tree) : Option (List Str) := do
  let response ← answer.get "listServicesResponse".toList
  let services ← response.get "service".toList
  let items ← services.asArr
  items.mapM fun item => (item.get "name".toList).bind Tree.asStr

/-- The proto file in a parsed answer. -/
def protoIn (answer : Tree) : Option Str := do
  let response ← answer.get "fileDescriptorResponse".toList
  let proto ← response.get "fileDescriptorProto".toList
  proto.asStr

/-- The answer is a JSON object that carries what was registered. -/
def Answers (svc : ReflectionService) (requestBody : Str) : Prop :=
  ∃ members, Reads (svc.handleRequest requestBody) (.obj members) ∧
    if Substring.contains "list_services".toList requestBody then
      namesIn (.obj members) = some svc.serviceNames
    else protoIn (.obj members) = some svc.protoContent

/-! ## The names of services -/

theorem plain_name : ∀ c ∈ "name".toList, isPlain c = true :=
  List.all_eq_true.1 rfl

theorem plain_listServicesResponse : ∀ c ∈ "listServicesResponse".toList, isPlain c = true :=
  List.all_eq_true.1 rfl

theorem plain_service : ∀ c ∈ "service".toList, isPlain c = true :=
  List.all_eq_true.1 rfl

/-- An object with one member, as a text. -/
def objectOf (key text : Str) : Str :=
  '\x7b' :: '"' :: (key ++ '"' :: ':' :: (text ++ ['\x7d']))

theorem serviceJson_eq (s : Str) :
    ReflectionService.serviceJson s = objectOf "name".toList ('"' :: (s ++ ['"'])) := by
  have front : "\x7b\"name\":\"".toList = '\x7b' :: '"' :: ("name".toList ++ ['"', ':', '"']) := by
    decide
  have back : "\"\x7d".toList = ['"', '\x7d'] := by decide
  change "\x7b\"name\":\"".toList ++ s ++ "\"\x7d".toList = _
  simp only [objectOf, front, back, List.append_assoc, List.cons_append, List.nil_append]

/-- The object of a plain name. -/
theorem reads_serviceJson {s : Str} (plain : ∀ c ∈ s, isPlain c = true) :
    Reads (ReflectionService.serviceJson s) (.obj [("name".toList, .str s)]) := by
  rw [serviceJson_eq]
  exact .single plain_name (.str (.self plain))

theorem listAnswer_eq (X : Str) :
    "\x7b\"listServicesResponse\":\x7b\"service\":[".toList ++ X ++ "]\x7d\x7d".toList =
      objectOf "listServicesResponse".toList (objectOf "service".toList ('[' :: (X ++ [']']))) := by
  have front : "\x7b\"listServicesResponse\":\x7b\"service\":[".toList =
      '\x7b' :: '"' :: ("listServicesResponse".toList ++ '"' :: ':' :: '\x7b' :: '"' ::
        ("service".toList ++ ['"', ':', '['])) := by
    decide
  have back : "]\x7d\x7d".toList = [']', '\x7d', '\x7d'] := by decide
  simp only [objectOf, front, back, List.append_assoc, List.cons_append, List.nil_append]

/-- Plain names come back as they are. -/
theorem listAnswer_reads {names : List Str} (plain : ∀ name ∈ names, ∀ c ∈ name, isPlain c = true) :
    ∃ members, Reads ("\x7b\"listServicesResponse\":\x7b\"service\":[".toList ++
        List.intercalate ",".toList (names.map ReflectionService.serviceJson) ++
        "]\x7d\x7d".toList) (.obj members) ∧ namesIn (.obj members) = some names := by
  let items := names.map fun name => (ReflectionService.serviceJson name,
    Tree.obj [("name".toList, .str name)])
  have parts : ∀ item ∈ items, Reads item.1 item.2 := by
    intro item mem
    obtain ⟨name, inNames, rfl⟩ := List.mem_map.1 mem
    exact reads_serviceJson (plain name inNames)
  have texts : items.map Prod.fst = names.map ReflectionService.serviceJson := by
    rw [List.map_map]
    rfl
  have list := Reads.list items parts
  rw [texts] at list
  refine ⟨[("listServicesResponse".toList, .obj [("service".toList, .arr (items.map Prod.snd))])], ?_, ?_⟩
  · rw [listAnswer_eq]
    exact .single plain_listServicesResponse (.single plain_service list)
  · have trees : items.map Prod.snd = names.map fun name => Tree.obj [("name".toList, .str name)] := by
      rw [List.map_map]
      rfl
    rw [trees]
    have each : (names.map fun name => Tree.obj [("name".toList, .str name)]).mapM
        (fun item => (item.get "name".toList).bind Tree.asStr) = some names := by
      rw [Serde.mapM_eq_some_iff, List.forall₂_map_left_iff, List.forall₂_same]
      intro name _
      rw [Tree.get_single, Option.bind_some, Tree.asStr]
    rw [namesIn, Tree.get_single, Option.bind_eq_bind, Option.bind_some, Tree.get_single,
      Option.bind_eq_bind, Option.bind_some, Tree.asArr]
    exact each

/-- The lengths of the names, which the text of an array of objects with these names exceeds. -/
theorem names_length {texts : List (List Char)} {items : List Tree} {names : List Str}
    (parts : List.Forall₂ Reads texts items)
    (carried : List.Forall₂ (fun item name => (item.get "name".toList).bind Tree.asStr = some name)
      items names) :
    (names.map fun name => name.length + escapes name + 12).sum ≤
      (texts.map fun text => text.length + 1).sum := by
  induction parts generalizing names with
  | nil =>
    cases carried
    exact Nat.le_refl _
  | @cons text item texts items reads _ ih =>
    cases carried with
    | @cons _ name _ names found rest =>
      obtain ⟨v, member, isStr⟩ := Option.bind_eq_some_iff.1 found
      obtain ⟨members, rfl, mem⟩ := Tree.mem_of_get member
      obtain rfl := Tree.eq_str isStr
      obtain ⟨part, inner, longer⟩ := reads.member mem
      have own := inner.str_length
      have key : "name".toList.length = 4 := by decide
      have later := ih rest
      simp only [List.map_cons, List.sum_cons]
      omega

theorem sum_names (names : List Str) :
    (names.map fun name => name.length + escapes name + 12).sum =
      (names.map fun name => name.length + 12).sum + (names.map escapes).sum := by
  induction names with
  | nil => rfl
  | cons name names ih =>
    simp only [List.map_cons, List.sum_cons]
    omega

theorem length_serviceJson (s : Str) : (ReflectionService.serviceJson s).length + 1 = s.length + 12 := by
  have key : "name".toList.length = 4 := by decide
  rw [serviceJson_eq, objectOf]
  simp only [List.length_cons, List.length_append, List.length_nil, key]
  omega

/-- An answer that carries the names has no character to spare for a backslash. -/
theorem listAnswer_plain {names : List Str} {members : List (Str × Tree)}
    (reads : Reads ("\x7b\"listServicesResponse\":\x7b\"service\":[".toList ++
        List.intercalate ",".toList (names.map ReflectionService.serviceJson) ++
        "]\x7d\x7d".toList) (.obj members))
    (carried : namesIn (.obj members) = some names) :
    ∀ name ∈ names, ∀ c ∈ name, isPlain c = true := by
  by_cases none : names = []
  · subst none
    exact List.forall_mem_nil _
  obtain ⟨response, first, carried⟩ := Option.bind_eq_some_iff.1 carried
  obtain ⟨services, second, carried⟩ := Option.bind_eq_some_iff.1 carried
  obtain ⟨items, third, carried⟩ := Option.bind_eq_some_iff.1 carried
  obtain ⟨members, ⟨⟩, mem⟩ := Tree.mem_of_get first
  obtain ⟨members', rfl, mem'⟩ := Tree.mem_of_get second
  obtain rfl := Tree.eq_arr third
  obtain ⟨text', reads', longer⟩ := reads.member mem
  obtain ⟨text'', reads'', longer'⟩ := reads'.member mem'
  obtain ⟨texts, parts, longer''⟩ := reads''.items
  have inner := names_length parts (Serde.mapM_eq_some_iff.1 carried)
  rw [sum_names] at inner
  -- the text has one character for each character of a name, and no other to spare
  have list := length_intercalate (names.map ReflectionService.serviceJson) (by simpa using none)
  rw [List.map_map] at list
  have lengths : ((fun text : Str => text.length + 1) ∘ ReflectionService.serviceJson) =
      fun name => name.length + 12 := funext length_serviceJson
  rw [lengths] at list
  have key : "listServicesResponse".toList.length = 20 := by decide
  have key' : "service".toList.length = 7 := by decide
  rw [listAnswer_eq, objectOf, objectOf] at longer
  simp only [List.length_cons, List.length_append, List.length_nil, key, key'] at longer longer'
  have comma : ",".toList = [','] := rfl
  rw [comma] at longer
  have spare : (names.map escapes).sum = 0 := by omega
  intro name mem
  apply escapes_eq_zero.1
  have least := List.single_le_sum (fun n _ => Nat.zero_le n) _ (List.mem_map_of_mem (f := escapes) mem)
  omega

/-! ## The proto file -/

/-- A character of the proto file, as it stands in the answer. -/
def escapeChar (c : Char) : Str :=
  if c = '\\' then "\\\\".toList
  else if c = '"' then "\\\"".toList
  else if c = '\n' then "\\n".toList
  else [c]

/-- The characters that get a backslash. -/
def isEscaped (c : Char) : Bool :=
  c = '\\' || c = '"' || c = '\n'

/-- A control character that stands in the answer as it is. -/
def isRaw (c : Char) : Bool :=
  c.toNat < 0x20 && c ≠ '\n'

/-- The three characters that get a backslash, and the others. -/
theorem escape_cases {P : Char → Prop} (backslash : P '\\') (quote : P '"') (newline : P '\n')
    (other : ∀ c, c ≠ '\\' → c ≠ '"' → c ≠ '\n' → P c) (c : Char) : P c := by
  by_cases h : c = '\\'
  · exact h ▸ backslash
  · by_cases h' : c = '"'
    · exact h' ▸ quote
    · by_cases h'' : c = '\n'
      · exact h'' ▸ newline
      · exact other c h h' h''

/-- The three replacements, done one after the other, are one. -/
theorem escaped_eq (proto : Str) :
    replaceChar '\n' "\\n".toList
      (replaceChar '"' "\\\"".toList (replaceChar '\\' "\\\\".toList proto)) =
      proto.flatMap escapeChar := by
  simp only [replaceChar, List.flatMap_assoc]
  congr 1
  funext c
  induction c using escape_cases with
  | backslash => decide
  | quote => decide
  | newline => decide
  | other c slash quote newline => simp [escapeChar, slash, quote, newline]

theorem escapeChar_length (c : Char) :
    (escapeChar c).length = 1 + if isEscaped c then 1 else 0 := by
  induction c using escape_cases with
  | backslash => decide
  | quote => decide
  | newline => decide
  | other c slash quote newline => simp [escapeChar, isEscaped, slash, quote, newline]

theorem length_escaped (proto : Str) :
    (proto.flatMap escapeChar).length = proto.length + proto.countP isEscaped := by
  induction proto with
  | nil => rfl
  | cons c proto ih =>
    rw [List.flatMap_cons, List.length_append, ih, escapeChar_length, List.countP_cons,
      List.length_cons]
    omega

/-- Of the characters that need a backslash, the control characters do not get one. -/
theorem plain_or_escaped (c : Char) :
    (if isPlain c then 0 else 1) = (if isEscaped c then 1 else 0) + if isRaw c then 1 else 0 := by
  induction c using escape_cases with
  | backslash => decide
  | quote => decide
  | newline => decide
  | other c slash quote newline =>
    by_cases control : c.toNat < 0x20
    · simp [isPlain, isEscaped, isRaw, slash, quote, newline, control, Nat.not_le_of_lt control]
    · simp [isPlain, isEscaped, isRaw, slash, quote, newline, control, Nat.le_of_not_lt control]

theorem escapes_eq (proto : Str) :
    escapes proto = proto.countP isEscaped + proto.countP isRaw := by
  induction proto with
  | nil => rfl
  | cons c proto ih =>
    have here := plain_or_escaped c
    rw [escapes_cons, List.countP_cons, List.countP_cons, ih]
    omega

theorem chars_escapeChar {c : Char} (clean : isRaw c = false) {raw s : Str} (rest : Chars raw s) :
    Chars (escapeChar c ++ raw) (c :: s) := by
  induction c using escape_cases with
  | backslash => exact .short rfl rest
  | quote => exact .short rfl rest
  | newline => exact .short rfl rest
  | other c slash quote newline =>
    have same : escapeChar c = [c] := by simp [escapeChar, slash, quote, newline]
    have high : ¬ c.toNat < 0x20 := by
      intro low
      simp [isRaw, newline, low] at clean
    rw [same]
    exact .plain (by simp [isPlain, slash, quote, Nat.le_of_not_lt high]) rest

theorem chars_escaped {proto : Str} (clean : ∀ c ∈ proto, isRaw c = false) :
    Chars (proto.flatMap escapeChar) proto := by
  induction proto with
  | nil => exact .nil
  | cons c proto ih =>
    rw [List.forall_mem_cons] at clean
    rw [List.flatMap_cons]
    exact chars_escapeChar clean.1 (ih clean.2)

theorem protoAnswer_eq (X : Str) :
    "\x7b\"fileDescriptorResponse\":\x7b\"fileDescriptorProto\":\"".toList ++ X ++
        "\"\x7d\x7d".toList =
      objectOf "fileDescriptorResponse".toList
        (objectOf "fileDescriptorProto".toList ('"' :: (X ++ ['"']))) := by
  have front : "\x7b\"fileDescriptorResponse\":\x7b\"fileDescriptorProto\":\"".toList =
      '\x7b' :: '"' :: ("fileDescriptorResponse".toList ++ '"' :: ':' :: '\x7b' :: '"' ::
        ("fileDescriptorProto".toList ++ ['"', ':', '"'])) := by
    decide
  have back : "\"\x7d\x7d".toList = ['"', '\x7d', '\x7d'] := by decide
  simp only [objectOf, front, back, List.append_assoc, List.cons_append, List.nil_append]

theorem plain_fileDescriptorResponse : ∀ c ∈ "fileDescriptorResponse".toList, isPlain c = true :=
  List.all_eq_true.1 rfl

theorem plain_fileDescriptorProto : ∀ c ∈ "fileDescriptorProto".toList, isPlain c = true :=
  List.all_eq_true.1 rfl

theorem protoAnswer_iff (proto : Str) :
    (∃ members, Reads ("\x7b\"fileDescriptorResponse\":\x7b\"fileDescriptorProto\":\"".toList ++
        proto.flatMap escapeChar ++ "\"\x7d\x7d".toList) (.obj members) ∧
      protoIn (.obj members) = some proto) ↔ ∀ c ∈ proto, isRaw c = false := by
  rw [protoAnswer_eq]
  constructor
  · rintro ⟨members, reads, carried⟩
    obtain ⟨response, first, carried⟩ := Option.bind_eq_some_iff.1 carried
    obtain ⟨file, second, written⟩ := Option.bind_eq_some_iff.1 carried
    obtain ⟨members, ⟨⟩, mem⟩ := Tree.mem_of_get first
    obtain ⟨members', rfl, mem'⟩ := Tree.mem_of_get second
    obtain rfl := Tree.eq_str written
    obtain ⟨text', reads', longer⟩ := reads.member mem
    obtain ⟨text'', reads'', longer'⟩ := reads'.member mem'
    have least := reads''.str_length
    have key : "fileDescriptorResponse".toList.length = 22 := by decide
    have key' : "fileDescriptorProto".toList.length = 19 := by decide
    rw [objectOf, objectOf] at longer
    simp only [List.length_cons, List.length_append, List.length_nil, key, key',
      length_escaped] at longer longer'
    rw [escapes_eq] at least
    have none : proto.countP isRaw = 0 := by omega
    simpa using List.countP_eq_zero.1 none
  · intro clean
    refine ⟨[("fileDescriptorResponse".toList, .obj [("fileDescriptorProto".toList, .str proto)])],
      ?_, ?_⟩
    · exact .single plain_fileDescriptorResponse
        (.single plain_fileDescriptorProto (.str (chars_escaped clean)))
    · rw [protoIn, Tree.get_single, Option.bind_eq_bind, Option.bind_some, Tree.get_single,
        Option.bind_some, Tree.asStr]

section

variable {svc : ReflectionService} {requestBody : Str}

theorem answers_list (list : Substring.contains "list_services".toList requestBody = true) :
    Answers svc requestBody ↔ ∀ name ∈ svc.serviceNames, ∀ c ∈ name, isPlain c = true := by
  unfold Answers ReflectionService.handleRequest
  simp only [list, ↓reduceIte]
  constructor
  · rintro ⟨members, reads, carried⟩
    exact listAnswer_plain reads carried
  · exact listAnswer_reads

theorem answers_file (file : Substring.contains "list_services".toList requestBody = false) :
    Answers svc requestBody ↔ ∀ c ∈ svc.protoContent, isRaw c = false := by
  unfold Answers ReflectionService.handleRequest
  simp only [file, Bool.false_eq_true, ↓reduceIte, escaped_eq]
  exact protoAnswer_iff svc.protoContent

end

/-- The answer is a JSON object with what was registered if and only if, where the services are
listed, their names have no character that needs an escape, and where the proto file is returned,
it has no control character but line feeds. -/
theorem answers_iff (svc : ReflectionService) (requestBody : Str) :
    Answers svc requestBody ↔
      if Substring.contains "list_services".toList requestBody then
        ∀ name ∈ svc.serviceNames, ∀ c ∈ name, isPlain c = true
      else ∀ c ∈ svc.protoContent, isRaw c = false := by
  split
  · rename_i list
    exact answers_list list
  · rename_i file
    exact answers_file (Bool.not_eq_true _ ▸ file)

/-- A tab in a comment of the proto file. -/
theorem tab_breaks_answer :
    ¬ ∀ (svc : ReflectionService) (requestBody : Str), Answers svc requestBody := by
  intro all
  have clean := (answers_file (by decide)).1 (all ⟨"//\tid".toList, []⟩ [])
  exact absurd (clean '\t' (.tail _ (.tail _ (.head _)))) (by decide)

end Typeway.Grpc
