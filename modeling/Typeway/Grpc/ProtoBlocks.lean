import Typeway.Grpc.ProtoParse

/-!
# What the parser makes of laid out blocks

A file whose blocks have their header and their closing brace on lines of their own is read block
by block. What is in a message block is a line that the loop passes or takes for a field, or
another message block.
-/

namespace Typeway.Grpc

open Checked Typeway.Core Lines Segments Text

/-- A text that begins with one word begins with no other, unless one word begins with the other. -/
theorem prefixes_apart {p q text : Str} (here : p <+: text) (apart : ¬ q <+: p) (apart' : ¬ p <+: q) :
    ¬ q <+: text := by
  intro there
  rcases List.prefix_or_prefix_of_prefix there here with shorter | longer
  · exact apart shorter
  · exact apart' longer

theorem before_prefix {pat text : Str} (solid : pat ≠ []) (here : pat <+: text) :
    before pat text = [] := by
  cases text with
  | nil => exact absurd (List.prefix_nil.1 here) solid
  | cons c text => rw [before, if_pos (List.isPrefixOf_iff_prefix.2 here)]

theorem parseField_nil : parseField [] = none := by decide

theorem parseField_comment {text : Str} (comment : "//".toList <+: text) :
    parseField text = none := by
  rw [parseField, before_prefix (by decide) comment]
  exact parseField_nil

/-! ## Message blocks -/

/-- What stands in a message block. -/
inductive Entry where
  | line (text : Str)
  | block (header name : Str) (entries : List Entry) (close : Str)

namespace Entry

mutual

def lines : Entry → List Str
  | line text => [text]
  | block header _ entries close => header :: (allLines entries ++ [close])

def allLines : List Entry → List Str
  | [] => []
  | e :: entries => e.lines ++ allLines entries

end

/-- The line is none that opens or closes a block, and a block is named by its header. -/
inductive Reads : Entry → Prop where
  | line {text : Str} (stays : trim text ≠ "\x7d".toList)
      (plain : ¬ "message".toList <+: trim text) : Reads (line text)
  | block {header name close : Str} {entries : List Entry}
      (opens : "message".toList <+: trim header)
      (named : extractBlockName (trim header) "message".toList = .ok name)
      (closes : trim close = "\x7d".toList) (each : ∀ e ∈ entries, e.Reads) :
      Reads (block header name entries close)

/-- The field of the message itself that an entry is. -/
def field : Entry → Option ParsedField
  | line text => parseField (trim text)
  | block .. => none

mutual

/-- The messages in an entry of the message called `outer`. -/
def messages (outer : Str) : Entry → List ParsedMessage
  | line _ => []
  | block _ name entries _ =>
    { name := outer ++ ".".toList ++ name, fields := entries.filterMap field } ::
      allMessages (outer ++ ".".toList ++ name) entries

def allMessages (outer : Str) : List Entry → List ParsedMessage
  | [] => []
  | e :: entries => e.messages outer ++ allMessages outer entries

end

theorem filterMap_field_cons (e : Entry) (entries : List Entry) :
    (e :: entries).filterMap field = e.field.toList ++ entries.filterMap field := by
  rw [List.filterMap_cons]
  cases e.field <;> rfl

end Entry

section

variable {fullName rawName line close : Str} {rest : List Str} {fields : List ParsedField}
  {nested : List ParsedMessage} {turns : Nat}

theorem messageLoop_close (closes : trim close = "\x7d".toList) :
    messageLoop (turns + 1) fullName rawName fields nested (close :: rest) =
      .ok ({ name := fullName, fields } :: nested, rest) := by
  rw [messageLoop, if_pos closes]

theorem messageLoop_line (stays : trim line ≠ "\x7d".toList)
    (plain : ¬ "message".toList <+: trim line) :
    messageLoop (turns + 1) fullName rawName fields nested (line :: rest) =
      messageLoop turns fullName rawName (fields ++ (parseField (trim line)).toList) nested rest := by
  rw [messageLoop, if_neg stays, if_neg (by rwa [List.isPrefixOf_iff_prefix])]
  split
  · rename_i passed
    have none : parseField (trim line) = none := by
      rw [Bool.or_eq_true, List.isEmpty_iff, List.isPrefixOf_iff_prefix] at passed
      rcases passed with blank | comment
      · rw [blank, parseField_nil]
      · exact parseField_comment comment
    rw [none, Option.toList_none, List.append_nil]
  · rfl

theorem messageLoop_block {innerName : Str} (opens : "message".toList <+: trim line)
    (named : extractBlockName (trim line) "message".toList = .ok innerName) :
    messageLoop (turns + 1) fullName rawName fields nested (line :: rest) = (do
      let (msgs, next) ←
        messageLoop turns (fullName ++ ".".toList ++ innerName) innerName [] [] rest
      messageLoop turns fullName rawName fields (nested ++ msgs) next) := by
  have stays : trim line ≠ "\x7d".toList := by
    intro same
    rw [same] at opens
    exact absurd opens (by decide)
  rw [messageLoop, if_neg stays, if_pos (List.isPrefixOf_iff_prefix.2 opens), named]
  rfl

end

/-- A message block is read with the fields on its own lines, and the blocks in it behind it. -/
theorem messageLoop_entries (turns : Nat) : ∀ (entries : List Entry) (fullName rawName close : Str)
    (rest : List Str) (fields : List ParsedField) (nested : List ParsedMessage),
    trim close = "\x7d".toList → (∀ e ∈ entries, e.Reads) →
    (Entry.allLines entries).length < turns →
    messageLoop turns fullName rawName fields nested (Entry.allLines entries ++ close :: rest) =
      .ok ({ name := fullName, fields := fields ++ entries.filterMap Entry.field } ::
        (nested ++ Entry.allMessages fullName entries), rest) := by
  induction turns with
  | zero => exact fun _ _ _ _ _ _ _ _ _ enough => absurd enough (Nat.not_lt_zero _)
  | succ turns ih =>
    intro entries fullName rawName close rest fields nested closes reads enough
    cases entries with
    | nil =>
      rw [Entry.allLines, List.nil_append, messageLoop_close closes]
      simp [Entry.allMessages]
    | cons e entries =>
      have later := fun e mem => reads e (List.mem_cons_of_mem _ mem)
      rw [Entry.allLines, List.length_append] at enough
      rw [Entry.allLines, Entry.filterMap_field_cons, Entry.allMessages]
      cases reads e List.mem_cons_self with
      | @line text stays plain =>
        rw [Entry.lines, List.length_singleton] at enough
        rw [Entry.lines, List.singleton_append, List.cons_append, messageLoop_line stays plain,
          ih entries _ _ _ _ _ _ closes later (by omega), List.append_assoc]
        rfl
      | @block header name close' inner opens named closes' each =>
        rw [Entry.lines, List.length_cons, List.length_append, List.length_singleton] at enough
        have laid : Entry.lines (.block header name inner close') ++ Entry.allLines entries ++
            close :: rest = header :: (Entry.allLines inner ++
              close' :: (Entry.allLines entries ++ close :: rest)) := by
          simp [Entry.lines]
        rw [laid, messageLoop_block opens named, ih inner _ _ _ _ _ _ closes' each (by omega), ok_bind]
        dsimp only
        rw [ih entries _ _ _ _ _ _ closes later (by omega), List.append_assoc]
        rfl

theorem parseMessageBlock_entries {header name close : Str} {entries : List Entry}
    (named : extractBlockName (trim header) "message".toList = .ok name)
    (closes : trim close = "\x7d".toList) (reads : ∀ e ∈ entries, e.Reads) (rest : List Str) :
    parseMessageBlock header (Entry.allLines entries ++ close :: rest) =
      .ok ({ name, fields := entries.filterMap Entry.field } :: Entry.allMessages name entries,
        rest) := by
  have enough : (Entry.allLines entries).length < (Entry.allLines entries ++ close :: rest).length := by
    rw [List.length_append, List.length_cons]
    omega
  rw [parseMessageBlock, named, ok_bind,
    messageLoop_entries _ entries _ _ _ _ _ _ closes reads enough]
  rfl

/-! ## Services and enums -/

/-- The methods on the lines of a service block, each with the last comment before it. -/
def serviceMethods : Option Str → List Str → List ProtoRpcMethod
  | _, [] => []
  | pendingComment, line :: rest =>
    let trimmed := trim line
    if "//".toList.isPrefixOf trimmed then serviceMethods (some trimmed) rest
    else if "rpc".toList.isPrefixOf trimmed then
      match parseRpc trimmed with
      | .ok method => { method with comment := pendingComment } :: serviceMethods none rest
      | .error _ => serviceMethods none rest
    else serviceMethods (if trimmed.isEmpty then pendingComment else none) rest

/-- The line does not end the block, and as a method it is read. -/
structure ServiceLine (line : Str) : Prop where
  stays : trim line ≠ "\x7d".toList
  reads : "rpc".toList <+: trim line → ∃ method, parseRpc (trim line) = .ok method

theorem serviceLoop_lines (name : Str) {close : Str} (closes : trim close = "\x7d".toList)
    (rest : List Str) (lines : List Str) : ∀ methods pendingComment,
    (∀ line ∈ lines, ServiceLine line) →
    serviceLoop name methods pendingComment (lines ++ close :: rest) =
      .ok ({ name, methods := methods ++ serviceMethods pendingComment lines }, rest) := by
  induction lines with
  | nil =>
    intro methods pendingComment _
    rw [List.nil_append, serviceLoop, if_pos closes, serviceMethods, List.append_nil]
  | cons line lines ih =>
    intro methods pendingComment each
    have here := each line List.mem_cons_self
    have later := fun line mem => each line (List.mem_cons_of_mem _ mem)
    rw [List.cons_append, serviceLoop, if_neg here.stays, serviceMethods]
    split
    · exact ih _ _ later
    · split
      · rename_i rpc
        obtain ⟨method, parsed⟩ := here.reads (List.isPrefixOf_iff_prefix.1 rpc)
        rw [parsed, ok_bind, ih _ _ later, List.append_assoc]
        rfl
      · split
        · exact ih _ _ later
        · exact ih _ _ later

theorem parseService_lines {header name close : Str} {lines : List Str}
    (named : extractBlockName (trim header) "service".toList = .ok name)
    (closes : trim close = "\x7d".toList) (each : ∀ line ∈ lines, ServiceLine line)
    (rest : List Str) :
    parseService header (lines ++ close :: rest) =
      .ok ({ name, methods := serviceMethods none lines }, rest) := by
  rw [parseService, named, ok_bind, serviceLoop_lines name closes rest lines _ _ each]
  rfl

/-- The variant on a line of an enum block. -/
def enumVariantOf (line : Str) : Option ParsedEnumVariant :=
  let trimmed := trim line
  if trimmed.isEmpty || "//".toList.isPrefixOf trimmed || "option".toList.isPrefixOf trimmed
      || "reserved".toList.isPrefixOf trimmed then
    none
  else parseEnumVariant trimmed

theorem enumLoop_lines (name : Str) {close : Str} (closes : trim close = "\x7d".toList)
    (rest : List Str) (lines : List Str) : ∀ variants,
    (∀ line ∈ lines, trim line ≠ "\x7d".toList) →
    enumLoop name variants (lines ++ close :: rest) =
      .ok ({ name, variants := variants ++ lines.filterMap enumVariantOf }, rest) := by
  induction lines with
  | nil =>
    intro variants _
    rw [List.nil_append, enumLoop, if_pos closes, List.filterMap_nil, List.append_nil]
  | cons line lines ih =>
    intro variants each
    have later := fun line mem => each line (List.mem_cons_of_mem _ mem)
    rw [List.cons_append, enumLoop, if_neg (each line List.mem_cons_self), List.filterMap_cons,
      enumVariantOf]
    split
    · exact ih _ later
    · rw [ih _ later]
      cases parseEnumVariant (trim line) with
      | none => simp
      | some variant => simp

theorem parseEnumBlock_lines {header name close : Str} {lines : List Str}
    (named : extractBlockName (trim header) "enum".toList = .ok name)
    (closes : trim close = "\x7d".toList) (each : ∀ line ∈ lines, trim line ≠ "\x7d".toList)
    (rest : List Str) :
    parseEnumBlock header (lines ++ close :: rest) =
      .ok ({ name, variants := lines.filterMap enumVariantOf }, rest) := by
  rw [parseEnumBlock, named, ok_bind, enumLoop_lines name closes rest lines _ each]
  rfl

/-! ## Files -/

/-- What stands at the top level of a file. -/
inductive Part where
  | skip (line : Str)
  | syntaxLine (line version : Str)
  | packageLine (line package : Str)
  | importLine (line path : Str)
  | service (header name : Str) (lines : List Str) (close : Str)
  | message (header name : Str) (entries : List Entry) (close : Str)
  | enum (header name : Str) (lines : List Str) (close : Str)

namespace Part

def lines : Part → List Str
  | skip line | syntaxLine line _ | packageLine line _ | importLine line _ => [line]
  | service header _ lines close | enum header _ lines close => header :: (lines ++ [close])
  | message header _ entries close => header :: (Entry.allLines entries ++ [close])

def add (file : ProtoFile) : Part → ProtoFile
  | skip _ => file
  | syntaxLine _ version => { file with syntaxVersion := version }
  | packageLine _ package => { file with package }
  | importLine _ path => { file with imports := file.imports ++ [path] }
  | service _ name lines _ =>
    { file with services := file.services ++ [{ name, methods := serviceMethods none lines }] }
  | message _ name entries _ =>
    { file with
      messages := file.messages ++
        { name, fields := entries.filterMap Entry.field } :: Entry.allMessages name entries }
  | enum _ name lines _ =>
    { file with
      enums := file.enums ++ [{ name, variants := lines.filterMap enumVariantOf }] }

/-- The words that the loop over a file looks for. -/
def keywords : List Str :=
  ["syntax".toList, "package".toList, "import".toList, "service".toList, "message".toList,
    "enum".toList]

inductive Reads : Part → Prop where
  | skip {line : Str}
      (passed : trim line = [] ∨ "//".toList <+: trim line ∨
        ∀ word ∈ keywords, ¬ word <+: trim line) :
      Reads (skip line)
  | syntaxLine {line version : Str} (starts : "syntax".toList <+: trim line)
      (parsed : parseSyntax (trim line) = .ok version) : Reads (syntaxLine line version)
  | packageLine {line package : Str} (starts : "package".toList <+: trim line)
      (parsed : parsePackage (trim line) = .ok package) : Reads (packageLine line package)
  | importLine {line path : Str} (starts : "import".toList <+: trim line)
      (parsed : parseImport (trim line) = .ok path) : Reads (importLine line path)
  | service {header name close : Str} {lines : List Str} (starts : "service".toList <+: trim header)
      (named : extractBlockName (trim header) "service".toList = .ok name)
      (closes : trim close = "\x7d".toList) (each : ∀ line ∈ lines, ServiceLine line) :
      Reads (service header name lines close)
  | message {header name close : Str} {entries : List Entry}
      (starts : "message".toList <+: trim header)
      (named : extractBlockName (trim header) "message".toList = .ok name)
      (closes : trim close = "\x7d".toList) (each : ∀ e ∈ entries, e.Reads) :
      Reads (message header name entries close)
  | enum {header name close : Str} {lines : List Str} (starts : "enum".toList <+: trim header)
      (named : extractBlockName (trim header) "enum".toList = .ok name)
      (closes : trim close = "\x7d".toList) (each : ∀ line ∈ lines, trim line ≠ "\x7d".toList) :
      Reads (enum header name lines close)

end Part

section

variable {turns : Nat} {file : ProtoFile} {line : Str} {rest : List Str}

/-- A line that starts with a keyword is not passed, and starts with no other keyword. -/
theorem not_passed {word text : Str} (starts : word <+: text) (solid : word ≠ [])
    (apart : ¬ "//".toList <+: word) (apart' : ¬ word <+: "//".toList) :
    ¬ (text.isEmpty || "//".toList.isPrefixOf text) = true := by
  rw [Bool.or_eq_true, List.isEmpty_iff, List.isPrefixOf_iff_prefix, not_or]
  constructor
  · rintro rfl
    exact solid (List.prefix_nil.1 starts)
  · exact prefixes_apart starts apart apart'

theorem not_isPrefixOf {word other text : Str} (starts : word <+: text) (apart : ¬ other <+: word)
    (apart' : ¬ word <+: other) : ¬ other.isPrefixOf text = true := by
  rw [List.isPrefixOf_iff_prefix]
  exact prefixes_apart starts apart apart'

theorem fileLoop_skip (passed : trim line = [] ∨ "//".toList <+: trim line ∨
      ∀ word ∈ Part.keywords, ¬ word <+: trim line) :
    fileLoop (turns + 1) file (line :: rest) = fileLoop turns file rest := by
  rw [fileLoop]
  dsimp only
  generalize trim line = text at passed
  by_cases out : (text.isEmpty || "//".toList.isPrefixOf text) = true
  · rw [if_pos out]
  · rw [if_neg out]
    rw [Bool.or_eq_true, List.isEmpty_iff, List.isPrefixOf_iff_prefix, not_or] at out
    have none := (passed.resolve_left out.1).resolve_left out.2
    have other {word : Str} (mem : word ∈ Part.keywords) : ¬ word.isPrefixOf text = true := by
      rw [List.isPrefixOf_iff_prefix]
      exact none word mem
    rw [if_neg (other (.head _)), if_neg (other (.tail _ (.head _))),
      if_neg (other (.tail _ (.tail _ (.head _)))),
      if_neg (other (.tail _ (.tail _ (.tail _ (.head _))))),
      if_neg (other (.tail _ (.tail _ (.tail _ (.tail _ (.head _)))))),
      if_neg (other (.tail _ (.tail _ (.tail _ (.tail _ (.tail _ (.head _)))))))]

theorem fileLoop_syntax {version : Str} (starts : "syntax".toList <+: trim line)
    (parsed : parseSyntax (trim line) = .ok version) :
    fileLoop (turns + 1) file (line :: rest) =
      fileLoop turns { file with syntaxVersion := version } rest := by
  rw [fileLoop]
  dsimp only
  rw [if_neg (not_passed starts (by decide) (by decide) (by decide)),
    if_pos (List.isPrefixOf_iff_prefix.2 starts), parsed, ok_bind]

theorem fileLoop_package {package : Str} (starts : "package".toList <+: trim line)
    (parsed : parsePackage (trim line) = .ok package) :
    fileLoop (turns + 1) file (line :: rest) = fileLoop turns { file with package } rest := by
  rw [fileLoop]
  dsimp only
  rw [if_neg (not_passed starts (by decide) (by decide) (by decide)),
    if_neg (not_isPrefixOf starts (by decide) (by decide)),
    if_pos (List.isPrefixOf_iff_prefix.2 starts), parsed, ok_bind]

theorem fileLoop_import {path : Str} (starts : "import".toList <+: trim line)
    (parsed : parseImport (trim line) = .ok path) :
    fileLoop (turns + 1) file (line :: rest) =
      fileLoop turns { file with imports := file.imports ++ [path] } rest := by
  rw [fileLoop]
  dsimp only
  rw [if_neg (not_passed starts (by decide) (by decide) (by decide)),
    if_neg (not_isPrefixOf starts (by decide) (by decide)),
    if_neg (not_isPrefixOf starts (by decide) (by decide)),
    if_pos (List.isPrefixOf_iff_prefix.2 starts), parsed, ok_bind]

theorem fileLoop_service (starts : "service".toList <+: trim line) :
    fileLoop (turns + 1) file (line :: rest) = (do
      let (svc, next) ← parseService line rest
      fileLoop turns { file with services := file.services ++ [svc] } next) := by
  rw [fileLoop]
  dsimp only
  rw [if_neg (not_passed starts (by decide) (by decide) (by decide)),
    if_neg (not_isPrefixOf starts (by decide) (by decide)),
    if_neg (not_isPrefixOf starts (by decide) (by decide)),
    if_neg (not_isPrefixOf starts (by decide) (by decide)),
    if_pos (List.isPrefixOf_iff_prefix.2 starts)]

theorem fileLoop_message (starts : "message".toList <+: trim line) :
    fileLoop (turns + 1) file (line :: rest) = (do
      let (msgs, next) ← parseMessageBlock line rest
      fileLoop turns { file with messages := file.messages ++ msgs } next) := by
  rw [fileLoop]
  dsimp only
  rw [if_neg (not_passed starts (by decide) (by decide) (by decide)),
    if_neg (not_isPrefixOf starts (by decide) (by decide)),
    if_neg (not_isPrefixOf starts (by decide) (by decide)),
    if_neg (not_isPrefixOf starts (by decide) (by decide)),
    if_neg (not_isPrefixOf starts (by decide) (by decide)),
    if_pos (List.isPrefixOf_iff_prefix.2 starts)]

theorem fileLoop_enum (starts : "enum".toList <+: trim line) :
    fileLoop (turns + 1) file (line :: rest) = (do
      let (parsedEnum, next) ← parseEnumBlock line rest
      fileLoop turns { file with enums := file.enums ++ [parsedEnum] } next) := by
  rw [fileLoop]
  dsimp only
  rw [if_neg (not_passed starts (by decide) (by decide) (by decide)),
    if_neg (not_isPrefixOf starts (by decide) (by decide)),
    if_neg (not_isPrefixOf starts (by decide) (by decide)),
    if_neg (not_isPrefixOf starts (by decide) (by decide)),
    if_neg (not_isPrefixOf starts (by decide) (by decide)),
    if_neg (not_isPrefixOf starts (by decide) (by decide)),
    if_pos (List.isPrefixOf_iff_prefix.2 starts)]

end

/-- A part is read in one turn. -/
theorem fileLoop_part {part : Part} (reads : part.Reads) (turns : Nat) (file : ProtoFile)
    (rest : List Str) :
    fileLoop (turns + 1) file (part.lines ++ rest) = fileLoop turns (part.add file) rest := by
  cases reads with
  | skip passed => exact fileLoop_skip passed
  | syntaxLine starts parsed => exact fileLoop_syntax starts parsed
  | packageLine starts parsed => exact fileLoop_package starts parsed
  | importLine starts parsed => exact fileLoop_import starts parsed
  | @service header name close lines starts named closes each =>
    rw [Part.lines, List.cons_append, List.append_assoc, List.singleton_append,
      fileLoop_service starts, parseService_lines named closes each, ok_bind]
    rfl
  | @message header name close entries starts named closes each =>
    rw [Part.lines, List.cons_append, List.append_assoc, List.singleton_append,
      fileLoop_message starts, parseMessageBlock_entries named closes each, ok_bind]
    rfl
  | @enum header name close lines starts named closes each =>
    rw [Part.lines, List.cons_append, List.append_assoc, List.singleton_append,
      fileLoop_enum starts, parseEnumBlock_lines named closes each, ok_bind]
    rfl

/-- The parts at the front of a file. -/
theorem fileLoop_parts (parts : List Part) (reads : ∀ part ∈ parts, part.Reads) (turns : Nat)
    (rest : List Str) : ∀ file, fileLoop (turns + parts.length) file
      (parts.flatMap Part.lines ++ rest) = fileLoop turns (parts.foldl Part.add file) rest := by
  induction parts with
  | nil => exact fun _ => rfl
  | cons part parts ih =>
    intro file
    rw [List.length_cons, ← Nat.add_assoc, List.flatMap_cons, List.append_assoc,
      fileLoop_part (reads part List.mem_cons_self),
      ih (fun part mem => reads part (List.mem_cons_of_mem _ mem)), List.foldl_cons]

theorem length_le_lines (parts : List Part) : parts.length ≤ (parts.flatMap Part.lines).length := by
  induction parts with
  | nil => exact Nat.le_refl _
  | cons part parts ih =>
    have some : 0 < part.lines.length := by cases part <;> exact Nat.succ_pos _
    rw [List.flatMap_cons, List.length_append, List.length_cons]
    omega

def emptyFile : ProtoFile where
  syntaxVersion := []
  package := []
  imports := []
  services := []
  messages := []
  enums := []

/-- A file that is laid out in parts is read part by part. -/
theorem parseProto_parts {source : Str} {parts : List Part}
    (laid : Lines.lines source = parts.flatMap Part.lines) (reads : ∀ part ∈ parts, part.Reads) :
    parseProto source = .ok (parts.foldl Part.add emptyFile) := by
  obtain ⟨turns, enough⟩ := Nat.exists_eq_add_of_le' (length_le_lines parts)
  have read := fileLoop_parts parts reads turns [] emptyFile
  rw [List.append_nil] at read
  change fileLoop (Lines.lines source).length emptyFile (Lines.lines source) = _
  rw [laid, enough, read]
  cases turns <;> rfl

/-! ## Blocks that are not closed -/

/-- The loop over a message takes the line for the header of a block. -/
def isHeader (line : Str) : Bool :=
  "message".toList.isPrefixOf (trim line)

theorem isHeader_iff {line : Str} : isHeader line = true ↔ "message".toList <+: trim line :=
  List.isPrefixOf_iff_prefix

/-- Blocks that are open to a depth are not all closed by the lines. -/
def StaysOpen : Nat → List Str → Prop
  | _, [] => True
  | depth, line :: rest =>
    if trim line = "\x7d".toList then 0 < depth ∧ StaysOpen (depth - 1) rest
    else if isHeader line then StaysOpen (depth + 1) rest
    else StaysOpen depth rest

theorem StaysOpen.mono {lines : List Str} : ∀ {depth more : Nat}, StaysOpen depth lines →
    depth ≤ more → StaysOpen more lines := by
  induction lines with
  | nil => exact fun _ _ => trivial
  | cons line rest ih =>
    intro depth more opened le
    rw [StaysOpen] at opened ⊢
    split
    · rename_i closes
      rw [if_pos closes] at opened
      exact ⟨by omega, ih opened.2 (by omega)⟩
    · rename_i stays
      rw [if_neg stays] at opened
      split
      · rename_i opens
        rw [if_pos opens] at opened
        exact ih opened (by omega)
      · rename_i plain
        rw [if_neg plain] at opened
        exact ih opened le

/-- Lines that close no block, and of which some may open one. -/
theorem StaysOpen.append {lines tail : List Str} (stays : ∀ line ∈ lines, trim line ≠ "\x7d".toList) :
    ∀ {depth : Nat}, StaysOpen (depth + lines.countP isHeader) tail →
      StaysOpen depth (lines ++ tail) := by
  induction lines with
  | nil => exact fun opened => opened
  | cons line rest ih =>
    intro depth opened
    rw [List.cons_append, StaysOpen, if_neg (stays line List.mem_cons_self)]
    have later {depth : Nat} : StaysOpen (depth + rest.countP isHeader) tail →
        StaysOpen depth (rest ++ tail) :=
      ih fun l mem => stays l (List.mem_cons_of_mem _ mem)
    split
    · rename_i opens
      rw [List.countP_cons_of_pos opens] at opened
      exact later (opened.mono (by omega))
    · rename_i plain
      rw [List.countP_cons_of_neg plain] at opened
      exact later opened

/-- A block that is read closes one of the blocks that are open. -/
theorem messageLoop_closes (turns : Nat) : ∀ {fullName rawName : Str} {fields : List ParsedField}
    {nested : List ParsedMessage} {lines : List Str} {r : List ParsedMessage × List Str},
    messageLoop turns fullName rawName fields nested lines = .ok r →
    ∀ {depth : Nat}, StaysOpen depth lines → 0 < depth ∧ StaysOpen (depth - 1) r.2 := by
  induction turns with
  | zero =>
    intro fullName rawName fields nested lines r read
    cases lines <;> cases read
  | succ turns ih =>
    intro fullName rawName fields nested lines r read depth opened
    cases lines with
    | nil => cases read
    | cons line rest =>
      rw [StaysOpen] at opened
      by_cases closes : trim line = "\x7d".toList
      · rw [messageLoop_close closes] at read
        cases read
        rwa [if_pos closes] at opened
      rw [if_neg closes] at opened
      by_cases opens : isHeader line = true
      · rw [if_pos opens] at opened
        rw [isHeader] at opens
        rw [messageLoop, if_neg closes, if_pos opens] at read
        obtain ⟨innerName, named, read⟩ := bind_eq_ok.1 read
        obtain ⟨⟨msgs, next⟩, inner, read⟩ := bind_eq_ok.1 read
        exact ih read (ih inner opened).2
      · rw [if_neg opens] at opened
        rw [messageLoop_line closes (isHeader_iff.not.1 opens)] at read
        exact ih read opened

/-- A file with a message block that no line behind it closes has an error. -/
theorem parseProto_open {source header : Str} {parts : List Part} {rest : List Str}
    (laid : Lines.lines source = parts.flatMap Part.lines ++ header :: rest)
    (reads : ∀ part ∈ parts, part.Reads) (opens : "message".toList <+: trim header)
    (opened : StaysOpen 0 rest) (file : ProtoFile) : parseProto source ≠ .ok file := by
  intro parsed
  obtain ⟨turns, enough⟩ := Nat.exists_eq_add_of_le' (length_le_lines parts)
  change fileLoop (Lines.lines source).length emptyFile (Lines.lines source) = _ at parsed
  have turns : (Lines.lines source).length = turns + rest.length + 1 + parts.length := by
    rw [laid, List.length_append, List.length_cons, enough]
    omega
  rw [turns, laid, fileLoop_parts parts reads, fileLoop_message opens] at parsed
  obtain ⟨r, block, -⟩ := bind_eq_ok.1 parsed
  obtain ⟨name, named, loop⟩ := bind_eq_ok.1 block
  exact Nat.lt_irrefl 0 (messageLoop_closes _ loop opened).1

end Typeway.Grpc
