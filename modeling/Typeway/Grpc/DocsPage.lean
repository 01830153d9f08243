import Typeway.Base.Html
import Typeway.Base.Lines
import Typeway.Grpc.Spec

/-!
# The documentation page

`docs_page.rs` writes a page about a service. Most texts of the specification are escaped; the
summary or description of a method and the description of a field are not where they stand in
tables.
-/

namespace Typeway.Grpc

open Typeway.Core Lines Html Html.Piece

structure ServiceInfo where
  name : Str
  package : Str
  fullName : Str
  description : Option Str
  version : Option Str

/-- `MethodSpec` with its documentation. -/
structure DocumentedMethod extends MethodSpec where
  description : Option Str
  summary : Option Str
  tags : List Str
  requiresAuth : Bool

/-- `MessageSpec` with its documentation. -/
structure DocumentedMessage extends MessageSpec where
  description : Option Str

/-- `GrpcServiceSpec` with all that the page shows, the maps without their keys. -/
structure DocumentedSpec where
  proto : Str
  service : ServiceInfo
  methods : List DocumentedMethod
  messages : List DocumentedMessage

/-- `streaming_label` -/
def streamingLabel (method : DocumentedMethod) : Str :=
  match method.clientStreaming, method.serverStreaming with
  | true, true => "Bidirectional".toList
  | true, false => "Client".toList
  | false, true => "Server".toList
  | false, false => "Unary".toList

/-- The text of the last column of a method's row. -/
def DocumentedMethod.shortText (method : DocumentedMethod) : Str :=
  (method.summary.or method.description).getD "-".toList

def modifiers (field : FieldSpec) : Str :=
  match field.repeated, field.optional with
  | true, true => "repeated, optional".toList
  | true, false => "repeated".toList
  | false, true => "optional".toList
  | false, false => "-".toList

/-- A line of the page for a text that may be missing. -/
def optionally (text : Option Str) (line : Str → List Piece) : List Piece :=
  match text with
  | some text => line text
  | none => []

section

variable (toLowercase : Str → Str)

/-- The mapping of a method to REST. -/
def restMapping (method : DocumentedMethod) : List Piece :=
  [lit "<span class=\"http-method method-", raw (toLowercase method.httpMethod), lit "\">",
    escaped method.httpMethod, lit "</span> <code>", escaped method.restPath, lit "</code>"]

def renderMethodRow (method : DocumentedMethod) : List Piece :=
  [lit "<tr>\n", lit "<td><a href=\"#method-", escaped method.name,
    lit "\" class=\"method-link\">", escaped method.name, lit "</a></td>\n", lit "<td>"] ++
  restMapping toLowercase method ++
  [lit "</td>\n", lit "<td><code>", escaped method.requestType, lit "</code></td>\n",
    lit "<td><code>", escaped method.responseType, lit "</code></td>\n",
    lit "<td>", raw (streamingLabel method), lit "</td>\n",
    lit "<td>", raw method.shortText, lit "</td>\n", lit "</tr>\n"]

/-- The tags, with blanks between them. -/
def renderTags : List Str → List Piece
  | [] => []
  | [tag] => [lit "<span class=\"tag\">", escaped tag, lit "</span>"]
  | tag :: tags => [lit "<span class=\"tag\">", escaped tag, lit "</span>", lit " "] ++ renderTags tags

def renderMethodDetail (method : DocumentedMethod) : List Piece :=
  [lit "<section class=\"method-detail\" id=\"method-", escaped method.name, lit "\">\n",
    lit "<h3>", escaped method.name, lit "</h3>\n", lit "<dl>\n",
    lit "<dt>gRPC Path</dt><dd><code>", escaped method.fullPath, lit "</code></dd>\n",
    lit "<dt>REST Mapping</dt><dd>"] ++
  restMapping toLowercase method ++
  [lit "</dd>\n", lit "<dt>Request</dt><dd><code>", escaped method.requestType,
    lit "</code></dd>\n", lit "<dt>Response</dt><dd><code>", escaped method.responseType,
    lit "</code></dd>\n", lit "<dt>Streaming</dt><dd>", raw (streamingLabel method),
    lit "</dd>\n"] ++
  (if method.requiresAuth then [lit "<dt>Authentication</dt><dd>Required</dd>\n"] else []) ++
  (if method.tags.isEmpty then []
    else [lit "<dt>Tags</dt><dd>"] ++ renderTags method.tags ++ [lit "</dd>\n"]) ++
  [lit "</dl>\n"] ++
  optionally method.summary
    (fun summary => [lit "<p class=\"summary\">", escaped summary, lit "</p>\n"]) ++
  optionally method.description
    (fun text => [lit "<p class=\"description\">", escaped text, lit "</p>\n"]) ++
  [lit "</section>\n\n"]

/-- The type column of a field. -/
def renderFieldType (field : FieldSpec) : List Piece :=
  if field.isMap then
    [lit "<td><code>map&lt;", escaped (field.mapKeyType.getD "string".toList), lit ", ",
      escaped (field.mapValueType.getD "string".toList), lit "&gt;</code></td>\n"]
  else [lit "<td><code>", escaped field.protoType, lit "</code></td>\n"]

def renderFieldRow (field : FieldSpec) : List Piece :=
  [lit "<tr>\n", lit "<td>", raw (decimal field.tag.toNat), lit "</td>\n",
    lit "<td><code>", escaped field.name, lit "</code></td>\n"] ++
  renderFieldType field ++
  [lit "<td>", raw (modifiers field), lit "</td>\n",
    lit "<td>", raw (field.description.getD "-".toList), lit "</td>\n", lit "</tr>\n"]

def renderMessage (message : DocumentedMessage) : List Piece :=
  [lit "<div class=\"message\" id=\"msg-", escaped message.name, lit "\">\n",
    lit "<h3>", escaped message.name, lit "</h3>\n"] ++
  optionally message.description (fun text => [lit "<p>", escaped text, lit "</p>\n"]) ++
  (if message.fields.isEmpty then [lit "<p class=\"empty\">No fields (empty message).</p>\n"]
    else
      [lit "<table class=\"fields-table\">\n<thead>\n<tr>\n",
        lit "<th>Tag</th><th>Name</th><th>Type</th><th>Modifiers</th><th>Description</th>\n",
        lit "</tr>\n</thead>\n<tbody>\n"] ++
      message.fields.flatMap renderFieldRow ++ [lit "</tbody>\n</table>\n"]) ++
  [lit "</div>\n"]

/-- The page down to its style sheet. -/
def renderHead (service : ServiceInfo) : List Piece :=
  [lit "<!DOCTYPE html>\n<html lang=\"en\">\n<head>\n", lit "<meta charset=\"UTF-8\">\n",
    lit "<meta name=\"viewport\" content=\"width=device-width, initial-scale=1.0\">\n",
    lit "<title>", escaped service.name, lit " - gRPC Service Documentation</title>\n",
    lit "<style>\n"]

/-- The page from its style sheet down to its methods. -/
def renderHeader (service : ServiceInfo) : List Piece :=
  [lit "<div class=\"container\">\n", lit "<header>\n",
    lit "<h1>", escaped service.name, lit "</h1>\n",
    lit "<p class=\"package\">Package: <code>", escaped service.package, lit "</code></p>\n",
    lit "<p class=\"full-name\">Full name: <code>", escaped service.fullName,
    lit "</code></p>\n"] ++
  optionally service.description
    (fun text => [lit "<p class=\"description\">", escaped text, lit "</p>\n"]) ++
  optionally service.version
    (fun text => [lit "<p class=\"version\">Version: ", escaped text, lit "</p>\n"]) ++
  [lit "</header>\n\n"]

def renderMethods (methods : List DocumentedMethod) : List Piece :=
  [lit "<section id=\"methods\">\n", lit "<h2>RPC Methods</h2>\n"] ++
  (if methods.isEmpty then [lit "<p>No methods defined.</p>\n"]
    else
      [lit "<table class=\"methods-table\">\n<thead>\n<tr>\n", lit "<th>Method</th>\n",
        lit "<th>REST Mapping</th>\n", lit "<th>Request</th>\n", lit "<th>Response</th>\n",
        lit "<th>Streaming</th>\n", lit "<th>Description</th>\n",
        lit "</tr>\n</thead>\n<tbody>\n"] ++
      methods.flatMap (renderMethodRow toLowercase) ++ [lit "</tbody>\n</table>\n"]) ++
  [lit "</section>\n\n"] ++
  methods.flatMap (renderMethodDetail toLowercase)

def renderMessages (messages : List DocumentedMessage) : List Piece :=
  if messages.isEmpty then []
  else
    [lit "<section id=\"messages\">\n", lit "<h2>Message Definitions</h2>\n"] ++
    messages.flatMap renderMessage ++ [lit "</section>\n\n"]

def renderFooter (proto : Str) : List Piece :=
  [lit "<section id=\"proto\">\n", lit "<h2>Proto Definition</h2>\n",
    lit "<pre class=\"proto-code\"><code>", escaped proto, lit "</code></pre>\n",
    lit "</section>\n\n", lit "<footer>\n",
    lit "<p>Generated by <strong>typeway-grpc</strong></p>\n", lit "</footer>\n",
    lit "</div>\n</body>\n</html>\n"]

/-- What `generate_docs_html` pushes; the style sheet is a constant. -/
def docsPieces (css : String) (spec : DocumentedSpec) : List Piece :=
  renderHead spec.service ++ [lit css, lit "</style>\n</head>\n<body>\n"] ++
    renderHeader spec.service ++ renderMethods toLowercase spec.methods ++
    renderMessages spec.messages ++ renderFooter spec.proto

def generateDocsHtml (css : String) (spec : DocumentedSpec) : Str :=
  render (docsPieces toLowercase css spec)

end

/-! ## Every part stands between tags -/

section

variable {toLowercase : Str → Str}

variable (toLowercase) in
/-- The texts that are not escaped are plain. -/
structure DocumentedSpec.Unescaped (spec : DocumentedSpec) : Prop where
  methods : ∀ method ∈ spec.methods,
    Plain (toLowercase method.httpMethod) ∧ Plain method.shortText
  fields : ∀ message ∈ spec.messages, ∀ field ∈ message.fields,
    Plain (field.description.getD "-".toList)

theorem plain_of_all {text : Str}
    (all : text.all (fun c => c ≠ '<' && c ≠ '&' && c ≠ '"') = true) : Plain text := by
  intro c mem
  have here := List.all_eq_true.1 all c mem
  simpa [and_assoc] using here

theorem plain_streamingLabel (method : DocumentedMethod) : Plain (streamingLabel method) := by
  unfold streamingLabel
  split <;> exact plain_of_all rfl

theorem plain_modifiers (field : FieldSpec) : Plain (modifiers field) := by
  unfold modifiers
  split <;> exact plain_of_all rfl

theorem plain_decimal (n : Nat) : Plain (decimal n) := by
  intro c mem
  have digit := Nat.isDigit_of_mem_toDigits (by decide) (by decide) mem
  exact ⟨fun same => by simp [same] at digit, fun same => by simp [same] at digit,
    fun same => by simp [same] at digit⟩

theorem part_optionally {text : Option Str} {line : Str → List Piece}
    (part : ∀ text, Part (line text)) : Part (optionally text line) := by
  cases text with
  | none => exact .nil
  | some text => exact part text

theorem part_restMapping {method : DocumentedMethod} (plain : Plain (toLowercase method.httpMethod)) :
    Part (restMapping toLowercase method) :=
  ⟨fun _ => ⟨_, rfl⟩, plain, trivial⟩

theorem part_renderMethodRow {method : DocumentedMethod}
    (plain : Plain (toLowercase method.httpMethod)) (short : Plain method.shortText) :
    Part (renderMethodRow toLowercase method) :=
  .append (.append ⟨fun _ => ⟨_, rfl⟩, trivial⟩ (part_restMapping plain))
    ⟨fun _ => ⟨_, rfl⟩, plain_streamingLabel method, short, trivial⟩

theorem part_renderTags (tags : List Str) : Part (renderTags tags) := by
  induction tags with
  | nil => exact .nil
  | cons tag tags ih =>
    cases tags with
    | nil => exact ⟨fun _ => ⟨_, rfl⟩, trivial⟩
    | cons next tags => exact .append ⟨fun _ => ⟨_, rfl⟩, trivial⟩ ih

theorem part_renderMethodDetail {method : DocumentedMethod}
    (plain : Plain (toLowercase method.httpMethod)) :
    Part (renderMethodDetail toLowercase method) := by
  have tags : Part ([lit "<dt>Tags</dt><dd>"] ++ renderTags method.tags ++ [lit "</dd>\n"]) :=
    .append (.append ⟨fun _ => ⟨_, rfl⟩, trivial⟩ (part_renderTags method.tags))
      ⟨fun _ => ⟨_, rfl⟩, trivial⟩
  have summary : Part (optionally method.summary fun text =>
      [lit "<p class=\"summary\">", escaped text, lit "</p>\n"]) :=
    part_optionally fun _ => ⟨fun _ => ⟨_, rfl⟩, trivial⟩
  have description : Part (optionally method.description fun text =>
      [lit "<p class=\"description\">", escaped text, lit "</p>\n"]) :=
    part_optionally fun _ => ⟨fun _ => ⟨_, rfl⟩, trivial⟩
  unfold renderMethodDetail
  refine .append (.append (.append (.append (.append (.append (.append (.append ?_ ?_) ?_) ?_) ?_) ?_)
    summary) description) ?_
  · exact ⟨fun _ => ⟨_, rfl⟩, trivial⟩
  · exact part_restMapping plain
  · exact ⟨fun _ => ⟨_, rfl⟩, plain_streamingLabel method, trivial⟩
  · exact .ite ⟨fun _ => ⟨_, rfl⟩, trivial⟩ .nil
  · exact .ite .nil tags
  · exact ⟨fun _ => ⟨_, rfl⟩, trivial⟩
  · exact ⟨fun _ => ⟨_, rfl⟩, trivial⟩

theorem part_renderFieldRow {field : FieldSpec} (plain : Plain (field.description.getD "-".toList)) :
    Part (renderFieldRow field) := by
  have column : Part (renderFieldType field) :=
    .ite ⟨fun _ => ⟨_, rfl⟩, trivial⟩ ⟨fun _ => ⟨_, rfl⟩, trivial⟩
  unfold renderFieldRow
  refine .append (.append ?_ column) ?_
  · exact ⟨fun _ => ⟨_, rfl⟩, plain_decimal _, trivial⟩
  · exact ⟨fun _ => ⟨_, rfl⟩, plain_modifiers field, plain, trivial⟩

theorem part_renderMessage {message : DocumentedMessage}
    (plain : ∀ field ∈ message.fields, Plain (field.description.getD "-".toList)) :
    Part (renderMessage message) := by
  have rows : Part (message.fields.flatMap renderFieldRow) :=
    .flatMap fun field mem => part_renderFieldRow (plain field mem)
  have description : Part (optionally message.description fun text =>
      [lit "<p>", escaped text, lit "</p>\n"]) :=
    part_optionally fun _ => ⟨fun _ => ⟨_, rfl⟩, trivial⟩
  unfold renderMessage
  refine .append (.append (.append ?_ description) (.ite ?_ (.append (.append ?_ rows) ?_))) ?_
  · exact ⟨fun _ => ⟨_, rfl⟩, trivial⟩
  · exact ⟨fun _ => ⟨_, rfl⟩, trivial⟩
  · exact ⟨fun _ => ⟨_, rfl⟩, trivial⟩
  · exact ⟨fun _ => ⟨_, rfl⟩, trivial⟩
  · exact ⟨fun _ => ⟨_, rfl⟩, trivial⟩

theorem part_renderMethods {methods : List DocumentedMethod}
    (plain : ∀ method ∈ methods,
      Plain (toLowercase method.httpMethod) ∧ Plain method.shortText) :
    Part (renderMethods toLowercase methods) := by
  have rows : Part (methods.flatMap (renderMethodRow toLowercase)) :=
    .flatMap fun method mem => part_renderMethodRow (plain method mem).1 (plain method mem).2
  have details : Part (methods.flatMap (renderMethodDetail toLowercase)) :=
    .flatMap fun method mem => part_renderMethodDetail (plain method mem).1
  unfold renderMethods
  refine .append (.append (.append ?_ (.ite ?_ (.append (.append ?_ rows) ?_))) ?_) details
  · exact ⟨fun _ => ⟨_, rfl⟩, trivial⟩
  · exact ⟨fun _ => ⟨_, rfl⟩, trivial⟩
  · exact ⟨fun _ => ⟨_, rfl⟩, trivial⟩
  · exact ⟨fun _ => ⟨_, rfl⟩, trivial⟩
  · exact ⟨fun _ => ⟨_, rfl⟩, trivial⟩

theorem part_renderMessages {messages : List DocumentedMessage}
    (plain : ∀ message ∈ messages, ∀ field ∈ message.fields,
      Plain (field.description.getD "-".toList)) : Part (renderMessages messages) := by
  have parts : Part (messages.flatMap renderMessage) :=
    .flatMap fun message mem => part_renderMessage (plain message mem)
  unfold renderMessages
  refine .ite .nil (.append (.append ?_ parts) ?_)
  · exact ⟨fun _ => ⟨_, rfl⟩, trivial⟩
  · exact ⟨fun _ => ⟨_, rfl⟩, trivial⟩

/-- The style sheet is text within its tags. -/
theorem part_head {css : String} (sheet : '<' ∉ css.toList) (service : ServiceInfo) :
    Part (renderHead service ++ [lit css, lit "</style>\n</head>\n<body>\n"]) where
  closed tokens := by
    obtain ⟨before, head⟩ : ∃ before, fill ⟨.place .text, tokens⟩ (renderHead service) =
        some ⟨.style, before⟩ := ⟨_, rfl⟩
    obtain ⟨behind, style⟩ := read_style sheet before
    obtain ⟨last, closing⟩ : ∃ last, fill ⟨.style, behind⟩ [lit "</style>\n</head>\n<body>\n"] =
        some ⟨.place .text, last⟩ := ⟨_, rfl⟩
    exact ⟨last, by rw [fill_append, head, Option.bind_some, fill, style, Option.bind_some, closing]⟩
  plain := trivial

theorem part_renderHeader (service : ServiceInfo) : Part (renderHeader service) := by
  have description : Part (optionally service.description fun text =>
      [lit "<p class=\"description\">", escaped text, lit "</p>\n"]) :=
    part_optionally fun _ => ⟨fun _ => ⟨_, rfl⟩, trivial⟩
  have version : Part (optionally service.version fun text =>
      [lit "<p class=\"version\">Version: ", escaped text, lit "</p>\n"]) :=
    part_optionally fun _ => ⟨fun _ => ⟨_, rfl⟩, trivial⟩
  unfold renderHeader
  refine .append (.append (.append ?_ description) version) ?_
  · exact ⟨fun _ => ⟨_, rfl⟩, trivial⟩
  · exact ⟨fun _ => ⟨_, rfl⟩, trivial⟩

/-- **The page is the page that is meant**: it is read as its markup with all texts as they are,
and its tags are those of the page without the texts, whenever the texts that are not escaped are
plain. -/
theorem read_generateDocsHtml {css : String} (sheet : '<' ∉ css.toList) {spec : DocumentedSpec}
    (plain : spec.Unescaped toLowercase) :
    let pieces := docsPieces toLowercase css spec
    ∃ meant bare, fill ⟨.place .text, []⟩ pieces = some ⟨.place .text, meant⟩ ∧
      fill ⟨.place .text, []⟩ (pieces.map Piece.blank) = some ⟨.place .text, bare⟩ ∧
      read ⟨.place .text, []⟩ (generateDocsHtml toLowercase css spec) =
        some ⟨.place .text, meant⟩ ∧
      tags meant = tags bare := by
  intro pieces
  have part : Part pieces :=
    .append (.append (.append (.append (part_head sheet spec.service)
      (part_renderHeader spec.service)) (part_renderMethods plain.methods))
      (part_renderMessages plain.fields)) ⟨fun _ => ⟨_, rfl⟩, trivial⟩
  obtain ⟨meant, filled⟩ := part.closed []
  obtain ⟨⟨mode, bare⟩, empty, alike⟩ := blank_fill rfl filled
  obtain ⟨ends, same⟩ := State.mk.inj alike
  obtain rfl := Mode.eq_text_of_blank ends
  exact ⟨meant, bare, filled, empty, read_render part.plain filled, same.symm⟩

/-- A description is markup where it stands in a table. -/
def boldField : FieldSpec where
  name := "<b>".toList
  protoType := "string".toList
  tag := 1
  repeated := false
  optional := false
  isMap := false
  mapKeyType := none
  mapValueType := none
  description := some "<b>".toList

example : ((read ⟨.place .text, []⟩ (render (renderFieldRow boldField))).map fun s =>
    (tags s.tokens).count (.opening "b".toList [])) = some 1 := by
  decide

/-- A service with markup in the texts that are escaped. -/
def quotedSpec : DocumentedSpec where
  proto := "message A \x7b\n\x7d".toList
  service := ⟨"A & \"B\"".toList, "a".toList, "a.<A>".toList, none, some "1 < 2".toList⟩
  methods :=
    [{ name := "Get\"A\"".toList
       fullPath := "/a.<A>/GetA".toList
       restPath := "/a/\x7b\x7d".toList
       httpMethod := "GET".toList
       requestType := "A".toList
       responseType := "A".toList
       serverStreaming := false
       clientStreaming := false
       description := some "</td>".toList
       summary := some "gets it".toList
       tags := ["<td>".toList, "&".toList]
       requiresAuth := true }]
  messages := [⟨⟨"A".toList, []⟩, some "<p>".toList⟩]

theorem read_generateDocsHtml_quotedSpec :
    ∃ meant bare,
      read ⟨.place .text, []⟩ (generateDocsHtml (List.map Char.toLower) "p" quotedSpec) =
        some ⟨.place .text, meant⟩ ∧ tags meant = tags bare := by
  have plain : quotedSpec.Unescaped (List.map Char.toLower) := by
    constructor
    · intro method mem
      obtain rfl := List.mem_singleton.1 mem
      exact ⟨plain_of_all rfl, plain_of_all rfl⟩
    · intro message mem field inFields
      obtain rfl := List.mem_singleton.1 mem
      cases inFields
  obtain ⟨meant, bare, -, -, same, alike⟩ := read_generateDocsHtml (show '<' ∉ "p".toList by decide) plain
  exact ⟨meant, bare, same, alike⟩

end

end Typeway.Grpc
