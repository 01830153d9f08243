import Mathlib.Data.List.Nodup
import Typeway.Grpc.ProtoGen

/-!
# The fields of request messages

What `to_rpc` puts into a request message: a field for every capture of the path and, with their
numbers shifted behind these, the fields of the request type.
-/

namespace Typeway.Grpc

open Typeway.Core Lines Server

/-- The fields that the request message is built from. -/
def requestFields (path : Str) : Option ToProtoType → List ProtoField
  | none => capturesFromPattern path
  | some Req => capturesFromPattern path ++ bodyFields Req (capturesFromPattern path)

theorem requestMessage_eq (rpcName path : Str) (req : Option ToProtoType) :
    requestMessage rpcName path req =
      if req.isNone && (requestFields path req).isEmpty then none
      else some {
        name := rpcName ++ "Request".toList
        definition := buildMessage (rpcName ++ "Request".toList) (requestFields path req) } := by
  cases req with
  | none => rfl
  | some Req => rfl

/-! ## What they ought to be -/

/-- The numbers that a field may have. -/
def LegalNumber (n : Nat) : Prop :=
  1 ≤ n ∧ n < 2 ^ 29 ∧ ¬ (19000 ≤ n ∧ n ≤ 19999)

/-- A type as one field. -/
def wholeField (Req : ToProtoType) : ProtoField where
  name := "body".toList
  protoType := Req.protoTypeName
  tag := 1
  repeated := Req.isRepeated
  optional := false
  isMap := false
  mapKeyType := none
  mapValueType := none
  doc := none

/-- The fields of a request type, which is one field itself if it has none. -/
def ownFields : Option ToProtoType → List ProtoField
  | none => []
  | some Req =>
    if Req.protoFields ≠ [] then Req.protoFields
    else if Req.protoTypeName = "google.protobuf.Empty".toList then []
    else [wholeField Req]

/-- A type with fields is a message, and its fields are legal. -/
structure LegalRequest (Req : ToProtoType) : Prop where
  message : Req.protoFields ≠ [] →
    Req.isMessage = true ∧ Req.protoTypeName ≠ "google.protobuf.Empty".toList
  names : (Req.protoFields.map ProtoField.name).Nodup
  tags : (Req.protoFields.map ProtoField.tag).Nodup
  legal : ∀ f ∈ Req.protoFields, LegalNumber f.tag

end Typeway.Grpc

namespace Typeway.Core.PathSpec

open Lines

def captureCount : PathSpec → Nat
  | hnil => 0
  | lit _ tail => tail.captureCount
  | capture _ tail => tail.captureCount + 1
  | captureRest => 1

/-- The names that the captures get, with so many captures before them. -/
def captureNames : PathSpec → Nat → List Str
  | hnil, _ => []
  | lit _ tail, n => tail.captureNames n
  | capture _ tail, n => ("param".toList ++ decimal (n + 1)) :: tail.captureNames (n + 1)
  | captureRest, _ => ["*rest".toList]

/-- No piece of a literal looks like a capture. -/
def PlainLiterals : PathSpec → Prop
  | hnil => True
  | lit value tail => (∀ seg ∈ value.splitOn '/', Grpc.isCapture seg = false) ∧ tail.PlainLiterals
  | capture _ tail => tail.PlainLiterals
  | captureRest => True

end Typeway.Core.PathSpec

namespace Typeway.Grpc

open Typeway.Core Lines Server

def ProtoField.unnumbered (f : ProtoField) : ProtoField :=
  { f with tag := 0 }

/-- The names and the numbers differ, the numbers are legal, and there is one field for every
capture and one for every field of the request type. -/
structure WellFormedRequest (e : Endpoint) (fields : List ProtoField) : Prop where
  names : (fields.map ProtoField.name).Nodup
  tags : (fields.map ProtoField.tag).Nodup
  legal : ∀ f ∈ fields, LegalNumber f.tag
  complete : ∃ captured : List ProtoField, captured.length = e.path.captureCount ∧
    (∀ f ∈ captured, f.protoType = "string".toList) ∧
    List.Perm (fields.map ProtoField.unnumbered)
      (captured ++ (ownFields e.req).map ProtoField.unnumbered)

/-- No literal looks like a capture, no field has the name of one, and the numbers do not run into
those that are reserved or too large. -/
structure Flattens (e : Endpoint) : Prop where
  literals : e.path.PlainLiterals
  names : ∀ f ∈ ownFields e.req, f.name ∉ e.path.captureNames 0
  few : e.path.captureCount < 19000
  numbers : ∀ f ∈ ownFields e.req, LegalNumber (f.tag + e.path.captureCount)

/-! ## The pieces of a pattern -/

/-- The segments of a text that count as captures. -/
def capturePieces (text : Str) : List Str :=
  (text.splitOn '/').filter isCapture

theorem capturePieces_append_sep (text rest : Str) :
    capturePieces (text ++ '/' :: rest) = capturePieces text ++ capturePieces rest := by
  rw [capturePieces, List.splitOn_append_cons_self, List.filter_append, capturePieces,
    capturePieces]

theorem capturePieces_sep (rest : Str) : capturePieces ('/' :: rest) = capturePieces rest :=
  capturePieces_append_sep [] rest

theorem capturePieces_append_pattern (text : Str) (P : PathSpec) :
    capturePieces (text ++ P.pattern) = capturePieces text ++ capturePieces P.pattern := by
  have sep {pattern : Str} (led : ∃ rest, pattern = '/' :: rest) :
      capturePieces (text ++ pattern) = capturePieces text ++ capturePieces pattern := by
    obtain ⟨rest, rfl⟩ := led
    rw [capturePieces_append_sep, capturePieces_sep]
  cases P with
  | hnil =>
    have none : capturePieces PathSpec.hnil.pattern = [] := rfl
    rw [none, PathSpec.pattern_hnil, List.append_nil, List.append_nil]
  | lit value tail => exact sep ⟨_, rfl⟩
  | capture U tail => exact sep ⟨_, rfl⟩
  | captureRest => exact sep ⟨_, rfl⟩

theorem capturePieces_lit (value : Str) (tail : PathSpec) :
    capturePieces (PathSpec.lit value tail).pattern =
      capturePieces value ++ capturePieces tail.pattern := by
  rw [PathSpec.pattern_lit, capturePieces_sep, capturePieces_append_pattern]

theorem capturePieces_capture (U : CaptureType) (tail : PathSpec) :
    capturePieces (PathSpec.capture U tail).pattern =
      "{}".toList :: capturePieces tail.pattern := by
  have hole : capturePieces ['{', '}'] = ["{}".toList] := by decide
  rw [PathSpec.pattern_capture, capturePieces_sep, capturePieces_append_pattern, hole]
  rfl

theorem capturePieces_captureRest :
    capturePieces PathSpec.captureRest.pattern = ["{*rest}".toList] := by decide

theorem capturePieces_eq_nil {text : Str} :
    capturePieces text = [] ↔ ∀ seg ∈ text.splitOn '/', isCapture seg = false := by
  rw [capturePieces, List.filter_eq_nil_iff]
  simp

theorem captureCount_le (P : PathSpec) : P.captureCount ≤ (capturePieces P.pattern).length := by
  induction P with
  | hnil => exact Nat.le_refl 0
  | lit value tail ih =>
    rw [capturePieces_lit, List.length_append]
    exact Nat.le_trans ih (Nat.le_add_left _ _)
  | capture U tail ih =>
    rw [capturePieces_capture]
    exact Nat.succ_le_succ ih
  | captureRest =>
    rw [capturePieces_captureRest]
    exact Nat.le_refl 1

/-- A field for every capture and no others. -/
theorem length_capturePieces_iff (P : PathSpec) :
    (capturePieces P.pattern).length = P.captureCount ↔ P.PlainLiterals := by
  induction P with
  | hnil => exact iff_of_true rfl trivial
  | lit value tail ih =>
    have most := captureCount_le tail
    rw [capturePieces_lit, List.length_append, PathSpec.captureCount, PathSpec.PlainLiterals, ← ih,
      ← capturePieces_eq_nil, ← List.length_eq_zero_iff]
    omega
  | capture U tail ih =>
    rw [capturePieces_capture, List.length_cons, PathSpec.captureCount, PathSpec.PlainLiterals, ← ih]
    omega
  | captureRest =>
    rw [capturePieces_captureRest]
    exact iff_of_true rfl trivial

/-! ## The captures -/

theorem captureField_hole (n : Nat) :
    (captureField n "{}".toList).name = "param".toList ++ decimal (n + 1) := rfl

theorem names_captures {P : PathSpec} (plain : P.PlainLiterals) (n : Nat) :
    (capturePieces P.pattern).mapIdx (fun i seg => (captureField (n + i) seg).name) =
      P.captureNames n := by
  induction P generalizing n with
  | hnil => rfl
  | lit value tail ih =>
    rw [capturePieces_lit, capturePieces_eq_nil.2 plain.1, List.nil_append]
    exact ih plain.2 n
  | capture U tail ih =>
    rw [capturePieces_capture, List.mapIdx_cons, Nat.add_zero, captureField_hole,
      PathSpec.captureNames, ← ih plain (n + 1)]
    simp only [Nat.add_assoc, Nat.add_comm 1]
  | captureRest =>
    rw [capturePieces_captureRest]
    rfl

theorem mem_captureNames {P : PathSpec} {n : Nat} {name : Str} (mem : name ∈ P.captureNames n) :
    name = "*rest".toList ∨ ∃ i, n < i ∧ name = "param".toList ++ decimal i := by
  induction P generalizing n with
  | hnil => cases mem
  | lit value tail ih => exact ih mem
  | capture U tail ih =>
    rcases List.mem_cons.1 mem with rfl | mem
    · exact .inr ⟨n + 1, Nat.lt_succ_self n, rfl⟩
    · rcases ih mem with rest | ⟨i, above, own⟩
      · exact .inl rest
      · exact .inr ⟨i, by omega, own⟩
  | captureRest => exact .inl (List.mem_singleton.1 mem)

theorem nodup_captureNames (P : PathSpec) (n : Nat) : (P.captureNames n).Nodup := by
  induction P generalizing n with
  | hnil => exact List.nodup_nil
  | lit value tail ih => exact ih n
  | capture U tail ih =>
    rw [PathSpec.captureNames, List.nodup_cons]
    refine ⟨?_, ih (n + 1)⟩
    intro mem
    rcases mem_captureNames mem with rest | ⟨i, above, own⟩
    · have head : some 'p' = some '*' := congrArg List.head? rest
      cases head
    · have same := decimal_injective (List.append_cancel_left own)
      omega
  | captureRest => exact List.pairwise_singleton _ _

theorem capturesFromPattern_eq (pattern : Str) :
    capturesFromPattern pattern = (capturePieces pattern).mapIdx captureField := rfl

theorem map_captures {α : Type} (g : ProtoField → α) (pattern : Str) :
    (capturesFromPattern pattern).map g =
      (capturePieces pattern).mapIdx fun i seg => g (captureField i seg) := by
  rw [capturesFromPattern_eq, List.mapIdx_eq_zipIdx_map, List.mapIdx_eq_zipIdx_map, List.map_map]
  rfl

theorem length_captures (pattern : Str) :
    (capturesFromPattern pattern).length = (capturePieces pattern).length := by
  rw [capturesFromPattern_eq, List.length_mapIdx]

theorem map_name_captures {P : PathSpec} (plain : P.PlainLiterals) :
    (capturesFromPattern P.pattern).map ProtoField.name = P.captureNames 0 := by
  rw [map_captures, ← names_captures plain 0]
  simp only [Nat.zero_add]

theorem mem_captures {pattern : Str} {f : ProtoField} (mem : f ∈ capturesFromPattern pattern) :
    f.protoType = "string".toList ∧ 1 ≤ f.tag ∧ f.tag ≤ (capturePieces pattern).length := by
  rw [capturesFromPattern_eq] at mem
  obtain ⟨i, bound, rfl⟩ := List.mem_mapIdx.1 mem
  refine ⟨rfl, Nat.succ_pos i, bound⟩

theorem map_tag_captures (pattern : Str) :
    (capturesFromPattern pattern).map ProtoField.tag =
      List.range' 1 (capturePieces pattern).length := by
  rw [map_captures]
  apply List.ext_getElem
  · rw [List.length_mapIdx, List.length_range']
  · intro i bound bound'
    rw [List.getElem_mapIdx, List.getElem_range']
    show i + 1 = _
    omega

/-! ## The fields of the request type -/

/-- The field behind so many captures. -/
def ProtoField.behind (n : Nat) (f : ProtoField) : ProtoField :=
  { f with tag := f.tag + n }

theorem requestFields_eq {req : Option ToProtoType} (legal : ∀ Req, req = some Req → LegalRequest Req)
    (path : Str) : requestFields path req = capturesFromPattern path ++
      (ownFields req).map (ProtoField.behind (capturePieces path).length) := by
  rw [← length_captures]
  cases req with
  | none => rw [requestFields, ownFields, List.map_nil, List.append_nil]
  | some Req =>
    rw [requestFields, ownFields]
    congr 1
    rw [bodyFields]
    by_cases fields : Req.protoFields = []
    · rw [if_neg (not_not.2 fields), fields, List.isEmpty_nil, Bool.not_true, Bool.and_false,
        if_neg Bool.false_ne_true]
      by_cases empty : Req.protoTypeName = "google.protobuf.Empty".toList
      · rw [if_pos empty, if_pos empty, List.map_nil]
      · rw [if_neg empty, if_neg empty, List.map_singleton, Nat.add_comm]
        rfl
    · obtain ⟨message, named⟩ := (legal Req rfl).message fields
      have some : (!Req.protoFields.isEmpty) = true := by
        simpa using fields
      rw [if_pos fields, if_neg named, message, some, Bool.and_true, if_pos rfl]
      rfl

section Own

variable {req : Option ToProtoType} (legal : ∀ Req, req = some Req → LegalRequest Req)

include legal

theorem ownFields_cases : ownFields req = [] ∨ (∃ Req, ownFields req = [wholeField Req]) ∨
    ∃ Req, LegalRequest Req ∧ ownFields req = Req.protoFields := by
  cases req with
  | none => exact .inl rfl
  | some Req =>
    rw [ownFields]
    split
    · exact .inr (.inr ⟨Req, legal Req rfl, rfl⟩)
    · split
      · exact .inl rfl
      · exact .inr (.inl ⟨Req, rfl⟩)

theorem nodup_ownFields : ((ownFields req).map ProtoField.name).Nodup ∧
    ((ownFields req).map ProtoField.tag).Nodup := by
  rcases ownFields_cases legal with none | ⟨Req, one⟩ | ⟨Req, lawful, own⟩
  · rw [none]
    exact ⟨List.nodup_nil, List.nodup_nil⟩
  · rw [one]
    exact ⟨List.pairwise_singleton _ _, List.pairwise_singleton _ _⟩
  · rw [own]
    exact ⟨lawful.names, lawful.tags⟩

theorem pos_ownFields : ∀ f ∈ ownFields req, 1 ≤ f.tag := by
  rcases ownFields_cases legal with none | ⟨Req, one⟩ | ⟨Req, lawful, own⟩
  · rw [none]
    exact List.forall_mem_nil _
  · rw [one]
    intro f mem
    rw [List.mem_singleton.1 mem]
    exact Nat.le_refl 1
  · rw [own]
    intro f mem
    exact (lawful.legal f mem).1

end Own

/-! ## When the message is well formed -/

theorem map_name_behind (n : Nat) (fields : List ProtoField) :
    (fields.map (ProtoField.behind n)).map ProtoField.name = fields.map ProtoField.name := by
  rw [List.map_map]
  rfl

theorem map_tag_behind (n : Nat) (fields : List ProtoField) :
    (fields.map (ProtoField.behind n)).map ProtoField.tag =
      (fields.map ProtoField.tag).map (· + n) := by
  rw [List.map_map, List.map_map]
  rfl

theorem map_unnumbered_behind (n : Nat) (fields : List ProtoField) :
    (fields.map (ProtoField.behind n)).map ProtoField.unnumbered =
      fields.map ProtoField.unnumbered := by
  rw [List.map_map]
  rfl

/-- The names of the message differ exactly if no field has the name of a capture. -/
theorem nodup_names_iff {e : Endpoint} (legal : ∀ Req, e.req = some Req → LegalRequest Req)
    (plain : e.path.PlainLiterals) :
    ((requestFields e.path.pattern e.req).map ProtoField.name).Nodup ↔
      ∀ f ∈ ownFields e.req, f.name ∉ e.path.captureNames 0 := by
  rw [requestFields_eq legal, List.map_append, map_name_captures plain, map_name_behind,
    List.nodup_append]
  constructor
  · intro apart f mem name
    exact apart.2.2 _ name _ (List.mem_map_of_mem mem) rfl
  · intro apart
    refine ⟨nodup_captureNames _ 0, (nodup_ownFields legal).1, ?_⟩
    rintro name capture other own rfl
    obtain ⟨f, mem, rfl⟩ := List.mem_map.1 own
    exact apart f mem capture

theorem nodup_tags {e : Endpoint} (legal : ∀ Req, e.req = some Req → LegalRequest Req) :
    ((requestFields e.path.pattern e.req).map ProtoField.tag).Nodup := by
  rw [requestFields_eq legal, List.map_append, map_tag_captures, map_tag_behind, List.nodup_append]
  refine ⟨List.nodup_range', ?_, ?_⟩
  · apply List.Nodup.map _ (nodup_ownFields legal).2
    intro m n same
    exact Nat.add_right_cancel same
  · intro tag capture tag' own same
    obtain ⟨n, number, rfl⟩ := List.mem_map.1 own
    obtain ⟨f, mem, rfl⟩ := List.mem_map.1 number
    have pos := pos_ownFields legal f mem
    obtain ⟨i, below, rfl⟩ := List.mem_range'.1 capture
    omega

theorem wellFormedRequest_iff {e : Endpoint}
    (legal : ∀ Req, e.req = some Req → LegalRequest Req) :
    WellFormedRequest e (requestFields e.path.pattern e.req) ↔ Flattens e := by
  have fields := requestFields_eq legal e.path.pattern
  constructor
  · intro wf
    have plain : e.path.PlainLiterals := by
      obtain ⟨captured, count, -, perm⟩ := wf.complete
      have length := perm.length_eq
      rw [fields, List.length_map, List.length_append, List.length_append, List.length_map,
        List.length_map, count, length_captures] at length
      apply (length_capturePieces_iff e.path).1
      omega
    have count := (length_capturePieces_iff e.path).2 plain
    refine ⟨plain, (nodup_names_iff legal plain).1 wf.names, ?_, ?_⟩
    · by_contra many
      rw [Nat.not_lt] at many
      have tag : 19000 ∈ (capturesFromPattern e.path.pattern).map ProtoField.tag := by
        rw [map_tag_captures, List.mem_range'_1]
        omega
      obtain ⟨f, mem, reserved⟩ := List.mem_map.1 tag
      have lawful := wf.legal f (by
        rw [fields]
        exact List.mem_append_left _ mem)
      rw [reserved] at lawful
      exact lawful.2.2 (by omega)
    · intro f mem
      have lawful := wf.legal (f.behind (capturePieces e.path.pattern).length) (by
        rw [fields]
        exact List.mem_append_right _ (List.mem_map_of_mem mem))
      rwa [count] at lawful
  · intro flat
    have count := (length_capturePieces_iff e.path).2 flat.literals
    refine ⟨(nodup_names_iff legal flat.literals).2 flat.names, nodup_tags legal, ?_, ?_⟩
    · intro f mem
      rw [fields] at mem
      rcases List.mem_append.1 mem with capture | own
      · obtain ⟨-, low, high⟩ := mem_captures capture
        have few := flat.few
        rw [count] at high
        exact ⟨low, by omega, by omega⟩
      · obtain ⟨f, here, rfl⟩ := List.mem_map.1 own
        have lawful := flat.numbers f here
        rw [← count] at lawful
        exact lawful
    · refine ⟨(capturesFromPattern e.path.pattern).map ProtoField.unnumbered, ?_, ?_, ?_⟩
      · rw [List.length_map, length_captures, count]
      · intro f mem
        obtain ⟨f, here, rfl⟩ := List.mem_map.1 mem
        exact (mem_captures here).1
      · rw [fields, List.map_append, map_unnumbered_behind]

/-- The request message is built from fields that are well formed exactly when the fields of the
request type go together with those of the captures. -/
theorem requestMessage_wellFormed_iff (toUppercase : Char → Str) (e : Endpoint)
    (legal : ∀ Req, e.req = some Req → LegalRequest Req) :
    ((e.toRpc toUppercase).requestMessage =
        if e.req.isNone && (requestFields e.path.pattern e.req).isEmpty then none
        else some {
          name := (e.toRpc toUppercase).name ++ "Request".toList
          definition := buildMessage ((e.toRpc toUppercase).name ++ "Request".toList)
            (requestFields e.path.pattern e.req) }) ∧
      (WellFormedRequest e (requestFields e.path.pattern e.req) ↔ Flattens e) :=
  ⟨requestMessage_eq _ _ _, wellFormedRequest_iff legal⟩

/-- A message with one field of this name and number. -/
def oneFieldMessage (name : String) (tag : Nat) : ToProtoType where
  protoTypeName := "Patch".toList
  isMessage := true
  protoFields := [{
    name := name.toList
    protoType := "string".toList
    tag := tag
    repeated := false
    optional := false
    isMap := false
    mapKeyType := none
    mapValueType := none
    doc := none }]

/-- `PUT /items/{}` -/
def putItem (Req : ToProtoType) : Endpoint where
  method := .put
  path := .lit "items".toList (.capture .u32 .hnil)
  req := some Req
  res := { protoTypeName := "google.protobuf.Empty".toList }
  named := rfl

theorem legal_oneFieldMessage {name : String} {tag : Nat} (legal : LegalNumber tag) :
    ∀ Req, some (oneFieldMessage name tag) = some Req → LegalRequest Req := by
  intro Req same
  cases same
  have named : "Patch".toList ≠ "google.protobuf.Empty".toList := by decide
  refine ⟨fun _ => ⟨rfl, named⟩, List.pairwise_singleton _ _, List.pairwise_singleton _ _, ?_⟩
  intro f mem
  rw [List.mem_singleton.1 mem]
  exact legal

theorem wellFormed_putItem :
    WellFormedRequest (putItem (oneFieldMessage "title" 1))
      (requestFields (putItem (oneFieldMessage "title" 1)).path.pattern
        (putItem (oneFieldMessage "title" 1)).req) := by
  apply (requestMessage_wellFormed_iff (fun c => [c]) (putItem (oneFieldMessage "title" 1))
    (legal_oneFieldMessage ⟨by omega, by omega, by omega⟩)).2.2
  refine ⟨⟨by decide, trivial⟩, ?_, by decide, ?_⟩
  · intro f mem
    rw [List.mem_singleton.1 mem]
    decide
  · intro f mem
    rw [List.mem_singleton.1 mem]
    exact ⟨by decide, by decide, by decide⟩

/-- A field with the name of the capture's, and one whose number is shifted into those reserved. -/
theorem not_wellFormed_putItem :
    ¬ WellFormedRequest (putItem (oneFieldMessage "param1" 1))
        (requestFields (putItem (oneFieldMessage "param1" 1)).path.pattern
          (putItem (oneFieldMessage "param1" 1)).req) ∧
      ¬ WellFormedRequest (putItem (oneFieldMessage "title" 18999))
        (requestFields (putItem (oneFieldMessage "title" 18999)).path.pattern
          (putItem (oneFieldMessage "title" 18999)).req) := by
  constructor
  · intro wf
    have flat := (wellFormedRequest_iff (legal_oneFieldMessage ⟨by omega, by omega, by omega⟩)).1 wf
    exact flat.names _ List.mem_cons_self List.mem_cons_self
  · intro wf
    have flat := (wellFormedRequest_iff (legal_oneFieldMessage ⟨by omega, by omega, by omega⟩)).1 wf
    have lawful := flat.numbers _ List.mem_cons_self
    exact lawful.2.2 ⟨Nat.le_refl 19000, by decide⟩

end Typeway.Grpc
