import Mathlib.Data.List.Forall2
import Typeway.Base.Acyclic
import Typeway.Grpc.JsonRoundTrip
import Typeway.Grpc.Spec

/-!
# The transcoder

`transcode.rs`: field definitions for the dynamic codec are made from a specification by looking
up the types of fields by their names, over and over. This ends on the types that refer to no
cycle, and it leaves no field without definitions on the types whose parts are all in the
specification. There, a request comes back from its bytes as the codec brings it back.
-/

namespace Typeway.Grpc

open Checked Typeway.Core Json

inductive TranscodeError where
  | methodNotFound (method : Str)
  | messageNotFound (message : Str)
  | codec (e : CodecError)
  deriving DecidableEq

/-- `is_scalar`. -/
def isScalar (protoType : Str) : Bool :=
  Scalar.all.any (·.name = protoType) || protoType = "google.protobuf.Empty".toList

def FieldSpec.toDef (f : FieldSpec) (nested : Option (List ProtoFieldDef)) : ProtoFieldDef where
  name := f.name
  protoType := .ofName f.protoType
  tag := f.tag
  repeated := f.repeated
  isMap := f.isMap
  mapKeyType := f.mapKeyType.map .ofName
  mapValueType := f.mapValueType.map .ofName
  nestedFields := nested

namespace GrpcServiceSpec

variable (spec : GrpcServiceSpec)

/-- The message that is looked up for a field. -/
def nestedMessage (f : FieldSpec) : Option MessageSpec :=
  if !isScalar f.protoType && !f.isMap then IndexMap.lookup f.protoType spec.messages else none

/-- The definition of one field, `inner` being the recursive call. -/
def fieldSpecToDef (inner : List FieldSpec → Option (List ProtoFieldDef)) (f : FieldSpec) :
    Option ProtoFieldDef :=
  match spec.nestedMessage f with
  | some msg => (inner msg.fields).map fun nested => f.toDef (some nested)
  | none => some (f.toDef none)

/-- The recursion goes as deep as the stack is; nothing is returned if that is not enough. -/
def fieldSpecsToDefs : Nat → List FieldSpec → Option (List ProtoFieldDef)
  | 0, _ => none
  | depth + 1, fields => fields.mapM (spec.fieldSpecToDef (fieldSpecsToDefs depth))

def messageFields (depth : Nat) (messageName : Str) : Option (Option (List ProtoFieldDef)) :=
  if messageName = "google.protobuf.Empty".toList then some (some [])
  else
    match IndexMap.lookup messageName spec.messages with
    | none => some none
    | some msg => (spec.fieldSpecsToDefs depth msg.fields).map some

def findMethod (fullPath : Str) : Option MethodSpec :=
  (spec.methods.map Prod.snd).find? fun m => m.fullPath = fullPath

/-- An error of the codec as one of the transcoder. -/
def fromCodec {α : Type} : Run CodecError α → Run TranscodeError α
  | .ok a => .ok a
  | .error (.err e) => .error (.err (.codec e))
  | .error (.panic p) => .error (.panic p)
  | .error .unfinished => .error .unfinished

def decodeRequest (E : Externals) (depth : Nat) (path : Str) (protoBytes : List UInt8) :
    Option (Run TranscodeError Value) :=
  match spec.findMethod path with
  | none => some (fail (.methodNotFound path))
  | some m =>
    if m.requestType = "google.protobuf.Empty".toList ∨ protoBytes.isEmpty then
      some (.ok (.obj []))
    else
      (spec.messageFields depth m.requestType).map fun
        | none => fail (.messageNotFound m.requestType)
        | some fields => fromCodec (protoBinaryToJson E protoBytes fields)

/-- The bytes of a message of a type whose fields are looked up. -/
def encodeMessage (E : Externals) (depth : Nat) (messageName : Str) (json : Value) :
    Option (Except TranscodeError (List UInt8)) :=
  if messageName = "google.protobuf.Empty".toList then some (.ok [])
  else
    (spec.messageFields depth messageName).map fun
      | none => .error (.messageNotFound messageName)
      | some fields => (jsonToProtoBinary E json fields).mapError .codec

def encodeResponse (E : Externals) (depth : Nat) (path : Str) (json : Value) :
    Option (Except TranscodeError (List UInt8)) :=
  match spec.findMethod path with
  | none => some (.error (.methodNotFound path))
  | some m => spec.encodeMessage E depth m.responseType json

/-! ## One level of definitions -/

/-- The definitions of one level, `inner` telling what is nested. -/
def Defines (inner : List FieldSpec → List ProtoFieldDef → Prop) (f : FieldSpec)
    (d : ProtoFieldDef) : Prop :=
  match spec.nestedMessage f with
  | some msg => ∃ nested, inner msg.fields nested ∧ d = f.toDef (some nested)
  | none => d = f.toDef none

variable {spec}

theorem fieldSpecToDef_eq_some {inner : List FieldSpec → Option (List ProtoFieldDef)}
    {f : FieldSpec} {d : ProtoFieldDef} :
    spec.fieldSpecToDef inner f = some d ↔
      spec.Defines (fun fields defs => inner fields = some defs) f d := by
  rw [fieldSpecToDef, Defines]
  cases spec.nestedMessage f with
  | none => exact ⟨fun h => (Option.some.inj h).symm, fun h => congrArg some h.symm⟩
  | some msg =>
    simp only [Option.map_eq_some_iff]
    exact ⟨fun ⟨nested, done, same⟩ => ⟨nested, done, same.symm⟩,
      fun ⟨nested, done, same⟩ => ⟨nested, done, same.symm⟩⟩

theorem mapM_eq_some {α β : Type} {f : α → Option β} {l : List α} {l' : List β} :
    l.mapM f = some l' ↔ List.Forall₂ (fun a b => f a = some b) l l' := by
  induction l generalizing l' with
  | nil =>
    rw [List.mapM_nil, List.forall₂_nil_left_iff]
    exact ⟨fun h => (Option.some.inj h).symm, fun h => congrArg some h.symm⟩
  | cons a l ih =>
    rw [List.mapM_cons]
    constructor
    · intro h
      obtain ⟨b, here, h⟩ := Option.bind_eq_some_iff.1 h
      obtain ⟨bs, more, h⟩ := Option.bind_eq_some_iff.1 h
      cases Option.some.inj h
      exact .cons here (ih.1 more)
    · intro h
      cases h with
      | cons here more =>
        rw [here, ih.2 more]
        rfl

theorem exists_right {α β : Type} {R : α → β → Prop} {l : List α} {l' : List β}
    (h : List.Forall₂ R l l') {a : α} (mem : a ∈ l) : ∃ b ∈ l', R a b := by
  induction h with
  | nil => cases mem
  | cons here _ ih =>
    rcases List.mem_cons.1 mem with rfl | mem
    · exact ⟨_, List.mem_cons_self, here⟩
    · obtain ⟨b, memB, there⟩ := ih mem
      exact ⟨b, List.mem_cons_of_mem _ memB, there⟩

theorem exists_left {α β : Type} {R : α → β → Prop} {l : List α} {l' : List β}
    (h : List.Forall₂ R l l') {b : β} (mem : b ∈ l') : ∃ a ∈ l, R a b :=
  exists_right h.flip mem

theorem fieldSpecsToDefs_succ {depth : Nat} {fields : List FieldSpec} {defs : List ProtoFieldDef} :
    spec.fieldSpecsToDefs (depth + 1) fields = some defs ↔
      List.Forall₂ (spec.Defines fun fields defs => spec.fieldSpecsToDefs depth fields = some defs)
        fields defs := by
  rw [fieldSpecsToDefs, mapM_eq_some]
  simp only [fieldSpecToDef_eq_some]

/-! ## Whether the recursion ends -/

variable (spec) in
/-- A message refers to the types that are looked up for its fields. -/
def Refers (a b : Str) : Prop :=
  ∃ msg, IndexMap.lookup a spec.messages = some msg ∧
    ∃ f ∈ msg.fields, f.protoType = b ∧ isScalar b = false ∧ f.isMap = false

theorem nestedMessage_eq_some {f : FieldSpec} {msg : MessageSpec} :
    spec.nestedMessage f = some msg ↔ isScalar f.protoType = false ∧ f.isMap = false ∧
      IndexMap.lookup f.protoType spec.messages = some msg := by
  rw [nestedMessage]
  cases isScalar f.protoType <;> cases f.isMap <;> simp

theorem Defines.mono {inner inner' : List FieldSpec → List ProtoFieldDef → Prop} {f : FieldSpec}
    {d : ProtoFieldDef} (more : ∀ fields defs, inner fields defs → inner' fields defs)
    (h : spec.Defines inner f d) : spec.Defines inner' f d := by
  rw [Defines] at h ⊢
  cases found : spec.nestedMessage f with
  | none =>
    rw [found] at h
    exact h
  | some msg =>
    rw [found] at h
    obtain ⟨nested, done, same⟩ := h
    exact ⟨nested, more _ _ done, same⟩

theorem fieldSpecsToDefs_mono {depth depth' : Nat} (le : depth ≤ depth') {fields : List FieldSpec}
    {defs : List ProtoFieldDef} (done : spec.fieldSpecsToDefs depth fields = some defs) :
    spec.fieldSpecsToDefs depth' fields = some defs := by
  induction depth generalizing depth' fields defs with
  | zero => cases done
  | succ depth ih =>
    obtain ⟨depth', rfl⟩ : ∃ n, depth' = n + 1 := ⟨depth' - 1, by omega⟩
    rw [fieldSpecsToDefs_succ] at done ⊢
    exact done.imp fun f d => Defines.mono fun fields defs => ih (by omega)

/-- A list of fields has definitions when every message looked up for one has. -/
theorem exists_defs {fields : List FieldSpec}
    (inner : ∀ f ∈ fields, ∀ msg, spec.nestedMessage f = some msg →
      ∃ depth defs, spec.fieldSpecsToDefs depth msg.fields = some defs) :
    ∃ depth defs, spec.fieldSpecsToDefs depth fields = some defs := by
  have some_depth : ∃ depth defs, List.Forall₂ (spec.Defines fun fields defs =>
      spec.fieldSpecsToDefs depth fields = some defs) fields defs := by
    induction fields with
    | nil => exact ⟨0, [], .nil⟩
    | cons f fields ih =>
      obtain ⟨depth, defs, rest⟩ := ih fun g mem => inner g (List.mem_cons_of_mem _ mem)
      cases found : spec.nestedMessage f with
      | none =>
        refine ⟨depth, f.toDef none :: defs, .cons ?_ rest⟩
        rw [Defines, found]
      | some msg =>
        obtain ⟨depth', nested, done⟩ := inner f List.mem_cons_self msg found
        refine ⟨max depth depth', f.toDef (some nested) :: defs, .cons ?_ ?_⟩
        · rw [Defines, found]
          exact ⟨nested, fieldSpecsToDefs_mono (Nat.le_max_right _ _) done, rfl⟩
        · exact rest.imp fun g d => Defines.mono fun _ _ =>
            fieldSpecsToDefs_mono (Nat.le_max_left _ _)
  obtain ⟨depth, defs, done⟩ := some_depth
  exact ⟨depth + 1, defs, fieldSpecsToDefs_succ.2 done⟩

theorem exists_defs_of_ends {a : Str} (ends : Acyclic.Ends spec.Refers a) {msg : MessageSpec}
    (found : IndexMap.lookup a spec.messages = some msg) :
    ∃ depth defs, spec.fieldSpecsToDefs depth msg.fields = some defs := by
  induction ends generalizing msg with
  | intro a _ ih =>
    apply exists_defs
    intro f mem inner lookedUp
    obtain ⟨message, plain, here⟩ := nestedMessage_eq_some.1 lookedUp
    exact ih f.protoType ⟨msg, found, f, mem, rfl, message, plain⟩ here

theorem ends_of_defs {depth : Nat} {a : Str} {msg : MessageSpec} {defs : List ProtoFieldDef}
    (found : IndexMap.lookup a spec.messages = some msg)
    (done : spec.fieldSpecsToDefs depth msg.fields = some defs) : Acyclic.Ends spec.Refers a := by
  induction depth generalizing a msg defs with
  | zero => cases done
  | succ depth ih =>
    rw [fieldSpecsToDefs_succ] at done
    constructor
    intro b step
    obtain ⟨_, same, f, mem, rfl, message, plain⟩ := step
    cases found.symm.trans same
    cases here : IndexMap.lookup f.protoType spec.messages with
    | none =>
      constructor
      intro c next
      obtain ⟨_, there, -⟩ := next
      cases here.symm.trans there
    | some inner =>
      obtain ⟨d, -, defines⟩ := exists_right done mem
      rw [Defines, nestedMessage_eq_some.2 ⟨message, plain, here⟩] at defines
      obtain ⟨nested, done, -⟩ := defines
      exact ih here done

theorem Refers.mem_keys {a b : Str} (h : spec.Refers a b) : a ∈ spec.messages.map Prod.fst := by
  obtain ⟨_, found, -⟩ := h
  exact List.mem_map_of_mem (IndexMap.mem_of_lookup found)

/-- **The recursion ends** exactly on the messages from which no cycle is met. -/
theorem fieldSpecsToDefs_ends_iff {a : Str} {msg : MessageSpec}
    (found : IndexMap.lookup a spec.messages = some msg) :
    (∃ depth defs, spec.fieldSpecsToDefs depth msg.fields = some defs) ↔
      ¬ Acyclic.MeetsCycle spec.Refers a := by
  rw [← Acyclic.ends_iff fun a b => Refers.mem_keys]
  constructor
  · intro h
    obtain ⟨depth, defs, done⟩ := h
    exact ends_of_defs found done
  · intro ends
    exact exists_defs_of_ends ends found

/-! ## Whether every field has its definitions -/

end GrpcServiceSpec

/-- Definitions whose message types all have definitions themselves. The values of a map have no
place for theirs. -/
inductive Complete : List ProtoFieldDef → Prop where
  | intro {defs : List ProtoFieldDef}
      (message : ∀ d ∈ defs, d.isMap = false → ∀ name, d.protoType = .other name →
        ∃ inner, d.nestedFields = some inner)
      (map : ∀ d ∈ defs, d.isMap = true → ∃ s, d.mapValueType = some (.scalar s))
      (nested : ∀ d ∈ defs, ∀ inner, d.nestedFields = some inner → Complete inner) : Complete defs

/-- The type of a field can be looked up: it is not the empty message, which counts as a scalar,
and not a map of messages. -/
def FieldSpec.Resolvable (f : FieldSpec) : Prop :=
  if f.isMap then ∃ s : Scalar, f.mapValueType = some s.name
  else f.protoType ≠ "google.protobuf.Empty".toList

namespace GrpcServiceSpec

variable (spec : GrpcServiceSpec)

/-- Every type that a message refers to, itself included, is in the specification, and so are the
types of its fields. -/
def Closed (name : Str) : Prop :=
  ∀ a, Relation.ReflTransGen spec.Refers name a →
    ∃ msg, IndexMap.lookup a spec.messages = some msg ∧ ∀ f ∈ msg.fields, f.Resolvable

/-- A message that refers to no cycle and leaves nothing out. -/
def Sound (name : Str) : Prop :=
  name = "google.protobuf.Empty".toList ∨
    ¬ Acyclic.MeetsCycle spec.Refers name ∧ spec.Closed name

/-- The fields of a closed message. -/
def FieldsClosed (fields : List FieldSpec) : Prop :=
  ∀ f ∈ fields, f.Resolvable ∧
    (isScalar f.protoType = false → f.isMap = false → spec.Closed f.protoType)

variable {spec}

theorem ofName_scalar (s : Scalar) : ProtoType.ofName s.name = .scalar s := by
  cases s <;> rfl

theorem ofName_eq_scalar {name : Str} {s : Scalar} (h : ProtoType.ofName name = .scalar s) :
    name = s.name := by
  rw [ProtoType.ofName] at h
  cases found : Scalar.all.find? (·.name = name) with
  | none =>
    rw [found] at h
    cases h
  | some s' =>
    rw [found] at h
    cases h
    exact (of_decide_eq_true (List.find?_some found :)).symm

/-- A name that is no scalar is one of a message, the empty one apart. -/
theorem isScalar_eq_false {name : Str} :
    isScalar name = false ↔
      ProtoType.ofName name = .other name ∧ name ≠ "google.protobuf.Empty".toList := by
  rw [isScalar, Bool.or_eq_false_iff, decide_eq_false_iff_not, List.any_eq_false]
  refine and_congr_left fun _ => ?_
  constructor
  · intro none
    rw [ProtoType.ofName, List.find?_eq_none.2 none]
  · intro other s mem same
    rw [← of_decide_eq_true same, ofName_scalar] at other
    cases other

theorem ofName_cases (name : Str) :
    (∃ s, ProtoType.ofName name = .scalar s) ∨ ProtoType.ofName name = .other name := by
  rw [ProtoType.ofName]
  cases Scalar.all.find? (·.name = name) with
  | none => exact .inr rfl
  | some s => exact .inl ⟨s, rfl⟩

theorem closed_iff {a : Str} : spec.Closed a ↔
    ∃ msg, IndexMap.lookup a spec.messages = some msg ∧ spec.FieldsClosed msg.fields := by
  constructor
  · intro closed
    obtain ⟨msg, found, resolvable⟩ := closed a .refl
    refine ⟨msg, found, fun f mem => ⟨resolvable f mem, fun message plain b reach => ?_⟩⟩
    exact closed b (.head ⟨msg, found, f, mem, rfl, message, plain⟩ reach)
  · rintro ⟨msg, found, closed⟩ b reach
    rcases Relation.ReflTransGen.cases_head reach with rfl | ⟨c, step, reach⟩
    · exact ⟨msg, found, fun f mem => (closed f mem).1⟩
    · obtain ⟨_, same, f, mem, rfl, message, plain⟩ := step
      cases found.symm.trans same
      exact (closed f mem).2 message plain b reach

/-- What a definition has of its field. -/
theorem Defines.eq_toDef {inner : List FieldSpec → List ProtoFieldDef → Prop} {f : FieldSpec}
    {d : ProtoFieldDef} (h : spec.Defines inner f d) : d = f.toDef d.nestedFields := by
  rw [Defines] at h
  cases found : spec.nestedMessage f with
  | none =>
    rw [found] at h
    rw [h]
    rfl
  | some msg =>
    rw [found] at h
    obtain ⟨nested, -, rfl⟩ := h
    rfl

/-- Something is nested exactly if a message is looked up. -/
theorem Defines.nested_iff {inner : List FieldSpec → List ProtoFieldDef → Prop} {f : FieldSpec}
    {d : ProtoFieldDef} (h : spec.Defines inner f d) {nested : List ProtoFieldDef} :
    d.nestedFields = some nested ↔
      ∃ msg, spec.nestedMessage f = some msg ∧ inner msg.fields nested ∧
        d = f.toDef (some nested) := by
  rw [Defines] at h
  cases found : spec.nestedMessage f with
  | none =>
    rw [found] at h
    rw [h]
    simp [FieldSpec.toDef]
  | some msg =>
    rw [found] at h
    obtain ⟨nested', done, rfl⟩ := h
    constructor
    · intro same
      cases Option.some.inj same
      exact ⟨msg, rfl, done, rfl⟩
    · rintro ⟨_, -, -, same⟩
      exact congrArg ProtoFieldDef.nestedFields same

theorem toDef_message {f : FieldSpec} {nested : Option (List ProtoFieldDef)} {name : Str}
    (resolvable : f.Resolvable) (plain : f.isMap = false)
    (type : (f.toDef nested).protoType = .other name) : isScalar f.protoType = false := by
  rw [FieldSpec.Resolvable, plain, if_neg Bool.false_ne_true] at resolvable
  rcases ofName_cases f.protoType with ⟨s, scalar⟩ | other
  · cases scalar.symm.trans type
  · exact isScalar_eq_false.2 ⟨other, resolvable⟩

theorem toDef_map {f : FieldSpec} {nested : Option (List ProtoFieldDef)} (isMap : f.isMap = true) :
    f.Resolvable ↔ ∃ s, (f.toDef nested).mapValueType = some (.scalar s) := by
  rw [FieldSpec.Resolvable, if_pos isMap]
  constructor
  · rintro ⟨s, type⟩
    refine ⟨s, ?_⟩
    rw [FieldSpec.toDef, type, Option.map_some, ofName_scalar]
  · rintro ⟨s, type⟩
    obtain ⟨name, here, scalar⟩ := Option.map_eq_some_iff.1 type
    rw [here, ofName_eq_scalar scalar]
    exact ⟨s, rfl⟩

/-- **The definitions are complete** exactly if the fields are those of a closed message. -/
theorem complete_iff {depth : Nat} {fields : List FieldSpec} {defs : List ProtoFieldDef}
    (done : spec.fieldSpecsToDefs depth fields = some defs) :
    Complete defs ↔ spec.FieldsClosed fields := by
  induction depth generalizing fields defs with
  | zero => cases done
  | succ depth ih =>
    rw [fieldSpecsToDefs_succ] at done
    constructor
    · rintro ⟨message, map, nested⟩ f mem
      obtain ⟨d, memD, defines⟩ := exists_right done mem
      have same := defines.eq_toDef
      cases isMap : f.isMap with
      | true =>
        have here := map d memD (by rw [same]; exact isMap)
        rw [same] at here
        exact ⟨(toDef_map isMap).2 here, fun _ plain => by cases plain⟩
      | false =>
        have plain : d.isMap = false := by rw [same]; exact isMap
        constructor
        · rw [FieldSpec.Resolvable, isMap, if_neg Bool.false_ne_true]
          intro empty
          obtain ⟨inner, some⟩ := message d memD plain _ (by rw [same, FieldSpec.toDef, empty]; rfl)
          obtain ⟨msg, lookedUp, -⟩ := defines.nested_iff.1 some
          rw [nestedMessage_eq_some, empty] at lookedUp
          cases lookedUp.1
        · intro notScalar _
          have other : d.protoType = .other f.protoType := by
            rw [same]
            exact (isScalar_eq_false.1 notScalar).1
          obtain ⟨inner, some⟩ := message d memD plain _ other
          obtain ⟨msg, lookedUp, done, -⟩ := defines.nested_iff.1 some
          rw [closed_iff]
          exact ⟨msg, (nestedMessage_eq_some.1 lookedUp).2.2,
            (ih done).1 (nested d memD inner some)⟩
    · intro closed
      constructor
      · intro d memD plain name type
        obtain ⟨f, mem, defines⟩ := exists_left done memD
        rw [defines.eq_toDef] at type plain
        have notScalar := toDef_message (closed f mem).1 plain type
        obtain ⟨msg, found, -⟩ := closed_iff.1 ((closed f mem).2 notScalar plain)
        have lookedUp := nestedMessage_eq_some.2 ⟨notScalar, plain, found⟩
        rw [Defines, lookedUp] at defines
        obtain ⟨inner, -, rfl⟩ := defines
        exact ⟨inner, rfl⟩
      · intro d memD isMap
        obtain ⟨f, mem, defines⟩ := exists_left done memD
        rw [defines.eq_toDef] at isMap ⊢
        exact (toDef_map isMap).1 (closed f mem).1
      · intro d memD inner some
        obtain ⟨f, mem, defines⟩ := exists_left done memD
        obtain ⟨msg, lookedUp, done, -⟩ := defines.nested_iff.1 some
        obtain ⟨notScalar, plain, found⟩ := nestedMessage_eq_some.1 lookedUp
        obtain ⟨_, same, fieldsClosed⟩ := closed_iff.1 ((closed f mem).2 notScalar plain)
        cases found.symm.trans same
        exact (ih done).2 fieldsClosed

theorem messageFields_empty (depth : Nat) :
    spec.messageFields depth "google.protobuf.Empty".toList = some (some []) :=
  if_pos rfl

theorem messageFields_eq_some {depth : Nat} {name : Str}
    (message : name ≠ "google.protobuf.Empty".toList) {defs : List ProtoFieldDef} :
    spec.messageFields depth name = some (some defs) ↔
      ∃ msg, IndexMap.lookup name spec.messages = some msg ∧
        spec.fieldSpecsToDefs depth msg.fields = some defs := by
  rw [messageFields, if_neg message]
  cases IndexMap.lookup name spec.messages with
  | none => simp
  | some msg => simp

theorem messageFields_mono {depth depth' : Nat} (le : depth ≤ depth') {name : Str}
    {defs : List ProtoFieldDef} (done : spec.messageFields depth name = some (some defs)) :
    spec.messageFields depth' name = some (some defs) := by
  by_cases empty : name = "google.protobuf.Empty".toList
  · rw [empty, messageFields_empty] at done ⊢
    exact done
  · rw [messageFields_eq_some empty] at done ⊢
    obtain ⟨msg, found, done⟩ := done
    exact ⟨msg, found, fieldSpecsToDefs_mono le done⟩

theorem complete_nil : Complete [] :=
  .intro (fun _ mem => nomatch mem) (fun _ mem => nomatch mem) (fun _ mem => nomatch mem)

/-- **The fields of a message are computed**, with all definitions at every depth, exactly if the
message is sound. -/
theorem messageFields_complete_iff {name : Str} :
    (∃ depth defs, spec.messageFields depth name = some (some defs) ∧ Complete defs) ↔
      spec.Sound name := by
  by_cases empty : name = "google.protobuf.Empty".toList
  · subst empty
    exact iff_of_true ⟨0, [], messageFields_empty 0, complete_nil⟩ (.inl rfl)
  · rw [Sound, or_iff_right empty, closed_iff]
    constructor
    · rintro ⟨depth, defs, done, complete⟩
      obtain ⟨msg, found, done⟩ := (messageFields_eq_some empty).1 done
      exact ⟨(fieldSpecsToDefs_ends_iff found).1 ⟨depth, defs, done⟩, msg, found,
        (complete_iff done).1 complete⟩
    · rintro ⟨free, msg, found, closed⟩
      obtain ⟨depth, defs, done⟩ := (fieldSpecsToDefs_ends_iff found).2 free
      exact ⟨depth, defs, (messageFields_eq_some empty).2 ⟨msg, found, done⟩,
        (complete_iff done).2 closed⟩

end GrpcServiceSpec

end Typeway.Grpc
