import Typeway.Client.Call
import Typeway.Grpc.Transcoder

/-!
# REST values in gRPC messages

The schema generator puts the types of an endpoint into messages: a message type is a message of
its own or has its fields inlined, another type is one field of a message. The dispatcher does none
of this. It hands the JSON of the one side to the other as it is, and the bytes of a request whose
path has no captures too.
-/

namespace Typeway.Grpc

open Checked Typeway.Core Json GrpcServiceSpec

/-! ## The types of an endpoint -/

/-- `impl ToProtoType for Vec<T>` -/
def ToProtoType.vec (T : ToProtoType) : ToProtoType where
  protoTypeName := T.protoTypeName
  isRepeated := true
  isMessage := T.isMessage
  messageDefinition := T.messageDefinition
  collectMessages := T.collectMessages

/-- A message, with the names that its `Deserialize` knows, a primitive, a list or unit. -/
inductive RestType where
  | message (T : ToProtoType) (members : List Str) (composite : T.isMessage = true)
      (named : T.protoTypeName ≠ "google.protobuf.Empty".toList)
  | primitive (s : Scalar)
  | bytes
  | vec (item : ToProtoType)
  | unit

def RestType.toProtoType : RestType → ToProtoType
  | message T _ _ _ => T
  | primitive s => { protoTypeName := s.name }
  | bytes => { protoTypeName := "bytes".toList }
  | vec item => item.vec
  | unit => { protoTypeName := "google.protobuf.Empty".toList }

/-- The value of a scalar field that is not there. -/
def Scalar.absent : Scalar → Value
  | bool => .bool false
  | double | float => .number (.float 0)
  | string | bytes => .str []
  | _ => .ofU64 0

/-- `Serialize` and `Deserialize` of a type, on JSON values. -/
structure Serde (V : Type) where
  write : V → Value
  read : Value → Option V
  read_write : ∀ v, read (write v) = some v

/-- What `serde` documents: a struct is read from the members it knows, and no other type is read
from an object. -/
def RestType.Documented {V : Type} (S : Serde V) : RestType → Prop
  | message _ members _ _ => ∀ a b : List (Str × Value),
    (∀ n ∈ members, SortedMap.lookup n a = SortedMap.lookup n b) → S.read (.obj a) = S.read (.obj b)
  | _ => ∀ a, S.read (.obj a) = none

/-! ## The message of a value -/

def SingleDenotes (field : ProtoFieldDef) (nested : Option (Value → Value → Prop)) (v w : Value) :
    Prop :=
  match field.protoType, nested with
  | .other _, some denotes => denotes v w
  | _, _ => v = w

def MemberDenotes (field : ProtoFieldDef) (nested : Option (Value → Value → Prop)) :
    Option Value → Option Value → Prop
  | none, none | some .null, none => True
  | some v, some w =>
    if field.isMap then v = w
    else if field.repeated then
      ∃ items items', v = .arr items ∧ w = .arr items' ∧
        List.Forall₂ (SingleDenotes field nested) items items'
    else SingleDenotes field nested v w
  | _, _ => False

/-- A JSON value and the message it stands for, which has no null for an absent member. -/
def Denotes : List ProtoFieldDef → Value → Value → Prop :=
  bySchema fun fields v w => ∃ map map', v = .obj map ∧ w = .obj map' ∧
    ∀ f ∈ fields, MemberDenotes f.1 f.2 (SortedMap.lookup f.1.name map)
      (SortedMap.lookup f.1.name map')

theorem denotes_iff {fields : List ProtoFieldDef} {v w : Value} :
    Denotes fields v w ↔ ∃ map map', v = .obj map ∧ w = .obj map' ∧
      ∀ f ∈ fields, MemberDenotes f (f.nestedFields.map Denotes) (SortedMap.lookup f.name map)
        (SortedMap.lookup f.name map') := by
  rw [Denotes, bySchema_eq]
  simp only [List.forall_mem_map]

theorem concatM_congr {α : Type} {f g : α → Except CodecError (List UInt8)} {l : List α}
    (same : ∀ a ∈ l, f a = g a) : concatM f l = concatM g l := by
  induction l with
  | nil => rfl
  | cons a l ih =>
    rw [concatM, concatM, same a (by simp), ih fun a mem => same a (by simp [mem])]

theorem concatM_forall₂ {α : Type} {f : α → Except CodecError (List UInt8)} {R : α → α → Prop}
    (same : ∀ a b, R a b → f a = f b) {l l' : List α} (h : List.Forall₂ R l l') :
    concatM f l = concatM f l' := by
  induction h with
  | nil => rfl
  | cons here _ ih => rw [concatM, concatM, same _ _ here, ih]

theorem memberBytes_denotes (E : Externals)
    {encode : Option (Value → Except CodecError (List UInt8))} {field : ProtoFieldDef}
    {nested : Option (Value → Value → Prop)} {map map' : List (Str × Value)}
    (single : ∀ v w, SingleDenotes field nested v w →
      encodeFieldWith E encode field v = encodeFieldWith E encode field w)
    (objects : ∀ denotes v w, nested = some denotes → denotes v w → ∃ a b, v = .obj a ∧ w = .obj b)
    (h : MemberDenotes field nested (SortedMap.lookup field.name map)
      (SortedMap.lookup field.name map')) :
    memberBytes E encode field map = memberBytes E encode field map' := by
  rw [memberBytes, memberBytes]
  revert h
  cases SortedMap.lookup field.name map with
  | none =>
    cases SortedMap.lookup field.name map' with
    | none => intro; rfl
    | some w => exact False.elim
  | some v =>
    cases SortedMap.lookup field.name map' with
    | none =>
      cases v with
      | null => intro; rfl
      | _ => exact False.elim
    | some w =>
      intro h
      dsimp only
      rw [MemberDenotes] at h
      split at h
      · rw [h]
      · rename_i plain
        split at h
        · rename_i many
          obtain ⟨items, items', rfl, rfl, same⟩ := h
          simp only [Value.isNull, many, plain, Value.asArray]
          exact concatM_forall₂ single same
        · rename_i one
          have whole := single v w h
          unfold SingleDenotes at h
          split at h
          · rename_i name denotes type
            obtain ⟨a, b, rfl, rfl⟩ := objects _ _ _ rfl h
            have written (map : List (Str × Value)) :
                isProto3Default (.obj map) field.protoType = false := by
              rw [type, isProto3Default]
            simp only [Value.isNull, written, plain, one, whole]
            rfl
          · rw [h]

/-- A value is encoded as its message. -/
theorem encode_denotes (E : Externals) {fields : List ProtoFieldDef} (legal : Legal fields)
    {v w : Value} (h : Denotes fields v w) :
    jsonToProtoBinary E v fields = jsonToProtoBinary E w fields := by
  induction legal generalizing v w with
  | intro distinct shaped nested ih =>
    obtain ⟨map, map', rfl, rfl, members⟩ := denotes_iff.1 h
    show membersBytes E _ map = membersBytes E _ map'
    rw [membersBytes_eq, membersBytes_eq]
    apply concatM_congr
    intro f mem
    refine memberBytes_denotes E ?_ ?_ (members f mem)
    · intro v w denotes
      unfold SingleDenotes at denotes
      split at denotes
      · rename_i name inner type some
        obtain ⟨defs, found, rfl⟩ := Option.map_eq_some_iff.1 some
        rw [found, nestedEncoder_some, encodeFieldWith_nested E type, encodeFieldWith_nested E type,
          ih f mem defs found denotes]
      · rw [denotes]
    · intro denotes v w some h
      obtain ⟨defs, -, rfl⟩ := Option.map_eq_some_iff.1 some
      obtain ⟨a, b, left, right, -⟩ := denotes_iff.1 h
      exact ⟨a, b, left, right⟩

/-! ## Responses -/

/-- How a value is to be told from the message of a response: it is the message, the message holds
it as the field `value`, or there is nothing to tell. -/
inductive Holding where
  | itself
  | valueField (absent : Value)
  | nothing

/-- The items of a stream of messages are messages. -/
def RestType.holding (streaming : Bool) : RestType → Holding
  | message _ _ _ _ => .itself
  | primitive s => .valueField s.absent
  | bytes => .valueField (.arr [])
  | vec item => if streaming && item.isMessage then .itself else .valueField (.arr [])
  | unit => .nothing

/-- The values that are encoded on their own. -/
def sentValues (streaming : Bool) : Value → List Value
  | .arr items => if streaming then items else [.arr items]
  | v => [v]

def valueMember (absent : Value) : Value → Value
  | .obj map => (SortedMap.lookup "value".toList map).getD absent
  | _ => absent

section Response

variable (spec : GrpcServiceSpec) (m : MethodSpec)

/-- A value, the only object being a message. -/
def Holding.Typed (v : Value) : Holding → Prop
  | itself => ∀ depth defs, spec.messageFields depth m.responseType = some (some defs) →
      ∃ w, spec.TypeOf m.responseType w ∧ Denotes defs v w
  | valueField _ => v.asObject = none
  | nothing => v = .null

def Holding.Told (defs : List ProtoFieldDef) (v decoded : Value) : Holding → Prop
  | itself => ∃ w, spec.TypeOf m.responseType w ∧ Denotes defs v w ∧
      decoded = withoutDefaults defs w
  | valueField absent => valueMember absent decoded = v
  | nothing => True

/-- A value goes out as the declared message, and the whole of it is read from its bytes. -/
def Carried (E : Externals) (h : Holding) (v : Value) : Prop :=
  ∃ depth defs bytes decoded, spec.messageFields depth m.responseType = some (some defs) ∧
    Complete defs ∧ spec.encodeResponse E depth m.fullPath v = some (.ok bytes) ∧
    protoBinaryToJson E bytes defs = .ok decoded ∧ h.Told spec m defs v decoded

/-- A message without a map entry or a negative enumerator, or the default of a wrapper. -/
def Holding.Keeps (v : Value) : Holding → Prop
  | itself => ∃ depth defs w, spec.messageFields depth m.responseType = some (some defs) ∧
      spec.TypeOf m.responseType w ∧ Denotes defs v w ∧ ¬ spec.TypeLoses m.responseType w
  | valueField absent => v = absent
  | nothing => True

end Response

section Carried

variable {E : Externals} {toUppercase : Char → Str} {api : List Endpoint} {serviceName package : Str}
  {spec : GrpcServiceSpec} {m : MethodSpec} {v : Value}

/-- What is no object is encoded as an empty message. -/
theorem encodeMessage_plain {name : Str} {depth : Nat} {defs : List ProtoFieldDef}
    (done : spec.messageFields depth name = some (some defs)) (plain : v.asObject = none) :
    spec.encodeMessage E depth name v = some (.ok []) := by
  by_cases empty : name = "google.protobuf.Empty".toList
  · rw [encodeMessage, if_pos empty]
  · rw [encodeMessage_eq empty done, jsonToProtoBinary, plain]
    rfl

variable (generated : spec = grpcSpec toUppercase api serviceName package)
  (mem : m ∈ spec.methods.map Prod.snd)

include generated mem

theorem encodeResponse_eq {depth : Nat} :
    spec.encodeResponse E depth m.fullPath v = spec.encodeMessage E depth m.responseType v := by
  have methods : MethodsOf package serviceName spec.methods := generated ▸ grpcSpec_methods
  rw [encodeResponse, methods.findMethod mem]

/-- What is no object is carried as far as nothing tells it. -/
theorem carried_plain_iff {h : Holding} (plain : v.asObject = none) :
    Carried spec m E h v ↔ spec.Sound m.responseType ∧
      ∃ depth defs, spec.messageFields depth m.responseType = some (some defs) ∧
        h.Told spec m defs v (.obj []) := by
  constructor
  · intro carried
    obtain ⟨depth, defs, bytes, decoded, done, complete, encoded, read, told⟩ := carried
    rw [encodeResponse_eq generated mem, encodeMessage_plain done plain] at encoded
    cases encoded
    rw [protoBinaryToJson_nil] at read
    cases read
    exact ⟨messageFields_complete_iff.1 ⟨depth, defs, done, complete⟩, depth, defs, done, told⟩
  · intro h
    obtain ⟨sound, depth, defs, done, told⟩ := h
    obtain ⟨depth', defs', done', complete⟩ := messageFields_complete_iff.2 sound
    have same := messageFields_unique done done'
    subst same
    refine ⟨depth', _, [], .obj [], done', complete, ?_, protoBinaryToJson_nil E _, told⟩
    rw [encodeResponse_eq generated mem, encodeMessage_plain done' plain]

omit mem in
theorem legal_response (legal : spec.LegalFrom m.responseType)
    (message : m.responseType ≠ "google.protobuf.Empty".toList) {depth : Nat}
    {defs : List ProtoFieldDef}
    (done : spec.messageFields depth m.responseType = some (some defs)) (complete : Complete defs) :
    Legal defs := by
  have shaped : ∀ e ∈ spec.messages, ∀ f ∈ e.2.fields, f.MapShaped := generated ▸ grpcSpec_shaped
  obtain ⟨_, known, defined⟩ := (messageFields_eq_some message).1 done
  exact legal_defs shaped legal known defined complete

/-- The empty message carries any object. -/
theorem carried_empty_iff (empty : m.responseType = "google.protobuf.Empty".toList) :
    Carried spec m E .itself v ↔
      spec.Sound m.responseType ∧ Holding.Keeps spec m v .itself := by
  have fields (depth : Nat) : spec.messageFields depth m.responseType = some (some []) := by
    rw [empty, messageFields_empty]
  constructor
  · intro carried
    obtain ⟨depth, defs, _, _, done, -, -, -, w, typed, denotes, -⟩ := carried
    exact ⟨.inl empty, depth, defs, w, done, typed, denotes, fun lost => lost.1 empty⟩
  · intro h
    obtain ⟨-, depth, defs, w, done, typed, denotes, -⟩ := h
    have same := messageFields_unique (fields 0) done
    subst same
    refine ⟨depth, [], [], .obj [], done, complete_nil, ?_, protoBinaryToJson_nil E _, w, typed,
      denotes, ?_⟩
    · rw [encodeResponse_eq generated mem, encodeMessage, if_pos empty]
    · obtain ⟨-, rfl⟩ | ⟨message, -⟩ := typed
      · rw [withoutDefaults_obj]
        rfl
      · exact absurd empty message

/-- A message is carried exactly if nothing of it is lost. -/
theorem carried_itself_iff (legal : spec.LegalFrom m.responseType)
    (small : ∀ depth bytes, spec.encodeResponse E depth m.fullPath v = some (.ok bytes) →
      bytes.length ≤ isizeMax) :
    Carried spec m E .itself v ↔
      spec.Sound m.responseType ∧ Holding.Keeps spec m v .itself := by
  by_cases empty : m.responseType = "google.protobuf.Empty".toList
  · exact carried_empty_iff generated mem empty
  have encoded {depth : Nat} {defs : List ProtoFieldDef} {bytes : List UInt8}
      (done : spec.messageFields depth m.responseType = some (some defs)) :
      spec.encodeResponse E depth m.fullPath v = some (.ok bytes) ↔
        jsonToProtoBinary E v defs = .ok bytes := by
    rw [encodeResponse_eq generated mem, encodeMessage_eq_ok empty done]
  have back {depth : Nat} {defs : List ProtoFieldDef} {w : Value}
      (done : spec.messageFields depth m.responseType = some (some defs)) (complete : Complete defs)
      (typed : spec.TypeOf m.responseType w) (denotes : Denotes defs v w) :
      jsonToProtoBinary E v defs = jsonToProtoBinary E w defs ∧
        (RoundTrips E defs w ↔ ¬ spec.TypeLoses m.responseType w) := by
    have same := encode_denotes E (legal_response generated legal empty done complete) denotes
    refine ⟨same, roundTrips_message generated empty legal done complete typed ?_⟩
    intro bytes written
    rw [← same] at written
    exact small depth bytes ((encoded done).2 written)
  constructor
  · intro carried
    obtain ⟨depth, defs, bytes, decoded, done, complete, out, read, w, typed, denotes, rfl⟩ := carried
    obtain ⟨same, keeps⟩ := back done complete typed denotes
    refine ⟨messageFields_complete_iff.1 ⟨depth, defs, done, complete⟩, depth, defs, w, done, typed,
      denotes, keeps.1 ⟨bytes, ?_, read⟩⟩
    rw [← same]
    exact (encoded done).1 out
  · intro h
    obtain ⟨sound, depth, defs, w, done, typed, denotes, keeps⟩ := h
    obtain ⟨depth', defs', done', complete⟩ := messageFields_complete_iff.2 sound
    have unique := messageFields_unique done done'
    subst unique
    obtain ⟨same, back⟩ := back done' complete typed denotes
    obtain ⟨bytes, out, read⟩ := back.2 keeps
    rw [← same] at out
    exact ⟨depth', _, bytes, _, done', complete, (encoded done').2 out, read, w, typed, denotes, rfl⟩

theorem carried_iff (legal : spec.LegalFrom m.responseType) {h : Holding} (typed : h.Typed spec m v)
    (small : ∀ depth bytes, spec.encodeResponse E depth m.fullPath v = some (.ok bytes) →
      bytes.length ≤ isizeMax) :
    Carried spec m E h v ↔ spec.Sound m.responseType ∧ h.Keeps spec m v := by
  have fields (sound : spec.Sound m.responseType) :
      ∃ depth defs, spec.messageFields depth m.responseType = some (some defs) := by
    obtain ⟨depth, defs, done, -⟩ := messageFields_complete_iff.2 sound
    exact ⟨depth, defs, done⟩
  cases h with
  | itself => exact carried_itself_iff generated mem legal small
  | valueField absent =>
    rw [carried_plain_iff generated mem typed]
    constructor
    · intro h
      obtain ⟨sound, _, _, -, told⟩ := h
      exact ⟨sound, told.symm⟩
    · intro h
      obtain ⟨sound, rfl⟩ := h
      obtain ⟨depth, defs, done⟩ := fields sound
      exact ⟨sound, depth, defs, done, rfl⟩
  | nothing =>
    have plain : v.asObject = none := by
      rw [show v = .null from typed]
      rfl
    rw [carried_plain_iff generated mem plain]
    constructor
    · intro h
      exact ⟨h.1, trivial⟩
    · intro h
      obtain ⟨depth, defs, done⟩ := fields h.1
      exact ⟨h.1, depth, defs, done, trivial⟩

end Carried

/-! ## Requests -/

/-- The members of a request that a struct knows. -/
def knownMembers (members : List Str) (request : List (Str × Value)) : List (Str × Value) :=
  request.filter fun e => members.contains e.1

theorem lookup_knownMembers {members : List Str} {n : Str} (known : n ∈ members)
    (request : List (Str × Value)) :
    SortedMap.lookup n (knownMembers members request) = SortedMap.lookup n request := by
  induction request with
  | nil => rfl
  | cons e request ih =>
    obtain ⟨key, v⟩ := e
    rw [knownMembers, List.filter_cons, SortedMap.lookup_cons]
    by_cases same : n = key
    · subst same
      simp [known, SortedMap.lookup_cons]
    · rw [if_neg same, ← ih]
      split
      · rw [SortedMap.lookup_cons, if_neg same]
        rfl
      · rfl

section Request

variable (spec : GrpcServiceSpec) (m : MethodSpec) {V : Type} (S : Serde V) (v : V)
  (request : List (Str × Value))

/-- A request that holds a value behind the captures: its members, or the field `body`. -/
structure RestType.Asks (t : RestType) : Prop where
  typed : spec.TypeOf m.requestType (.obj request)
  body : match t with
    | .message T members _ _ =>
      if T.protoFields.isEmpty then SortedMap.lookup "body".toList request = some (S.write v)
      else ∀ depth defs, spec.messageFields depth m.requestType = some (some defs) →
        Denotes defs (S.write v) (.obj (knownMembers members request))
    | .unit => True
    | _ => SortedMap.lookup "body".toList request = some (S.write v)

/-- The bytes of the request are decoded where its path has captures, and handed on as they are
where it has none. The extractor reads the value. -/
def Delivered (E : Externals) (fromSlice : List UInt8 → Option Value) : Prop :=
  ∃ depth defs bytes, spec.messageFields depth m.requestType = some (some defs) ∧ Complete defs ∧
    spec.encodeMessage E depth m.requestType (.obj request) = some (.ok bytes) ∧
    if Substring.contains Client.placeholder m.restPath then
      spec.decodeRequest E depth m.fullPath bytes =
          some (.ok (withoutDefaults defs (.obj request))) ∧
        S.read (withoutDefaults defs (.obj request)) = some v
    else (fromSlice bytes).bind S.read = some v

/-- The bytes of the request are JSON text that the value is read from. -/
def ReadAsText (E : Externals) (fromSlice : List UInt8 → Option Value) : Prop :=
  ∃ depth bytes, spec.encodeMessage E depth m.requestType (.obj request) = some (.ok bytes) ∧
    (fromSlice bytes).bind S.read = some v

/-- A struct that is read without the members at their defaults, and from members of the request
itself. -/
def RestType.ReadBack : RestType → Prop
  | message _ members _ _ => ∃ depth defs,
    spec.messageFields depth m.requestType = some (some defs) ∧
      S.read (withoutDefaults defs (.obj (knownMembers members request))) = some v
  | _ => False

end Request

section Delivered

variable {E : Externals} {toUppercase : Char → Str} {api : List Endpoint} {serviceName package : Str}
  {spec : GrpcServiceSpec} {m : MethodSpec} {V : Type} {S : Serde V} {v : V}
  {request : List (Str × Value)}

/-- A struct is read from the members it knows. -/
theorem read_knownMembers {members : List Str}
    (documented : ∀ a b : List (Str × Value), (∀ n ∈ members, SortedMap.lookup n a =
      SortedMap.lookup n b) → S.read (.obj a) = S.read (.obj b)) (sorted : SortedMap.Sorted request)
    (defs : List ProtoFieldDef) :
    S.read (withoutDefaults defs (.obj request)) =
      S.read (withoutDefaults defs (.obj (knownMembers members request))) := by
  rw [withoutDefaults_obj, withoutDefaults_obj]
  apply documented
  intro n known
  have part : SortedMap.Sorted (knownMembers members request) := List.Pairwise.filter _ sorted
  rw [SortedMap.lookup_mapMaybe _ sorted, SortedMap.lookup_mapMaybe _ part,
    lookup_knownMembers known]

theorem sorted_of_typed (typed : spec.TypeOf m.requestType (.obj request)) :
    SortedMap.Sorted request := by
  obtain ⟨-, same⟩ | ⟨-, msg, -, typed⟩ := typed
  · cases same
    exact SortedMap.sorted_nil
  · cases typed with
    | obj field sorted => exact sorted

/-- What a type is read from once its request has come through. -/
theorem read_iff {t : RestType} (documented : t.Documented S)
    (typed : spec.TypeOf m.requestType (.obj request)) {depth : Nat} {defs : List ProtoFieldDef}
    (done : spec.messageFields depth m.requestType = some (some defs)) :
    S.read (withoutDefaults defs (.obj request)) = some v ↔ t.ReadBack spec m S v request := by
  have other (none : ∀ a, S.read (.obj a) = none) :
      ¬ S.read (withoutDefaults defs (.obj request)) = some v := by
    rw [withoutDefaults_obj, none]
    simp
  cases t with
  | message T members composite named =>
    rw [read_knownMembers documented (sorted_of_typed typed)]
    constructor
    · intro read
      exact ⟨depth, defs, done, read⟩
    · intro h
      obtain ⟨depth', defs', done', read⟩ := h
      have same := messageFields_unique done done'
      subst same
      exact read
  | primitive s => exact iff_of_false (other documented) id
  | bytes => exact iff_of_false (other documented) id
  | vec item => exact iff_of_false (other documented) id
  | unit => exact iff_of_false (other documented) id

theorem encodeMessage_unique {name : Str} {depth depth' : Nat} {defs : List ProtoFieldDef}
    {w : Value} {bytes : List UInt8} (done : spec.messageFields depth name = some (some defs))
    (encoded : spec.encodeMessage E depth' name w = some (.ok bytes)) :
    spec.encodeMessage E depth name w = some (.ok bytes) := by
  by_cases empty : name = "google.protobuf.Empty".toList
  · rw [encodeMessage, if_pos empty] at encoded ⊢
    exact encoded
  · have done' : ∃ defs', spec.messageFields depth' name = some (some defs') := by
      rw [encodeMessage, if_neg empty] at encoded
      cases fields : spec.messageFields depth' name with
      | none =>
        rw [fields] at encoded
        cases encoded
      | some found =>
        cases found with
        | none =>
          rw [fields] at encoded
          cases encoded
        | some defs' => exact ⟨defs', rfl⟩
    obtain ⟨defs', done'⟩ := done'
    have same := messageFields_unique done done'
    subst same
    rw [encodeMessage_eq_ok empty done'] at encoded
    exact (encodeMessage_eq_ok empty done E).2 encoded

theorem delivered_iff (generated : spec = grpcSpec toUppercase api serviceName package)
    (mem : m ∈ spec.methods.map Prod.snd) (legal : spec.LegalFrom m.requestType) {t : RestType}
    (documented : t.Documented S) (asks : t.Asks spec m S v request)
    (small : ∀ depth bytes, spec.encodeMessage E depth m.requestType (.obj request) =
      some (.ok bytes) → bytes.length ≤ isizeMax) (fromSlice : List UInt8 → Option Value) :
    Delivered spec m S v request E fromSlice ↔ spec.Sound m.requestType ∧
      if Substring.contains Client.placeholder m.restPath then
        ¬ spec.TypeLoses m.requestType (.obj request) ∧ t.ReadBack spec m S v request
      else ReadAsText spec m S v request E fromSlice := by
  have back := request_back_iff generated mem legal asks.typed small
  rw [Delivered]
  split_ifs with captures
  · constructor
    · intro delivered
      obtain ⟨depth, defs, bytes, done, complete, encoded, decoded, read⟩ := delivered
      have sound := messageFields_complete_iff.1 ⟨depth, defs, done, complete⟩
      refine ⟨sound, (back sound).1 ⟨depth, defs, bytes, done, encoded, decoded⟩, ?_⟩
      exact (read_iff documented asks.typed done).1 read
    · intro h
      obtain ⟨sound, keeps, read⟩ := h
      obtain ⟨_, _, done', complete⟩ := messageFields_complete_iff.2 sound
      obtain ⟨depth, defs, bytes, done, encoded, decoded⟩ := (back sound).2 keeps
      have same := messageFields_unique done done'
      subst same
      exact ⟨depth, _, bytes, done, complete, encoded, decoded,
        (read_iff documented asks.typed done).2 read⟩
  · constructor
    · intro delivered
      obtain ⟨depth, defs, bytes, done, complete, encoded, read⟩ := delivered
      exact ⟨messageFields_complete_iff.1 ⟨depth, defs, done, complete⟩, depth, bytes, encoded, read⟩
    · intro h
      obtain ⟨sound, _, bytes, encoded, read⟩ := h
      obtain ⟨depth, defs, done, complete⟩ := messageFields_complete_iff.2 sound
      exact ⟨depth, defs, bytes, done, complete, encodeMessage_unique done encoded, read⟩

end Delivered

/-! ## Endpoints -/

/-- An endpoint with what its types are. -/
structure RestEndpoint where
  endpoint : Endpoint
  req : Option RestType
  res : RestType
  req_eq : endpoint.req = req.map RestType.toProtoType
  res_eq : endpoint.res = res.toProtoType

namespace RestEndpoint

variable (R : RestEndpoint) (toUppercase : Char → Str) (package serviceName : Str)
  (spec : GrpcServiceSpec)

def method : MethodSpec :=
  (R.endpoint.toRpc toUppercase).spec package serviceName

def sent (response : Value) : List Value :=
  sentValues R.endpoint.serverStream response

def holding : Holding :=
  R.res.holding R.endpoint.serverStream

/-- Each value that is sent is carried by its message, and the value in the request reaches the
extractor, if there is one. -/
structure Survives {V : Type} (S : Serde V) (E : Externals)
    (fromSlice : List UInt8 → Option Value) (response : Value) (v : V)
    (request : List (Str × Value)) : Prop where
  response : ∀ x ∈ R.sent response,
    Carried spec (R.method toUppercase package serviceName) E R.holding x
  request : R.req.isSome →
    Delivered spec (R.method toUppercase package serviceName) S v request E fromSlice

/-- What comes through: responses that are messages without a map entry and a negative enumerator,
defaults, empty lists or unit, and requests that are messages of this kind, read without their
defaults, behind a path with captures. -/
structure Safe {V : Type} (S : Serde V) (E : Externals) (fromSlice : List UInt8 → Option Value)
    (response : Value) (v : V) (request : List (Str × Value)) : Prop where
  response : ∀ x ∈ R.sent response,
    spec.Sound (R.method toUppercase package serviceName).responseType ∧
      R.holding.Keeps spec (R.method toUppercase package serviceName) x
  request : ∀ t ∈ R.req, spec.Sound (R.method toUppercase package serviceName).requestType ∧
    if Substring.contains Client.placeholder (R.method toUppercase package serviceName).restPath then
      ¬ spec.TypeLoses (R.method toUppercase package serviceName).requestType (.obj request) ∧
        t.ReadBack spec (R.method toUppercase package serviceName) S v request
    else ReadAsText spec (R.method toUppercase package serviceName) S v request E fromSlice

end RestEndpoint

/-- **REST values behind the messages** come through if the messages are legal and the values safe,
and legal messages with other values do not. -/
theorem restValues_iff (E : Externals) (fromSlice : List UInt8 → Option Value)
    {toUppercase : Char → Str} {api : List Endpoint} {serviceName package : Str}
    {spec : GrpcServiceSpec} (generated : spec = grpcSpec toUppercase api serviceName package)
    {R : RestEndpoint} (mem : R.method toUppercase package serviceName ∈ spec.methods.map Prod.snd)
    {V : Type} {S : Serde V} (documented : ∀ t ∈ R.req, t.Documented S) {response : Value}
    (typed : ∀ x ∈ R.sent response,
      R.holding.Typed spec (R.method toUppercase package serviceName) x)
    {v : V} {request : List (Str × Value)}
    (asks : ∀ t ∈ R.req, t.Asks spec (R.method toUppercase package serviceName) S v request)
    (smallResponse : ∀ x ∈ R.sent response, ∀ depth bytes,
      spec.encodeResponse E depth (R.method toUppercase package serviceName).fullPath x =
        some (.ok bytes) → bytes.length ≤ isizeMax)
    (smallRequest : ∀ depth bytes,
      spec.encodeMessage E depth (R.method toUppercase package serviceName).requestType
        (.obj request) = some (.ok bytes) → bytes.length ≤ isizeMax) :
    let Legal := spec.LegalFrom (R.method toUppercase package serviceName).requestType ∧
      spec.LegalFrom (R.method toUppercase package serviceName).responseType
    (Legal ∧ R.Safe toUppercase package serviceName spec S E fromSlice response v request →
        R.Survives toUppercase package serviceName spec S E fromSlice response v request) ∧
      (R.Survives toUppercase package serviceName spec S E fromSlice response v request → Legal →
        R.Safe toUppercase package serviceName spec S E fromSlice response v request) := by
  intro Legal
  have carried (legal : Legal) (x : Value) (here : x ∈ R.sent response) :=
    carried_iff generated mem legal.2 (typed x here) (smallResponse x here)
  have delivered (legal : Legal) (t : RestType) (here : t ∈ R.req) :=
    delivered_iff generated mem legal.1 (documented t here) (asks t here) smallRequest fromSlice
  constructor
  · rintro ⟨legal, safe⟩
    constructor
    · intro x here
      exact (carried legal x here).2 (safe.response x here)
    · intro body
      obtain ⟨t, here⟩ := Option.isSome_iff_exists.1 body
      exact (delivered legal t here).2 (safe.request t here)
  · intro survives legal
    constructor
    · intro x here
      exact (carried legal x here).1 (survives.response x here)
    · intro t here
      exact (delivered legal t here).1 (survives.request (Option.isSome_of_mem here))

/-! ## A sound request -/

/-- `NewUser` as `serde` reads it, an absent name being an error. -/
def nameSerde : Serde Str where
  write name := .obj [("name".toList, .str name)]
  read
    | .obj map =>
      match SortedMap.lookup "name".toList map with
      | some (.str name) => some name
      | _ => none
    | _ => none
  read_write _ := rfl

theorem newUserStruct_named :
    (structOf "NewUser".toList (protoFieldOf "name".toList "string".toList false)).protoTypeName ≠
      "google.protobuf.Empty".toList := by
  decide

/-- `PUT /users/{}` with a `NewUser`. -/
def updateUserEndpoint : RestEndpoint where
  endpoint :=
    { method := .put
      path := .lit "users".toList (.capture .string .hnil)
      req := some (structOf "NewUser".toList (protoFieldOf "name".toList "string".toList false))
      res := { protoTypeName := "google.protobuf.Empty".toList }
      named := by decide }
  req := some (.message (structOf "NewUser".toList
    (protoFieldOf "name".toList "string".toList false)) ["name".toList] rfl newUserStruct_named)
  res := .unit
  req_eq := rfl
  res_eq := rfl

def updateSpec : GrpcServiceSpec :=
  grpcSpec upperAscii [updateUserEndpoint.endpoint] "Users".toList "v1".toList

def updateUser : MethodSpec where
  name := "UpdateUser".toList
  fullPath := "/v1.Users/UpdateUser".toList
  restPath := "/users/\x7b\x7d".toList
  httpMethod := "PUT".toList
  requestType := "UpdateUserRequest".toList
  responseType := "google.protobuf.Empty".toList
  serverStreaming := false
  clientStreaming := false

/-- The capture and the name of the body. -/
def annIsAda : List (Str × Value) :=
  [("name".toList, .str "Ada".toList), ("param1".toList, .str "ann".toList)]

theorem updateUserEndpoint_method :
    updateUserEndpoint.method upperAscii "v1".toList "Users".toList = updateUser := by
  decide

theorem updateSpec_methods : updateUser ∈ updateSpec.methods.map Prod.snd := by
  decide

def updateFields : List FieldSpec :=
  [plainSpec "param1".toList "string".toList false,
    { plainSpec "name".toList "string".toList false with tag := 2 }]

theorem updateSpec_request : IndexMap.lookup updateUser.requestType updateSpec.messages =
    some ⟨updateUser.requestType, updateFields⟩ := by
  rfl

theorem updateUser_message : updateUser.requestType ≠ "google.protobuf.Empty".toList := by
  decide

theorem updateFields_texts : Texts updateFields := by
  intro f mem
  rcases List.mem_pair.1 mem with rfl | rfl <;> exact ⟨rfl, rfl, rfl⟩

theorem updateUser_legal : updateSpec.LegalFrom updateUser.requestType := by
  refine legalFrom_texts updateSpec_request updateFields_texts ⟨?_, ?_⟩
  · refine .cons (List.forall_mem_singleton.2 ?_) (List.pairwise_singleton _ _)
    decide
  · refine .cons (List.forall_mem_singleton.2 ?_) (List.pairwise_singleton _ _)
    decide

theorem nameSerde_documented : ∀ t ∈ updateUserEndpoint.req, t.Documented nameSerde := by
  intro t here
  cases here
  intro a b same
  show (match SortedMap.lookup "name".toList a with
    | some (.str name) => some name
    | _ => none) = _
  rw [same "name".toList (by simp)]
  rfl

def updateDefs : List ProtoFieldDef :=
  [entryField "param1".toList (.scalar .string) 1, entryField "name".toList (.scalar .string) 2]

theorem updateUser_fields (depth : Nat) :
    updateSpec.messageFields (depth + 1) updateUser.requestType = some (some updateDefs) := by
  refine (messageFields_eq_some updateUser_message).2 ⟨_, updateSpec_request, ?_⟩
  rw [fieldSpecsToDefs_succ]
  exact .cons rfl (.cons rfl .nil)

theorem annIsAda_typed : updateSpec.TypeOf updateUser.requestType (.obj annIsAda) := by
  have field (f : FieldSpec) (mem : f ∈ updateFields) (text : Str) :
      updateSpec.MemberOf f (.str text) := by
    obtain ⟨type, plain, one⟩ := updateFields_texts f mem
    exact .single plain one (.scalar (s := .string) type ⟨_, rfl⟩)
  refine .inr ⟨updateUser_message, _, updateSpec_request, ?_⟩
  refine .obj (fun name => if name = "param1".toList then plainSpec name "string".toList false
    else { plainSpec name "string".toList false with tag := 2 }) ?_ ?_ ?_
  · refine .cons (List.forall_mem_singleton.2 ?_) (List.pairwise_singleton _ _)
    decide
  · intro e mem
    rcases List.mem_pair.1 mem with rfl | rfl
    · exact ⟨List.mem_cons_of_mem _ (List.mem_singleton_self _), rfl⟩
    · exact ⟨List.mem_cons_self, rfl⟩
  · intro e mem
    rcases List.mem_pair.1 mem with rfl | rfl
    · exact field _ (List.mem_cons_of_mem _ (List.mem_singleton_self _)) _
    · exact field _ List.mem_cons_self _

theorem annIsAda_asks : ∀ t ∈ updateUserEndpoint.req,
    t.Asks updateSpec updateUser nameSerde "Ada".toList annIsAda := by
  intro t here
  cases here
  refine ⟨annIsAda_typed, ?_⟩
  show ∀ depth defs, _
  intro depth defs done
  have same := messageFields_unique (updateUser_fields 0) done
  subst same
  rw [denotes_iff]
  refine ⟨_, _, rfl, rfl, ?_⟩
  intro f mem
  rcases List.mem_pair.1 mem with rfl | rfl
  · exact trivial
  · rfl

theorem annIsAda_readBack : ∀ t ∈ updateUserEndpoint.req,
    t.ReadBack updateSpec updateUser nameSerde "Ada".toList annIsAda := by
  intro t here
  cases here
  refine ⟨1, _, updateUser_fields 0, ?_⟩
  rw [withoutDefaults_obj]
  rfl

theorem annIsAda_small (depth : Nat) (bytes : List UInt8)
    (encoded : updateSpec.encodeMessage readsNothing depth updateUser.requestType (.obj annIsAda) =
      some (.ok bytes)) : bytes.length ≤ isizeMax := by
  have here := encodeMessage_unique (updateUser_fields 0) encoded
  rw [encodeMessage_eq_ok updateUser_message (updateUser_fields 0)] at here
  have first := memberBytes_entry readsNothing 1 (carries_string "ann".toList) ⟨_, rfl⟩ rfl
    rfl (show SortedMap.lookup "param1".toList annIsAda = some _ from rfl)
  have second := memberBytes_entry readsNothing 2 (carries_string "Ada".toList) ⟨_, rfl⟩ rfl
    rfl (show SortedMap.lookup "name".toList annIsAda = some _ from rfl)
  rw [jsonToProtoBinary_obj] at here
  obtain ⟨parts, all, rfl⟩ := concatM_eq_ok.1 here
  obtain ⟨_, _, one, rest, rfl⟩ := List.forall₂_cons_left_iff.1 all
  obtain ⟨_, _, two, last, rfl⟩ := List.forall₂_cons_left_iff.1 rest
  cases List.forall₂_nil_left_iff.1 last
  cases first.symm.trans one
  cases second.symm.trans two
  rw [List.flatten_cons, List.flatten_cons, List.flatten_nil, List.append_nil, List.length_append]
  exact (Nat.add_le_add (record_delimited_length _ _) (record_delimited_length _ _)).trans (by decide)

theorem updateSpec_empty :
    IndexMap.lookup "google.protobuf.Empty".toList updateSpec.messages = none := by
  decide

theorem updateUser_legalResponse : updateSpec.LegalFrom updateUser.responseType := by
  have free {msg : MessageSpec}
      (found : IndexMap.lookup updateUser.responseType updateSpec.messages = some msg) : False := by
    cases updateSpec_empty.symm.trans found
  intro a reach msg found
  obtain same | ⟨_, step, -⟩ := Relation.ReflTransGen.cases_head reach
  · subst same
    exact (free found).elim
  · obtain ⟨msg, found, -⟩ := step
    exact (free found).elim

theorem restValues_updateUser :
    updateUserEndpoint.Survives upperAscii "v1".toList "Users".toList updateSpec nameSerde
      readsNothing (fun _ => none) .null "Ada".toList annIsAda := by
  have small : ∀ x ∈ updateUserEndpoint.sent .null, ∀ depth bytes,
      updateSpec.encodeResponse readsNothing depth updateUser.fullPath x = some (.ok bytes) →
        bytes.length ≤ isizeMax := by
    intro x _ depth bytes encoded
    have same : updateSpec.encodeResponse readsNothing depth updateUser.fullPath x =
        updateSpec.encodeMessage readsNothing depth updateUser.responseType x :=
      encodeResponse_eq rfl updateSpec_methods
    have plain : updateSpec.encodeMessage readsNothing depth updateUser.responseType x =
        some (.ok []) := if_pos rfl
    rw [same, plain] at encoded
    cases encoded
    exact Nat.zero_le _
  have captures : Substring.contains Client.placeholder updateUser.restPath = true := by decide
  refine (restValues_iff readsNothing (fun _ => none) rfl ?_ nameSerde_documented ?_ ?_ ?_ ?_).1
    ⟨⟨?_, ?_⟩, ?_, ?_⟩
  all_goals rw [updateUserEndpoint_method]
  · exact updateSpec_methods
  · exact List.forall_mem_singleton.2 rfl
  · exact annIsAda_asks
  · exact small
  · exact annIsAda_small
  · exact updateUser_legal
  · exact updateUser_legalResponse
  · exact fun x _ => ⟨.inl rfl, trivial⟩
  · intro t here
    rw [captures]
    exact ⟨sound_texts updateSpec_request updateFields_texts,
      not_typeLoses_texts updateSpec_request updateFields_texts _, annIsAda_readBack t here⟩

/-! ## Values that get lost -/

/-- `GET /count` with a `u32`. -/
def countEndpoint : RestEndpoint where
  endpoint := listEndpoint "count".toList (RestType.primitive .uint32).toProtoType
  req := none
  res := .primitive .uint32
  req_eq := rfl
  res_eq := rfl

theorem post_named : parseMethod (methodStr .post) = .post := rfl

/-- `POST /games/{}/scores` with a `Vec<u32>`. -/
def scoresEndpoint : RestEndpoint where
  endpoint :=
    { method := .post
      path := .lit "games".toList (.capture .string (.lit "scores".toList .hnil))
      req := some (RestType.vec (RestType.primitive .uint32).toProtoType).toProtoType
      res := { protoTypeName := "google.protobuf.Empty".toList }
      named := post_named }
  req := some (.vec (RestType.primitive .uint32).toProtoType)
  res := .unit
  req_eq := rfl
  res_eq := rfl

def gameSpec : GrpcServiceSpec :=
  grpcSpec upperAscii [countEndpoint.endpoint, scoresEndpoint.endpoint] "Game".toList "v1".toList

/-- A list as `serde` reads it. -/
def listSerde : Serde (List Value) where
  write := .arr
  read := Value.asArray
  read_write _ := rfl

theorem gameSpec_count : countEndpoint.method upperAscii "v1".toList "Game".toList ∈
    gameSpec.methods.map Prod.snd := by
  decide

/-- The response `5` is an empty message, and the list in the request is still in its wrapper when
the extractor reads it. -/
theorem not_restValues_game :
    ¬ countEndpoint.Survives upperAscii "v1".toList "Game".toList gameSpec listSerde readsNothing
      (fun _ => none) (.ofU64 5) [] [] ∧
    ¬ scoresEndpoint.Survives upperAscii "v1".toList "Game".toList gameSpec listSerde readsNothing
      (fun _ => none) .null [.ofU64 5]
      [("body".toList, .arr [.ofU64 5]), ("param1".toList, .str "chess".toList)] := by
  constructor
  · intro survives
    have carried := survives.response (.ofU64 5) (List.mem_singleton_self _)
    obtain ⟨-, _, _, -, told⟩ := (carried_plain_iff rfl gameSpec_count rfl).1 carried
    have default : holdsDefault (.ofU64 0) = holdsDefault (.ofU64 5) := congrArg holdsDefault told
    rw [holdsDefault_ofU64, holdsDefault_ofU64] at default
    cases default
  · intro survives
    obtain ⟨_, defs, _, -, -, -, read⟩ := survives.request rfl
    rw [withoutDefaults_obj] at read
    rcases read with ⟨-, read⟩
    cases read

end Typeway.Grpc
