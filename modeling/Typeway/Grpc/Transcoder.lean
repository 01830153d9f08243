import Typeway.Grpc.TranscodeValues

/-!
# The transcoder of an API

The specification of an API has each method under its path and reads its messages from their
texts. The transcoder brings a request back, up to defaults, exactly if the messages of the
method are sound and the request holds nothing that the codec loses.
-/

namespace Typeway.Grpc

open Checked Typeway.Core Json

/-! ## Messages that are read from their texts -/

/-- The fields of a message have numbers and names of their own. -/
structure MessageSpec.Legal (msg : MessageSpec) : Prop where
  tags : msg.fields.Pairwise fun f g => f.tag ≠ g.tag
  names : msg.fields.Pairwise fun f g => f.name ≠ g.name

/-- A map as the readers make it. -/
def FieldSpec.MapShaped (f : FieldSpec) : Prop :=
  f.isMap = true → f.repeated = false ∧ f.protoType = "map".toList

theorem parseMapFieldSpec_shaped {line : Str} {f : FieldSpec}
    (h : parseMapFieldSpec line = some f) : f.MapShaped := by
  unfold parseMapFieldSpec at h
  simp only [Option.bind_eq_bind, Option.bind_eq_some_iff, Prod.exists] at h
  obtain ⟨_, _, -, _, _, -, _, _, -, h⟩ := h
  split at h
  · obtain ⟨_, -, h⟩ := Option.bind_eq_some_iff.1 h
    cases Option.some.inj h
    exact fun _ => ⟨rfl, rfl⟩
  · cases h

theorem parseFieldSpec_shaped {line : Str} {f : FieldSpec} (h : parseFieldSpec line = some f) :
    f.MapShaped := by
  unfold parseFieldSpec at h
  dsimp only at h
  split at h
  · cases h
  · split at h
    · exact parseMapFieldSpec_shaped h
    · split at h
      · obtain ⟨_, -, h⟩ := Option.bind_eq_some_iff.1 h
        cases Option.some.inj h
        exact fun isMap => by cases isMap
      · cases h

theorem MessageReader.step_shaped {s : MessageReader} (shaped : ∀ f ∈ s.fields, f.MapShaped)
    (line : Str) : ∀ f ∈ (s.step line).fields, f.MapShaped := by
  unfold MessageReader.step
  dsimp only
  split
  · exact shaped
  · split
    · exact shaped
    · split
      · split
        · rename_i field read
          have here := parseFieldSpec_shaped read
          intro f mem
          rcases List.mem_append.1 mem with mem | mem
          · exact shaped f mem
          · rw [List.mem_singleton.1 mem]
            cases s.pendingDoc with
            | none => exact here
            | some doc => exact here
        · exact shaped
      · exact shaped

theorem parseMessageSpec_shaped (definition : Str) :
    ∀ f ∈ (parseMessageSpec definition).fields, f.MapShaped := by
  have run : ∀ (ls : List Str) (s : MessageReader), (∀ f ∈ s.fields, f.MapShaped) →
      ∀ f ∈ (ls.foldl MessageReader.step s).fields, f.MapShaped := by
    intro ls
    induction ls with
    | nil => exact fun s shaped => shaped
    | cons line ls ih => exact fun s shaped => ih _ (MessageReader.step_shaped shaped line)
  exact run _ {} fun f mem => nomatch mem

/-! ## The specification of an API -/

section Api

variable {toUppercase : Char → Str} {api : List Endpoint} {serviceName package : Str}

theorem insertMessages_shaped {messages : List (Str × MessageSpec)}
    (shaped : ∀ e ∈ messages, ∀ f ∈ e.2.fields, f.MapShaped) (rpc : RpcMethod) :
    ∀ e ∈ rpc.insertMessages messages, ∀ f ∈ e.2.fields, f.MapShaped := by
  have one {messages : List (Str × MessageSpec)}
      (shaped : ∀ e ∈ messages, ∀ f ∈ e.2.fields, f.MapShaped) (m : ProtoMessage) :
      ∀ e ∈ insertMessage messages m, ∀ f ∈ e.2.fields, f.MapShaped := by
    intro e mem
    rcases IndexMap.mem_insertNew mem with rfl | mem
    · exact parseMessageSpec_shaped _
    · exact shaped e mem
  unfold RpcMethod.insertMessages
  cases rpc.requestMessage with
  | none =>
    dsimp only
    split
    · exact shaped
    · exact one shaped _
  | some req =>
    have request := one shaped req
    dsimp only
    split
    · exact request
    · exact one request _

theorem grpcSpec_shaped : ∀ e ∈ (grpcSpec toUppercase api serviceName package).messages,
    ∀ f ∈ e.2.fields, f.MapShaped := by
  have run : ∀ (rpcs : List RpcMethod) (messages : List (Str × MessageSpec)),
      (∀ e ∈ messages, ∀ f ∈ e.2.fields, f.MapShaped) →
      ∀ e ∈ rpcs.foldl RpcMethod.insertMessages messages, ∀ f ∈ e.2.fields, f.MapShaped := by
    intro rpcs
    induction rpcs with
    | nil => exact fun messages shaped => shaped
    | cons rpc rpcs ih => exact fun messages shaped => ih _ (insertMessages_shaped shaped rpc)
  exact run _ [] fun e mem => nomatch mem

/-- A method stands under its own name and has the path that belongs to it. -/
structure MethodsOf (package serviceName : Str) (methods : List (Str × MethodSpec)) : Prop where
  keyed : IndexMap.Keyed methods
  named : ∀ e ∈ methods, e.2.fullPath = fullPath package serviceName e.1

theorem grpcSpec_methods :
    MethodsOf package serviceName (grpcSpec toUppercase api serviceName package).methods := by
  have run : ∀ (rpcs : List RpcMethod) (methods : List (Str × MethodSpec)),
      MethodsOf package serviceName methods → MethodsOf package serviceName (rpcs.foldl
        (fun methods rpc => IndexMap.insert rpc.name (rpc.spec package serviceName) methods)
        methods) := by
    intro rpcs
    induction rpcs with
    | nil => exact fun methods h => h
    | cons rpc rpcs ih =>
      intro methods h
      refine ih _ ⟨h.keyed.insert _ _, fun e mem => ?_⟩
      rcases IndexMap.mem_insert mem with rfl | mem
      · rfl
      · exact h.named e mem
  exact run _ [] ⟨List.nodup_nil, fun e mem => nomatch mem⟩

/-- Every method is found by its path. -/
theorem MethodsOf.findMethod {spec : GrpcServiceSpec}
    (h : MethodsOf package serviceName spec.methods) {m : MethodSpec}
    (mem : m ∈ spec.methods.map Prod.snd) : spec.findMethod m.fullPath = some m := by
  obtain ⟨e, memE, rfl⟩ := List.mem_map.1 mem
  rw [GrpcServiceSpec.findMethod]
  cases found : (spec.methods.map Prod.snd).find? fun m => m.fullPath = e.2.fullPath with
  | none =>
    have := List.find?_eq_none.1 found e.2 mem
    simp at this
  | some m =>
    obtain ⟨e', mem', rfl⟩ := List.mem_map.1 (List.mem_of_find?_eq_some found)
    have same : e'.2.fullPath = e.2.fullPath := of_decide_eq_true (List.find?_some found :)
    rw [h.named e memE, h.named e' mem', fullPath_inj] at same
    have first := IndexMap.lookup_of_mem h.keyed mem'
    rw [same, IndexMap.lookup_of_mem h.keyed memE] at first
    exact first.symm

end Api

/-! ## Legal definitions -/

namespace GrpcServiceSpec

variable {spec : GrpcServiceSpec}

theorem Defines.tags {inner : List FieldSpec → List ProtoFieldDef → Prop}
    {fields : List FieldSpec} {defs : List ProtoFieldDef}
    (done : List.Forall₂ (spec.Defines inner) fields defs) :
    defs.map ProtoFieldDef.tag = fields.map FieldSpec.tag ∧
      defs.map ProtoFieldDef.name = fields.map FieldSpec.name := by
  induction done with
  | nil => exact ⟨rfl, rfl⟩
  | cons here _ ih =>
    rw [List.map_cons, List.map_cons, List.map_cons, List.map_cons, ih.1, ih.2, here.eq_toDef]
    exact ⟨rfl, rfl⟩

theorem Defines.distinct {inner : List FieldSpec → List ProtoFieldDef → Prop} {msg : MessageSpec}
    {defs : List ProtoFieldDef} (done : List.Forall₂ (spec.Defines inner) msg.fields defs)
    (legal : msg.Legal) : Distinct defs := by
  obtain ⟨tags, names⟩ := Defines.tags done
  constructor
  · rw [← List.pairwise_map (R := (· ≠ ·)), tags, List.pairwise_map]
    exact legal.tags
  · rw [← List.pairwise_map (R := (· ≠ ·)), names, List.pairwise_map]
    exact legal.names

variable (spec) in
/-- The messages that a message refers to are legal, itself included. -/
def LegalFrom (name : Str) : Prop :=
  ∀ a, Relation.ReflTransGen spec.Refers name a →
    ∀ msg, IndexMap.lookup a spec.messages = some msg → msg.Legal

/-- The definitions of a legal message are legal, if they are complete. -/
theorem legal_defs (shaped : ∀ e ∈ spec.messages, ∀ f ∈ e.2.fields, f.MapShaped) {depth : Nat}
    {name : Str} (legal : spec.LegalFrom name) {msg : MessageSpec} (found : IndexMap.lookup name spec.messages = some msg)
    {defs : List ProtoFieldDef} (done : spec.fieldSpecsToDefs depth msg.fields = some defs)
    (complete : Complete defs) : Legal defs := by
  induction depth generalizing name msg defs with
  | zero => cases done
  | succ depth ih =>
    rw [fieldSpecsToDefs_succ] at done
    have mem := IndexMap.mem_of_lookup found
    obtain ⟨message, map, nested⟩ := complete
    refine .intro (Defines.distinct done (legal _ .refl _ found)) ?_ ?_
    · intro d memD
      refine ⟨fun isMap => ?_, message d memD⟩
      obtain ⟨f, memF, defines⟩ := exists_left done memD
      have same := defines.eq_toDef
      have fieldMap : f.isMap = true := by
        rw [same] at isMap
        exact isMap
      obtain ⟨one, type⟩ := shaped _ mem f memF fieldMap
      have none : d.nestedFields = none := by
        rw [Option.eq_none_iff_forall_ne_some]
        intro inner some
        obtain ⟨_, lookedUp, -⟩ := defines.nested_iff.1 some
        cases fieldMap.symm.trans (nestedMessage_eq_some.1 lookedUp).2.1
      refine ⟨?_, none, "map".toList, ?_⟩
      · rw [same]
        exact one
      · rw [same, FieldSpec.toDef, type]
        rfl
    · intro d memD inner some
      obtain ⟨f, memF, defines⟩ := exists_left done memD
      obtain ⟨_, lookedUp, done, -⟩ := defines.nested_iff.1 some
      obtain ⟨notScalar, plain, here⟩ := nestedMessage_eq_some.1 lookedUp
      refine ih (fun a reach => ?_) here done (nested d memD inner some)
      exact legal a (.head ⟨msg, found, f, memF, rfl, notScalar, plain⟩ reach)

/-! ## Requests -/

variable (spec) in
/-- What is promised of a method and a request: the fields of its messages are computed, with all
definitions, and the request comes back from its bytes without its defaults. -/
structure Transcodes (E : Externals) (m : MethodSpec) (v : Value) : Prop where
  request : ∃ depth defs, spec.messageFields depth m.requestType = some (some defs) ∧ Complete defs
  response : ∃ depth defs,
    spec.messageFields depth m.responseType = some (some defs) ∧ Complete defs
  back : ∃ depth defs bytes, spec.messageFields depth m.requestType = some (some defs) ∧
    spec.encodeMessage E depth m.requestType v = some (.ok bytes) ∧
    spec.decodeRequest E depth m.fullPath bytes = some (.ok (withoutDefaults defs v))

theorem protoBinaryToJson_nil (E : Externals) (fields : List ProtoFieldDef) :
    protoBinaryToJson E [] fields = .ok (.obj []) := by
  rw [protoBinaryToJson, decodeMembers, jsonLoop, runLoop_done rfl]
  rfl

theorem fromCodec_eq_ok {α : Type} {x : Run CodecError α} {a : α} :
    fromCodec x = .ok a ↔ x = .ok a := by
  cases x with
  | ok a' => exact ⟨fun h => congrArg _ (Except.ok.inj h), fun h => congrArg _ (Except.ok.inj h)⟩
  | error s =>
    constructor
    · intro h
      cases s <;> cases h
    · intro h
      cases h

section Back

variable {name : Str} (message : name ≠ "google.protobuf.Empty".toList) {depth : Nat}
  {defs : List ProtoFieldDef} (done : spec.messageFields depth name = some (some defs))

include message done

theorem encodeMessage_eq (E : Externals) (v : Value) :
    spec.encodeMessage E depth name v =
      some ((jsonToProtoBinary E v defs).mapError .codec) := by
  rw [encodeMessage, if_neg message, done]
  rfl

theorem encodeMessage_eq_ok (E : Externals) {v : Value} {bytes : List UInt8} :
    spec.encodeMessage E depth name v = some (.ok bytes) ↔
      jsonToProtoBinary E v defs = .ok bytes := by
  rw [encodeMessage_eq message done, Option.some_inj]
  cases jsonToProtoBinary E v defs with
  | ok data => exact ⟨fun h => congrArg _ (Except.ok.inj h), fun h => congrArg _ (Except.ok.inj h)⟩
  | error e =>
    constructor
    · intro h
      cases h
    · intro h
      cases h

omit message in
theorem messageFields_unique {depth' : Nat} {defs' : List ProtoFieldDef}
    (done' : spec.messageFields depth' name = some (some defs')) : defs' = defs := by
  have here := messageFields_mono (Nat.le_max_left depth depth') done
  have there := messageFields_mono (Nat.le_max_right depth depth') done'
  exact Option.some.inj (Option.some.inj (there.symm.trans here))

end Back

section Requests

variable {m : MethodSpec} (found : spec.findMethod m.fullPath = some m)
  (message : m.requestType ≠ "google.protobuf.Empty".toList) {depth : Nat}
  {defs : List ProtoFieldDef}
  (done : spec.messageFields depth m.requestType = some (some defs))

include message done found

/-- No bytes are an empty message for the codec too. -/
theorem decodeRequest_eq_ok (E : Externals) {bytes : List UInt8} {v : Value} :
    spec.decodeRequest E depth m.fullPath bytes = some (.ok v) ↔
      protoBinaryToJson E bytes defs = .ok v := by
  rw [decodeRequest, found]
  dsimp only
  split
  · rename_i empty
    have nothing := List.isEmpty_iff.1 (empty.resolve_left message)
    rw [nothing, protoBinaryToJson_nil, Option.some_inj]
    exact ⟨fun h => congrArg _ (Except.ok.inj h), fun h => congrArg _ (Except.ok.inj h)⟩
  · rw [done, Option.map_some, Option.some_inj]
    exact fromCodec_eq_ok

theorem back_iff (E : Externals) {v : Value} :
    (∃ depth defs bytes, spec.messageFields depth m.requestType = some (some defs) ∧
      spec.encodeMessage E depth m.requestType v = some (.ok bytes) ∧
      spec.decodeRequest E depth m.fullPath bytes = some (.ok (withoutDefaults defs v))) ↔
      RoundTrips E defs v := by
  constructor
  · rintro ⟨depth', defs', bytes, done', encoded, decoded⟩
    have same := messageFields_unique done done'
    subst same
    exact ⟨bytes, (encodeMessage_eq_ok message done' E).1 encoded,
      (decodeRequest_eq_ok found message done' E).1 decoded⟩
  · rintro ⟨bytes, encoded, decoded⟩
    exact ⟨depth, defs, bytes, done, (encodeMessage_eq_ok message done E).2 encoded,
      (decodeRequest_eq_ok found message done E).2 decoded⟩

end Requests

end GrpcServiceSpec

open GrpcServiceSpec

section Api

variable {E : Externals} {toUppercase : Char → Str} {api : List Endpoint} {serviceName package : Str}
  {spec : GrpcServiceSpec} (generated : spec = grpcSpec toUppercase api serviceName package)

include generated

/-- Values of a sound message come back exactly if nothing of them is lost. -/
theorem roundTrips_message {name : Str} (message : name ≠ "google.protobuf.Empty".toList)
    (legal : spec.LegalFrom name) {depth : Nat} {defs : List ProtoFieldDef}
    (done : spec.messageFields depth name = some (some defs)) (complete : Complete defs) {v : Value}
    (typed : spec.TypeOf name v)
    (small : ∀ bytes, jsonToProtoBinary E v defs = .ok bytes → bytes.length ≤ isizeMax) :
    RoundTrips E defs v ↔ ¬ spec.TypeLoses name v := by
  have shaped : ∀ e ∈ spec.messages, ∀ f ∈ e.2.fields, f.MapShaped := generated ▸ grpcSpec_shaped
  obtain ⟨empty, -⟩ | ⟨-, msg, known, typed⟩ := typed
  · exact absurd empty message
  obtain ⟨_, same, defined⟩ := (messageFields_eq_some message).1 done
  cases known.symm.trans same
  have closed := (complete_iff defined).1 complete
  have lost : spec.TypeLoses name v ↔ ¬ Survives defs v := by
    rw [← loses_iff defined]
    constructor
    · rintro ⟨-, _, here, loses⟩
      cases known.symm.trans here
      exact loses
    · exact fun loses => ⟨message, msg, known, loses⟩
  rw [lost, not_not]
  exact protoBinary_roundTrips_iff E (legal_defs shaped legal known defined complete)
    (wellTyped_of_messageOf defined closed typed) small

/-- A request of a sound message comes back exactly if nothing of it is lost. -/
theorem request_back_iff {m : MethodSpec} (mem : m ∈ spec.methods.map Prod.snd)
    (legal : spec.LegalFrom m.requestType) {v : Value} (typed : spec.TypeOf m.requestType v)
    (small : ∀ depth bytes, spec.encodeMessage E depth m.requestType v = some (.ok bytes) →
      bytes.length ≤ isizeMax) (sound : spec.Sound m.requestType) :
    (∃ depth defs bytes, spec.messageFields depth m.requestType = some (some defs) ∧
      spec.encodeMessage E depth m.requestType v = some (.ok bytes) ∧
      spec.decodeRequest E depth m.fullPath bytes = some (.ok (withoutDefaults defs v))) ↔
      ¬ spec.TypeLoses m.requestType v := by
  have methods : MethodsOf package serviceName spec.methods := generated ▸ grpcSpec_methods
  have found := methods.findMethod mem
  by_cases empty : m.requestType = "google.protobuf.Empty".toList
  · refine iff_of_true ⟨0, [], [], ?_, if_pos empty, ?_⟩ fun lost => lost.1 empty
    · rw [empty, messageFields_empty]
    · obtain ⟨-, rfl⟩ | ⟨message, -⟩ := typed
      · rw [decodeRequest, found]
        exact if_pos (.inl empty)
      · exact absurd empty message
  · obtain ⟨depth, defs, done, complete⟩ := messageFields_complete_iff.2 sound
    rw [back_iff found empty done]
    refine roundTrips_message generated empty legal done complete typed ?_
    intro bytes encoded
    exact small depth bytes ((encodeMessage_eq_ok empty done E).2 encoded)

end Api

/-- **The transcoder of an API** does what is promised of a method and a request if the messages of
the request are legal, those of the method refer to no cycle and leave nothing out, and the request
has no map entry and no negative enumerator in it. It never does with a cycle or a gap, and with
legal messages only then. -/
theorem transcodes_iff (E : Externals) {toUppercase : Char → Str} {api : List Endpoint}
    {serviceName package : Str} {spec : GrpcServiceSpec}
    (generated : spec = grpcSpec toUppercase api serviceName package)
    {m : MethodSpec} (mem : m ∈ spec.methods.map Prod.snd)
    {v : Value} (typed : spec.TypeOf m.requestType v)
    (small : ∀ depth bytes, spec.encodeMessage E depth m.requestType v = some (.ok bytes) →
      bytes.length ≤ isizeMax) :
    (spec.LegalFrom m.requestType ∧ spec.Sound m.requestType ∧ spec.Sound m.responseType ∧
        ¬ spec.TypeLoses m.requestType v → spec.Transcodes E m v) ∧
      (spec.Transcodes E m v → spec.Sound m.requestType ∧ spec.Sound m.responseType ∧
        (spec.LegalFrom m.requestType → ¬ spec.TypeLoses m.requestType v)) := by
  constructor
  · rintro ⟨legal, request, response, keeps⟩
    exact ⟨messageFields_complete_iff.2 request, messageFields_complete_iff.2 response,
      (request_back_iff generated mem legal typed small request).2 keeps⟩
  · rintro ⟨request, response, comes⟩
    have sound := messageFields_complete_iff.1 request
    exact ⟨sound, messageFields_complete_iff.1 response,
      fun legal => (request_back_iff generated mem legal typed small sound).1 comes⟩

/-! ## Two unsound messages -/

def protoFieldOf (name protoType : Str) (repeated : Bool) : ProtoField where
  name := name
  protoType := protoType
  tag := 1
  repeated := repeated
  optional := false
  isMap := false
  mapKeyType := none
  mapValueType := none
  doc := none

/-- What the derive macro says about a struct of one field. -/
def structOf (name : Str) (field : ProtoField) : ToProtoType where
  protoTypeName := name
  isMessage := true
  messageDefinition := some (buildMessage name [field])
  protoFields := [field]

/-- `GET /resource`. -/
def listEndpoint (resource : Str) (res : ToProtoType) : Endpoint where
  method := .get
  path := .lit resource .hnil
  req := none
  res := res
  named := by decide

/-- `POST /resource`. -/
def createEndpoint (resource : Str) (req res : ToProtoType) : Endpoint where
  method := .post
  path := .lit resource .hnil
  req := some req
  res := res
  named := by decide

def upperAscii (c : Char) : Str :=
  [c.toUpper]

/-- `struct Node { children: Vec<Node> }`. -/
def nodeSpec : GrpcServiceSpec :=
  grpcSpec upperAscii
    [listEndpoint "nodes".toList
      (structOf "Node".toList (protoFieldOf "children".toList "Node".toList true))]
    "Tree".toList "v1".toList

def listNode : MethodSpec where
  name := "ListNode".toList
  fullPath := "/v1.Tree/ListNode".toList
  restPath := "/nodes".toList
  httpMethod := "GET".toList
  requestType := "google.protobuf.Empty".toList
  responseType := "Node".toList
  serverStreaming := false
  clientStreaming := false

/-- `struct Order { buyer: User }`, the user being another struct. -/
def orderSpec : GrpcServiceSpec :=
  grpcSpec upperAscii
    [createEndpoint "orders".toList
      (structOf "Order".toList (protoFieldOf "buyer".toList "User".toList false))
      { protoTypeName := "google.protobuf.Empty".toList }]
    "Shop".toList "v1".toList

def createOrder : MethodSpec where
  name := "CreateOrder".toList
  fullPath := "/v1.Shop/CreateOrder".toList
  restPath := "/orders".toList
  httpMethod := "POST".toList
  requestType := "CreateOrderRequest".toList
  responseType := "google.protobuf.Empty".toList
  serverStreaming := false
  clientStreaming := false

def plainSpec (name protoType : Str) (repeated : Bool) : FieldSpec where
  name := name
  protoType := protoType
  tag := 1
  repeated := repeated
  optional := false
  isMap := false
  mapKeyType := none
  mapValueType := none
  description := none

theorem nodeSpec_node : IndexMap.lookup "Node".toList nodeSpec.messages =
    some ⟨"Node".toList, [plainSpec "children".toList "Node".toList true]⟩ := by
  rfl

theorem orderSpec_request : IndexMap.lookup "CreateOrderRequest".toList orderSpec.messages =
    some ⟨"CreateOrderRequest".toList, [plainSpec "buyer".toList "User".toList false]⟩ := by
  rfl

theorem orderSpec_user : IndexMap.lookup "User".toList orderSpec.messages = none := by
  rfl

theorem node_refers : nodeSpec.Refers "Node".toList "Node".toList :=
  ⟨_, nodeSpec_node, _, List.mem_singleton_self _, rfl, by decide, rfl⟩

theorem order_refers : orderSpec.Refers "CreateOrderRequest".toList "User".toList :=
  ⟨_, orderSpec_request, _, List.mem_singleton_self _, rfl, by decide, rfl⟩

theorem messageOf_nothing {spec : GrpcServiceSpec} (fields : List FieldSpec) :
    spec.MessageOf fields (.obj []) :=
  .obj (fun _ => plainSpec [] [] false) SortedMap.sorted_nil (fun _ mem => nomatch mem)
    fun _ mem => nomatch mem

/-- The response of the first method has no definitions, since the recursion does not end. A
field of the other's request has none. -/
theorem not_transcodes_node :
    (nodeSpec.TypeOf listNode.requestType (.obj []) ∧
      ¬ nodeSpec.Transcodes readsNothing listNode (.obj [])) ∧
    orderSpec.TypeOf createOrder.requestType (.obj []) ∧
      ¬ orderSpec.Transcodes readsNothing createOrder (.obj []) := by
  refine ⟨⟨.inl ⟨rfl, rfl⟩, ?_⟩, .inr ⟨by decide, _, orderSpec_request, messageOf_nothing _⟩, ?_⟩
  · intro h
    rcases messageFields_complete_iff.1 h.response with empty | ⟨free, -⟩
    · revert empty
      decide
    · exact free ⟨_, .refl, .single node_refers⟩
  · intro h
    rcases messageFields_complete_iff.1 h.request with empty | ⟨-, closed⟩
    · revert empty
      decide
    · obtain ⟨msg, found, -⟩ := closed _ (.single order_refers)
      cases orderSpec_user.symm.trans found

/-! ## A sound request -/

/-- Fields of one text each. -/
def Texts (fields : List FieldSpec) : Prop :=
  ∀ f ∈ fields, f.protoType = "string".toList ∧ f.isMap = false ∧ f.repeated = false

section Texts

variable {spec : GrpcServiceSpec} {name : Str} {msg : MessageSpec}
  (found : IndexMap.lookup name spec.messages = some msg) (texts : Texts msg.fields)

include found texts

theorem not_refers_texts {b : Str} : ¬ spec.Refers name b := by
  rintro ⟨msg', found', f, mem, rfl, notScalar, -⟩
  cases found.symm.trans found'
  rw [(texts f mem).1] at notScalar
  revert notScalar
  decide

theorem reaches_texts {b : Str} (reach : Relation.ReflTransGen spec.Refers name b) : b = name := by
  rcases Relation.ReflTransGen.cases_head reach with same | ⟨c, step, -⟩
  · exact same.symm
  · exact (not_refers_texts found texts step).elim

theorem legalFrom_texts (legal : msg.Legal) : spec.LegalFrom name := by
  intro a reach msg' found'
  rw [reaches_texts found texts reach, found] at found'
  cases found'
  exact legal

theorem sound_texts : spec.Sound name := by
  refine .inr ⟨?_, ?_⟩
  · rintro ⟨b, reach, cycle⟩
    rw [reaches_texts found texts reach] at cycle
    obtain ⟨c, step, -⟩ := Relation.TransGen.head'_iff.1 cycle
    exact not_refers_texts found texts step
  · intro a reach
    rw [reaches_texts found texts reach]
    refine ⟨_, found, fun f mem => ?_⟩
    obtain ⟨text, plain, -⟩ := texts f mem
    rw [FieldSpec.Resolvable, plain, if_neg Bool.false_ne_true, text]
    decide

theorem not_typeLoses_texts (v : Value) : ¬ spec.TypeLoses name v := by
  rintro ⟨-, msg', found', loses⟩
  cases found.symm.trans found'
  obtain @⟨_, _, ⟨key, member⟩, f, -, defined, -, loses⟩ := loses
  obtain ⟨text, plain, one⟩ := texts f defined
  dsimp only at loses
  cases loses with
  | map isMap =>
    rw [plain] at isMap
    cases isMap
  | list _ many =>
    rw [one] at many
    cases many
  | single _ _ loses =>
    cases loses with
    | enum type =>
      rw [text] at type
      revert type
      decide
    | message lookedUp =>
      have notScalar := (nestedMessage_eq_some.1 lookedUp).1
      rw [text] at notScalar
      revert notScalar
      decide

end Texts

/-- `struct NewUser { name: String }`. -/
def userSpec : GrpcServiceSpec :=
  grpcSpec upperAscii
    [createEndpoint "users".toList
      (structOf "NewUser".toList (protoFieldOf "name".toList "string".toList false))
      { protoTypeName := "google.protobuf.Empty".toList }]
    "Users".toList "v1".toList

def createUser : MethodSpec where
  name := "CreateUser".toList
  fullPath := "/v1.Users/CreateUser".toList
  restPath := "/users".toList
  httpMethod := "POST".toList
  requestType := "CreateUserRequest".toList
  responseType := "google.protobuf.Empty".toList
  serverStreaming := false
  clientStreaming := false

def newUser : Value :=
  .obj [("name".toList, .str "Ada".toList)]

def nameSpec : FieldSpec :=
  plainSpec "name".toList "string".toList false

theorem userSpec_methods : createUser ∈ userSpec.methods.map Prod.snd := by
  decide

theorem userSpec_request : IndexMap.lookup createUser.requestType userSpec.messages =
    some ⟨createUser.requestType, [nameSpec]⟩ := by
  rfl

theorem createUser_message : createUser.requestType ≠ "google.protobuf.Empty".toList := by
  decide

theorem nameSpec_texts : Texts [nameSpec] :=
  List.forall_mem_singleton.2 ⟨rfl, rfl, rfl⟩

theorem createUser_legal : userSpec.LegalFrom createUser.requestType :=
  legalFrom_texts userSpec_request nameSpec_texts
    ⟨List.pairwise_singleton _ _, List.pairwise_singleton _ _⟩

theorem createUser_sound : userSpec.Sound createUser.requestType :=
  sound_texts userSpec_request nameSpec_texts

theorem newUser_typed : userSpec.TypeOf createUser.requestType newUser := by
  refine .inr ⟨createUser_message, _, userSpec_request, ?_⟩
  refine .obj (fun _ => nameSpec) (List.pairwise_singleton _ _) ?_ ?_
  · exact List.forall_mem_singleton.2 ⟨List.mem_singleton_self _, rfl⟩
  · exact List.forall_mem_singleton.2 (.single rfl rfl (.scalar (s := .string) rfl ⟨_, rfl⟩))

theorem newUser_keeps : ¬ userSpec.TypeLoses createUser.requestType newUser :=
  not_typeLoses_texts userSpec_request nameSpec_texts newUser

theorem newUser_small (depth : Nat) (bytes : List UInt8)
    (encoded : userSpec.encodeMessage readsNothing depth createUser.requestType newUser =
      some (.ok bytes)) : bytes.length ≤ isizeMax := by
  cases depth with
  | zero =>
    rw [encodeMessage, if_neg createUser_message, messageFields, if_neg createUser_message,
      userSpec_request] at encoded
    cases encoded
  | succ depth =>
    have done : userSpec.messageFields (depth + 1) createUser.requestType =
        some (some [entryField "name".toList (.scalar .string) 1]) := by
      refine (messageFields_eq_some createUser_message).2 ⟨_, userSpec_request, ?_⟩
      rw [fieldSpecsToDefs_succ]
      exact .cons rfl .nil
    rw [encodeMessage_eq_ok createUser_message done, newUser,
      encode_entry readsNothing (carries_string _) ⟨_, rfl⟩ rfl rfl] at encoded
    rw [← Except.ok.inj encoded]
    exact (record_delimited_length _ _).trans (by decide)

theorem transcodes_newUser : userSpec.Transcodes readsNothing createUser newUser :=
  (transcodes_iff readsNothing rfl userSpec_methods newUser_typed newUser_small).1
    ⟨createUser_legal, createUser_sound, .inl rfl, newUser_keeps⟩

end Typeway.Grpc
