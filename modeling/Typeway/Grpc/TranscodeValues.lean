import Typeway.Grpc.Transcode

/-!
# Messages of a specification

The values of a message type, told from the specification alone, whether its types refer to
themselves or not. On the types that the transcoder has all definitions of they are the values
of those definitions, and what the codec loses of them can be told from the specification too.
-/

namespace Typeway.Grpc

open Checked Typeway.Core Json

namespace GrpcServiceSpec

variable (spec : GrpcServiceSpec)

mutual

/-- The objects with members of some fields. -/
inductive MessageOf : List FieldSpec → Value → Prop where
  | obj {fields : List FieldSpec} {map : List (Str × Value)} (field : Str → FieldSpec)
      (sorted : SortedMap.Sorted map)
      (defined : ∀ e ∈ map, field e.1 ∈ fields ∧ (field e.1).name = e.1)
      (typed : ∀ e ∈ map, MemberOf (field e.1) e.2) : MessageOf fields (.obj map)

inductive MemberOf : FieldSpec → Value → Prop where
  | map {f : FieldSpec} {entries : List (Str × Value)} (isMap : f.isMap = true) :
      MemberOf f (.obj entries)
  | list {f : FieldSpec} {items : List Value} (plain : f.isMap = false) (many : f.repeated = true)
      (typed : ∀ item ∈ items, SingleOf f item) : MemberOf f (.arr items)
  | single {f : FieldSpec} {v : Value} (plain : f.isMap = false) (one : f.repeated = false)
      (typed : SingleOf f v) : MemberOf f v

/-- The values of a type. Of a type that is not in the specification it may be anything. -/
inductive SingleOf : FieldSpec → Value → Prop where
  | scalar {f : FieldSpec} {s : Scalar} {v : Value} (type : f.protoType = s.name)
      (holds : s.Holds v) : SingleOf f v
  | message {f : FieldSpec} {msg : MessageSpec} {v : Value}
      (lookedUp : spec.nestedMessage f = some msg) (typed : MessageOf msg.fields v) : SingleOf f v
  | unknown {f : FieldSpec} {v : Value} (type : ProtoType.ofName f.protoType = .other f.protoType)
      (missing : spec.nestedMessage f = none) : SingleOf f v

end

mutual

/-- A value with a map entry or a negative enumerator somewhere. -/
inductive Loses : List FieldSpec → Value → Prop where
  | member {fields : List FieldSpec} {map : List (Str × Value)} {e : Str × Value} {f : FieldSpec}
      (mem : e ∈ map) (defined : f ∈ fields) (name : f.name = e.1) (loses : MemberLoses f e.2) :
      Loses fields (.obj map)

inductive MemberLoses : FieldSpec → Value → Prop where
  | map {f : FieldSpec} {v : Value} (isMap : f.isMap = true) (entries : v ≠ .obj []) :
      MemberLoses f v
  | list {f : FieldSpec} {items : List Value} {item : Value} (plain : f.isMap = false)
      (many : f.repeated = true) (mem : item ∈ items) (loses : SingleLoses f item) :
      MemberLoses f (.arr items)
  | single {f : FieldSpec} {v : Value} (plain : f.isMap = false) (one : f.repeated = false)
      (loses : SingleLoses f v) : MemberLoses f v

inductive SingleLoses : FieldSpec → Value → Prop where
  | enum {f : FieldSpec} {v : Value} (type : f.protoType = Scalar.enum.name)
      (negative : isNegative v = true) : SingleLoses f v
  | message {f : FieldSpec} {msg : MessageSpec} {v : Value}
      (lookedUp : spec.nestedMessage f = some msg) (loses : Loses msg.fields v) : SingleLoses f v

end

/-- The values of a named message. -/
def TypeOf (name : Str) (v : Value) : Prop :=
  name = "google.protobuf.Empty".toList ∧ v = .obj [] ∨
    name ≠ "google.protobuf.Empty".toList ∧
      ∃ msg, IndexMap.lookup name spec.messages = some msg ∧ spec.MessageOf msg.fields v

def TypeLoses (name : Str) (v : Value) : Prop :=
  name ≠ "google.protobuf.Empty".toList ∧
    ∃ msg, IndexMap.lookup name spec.messages = some msg ∧ spec.Loses msg.fields v

variable {spec}

/-! ## Typed values -/

theorem toDef_scalar {f : FieldSpec} {nested : Option (List ProtoFieldDef)} {s : Scalar} :
    (f.toDef nested).protoType = .scalar s ↔ f.protoType = s.name :=
  ⟨ofName_eq_scalar, fun type => by rw [FieldSpec.toDef, type, ofName_scalar]⟩

/-- A field whose message is looked up is of a message type. -/
theorem toDef_other {f : FieldSpec} {msg : MessageSpec} (lookedUp : spec.nestedMessage f = some msg)
    (nested : Option (List ProtoFieldDef)) : (f.toDef nested).protoType = .other f.protoType :=
  (isScalar_eq_false.1 (nestedMessage_eq_some.1 lookedUp).1).1

theorem SingleOf.typed {inner : List FieldSpec → List ProtoFieldDef → Prop} {f : FieldSpec}
    {d : ProtoFieldDef} (defines : spec.Defines inner f d) (closed : f.Resolvable)
    (known : isScalar f.protoType = false → f.isMap = false → spec.Closed f.protoType)
    (plain : f.isMap = false)
    (ih : ∀ msg nested v, spec.nestedMessage f = some msg → inner msg.fields nested →
      spec.MessageOf msg.fields v → WellTyped nested v) {v : Value} (h : spec.SingleOf f v) :
    SingleTyped d (d.nestedFields.map WellTyped) v := by
  cases h with
  | scalar type holds =>
    have same := defines.eq_toDef
    rw [SingleTyped, show d.protoType = .scalar _ by rw [same]; exact toDef_scalar.2 type]
    exact holds
  | message lookedUp typed =>
    rw [Defines, lookedUp] at defines
    obtain ⟨nested, done, rfl⟩ := defines
    rw [SingleTyped, toDef_other lookedUp]
    exact ⟨_, rfl, ih _ _ _ lookedUp done typed⟩
  | unknown type missing =>
    rw [FieldSpec.Resolvable, plain, if_neg Bool.false_ne_true] at closed
    have notScalar := isScalar_eq_false.2 ⟨type, closed⟩
    obtain ⟨msg, found, -⟩ := closed_iff.1 (known notScalar plain)
    cases missing.symm.trans (nestedMessage_eq_some.2 ⟨notScalar, plain, found⟩)

theorem MemberOf.typed {f : FieldSpec} {nested : Option (List ProtoFieldDef)}
    (single : f.isMap = false → ∀ v, spec.SingleOf f v →
      SingleTyped (f.toDef nested) (nested.map WellTyped) v) {v : Value} (h : spec.MemberOf f v) :
    MemberTyped (f.toDef nested) (nested.map WellTyped) v := by
  cases h with
  | map isMap =>
    rw [MemberTyped, if_pos (show (f.toDef nested).isMap = true from isMap)]
    exact ⟨_, rfl⟩
  | list plain many typed =>
    rw [MemberTyped, if_neg (by rw [FieldSpec.toDef, plain]; exact Bool.false_ne_true),
      if_pos (show (f.toDef nested).repeated = true from many)]
    exact ⟨_, rfl, fun item mem => single plain item (typed item mem)⟩
  | single plain one typed =>
    rw [MemberTyped, if_neg (by rw [FieldSpec.toDef, plain]; exact Bool.false_ne_true),
      if_neg (by rw [FieldSpec.toDef, one]; exact Bool.false_ne_true)]
    exact single plain v typed

/-- A message has the types of its definitions. -/
theorem wellTyped_of_messageOf {depth : Nat} {fields : List FieldSpec} {defs : List ProtoFieldDef}
    (done : spec.fieldSpecsToDefs depth fields = some defs) (closed : spec.FieldsClosed fields)
    {v : Value} (h : spec.MessageOf fields v) : WellTyped defs v := by
  induction depth generalizing fields defs v with
  | zero => cases done
  | succ depth ih =>
    rw [fieldSpecsToDefs_succ] at done
    obtain ⟨field, sorted, defined, typed⟩ := h
    rw [wellTyped_iff]
    refine ⟨_, rfl, sorted, fun e mem => ?_⟩
    obtain ⟨memF, name⟩ := defined e mem
    obtain ⟨d, memD, defines⟩ := exists_right done memF
    have known := (closed _ memF).2
    have member : MemberTyped ((field e.1).toDef d.nestedFields)
        (d.nestedFields.map WellTyped) e.2 := by
      refine (typed e mem).typed fun plain v h => ?_
      rw [← defines.eq_toDef]
      refine h.typed defines (closed _ memF).1 known plain ?_
      intro msg nested v lookedUp done typed
      obtain ⟨notScalar, -, found⟩ := nestedMessage_eq_some.1 lookedUp
      obtain ⟨_, here, inner⟩ := closed_iff.1 (known notScalar plain)
      cases found.symm.trans here
      exact ih done inner typed
    rw [← defines.eq_toDef] at member
    refine ⟨d, memD, ?_, member⟩
    rw [defines.eq_toDef]
    exact name

/-! ## What is lost -/

theorem singleLoses_iff {inner : List FieldSpec → List ProtoFieldDef → Prop} {f : FieldSpec}
    {nested : Option (List ProtoFieldDef)} (defines : spec.Defines inner f (f.toDef nested))
    (ih : ∀ (msg : MessageSpec) nested v, inner msg.fields nested →
      (spec.Loses msg.fields v ↔ ¬ Survives nested v)) {v : Value} :
    spec.SingleLoses f v ↔ ¬ SingleSurvives (f.toDef nested) (nested.map Survives) v := by
  rcases ofName_cases f.protoType with ⟨s, scalar⟩ | other
  · have name := ofName_eq_scalar scalar
    have survives : SingleSurvives (f.toDef nested) (nested.map Survives) v ↔ s.comesBack v := by
      unfold SingleSurvives
      rw [toDef_scalar.2 name]
    rw [survives, Scalar.comesBack, Classical.not_imp, Bool.not_eq_false]
    constructor
    · intro h
      cases h with
      | enum type negative =>
        rw [type, ofName_scalar] at scalar
        cases scalar
        exact ⟨rfl, negative⟩
      | message lookedUp =>
        have type := (toDef_other lookedUp nested).symm.trans (toDef_scalar.2 name)
        cases type
    · rintro ⟨rfl, negative⟩
      exact .enum name negative
  · have type : (f.toDef nested).protoType = .other f.protoType := other
    unfold SingleSurvives
    rw [type]
    have notEnum (type : f.protoType = Scalar.enum.name) : False := by
      rw [type, ofName_scalar] at other
      cases other
    cases lookedUp : spec.nestedMessage f with
    | none =>
      rw [Defines, lookedUp] at defines
      have none : nested = none := congrArg ProtoFieldDef.nestedFields defines
      subst none
      refine iff_of_false ?_ (not_not_intro trivial)
      intro h
      cases h with
      | enum type => exact notEnum type
      | message there => cases lookedUp.symm.trans there
    | some msg =>
      rw [Defines, lookedUp] at defines
      obtain ⟨defs, done, same⟩ := defines
      have some : nested = some defs := congrArg ProtoFieldDef.nestedFields same
      subst some
      refine Iff.trans ?_ (ih msg defs v done)
      constructor
      · intro h
        cases h with
        | enum type => exact (notEnum type).elim
        | message there loses =>
          cases lookedUp.symm.trans there
          exact loses
      · exact .message lookedUp

theorem memberLoses_iff {f : FieldSpec} {nested : Option (List ProtoFieldDef)}
    (single : ∀ v, spec.SingleLoses f v ↔
      ¬ SingleSurvives (f.toDef nested) (nested.map Survives) v) {v : Value} :
    spec.MemberLoses f v ↔ ¬ MemberSurvives (f.toDef nested) (nested.map Survives) v := by
  have mapIff : (f.toDef nested).isMap = f.isMap := rfl
  have manyIff : (f.toDef nested).repeated = f.repeated := rfl
  rw [MemberSurvives, mapIff, manyIff]
  constructor
  · intro h
    cases h with
    | map isMap entries =>
      rw [if_pos isMap]
      exact entries
    | list plain many mem loses =>
      rw [plain, if_neg Bool.false_ne_true, if_pos many]
      intro survives
      exact (single _).1 loses (survives _ rfl _ mem)
    | single plain one loses =>
      rw [plain, if_neg Bool.false_ne_true, one, if_neg Bool.false_ne_true]
      exact (single v).1 loses
  · intro lost
    split at lost
    · rename_i isMap
      exact .map isMap lost
    · rename_i plain
      have plain := Bool.eq_false_iff.2 plain
      split at lost
      · rename_i many
        simp only [not_forall] at lost
        obtain ⟨items, rfl, item, mem, lost⟩ := lost
        exact .list plain many mem ((single item).2 lost)
      · rename_i one
        exact .single plain (Bool.eq_false_iff.2 one) ((single v).2 lost)

/-- What is lost can be told from the specification. -/
theorem loses_iff {depth : Nat} {fields : List FieldSpec} {defs : List ProtoFieldDef}
    (done : spec.fieldSpecsToDefs depth fields = some defs) {v : Value} :
    spec.Loses fields v ↔ ¬ Survives defs v := by
  induction depth generalizing fields defs v with
  | zero => cases done
  | succ depth ih =>
    rw [fieldSpecsToDefs_succ] at done
    have member {f : FieldSpec} {d : ProtoFieldDef} (defines : spec.Defines
        (fun fields defs => spec.fieldSpecsToDefs depth fields = some defs) f d) {v : Value} :
        spec.MemberLoses f v ↔ ¬ MemberSurvives d (d.nestedFields.map Survives) v := by
      have same := defines.eq_toDef
      rw [same] at defines
      conv_rhs => rw [same]
      exact memberLoses_iff fun v => singleLoses_iff defines fun msg nested v done => ih done
    rw [Survives, bySchema_eq]
    simp only [not_forall]
    constructor
    · intro h
      obtain ⟨mem, defined, name, loses⟩ := h
      obtain ⟨d, memD, defines⟩ := exists_right done defined
      refine ⟨_, rfl, _, mem, _, List.mem_map_of_mem memD, ?_, (member defines).1 loses⟩
      rw [defines.eq_toDef]
      exact name
    · rintro ⟨map, rfl, e, mem, g, memG, name, lost⟩
      obtain ⟨d, memD, rfl⟩ := List.mem_map.1 memG
      obtain ⟨f, defined, defines⟩ := exists_left done memD
      refine .member mem defined ?_ ((member defines).2 lost)
      rw [defines.eq_toDef] at name
      exact name

end GrpcServiceSpec

end Typeway.Grpc
