import Typeway.Grpc.JsonRecords

/-!
# Hostile input for the codec driven by definitions

A length-delimited value has a length from the wire, which is added to the size of its varint
before the sum is compared with what is left of the input. This is the only sum of the decoder that
can overflow: the offsets stay in the input, and no slice falls out of its bounds.
-/

namespace Typeway.Grpc

open Checked Typeway.Core Json

/-! ## Runs of the decoder -/

/-- The definitions under which a length-delimited value of the field is decoded again. -/
def ProtoFieldDef.entered (field : ProtoFieldDef) : Option (List ProtoFieldDef) :=
  if field.repeated && isPackableType field.protoType then none
  else
    match field.protoType with
    | .scalar .string | .scalar .bytes => none
    | _ => field.nestedFields

/-- The rest of the input behind the tag. -/
def behindTag (bytes : List UInt8) (s : JsonState) (consumed : Nat) : List UInt8 :=
  bytes.drop (s.offset + consumed)

/-- A call on `b` comes to this state, itself or in a nested call with `defs` on `bytes`. -/
inductive JsonVisited (E : Externals) (fields : List ProtoFieldDef) (b : List UInt8) :
    List ProtoFieldDef → List UInt8 → JsonState → Prop where
  | start : JsonVisited E fields b fields b ⟨0, [], []⟩
  | next {defs : List ProtoFieldDef} {bytes : List UInt8} {s s' : JsonState}
      (here : JsonVisited E fields b defs bytes s) (go : s.offset < bytes.length)
      (run : jsonStep E (withDecoders E defs) bytes s = .ok s') :
      JsonVisited E fields b defs bytes s'
  | enter {defs inner : List ProtoFieldDef} {bytes data : List UInt8} {s : JsonState}
      {tagAndWire : UInt64} {consumed stop : Nat} {field : ProtoFieldDef}
      (here : JsonVisited E fields b defs bytes s) (go : s.offset < bytes.length)
      (tag : decodeVarint (bytes.drop s.offset) = .ok (tagAndWire, consumed))
      (read : decodeWireValue (behindTag bytes s consumed) (tagAndWire &&& 7).toUInt8 =
        .ok (.lengthDelimited data, stop))
      (found : defs.find? (fun f => f.tag == (tagAndWire >>> 3).toUInt32) = some field)
      (nested : field.entered = some inner) :
      JsonVisited E fields b inner data ⟨0, [], []⟩

/-- The sum of a length and the size of its varint fits `usize`. -/
def LengthFits (rest : List UInt8) : Prop :=
  ∀ len hdrConsumed, decodeVarint rest = .ok (len, hdrConsumed) →
    hdrConsumed + len.toNat < usizeBound

/-- The condition on the input: the lengths that the turns of the loop read fit. -/
def LengthsFit (E : Externals) (fields : List ProtoFieldDef) (b : List UInt8) : Prop :=
  ∀ defs bytes s tagAndWire consumed, JsonVisited E fields b defs bytes s →
    s.offset < bytes.length → decodeVarint (bytes.drop s.offset) = .ok (tagAndWire, consumed) →
    (tagAndWire &&& 7).toUInt8 = 2 → LengthFits (behindTag bytes s consumed)

/-- `proto_binary_to_json` returns, and every loop moves its offset on and keeps it in the input. -/
structure JsonSafeOn (E : Externals) (fields : List ProtoFieldDef) (b : List UInt8) : Prop where
  returns : Returns (protoBinaryToJson E b fields) fun _ => True
  grows : ∀ {defs bytes s s'}, JsonVisited E fields b defs bytes s →
    jsonStep E (withDecoders E defs) bytes s = .ok s' →
    s.offset < s'.offset ∧ s'.offset ≤ bytes.length
  unpackGrows : ∀ protoType data s s', unpackStep E protoType data s = .ok s' →
    s.1 < s'.1 ∧ s'.1 ≤ data.length

/-! ## Readers -/

theorem decodeVarintLoop_bound {bytes : List UInt8} {i shift c : Nat} {result v : UInt64}
    (h : decodeVarintLoop bytes i result shift = .ok (v, c)) : c ≤ i + bytes.length := by
  induction bytes generalizing i result shift with
  | nil => cases h
  | cons byte rest ih =>
    rw [decodeVarintLoop] at h
    dsimp only at h
    rw [List.length_cons]
    split at h
    · cases h
    · split at h
      · cases h
        omega
      · have := ih h
        omega

theorem decodeVarint_bounds {bytes : List UInt8} {v : UInt64} {c : Nat}
    (h : decodeVarint bytes = .ok (v, c)) : 0 < c ∧ c ≤ bytes.length := by
  have := decodeVarintLoop_advances h
  have := decodeVarintLoop_bound h
  omega

/-- A value ends in the input, and its payload is shorter than the input. -/
theorem decodeWireValue_ensures (bytes : List UInt8) (wireType : UInt8) :
    Ensures (decodeWireValue bytes wireType) fun r =>
      r.2 ≤ bytes.length ∧ ∀ data, r.1 = .lengthDelimited data → data.length < bytes.length := by
  unfold decodeWireValue
  split
  · refine (Ensures.lift (P := fun r : UInt64 × Nat => r.2 ≤ bytes.length) ?_).bind ?_
    · intro r read
      exact (decodeVarint_bounds read).2
    intro r bound
    exact .ok ⟨bound, by nofun⟩
  · split
    · exact .fail _
    · rename_i enough
      exact .ok ⟨Nat.le_of_not_lt enough, by nofun⟩
  · refine (Ensures.lift (P := fun r : UInt64 × Nat => 0 < r.2) ?_).bind ?_
    · intro r read
      exact (decodeVarint_bounds read).1
    intro r pos
    dsimp only
    refine (Ensures.add _ _).bind fun stop sum => ?_
    split
    · exact .fail _
    · rename_i enough
      refine (Ensures.slice _ _ _).bind fun data cut => ?_
      obtain ⟨-, bound, rfl⟩ := cut
      refine .ok ⟨bound, ?_⟩
      intro data same
      cases same
      rw [List.length_take, List.length_drop]
      omega
  · split
    · exact .fail _
    · rename_i enough
      exact .ok ⟨Nat.le_of_not_lt enough, by nofun⟩
  · exact .fail _

/-- A value is read if its length fits. -/
theorem decodeWireValue_returns {bytes : List UInt8} {wireType : UInt8}
    (fits : wireType = 2 → LengthFits bytes) :
    Returns (decodeWireValue bytes wireType) fun _ => True := by
  unfold decodeWireValue
  split
  · exact .bind (P := fun _ => True) (.lift fun _ _ => trivial) fun _ _ => .ok trivial
  · split
    · exact .fail _
    · exact .ok trivial
  · have fits := fits rfl
    refine .bind (.lift fun r (read : decodeVarint bytes = .ok r) => fits r.1 r.2 read) ?_
    intro r sum
    dsimp only
    refine .bind (.add sum) fun stop same => ?_
    subst same
    split
    · exact .fail _
    · exact .bind (.slice (by omega) (by omega)) fun _ _ => .ok trivial
  · split
    · exact .fail _
    · exact .ok trivial
  · exact .fail _

/-- A length that does not fit panics. -/
theorem decodeWireValue_overflows {bytes : List UInt8} (beyond : ¬ LengthFits bytes) :
    decodeWireValue bytes 2 = .error (.panic .addOverflow) := by
  simp only [LengthFits, not_forall] at beyond
  obtain ⟨len, hdrConsumed, read, beyond⟩ := beyond
  rw [decodeWireValue, read, lift_ok, ok_bind]
  dsimp only
  rw [add_overflows beyond, error_bind]

/-! ## Packed fields -/

theorem wireValueToJson_delimited {E : Externals} {data : List UInt8} {protoType : ProtoType}
    {nested : NestedDecoder} (string : protoType ≠ .scalar .string)
    (bytes : protoType ≠ .scalar .bytes) :
    wireValueToJson E (.lengthDelimited data) protoType nested =
      match nested with
      | some decode => decode data
      | none =>
        match E.fromSlice data with
        | some val => pure val
        | none => pure (.str (Base64.encode data)) := by
  cases protoType with
  | other name => rfl
  | scalar s => cases s <;> first | rfl | exact absurd rfl string | exact absurd rfl bytes

theorem wireValueToJson_returns (E : Externals) (wv : WireValue) (protoType : ProtoType)
    {nested : NestedDecoder}
    (inner : ∀ decode data, nested = some decode → wv = .lengthDelimited data →
      protoType ≠ .scalar .string → protoType ≠ .scalar .bytes →
      Returns (decode data) fun _ => True) :
    Returns (wireValueToJson E wv protoType nested) fun _ => True := by
  cases wv with
  | lengthDelimited data =>
    by_cases string : protoType = .scalar .string
    · subst string
      unfold wireValueToJson
      dsimp only
      split
      · exact .ok trivial
      · exact .fail _
    · by_cases bytes : protoType = .scalar .bytes
      · subst bytes
        exact .ok trivial
      · rw [wireValueToJson_delimited string bytes]
        split
        · exact inner _ _ rfl rfl string bytes
        · split <;> exact .ok trivial
  | _ =>
    unfold wireValueToJson
    split <;> first | exact .ok trivial | exact .fail _ | contradiction

theorem unpackStep_grows (E : Externals) (protoType : ProtoType) (data : List UInt8)
    (s : Nat × List Value) :
    Ensures (unpackStep E protoType data s) fun t => s.1 < t.1 ∧ t.1 ≤ data.length := by
  obtain ⟨offset, results⟩ := s
  unfold unpackStep
  dsimp only
  split
  · refine (Ensures.sliceFrom _ _).bind fun rest cut => ?_
    obtain ⟨low, rfl⟩ := cut
    refine (Ensures.lift (P := fun r : UInt64 × Nat =>
      0 < r.2 ∧ r.2 ≤ data.length - offset) ?_).bind ?_
    · intro r read
      have bounds := decodeVarint_bounds read
      rwa [List.length_drop] at bounds
    intro r bounds
    refine (Ensures.add _ _).bind fun next behind => Ensures.any.bind fun value _ => .ok ?_
    dsimp only
    omega
  · refine (Ensures.add _ _).bind fun stop behind => ?_
    split
    · exact .fail _
    · refine Ensures.any.bind fun word _ => Ensures.any.bind fun value _ => .ok ?_
      dsimp only
      omega
  · refine (Ensures.add _ _).bind fun stop behind => ?_
    split
    · exact .fail _
    · refine Ensures.any.bind fun word _ => Ensures.any.bind fun value _ => .ok ?_
      dsimp only
      omega
  · exact .fail _

theorem unpackStep_returns (E : Externals) (protoType : ProtoType) {data : List UInt8}
    {s : Nat × List Value} (small : data.length ≤ isizeMax) (go : s.1 < data.length) :
    Returns (unpackStep E protoType data s) fun _ => True := by
  obtain ⟨offset, results⟩ := s
  unfold isizeMax at small
  have value (wv : WireValue) : Returns (wireValueToJson E wv protoType none) fun _ => True :=
    wireValueToJson_returns E wv protoType (by nofun)
  unfold unpackStep
  dsimp only at go ⊢
  split
  · refine .bind (.sliceFrom (Nat.le_of_lt go)) fun rest cut => ?_
    subst cut
    refine .bind (.lift fun r (read : decodeVarint (data.drop offset) = .ok r) =>
      decodeVarint_bounds read) ?_
    intro r bounds
    rw [List.length_drop] at bounds
    refine .bind (.add (by unfold usizeBound; omega)) fun next _ => ?_
    exact .bind (value _) fun _ _ => .ok trivial
  · refine .bind (.add (by unfold usizeBound; omega)) fun stop same => ?_
    subst same
    split
    · exact .fail _
    · refine .bind (.slice (by omega) (by omega)) fun word _ => ?_
      exact .bind (value _) fun _ _ => .ok trivial
  · refine .bind (.add (by unfold usizeBound; omega)) fun stop same => ?_
    subst same
    split
    · exact .fail _
    · refine .bind (.slice (by omega) (by omega)) fun word _ => ?_
      exact .bind (value _) fun _ _ => .ok trivial
  · exact .fail _

theorem unpackScalars_returns (E : Externals) (protoType : ProtoType) {data : List UInt8}
    (small : data.length ≤ isizeMax) :
    Returns (unpackScalars E data protoType) fun _ => True := by
  refine .bind (Returns.runLoop (unpackLoop_lowers E protoType data) (I := fun _ => True)
    (fun s _ go => unpackStep_returns E protoType small (of_decide_eq_true go)) trivial) ?_
  exact fun s _ => .ok trivial

/-! ## A turn of the loop -/

theorem find_decoder (E : Externals) (defs : List ProtoFieldDef) (tag : UInt32) :
    (withDecoders E defs).find? (fun f => f.1.tag == tag) =
      (defs.find? (fun f => f.tag == tag)).map fun f => (f, nestedDecoder E f.nestedFields) := by
  rw [withDecoders_eq, List.find?_map]
  rfl

theorem storeWireValue_returns (E : Externals) {field : ProtoFieldDef} {wv : WireValue}
    (s : JsonState) (small : ∀ data, wv = .lengthDelimited data → data.length ≤ isizeMax)
    (inner : ∀ defs data, field.entered = some defs → wv = .lengthDelimited data →
      Returns (protoBinaryToJson E data defs) fun _ => True) :
    Returns (storeWireValue E field (nestedDecoder E field.nestedFields) wv s) fun _ => True := by
  unfold storeWireValue
  split
  · exact .bind (unpackScalars_returns E _ (small _ rfl)) fun _ _ => .ok trivial
  · rename_i unpacked
    refine .bind (wireValueToJson_returns E _ field.protoType ?_) ?_
    · intro decode data some same string bytes
      subst same
      have alone : (field.repeated && isPackableType field.protoType) = false := by
        cases packed : field.repeated && isPackableType field.protoType with
        | false => rfl
        | true => exact absurd rfl (unpacked data packed)
      cases defs : field.nestedFields with
      | none =>
        rw [defs, nestedDecoder] at some
        cases some
      | some defs' =>
        rw [defs, nestedDecoder_some] at some
        cases some
        refine inner defs' data ?_ rfl
        rw [ProtoFieldDef.entered, alone, if_neg (by simp)]
        split
        · exact absurd ‹_› string
        · exact absurd ‹_› bytes
        · exact defs
    · intro value _
      split <;> exact .ok trivial

/-- A turn returns if its length fits and the nested call it makes returns. -/
theorem jsonStep_returns (E : Externals) {defs : List ProtoFieldDef} {bytes : List UInt8}
    {s : JsonState} (small : bytes.length ≤ isizeMax) (go : s.offset < bytes.length)
    (fits : ∀ tagAndWire consumed, decodeVarint (bytes.drop s.offset) = .ok (tagAndWire, consumed) →
      (tagAndWire &&& 7).toUInt8 = 2 → LengthFits (behindTag bytes s consumed))
    (nested : ∀ tagAndWire consumed data stop field inner,
      decodeVarint (bytes.drop s.offset) = .ok (tagAndWire, consumed) →
      decodeWireValue (behindTag bytes s consumed) (tagAndWire &&& 7).toUInt8 =
        .ok (.lengthDelimited data, stop) →
      defs.find? (fun f => f.tag == (tagAndWire >>> 3).toUInt32) = some field →
      field.entered = some inner → Returns (protoBinaryToJson E data inner) fun _ => True) :
    Returns (jsonStep E (withDecoders E defs) bytes s) fun _ => True := by
  unfold isizeMax at small
  refine .bind (.sliceFrom (Nat.le_of_lt go)) fun rest cut => ?_
  subst cut
  refine .bind (.lift fun r (read : decodeVarint (bytes.drop s.offset) = .ok r) => read) ?_
  intro ⟨tagAndWire, consumed⟩ tag
  have bounds := decodeVarint_bounds tag
  rw [List.length_drop] at bounds
  dsimp only
  refine .bind (.add (by unfold usizeBound; omega)) fun offset same => ?_
  subst same
  refine .bind (.sliceFrom (by omega)) fun rest cut => ?_
  subst cut
  refine .bind ((decodeWireValue_returns (fits _ _ tag)).with_ensures
    (decodeWireValue_ensures _ _)) ?_
  intro ⟨wireVal, stop⟩ read
  obtain ⟨read, -, bound, shorter⟩ := read
  rw [behindTag, List.length_drop] at bound shorter
  dsimp only
  refine .bind (.add (by unfold usizeBound; omega)) fun offset same => ?_
  subst same
  rw [find_decoder]
  cases found : defs.find? (fun f => f.tag == (tagAndWire >>> 3).toUInt32) with
  | none => exact .ok trivial
  | some field =>
    refine storeWireValue_returns E _ ?_ ?_
    · intro data same
      have := shorter data same
      unfold isizeMax
      omega
    · intro inner data enters same
      subst same
      exact nested _ _ _ _ _ _ tag read found enters

/-- A turn moves the offset on and keeps it in the input. -/
theorem jsonStep_grows (E : Externals) (fields : List (ProtoFieldDef × NestedDecoder))
    (bytes : List UInt8) (s : JsonState) :
    Ensures (jsonStep E fields bytes s) fun t => s.offset < t.offset ∧ t.offset ≤ bytes.length := by
  refine (Ensures.sliceFrom _ _).bind fun rest cut => ?_
  obtain ⟨low, rfl⟩ := cut
  refine (Ensures.lift fun r (read : decodeVarint (bytes.drop s.offset) = .ok r) =>
    decodeVarint_bounds read).bind ?_
  intro r bounds
  rw [List.length_drop] at bounds
  refine (Ensures.add _ _).bind fun offset behind => ?_
  subst behind
  refine (Ensures.sliceFrom _ _).bind fun rest cut => ?_
  obtain ⟨middle, rfl⟩ := cut
  refine (decodeWireValue_ensures _ _).bind fun w bound => ?_
  rw [List.length_drop] at bound
  refine (Ensures.add _ _).bind fun stop last => ?_
  refine (storeRecord_offset E fields _ w.1 { s with offset := stop }).mono fun t same => ?_
  dsimp only at same
  omega

/-- A length that does not fit makes the turn panic. -/
theorem jsonStep_overflows (E : Externals) {fields : List (ProtoFieldDef × NestedDecoder)}
    {bytes : List UInt8} {s : JsonState} {tagAndWire : UInt64} {consumed : Nat}
    (small : bytes.length ≤ isizeMax) (go : s.offset < bytes.length)
    (tag : decodeVarint (bytes.drop s.offset) = .ok (tagAndWire, consumed))
    (wire : (tagAndWire &&& 7).toUInt8 = 2) (beyond : ¬ LengthFits (behindTag bytes s consumed)) :
    jsonStep E fields bytes s = .error (.panic .addOverflow) := by
  have bounds := decodeVarint_bounds tag
  rw [List.length_drop] at bounds
  unfold isizeMax at small
  have panics : decodeWireValue (bytes.drop (s.offset + consumed)) 2 = .error (.panic .addOverflow) :=
    decodeWireValue_overflows beyond
  rw [jsonStep, sliceFrom_eq_ok (Nat.le_of_lt go), ok_bind, tag, lift_ok, ok_bind]
  dsimp only
  rw [add_eq_ok (by unfold usizeBound; omega), ok_bind, sliceFrom_eq_ok (by omega), ok_bind, wire,
    panics, error_bind]

/-! ## Calls inside calls -/

section Calls

variable {E : Externals} {fields defs : List ProtoFieldDef} {b bytes : List UInt8} {s : JsonState}

/-- What a nested call comes to, the outer call comes to. -/
theorem JsonVisited.trans (h : JsonVisited E fields b defs bytes ⟨0, [], []⟩)
    {defs' : List ProtoFieldDef} {bytes' : List UInt8} {s' : JsonState}
    (h' : JsonVisited E defs bytes defs' bytes' s') : JsonVisited E fields b defs' bytes' s' := by
  induction h' with
  | start => exact h
  | next _ go run ih => exact .next ih go run
  | enter _ go tag read found nested ih => exact .enter ih go tag read found nested

theorem JsonVisited.of_passes {t : JsonState}
    (h : Passes (fun s : JsonState => decide (s.offset < b.length))
      (jsonStep E (withDecoders E fields) b) ⟨0, [], []⟩ t) : JsonVisited E fields b fields b t := by
  induction h with
  | start => exact .start
  | next _ go run ih => exact .next ih (of_decide_eq_true go) run

/-- A nested call gets a part of the input. -/
theorem JsonVisited.small (h : JsonVisited E fields b defs bytes s) (small : b.length ≤ isizeMax) :
    bytes.length ≤ isizeMax := by
  induction h with
  | start => exact small
  | next _ _ _ ih => exact ih
  | enter _ _ _ read _ _ ih =>
    have shorter := (decodeWireValue_ensures _ _ _ read).2 _ rfl
    rw [behindTag, List.length_drop] at shorter
    omega

/-- The decoder returns if the lengths fit. -/
theorem protoBinaryToJson_returns (E : Externals) {fields : List ProtoFieldDef} {b : List UInt8}
    (small : b.length ≤ isizeMax) (fit : LengthsFit E fields b) :
    Returns (protoBinaryToJson E b fields) fun _ => True := by
  -- a nested call gets a shorter payload
  generalize size : b.length = l
  induction l using Nat.strongRecOn generalizing fields b with
  | ind l ih =>
    refine .bind (Returns.of_passes (jsonLoop_lowers E _ b) ?_) fun _ _ => .ok trivial
    intro t passes go
    have here := JsonVisited.of_passes passes
    have go := of_decide_eq_true go
    apply jsonStep_returns E small go
    · intro tagAndWire consumed tag
      exact fit _ _ _ _ _ here go tag
    · intro tagAndWire consumed data stop field inner tag read found nested
      have shorter := (decodeWireValue_ensures _ _ _ read).2 _ rfl
      rw [behindTag, List.length_drop] at shorter
      have entered := JsonVisited.enter here go tag read found nested
      apply ih data.length (by omega) (by omega) _ rfl
      intro defs bytes s tagAndWire consumed inside
      exact fit defs bytes s tagAndWire consumed (entered.trans inside)

/-- A panic of a nested call is a panic of the turn that makes it. -/
theorem jsonStep_panics {inner : List ProtoFieldDef} {data : List UInt8} {tagAndWire : UInt64}
    {consumed stop : Nat} {field : ProtoFieldDef} {p : Panic} (small : bytes.length ≤ isizeMax)
    (go : s.offset < bytes.length)
    (tag : decodeVarint (bytes.drop s.offset) = .ok (tagAndWire, consumed))
    (read : decodeWireValue (behindTag bytes s consumed) (tagAndWire &&& 7).toUInt8 =
      .ok (.lengthDelimited data, stop))
    (found : defs.find? (fun f => f.tag == (tagAndWire >>> 3).toUInt32) = some field)
    (nested : field.entered = some inner)
    (panics : protoBinaryToJson E data inner = .error (.panic p)) :
    jsonStep E (withDecoders E defs) bytes s = .error (.panic p) := by
  have bounds := decodeVarint_bounds tag
  rw [List.length_drop] at bounds
  have bound := (decodeWireValue_ensures _ _ _ read).1
  rw [behindTag, List.length_drop] at bound
  rw [behindTag] at read
  unfold isizeMax at small
  rw [jsonStep, sliceFrom_eq_ok (Nat.le_of_lt go), ok_bind, tag, lift_ok, ok_bind]
  dsimp only at bound ⊢
  rw [add_eq_ok (by unfold usizeBound; omega), ok_bind, sliceFrom_eq_ok (by omega), ok_bind, read,
    ok_bind]
  dsimp only
  rw [add_eq_ok (by unfold usizeBound; omega), ok_bind, find_decoder, found]
  rw [ProtoFieldDef.entered] at nested
  split at nested
  · cases nested
  · rename_i alone
    split at nested
    · cases nested
    · cases nested
    · rename_i string bytes
      have values : wireValues E field (nestedDecoder E field.nestedFields) (.lengthDelimited data) =
          .error (.panic p) := by
        unfold wireValues
        split
        · exact absurd ‹_› alone
        · rw [nested, nestedDecoder_some, wireValueToJson_delimited string bytes]
          dsimp only
          rw [panics]
          rfl
      show storeWireValue E field (nestedDecoder E field.nestedFields) _ _ = _
      rw [storeWireValue_eq, values, error_bind]

/-- A panic in a visited state is a panic of the call it is visited from. -/
theorem JsonVisited.panics (h : JsonVisited E fields b defs bytes s) (small : b.length ≤ isizeMax)
    (go : s.offset < bytes.length) {p : Panic}
    (panics : jsonStep E (withDecoders E defs) bytes s = .error (.panic p)) :
    protoBinaryToJson E b fields = .error (.panic p) := by
  suffices Passes (fun s : JsonState => decide (s.offset < bytes.length))
        (jsonStep E (withDecoders E defs) bytes) ⟨0, [], []⟩ s ∧
      (protoBinaryToJson E bytes defs = .error (.panic p) →
        protoBinaryToJson E b fields = .error (.panic p)) by
    apply this.2
    rw [protoBinaryToJson, decodeMembers, jsonLoop,
      this.1.panics (jsonLoop_lowers E _ _) (decide_eq_true go) panics, error_bind]
  clear go panics
  induction h with
  | start => exact ⟨.start, id⟩
  | next _ go run ih => exact ⟨.next ih.1 (decide_eq_true go) run, ih.2⟩
  | enter here go tag read found nested ih =>
    refine ⟨.start, fun panics => ih.2 ?_⟩
    have turn := jsonStep_panics (here.small small) go tag read found nested panics
    rw [protoBinaryToJson, decodeMembers, jsonLoop,
      ih.1.panics (jsonLoop_lowers E _ _) (decide_eq_true go) turn, error_bind]

end Calls

/-! ## Inputs the decoder survives -/

/-- **Hostile input.** The decoder is safe on an input if and only if the lengths it reads fit. -/
theorem jsonSafeOn_iff (E : Externals) (fields : List ProtoFieldDef) {b : List UInt8}
    (small : b.length ≤ isizeMax) : JsonSafeOn E fields b ↔ LengthsFit E fields b := by
  constructor
  · intro safe defs bytes s tagAndWire consumed here go tag wire
    by_contra beyond
    have turn := @jsonStep_overflows E (withDecoders E defs) _ _ _ _ (here.small small) go tag wire
      beyond
    exact safe.returns.not_panic _ (here.panics small go turn)
  · intro fit
    constructor
    · exact protoBinaryToJson_returns E small fit
    · intro defs bytes s s' _ run
      exact jsonStep_grows E _ bytes s s' run
    · intro protoType data s s' run
      exact unpackStep_grows E protoType data s s' run

/-- A message with a number. -/
def idDefs : List ProtoFieldDef := [entryField "id".toList (.scalar .uint32) 1]

theorem visited_number {defs : List ProtoFieldDef} {bytes : List UInt8} {s : JsonState}
    (h : JsonVisited readsNothing idDefs [0x08, 0x05] defs bytes s) :
    defs = idDefs ∧ bytes = [0x08, 0x05] := by
  induction h with
  | start => exact ⟨rfl, rfl⟩
  | next _ _ _ ih => exact ih
  | enter _ _ _ _ found nested ih =>
    obtain ⟨rfl, -⟩ := ih
    rw [List.mem_singleton.1 (List.mem_of_find?_eq_some found)] at nested
    cases nested

/-- The number 5. -/
theorem jsonSafeOn_number : JsonSafeOn readsNothing idDefs [0x08, 0x05] := by
  apply (jsonSafeOn_iff readsNothing idDefs (by decide)).2
  intro defs bytes s tagAndWire consumed here go tag wire
  obtain ⟨rfl, rfl⟩ := visited_number here
  have size : [(0x08 : UInt8), 0x05].length = 2 := rfl
  obtain first | second : s.offset = 0 ∨ s.offset = 1 := by omega
  · rw [first] at tag
    cases tag
    cases wire
  · rw [second] at tag
    cases tag
    cases wire

/-- The length `2^64 - 1` overflows the addition to the size of its varint. -/
theorem not_jsonSafeOn_length :
    ¬ JsonSafeOn readsNothing idDefs
      [0x0A, 0xFF, 0xFF, 0xFF, 0xFF, 0xFF, 0xFF, 0xFF, 0xFF, 0xFF, 0x01] := by
  intro safe
  exact safe.returns.not_panic .addOverflow rfl

end Typeway.Grpc
