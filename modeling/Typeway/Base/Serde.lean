import Mathlib.Data.List.Forall2
import Typeway.Base.IndexMap
import Typeway.Base.Json

/-!
# Records as JSON objects

What the derived serialisers of a record write, a member for each field in the order of the fields,
and what the derived deserialisers make of it. A field may be skipped when it is written, and may
have a value that stands in when it is missing; whether a record comes back is decided field by
field.

A value is the tree of a text here, so the members of an object stand in their order.
-/

namespace Serde

open Json

abbrev Members := List (List Char × Value)

/-- How the values of a type are written and read. -/
structure Codec (α : Type) where
  ser : α → Value
  de : Value → Option α

def Codec.RoundTrips {α : Type} (c : Codec α) (a : α) : Prop :=
  c.de (c.ser a) = some a

/-! ## Texts, flags and collections -/

def text : Codec (List Char) where
  ser := .str
  de := Value.asStr

def flag : Codec Bool where
  ser := .bool
  de := Value.asBool

/-- A JSON value as itself. -/
def value : Codec Value where
  ser v := v
  de := some

variable {α β : Type}

def option (c : Codec α) : Codec (Option α) where
  ser a := (a.map c.ser).getD .null
  de v := if v.isNull then some none else (c.de v).map some

def list (c : Codec α) : Codec (List α) where
  ser l := .arr (l.map c.ser)
  de v := v.asArray.bind fun items => items.mapM c.de

/-- What the entries of a map are read as; a later entry replaces an earlier one of its name. -/
def collect (entries : List (List Char × α)) : List (List Char × α) :=
  entries.foldl (fun map e => IndexMap.insert e.1 e.2 map) []

def map (c : Codec α) : Codec (List (List Char × α)) where
  ser entries := .obj (entries.map fun e => (e.1, c.ser e.2))
  de v := v.asObject.bind fun members =>
    (members.mapM fun m => (c.de m.2).map fun a => (m.1, a)).map collect

@[simp] theorem returns_text (s : List Char) : text.RoundTrips s := rfl

@[simp] theorem returns_flag (b : Bool) : flag.RoundTrips b := rfl

@[simp] theorem returns_value (v : Value) : value.RoundTrips v := rfl

@[simp] theorem isNull_text (s : List Char) : (text.ser s).isNull = false := rfl

@[simp] theorem isNull_list (c : Codec α) (l : List α) : ((list c).ser l).isNull = false := rfl

@[simp] theorem isNull_map (c : Codec α) (entries : List (List Char × α)) :
    ((map c).ser entries).isNull = false := rfl

theorem returns_some {c : Codec α} {a : α} :
    (option c).RoundTrips (some a) ↔ (c.ser a).isNull = false ∧ c.RoundTrips a := by
  show (if (c.ser a).isNull then some none else (c.de (c.ser a)).map some) = some (some a) ↔ _
  cases written : (c.ser a).isNull with
  | true => simp
  | false => simp [Codec.RoundTrips]

theorem mapM_eq_some_iff {f : α → Option β} {l : List α} {l' : List β} :
    l.mapM f = some l' ↔ List.Forall₂ (fun a b => f a = some b) l l' := by
  induction l generalizing l' with
  | nil =>
    rw [List.mapM_nil, List.forall₂_nil_left_iff]
    exact Option.some_inj.trans eq_comm
  | cons a l ih =>
    rw [List.mapM_cons, List.forall₂_cons_left_iff]
    simp only [Option.bind_eq_bind, Option.bind_eq_some_iff, ih, Option.pure_def, Option.some.injEq]
    constructor
    · rintro ⟨b, here, rest, later, rfl⟩
      exact ⟨b, rest, here, later, rfl⟩
    · rintro ⟨b, rest, here, later, rfl⟩
      exact ⟨b, here, rest, later, rfl⟩

@[simp] theorem returns_list {c : Codec α} {l : List α} :
    (list c).RoundTrips l ↔ ∀ a ∈ l, c.RoundTrips a := by
  show (l.map c.ser).mapM c.de = some l ↔ _
  rw [mapM_eq_some_iff, List.forall₂_map_left_iff, List.forall₂_same]
  rfl

theorem keyed_collect (entries : List (List Char × α)) : IndexMap.Keyed (collect entries) := by
  have step (entries m : List (List Char × α)) (keyed : IndexMap.Keyed m) :
      IndexMap.Keyed (entries.foldl (fun map e => IndexMap.insert e.1 e.2 map) m) := by
    induction entries generalizing m with
    | nil => exact keyed
    | cons e entries ih => exact ih _ (keyed.insert e.1 e.2)
  exact step entries [] List.nodup_nil

theorem collect_of_keyed {entries : List (List Char × α)} (keyed : IndexMap.Keyed entries) :
    collect entries = entries := by
  have step (entries m : List (List Char × α)) (keyed : IndexMap.Keyed (m ++ entries)) :
      entries.foldl (fun map e => IndexMap.insert e.1 e.2 map) m = m ++ entries := by
    induction entries generalizing m with
    | nil => rw [List.foldl_nil, List.append_nil]
    | cons e entries ih =>
      have fresh : e.1 ∉ m.map Prod.fst := by
        rw [IndexMap.Keyed, List.map_append, List.map_cons, List.nodup_append] at keyed
        intro mem
        exact keyed.2.2 _ mem _ List.mem_cons_self rfl
      rw [List.foldl_cons, IndexMap.insert_of_fresh fresh, ih, List.append_assoc]
      · rfl
      · rwa [List.append_assoc]
  exact step entries [] keyed

@[simp] theorem returns_map {c : Codec α} {entries : List (List Char × α)} :
    (map c).RoundTrips entries ↔
      IndexMap.Keyed entries ∧ ∀ e ∈ entries, c.RoundTrips e.2 := by
  show ((entries.map fun e => (e.1, c.ser e.2)).mapM
    fun m => (c.de m.2).map fun a => (m.1, a)).map collect = some entries ↔ _
  have read (l : List (List Char × α)) :
      (entries.map fun e => (e.1, c.ser e.2)).mapM (fun m => (c.de m.2).map fun a => (m.1, a)) =
        some l ↔ List.Forall₂ (fun e e' => e.1 = e'.1 ∧ c.de (c.ser e.2) = some e'.2) entries l := by
    rw [mapM_eq_some_iff, List.forall₂_map_left_iff]
    apply Iff.of_eq
    congr 1
    funext e e'
    simp only [Option.map_eq_some_iff, eq_iff_iff]
    constructor
    · rintro ⟨a, decoded, rfl⟩
      exact ⟨rfl, decoded⟩
    · intro same
      exact ⟨e'.2, same.2, Prod.ext same.1 rfl⟩
  rw [Option.map_eq_some_iff]
  constructor
  · rintro ⟨l, decoded, collected⟩
    have each := (read l).1 decoded
    have keyed : IndexMap.Keyed entries := collected ▸ keyed_collect l
    have keys : l.map Prod.fst = entries.map Prod.fst := by
      clear collected decoded keyed read
      induction each with
      | nil => rfl
      | cons here _ ih => rw [List.map_cons, List.map_cons, ih, here.1]
    have keyed' : IndexMap.Keyed l := by
      rw [IndexMap.Keyed, keys]
      exact keyed
    rw [collect_of_keyed keyed'] at collected
    rw [collected, List.forall₂_same] at each
    exact ⟨keyed, fun e mem => (each e mem).2⟩
  · rintro ⟨keyed, each⟩
    refine ⟨entries, (read entries).2 ?_, collect_of_keyed keyed⟩
    rw [List.forall₂_same]
    exact fun e mem => ⟨rfl, each e mem⟩

/-! ## Numbers and hash maps -/

def u64 : Codec UInt64 where
  ser := Value.ofU64
  de := Value.asU64

def u32 : Codec UInt32 where
  ser n := Value.ofU64 n.toUInt64
  de v := v.asU64.bind fun n => if n.toNat < 2 ^ 32 then some n.toUInt32 else none

/-- The numbers of an `i32`. -/
def i32 : Codec Int where
  ser i := Value.ofSigned Value.short32 (.ofInt 32 i)
  de v := v.asI64.bind fun n => if -2 ^ 31 ≤ n.toInt ∧ n.toInt < 2 ^ 31 then some n.toInt else none

@[simp] theorem returns_u64 (n : UInt64) : u64.RoundTrips n :=
  Value.asU64_ofU64 n

@[simp] theorem returns_u32 (n : UInt32) : u32.RoundTrips n := by
  show ((Value.ofU64 n.toUInt64).asU64.bind fun n =>
    if n.toNat < 2 ^ 32 then some n.toUInt32 else none) = some n
  have small : n.toUInt64.toNat < 2 ^ 32 := by
    rw [UInt32.toNat_toUInt64]
    exact n.toNat_lt
  rw [Value.asU64_ofU64, Option.bind_some, if_pos small, UInt32.toUInt32_toUInt64]

@[simp] theorem returns_i32 {i : Int} : i32.RoundTrips i ↔ -2 ^ 31 ≤ i ∧ i < 2 ^ 31 := by
  show (Value.ofSigned Value.short32 (.ofInt 32 i)).asI64.bind _ = _ ↔ _
  have bits : ((BitVec.ofInt 32 i).signExtend 64).toInt = (BitVec.ofInt 32 i).toInt :=
    BitVec.toInt_signExtend_of_le (by omega)
  have low := BitVec.le_two_mul_toInt (x := BitVec.ofInt 32 i)
  have high := BitVec.two_mul_toInt_lt (x := BitVec.ofInt 32 i)
  rw [Value.asI64_ofSigned, Option.bind_some, bits, if_pos (by omega)]
  constructor
  · intro same
    have eq := Option.some.inj same
    omega
  · rintro ⟨least, most⟩
    rw [BitVec.toInt_ofInt_eq_self (by omega) (by omega) (by omega)]

/-- A `HashMap`, with its entries in the order they are written in. -/
abbrev HashMap (α : Type) :=
  {entries : List (List Char × α) // IndexMap.Keyed entries}

def hashMap (c : Codec α) : Codec (HashMap α) where
  ser m := (map c).ser m.1
  de v := v.asObject.bind fun members =>
    (members.mapM fun m => (c.de m.2).map fun a => (m.1, a)).map fun entries =>
      ⟨collect entries, keyed_collect entries⟩

theorem returns_hashMap {c : Codec α} {m : HashMap α} (each : ∀ e ∈ m.1, c.RoundTrips e.2) :
    (hashMap c).RoundTrips m := by
  have plain : (map c).RoundTrips m.1 := returns_map.2 ⟨m.2, each⟩
  have read : (((map c).ser m.1).asObject.bind fun members =>
      (members.mapM fun e => (c.de e.2).map fun a => (e.1, a)).map collect) = some m.1 := plain
  show (((map c).ser m.1).asObject.bind fun members =>
    (members.mapM fun e => (c.de e.2).map fun a => (e.1, a)).map fun entries =>
      (⟨collect entries, keyed_collect entries⟩ : HashMap α)) = some m
  obtain ⟨members, object, rest⟩ := Option.bind_eq_some_iff.1 read
  obtain ⟨entries, items, collected⟩ := Option.map_eq_some_iff.1 rest
  rw [object, Option.bind_some, items, Option.map_some]
  exact congrArg some (Subtype.ext collected)

/-! ## Fields -/

/-- A field of a record: its name, when it is skipped, and what stands in when it is missing. -/
structure Field (α : Type) where
  name : List Char
  codec : Codec α
  skip : α → Bool
  missing : Option α

/-- A field that is always there. -/
def always (name : String) (c : Codec α) : Field α where
  name := name.toList
  codec := c
  skip _ := false
  missing := none

/-- A field that is skipped when it is absent; an absent one may be missing. -/
def optional (name : String) (c : Codec α) : Field (Option α) where
  name := name.toList
  codec := option c
  skip := Option.isNone
  missing := some none

/-- A field that is skipped under a condition, and may not be missing. -/
def skipping (name : String) (c : Codec α) (skip : α → Bool) : Field α where
  name := name.toList
  codec := c
  skip := skip
  missing := none

/-- A field that is skipped when it is blank; a missing one is blank. -/
def blankable (name : String) (c : Codec α) (blank : α → Bool) (default : α) : Field α where
  name := name.toList
  codec := c
  skip := blank
  missing := some default

namespace Field

variable (f : Field α)

def ser (a : α) : Members :=
  if f.skip a then [] else [(f.name, f.codec.ser a)]

def de (members : Members) : Option α :=
  match IndexMap.lookup f.name members with
  | some v => f.codec.de v
  | none => f.missing

/-- The field comes back: it is written and read, or what stands in for it is itself. -/
def Survives (a : α) : Prop :=
  if f.skip a then f.missing = some a else f.codec.RoundTrips a

theorem de_ser_iff {a : α} : f.de (f.ser a) = some a ↔ f.Survives a := by
  rw [Survives, ser]
  split
  · rfl
  · have found : IndexMap.lookup f.name [(f.name, f.codec.ser a)] = some (f.codec.ser a) :=
      if_pos rfl
    rw [de, found]
    rfl

end Field

@[simp] theorem survives_always {name : String} {c : Codec α} {a : α} :
    (always name c).Survives a ↔ c.RoundTrips a := Iff.rfl

@[simp] theorem survives_optional {name : String} {c : Codec α} {a : Option α} :
    (optional name c).Survives a ↔
      ∀ b, a = some b → (c.ser b).isNull = false ∧ c.RoundTrips b := by
  cases a with
  | none => exact iff_of_true rfl fun b same => absurd same (by simp)
  | some b =>
    refine (returns_some (c := c)).trans ?_
    simp

@[simp] theorem survives_skipping {name : String} {c : Codec α} {skip : α → Bool} {a : α} :
    (skipping name c skip).Survives a ↔ skip a = false ∧ c.RoundTrips a := by
  show (if skip a then none = some a else c.RoundTrips a) ↔ _
  cases skip a <;> simp

theorem survives_blankable {name : String} {c : Codec α} {blank : α → Bool} {default a : α}
    (only : blank a = true → default = a) (trips : c.RoundTrips a) :
    (blankable name c blank default).Survives a := by
  show if blank a then some default = some a else c.RoundTrips a
  split
  · rename_i isBlank
    rw [only isBlank]
  · exact trips

/-! ## Records -/

/-- A record as members: it writes members of its own names, and reads no others. -/
structure Record (α : Type) where
  names : List (List Char)
  ser : α → Members
  de : Members → Option α
  own : ∀ a, ∀ m ∈ ser a, m.1 ∈ names
  only : ∀ members members' : Members,
    (∀ n ∈ names, IndexMap.lookup n members = IndexMap.lookup n members') → de members = de members'

namespace Record

def RoundTrips (r : Record α) (a : α) : Prop :=
  r.de (r.ser a) = some a

def ofField (f : Field α) : Record α where
  names := [f.name]
  ser := f.ser
  de := f.de
  own a m mem := by
    rw [Field.ser] at mem
    split at mem
    · cases mem
    · rw [List.mem_singleton.1 mem]
      exact List.mem_cons_self
  only members members' same := by
    rw [Field.de, Field.de, same f.name List.mem_cons_self]

/-- Two records as one, the members of the first before those of the second. -/
def pair (r : Record α) (s : Record β) : Record (α × β) where
  names := r.names ++ s.names
  ser a := r.ser a.1 ++ s.ser a.2
  de members := (r.de members).bind fun a => (s.de members).map fun b => (a, b)
  own a m mem := by
    rcases List.mem_append.1 mem with mem | mem
    · exact List.mem_append_left _ (r.own a.1 m mem)
    · exact List.mem_append_right _ (s.own a.2 m mem)
  only members members' same := by
    rw [r.only members members' fun n mem => same n (List.mem_append_left _ mem),
      s.only members members' fun n mem => same n (List.mem_append_right _ mem)]

/-- The record of a type that is made of the same parts. -/
def as (r : Record α) (make : α → β) (parts : β → α) : Record β where
  names := r.names
  ser b := r.ser (parts b)
  de members := (r.de members).map make
  own b := r.own (parts b)
  only members members' same := by rw [r.only members members' same]

def codec (r : Record α) : Codec α where
  ser a := .obj (r.ser a)
  de v := v.asObject.bind r.de

variable {r : Record α} {s : Record β}

@[simp] theorem returns_ofField {f : Field α} {a : α} : (ofField f).RoundTrips a ↔ f.Survives a :=
  f.de_ser_iff

/-- Records with different names come back together exactly when each does. -/
theorem returns_pair (apart : ∀ n ∈ r.names, n ∉ s.names) {a : α} {b : β} :
    (r.pair s).RoundTrips (a, b) ↔ r.RoundTrips a ∧ s.RoundTrips b := by
  have left : r.de (r.ser a ++ s.ser b) = r.de (r.ser a) := by
    apply r.only
    intro n mem
    have none : IndexMap.lookup n (s.ser b) = none := by
      apply IndexMap.lookup_eq_none_iff.2
      intro other
      obtain ⟨m, there, rfl⟩ := List.mem_map.1 other
      exact apart m.1 mem (s.own b m there)
    rw [IndexMap.lookup_append, none, Option.or_none]
  have right : s.de (r.ser a ++ s.ser b) = s.de (s.ser b) := by
    apply s.only
    intro n mem
    have none : IndexMap.lookup n (r.ser a) = none := by
      apply IndexMap.lookup_eq_none_iff.2
      intro other
      obtain ⟨m, there, rfl⟩ := List.mem_map.1 other
      exact apart m.1 (r.own a m there) mem
    rw [IndexMap.lookup_append, none, Option.none_or]
  have both : (r.pair s).de ((r.pair s).ser (a, b)) =
      (r.de (r.ser a)).bind fun a => (s.de (s.ser b)).map fun b => (a, b) := by
    rw [← left, ← right]
    rfl
  rw [RoundTrips, both, RoundTrips, RoundTrips, Option.bind_eq_some_iff]
  simp [Option.map_eq_some_iff]

theorem returns_as {make : α → β} {parts : β → α} (parted : ∀ a, parts (make a) = a)
    (made : ∀ b, make (parts b) = b) {b : β} :
    (r.as make parts).RoundTrips b ↔ r.RoundTrips (parts b) := by
  show (r.de (r.ser (parts b))).map make = some b ↔ _
  rw [Option.map_eq_some_iff, RoundTrips]
  constructor
  · rintro ⟨a, decoded, rfl⟩
    rw [decoded, parted]
  · intro decoded
    exact ⟨parts b, decoded, made b⟩

@[simp] theorem isNull_codec (a : α) : (r.codec.ser a).isNull = false := rfl

theorem returns_codec {a : α} : r.codec.RoundTrips a ↔ r.RoundTrips a := Iff.rfl

end Record

/-! ## Tagged variants -/

/-- Values of several variants as objects: the name of the variant is a member of its own, in front
of those of its record. -/
def tagged (tag : List Char) (variant : α → List Char) (ser : α → Members)
    (de : List Char → Members → Option α) : Codec α where
  ser a := .obj ((tag, .str (variant a)) :: ser a)
  de v := v.asObject.bind fun members =>
    ((IndexMap.lookup tag members).bind Value.asStr).bind fun name =>
      de name (members.filter fun m => m.1 ≠ tag)

theorem returns_tagged {tag : List Char} {variant : α → List Char} {ser : α → Members}
    {de : List Char → Members → Option α} {a : α} (apart : ∀ m ∈ ser a, m.1 ≠ tag) :
    (tagged tag variant ser de).RoundTrips a ↔ de (variant a) (ser a) = some a := by
  have named : IndexMap.lookup tag ((tag, Value.str (variant a)) :: ser a) =
      some (.str (variant a)) := if_pos rfl
  have rest : ((tag, Value.str (variant a)) :: ser a).filter (fun m => m.1 ≠ tag) = ser a := by
    rw [List.filter_cons_of_neg (by simp), List.filter_eq_self]
    exact fun m mem => decide_eq_true (apart m mem)
  show ((IndexMap.lookup tag ((tag, .str (variant a)) :: ser a)).bind Value.asStr).bind _ = _ ↔ _
  rw [named, rest]
  rfl

/-! ## Types that contain themselves

Their reader is called on smaller values only, and comes to the same as one that is given.
-/

theorem sizeOf_lookup {n : List Char} {members : Members} {v : Value}
    (found : IndexMap.lookup n members = some v) : sizeOf v < sizeOf members := by
  have below := List.sizeOf_lt_of_mem (IndexMap.mem_of_lookup found)
  simp only [Prod.mk.sizeOf_spec] at below
  omega

theorem sizeOf_item {items : List Value} (w : {w // w ∈ items}) :
    sizeOf w.1 < sizeOf (Value.arr items) := by
  have below := List.sizeOf_lt_of_mem w.2
  simp only [Value.arr.sizeOf_spec]
  omega

theorem sizeOf_member {members : Members} (m : {m // m ∈ members}) :
    sizeOf m.1.2 < sizeOf (Value.obj members) := by
  have below := List.sizeOf_lt_of_mem m.2
  have part : sizeOf m.1.2 < sizeOf m.1 := by
    obtain ⟨⟨n, w⟩, mem⟩ := m
    simp only [Prod.mk.sizeOf_spec]
    omega
  simp only [Value.obj.sizeOf_spec]
  omega

def optionalWithin (name : String) (members : Members)
    (f : (v : Value) → sizeOf v < sizeOf members → Option α) : Option (Option α) :=
  match found : IndexMap.lookup name.toList members with
  | none => some none
  | some v => if v.isNull then some none else (f v (sizeOf_lookup found)).map some

def listWithin (v : Value) (f : (w : Value) → sizeOf w < sizeOf v → Option α) :
    Option (List α) :=
  match v with
  | .arr items => items.attach.mapM fun w => f w.1 (sizeOf_item w)
  | _ => none

def mapWithin (v : Value) (f : (w : Value) → sizeOf w < sizeOf v → Option α) :
    Option (List (List Char × α)) :=
  match v with
  | .obj members => (members.attach.mapM fun m =>
      (f m.1.2 (sizeOf_member m)).map fun a => (m.1.1, a)).map collect
  | _ => none

/-- What a function makes of a member. -/
def lookupWithin {β : Type} (n : List Char) (members : Members)
    (f : (v : Value) → sizeOf v < sizeOf members → β) : Option β :=
  match found : IndexMap.lookup n members with
  | none => none
  | some v => some (f v (sizeOf_lookup found))

/-- What a function makes of the members of an object. -/
def membersWithin (v : Value) (f : (w : Value) → sizeOf w < sizeOf v → Value) : Option Members :=
  match v with
  | .obj members => some (members.attach.map fun m => (m.1.1, f m.1.2 (sizeOf_member m)))
  | _ => none

/-- What a function makes of the items of an array. -/
def itemsWithin (v : Value) (f : (w : Value) → sizeOf w < sizeOf v → Value) :
    Option (List Value) :=
  match v with
  | .arr items => some (items.attach.map fun w => f w.1 (sizeOf_item w))
  | _ => none

theorem lookupWithin_eq {β : Type} (n : List Char) (members : Members) (f : Value → β) :
    (lookupWithin n members fun v _ => f v) = (IndexMap.lookup n members).map f := by
  unfold lookupWithin
  split
  · rename_i found
    rw [found]
    rfl
  · rename_i v found
    show some (f v) = _
    rw [found]
    rfl

theorem membersWithin_eq (v : Value) (f : Value → Value) :
    (membersWithin v fun w _ => f w) = v.asObject.map fun members =>
      members.map fun m => (m.1, f m.2) := by
  cases v with
  | obj members =>
    exact congrArg some (List.attach_map_val (f := fun m : List Char × Value => (m.1, f m.2)))
  | _ => rfl

theorem itemsWithin_eq (v : Value) (f : Value → Value) :
    (itemsWithin v fun w _ => f w) = v.asArray.map fun items => items.map f := by
  cases v with
  | arr items => exact congrArg some List.attach_map_val
  | _ => rfl

theorem mapM_attach {γ δ : Type} (l : List γ) (g : γ → Option δ) :
    (l.attach.mapM fun x => g x.1) = l.mapM g := by
  calc (l.attach.mapM fun x => g x.1) = (l.attach.map Subtype.val).mapM g := List.mapM_map.symm
    _ = l.mapM g := by rw [List.attach_map_subtype_val]

variable (c : Codec α)

theorem optionalWithin_eq (name : String) (members : Members) :
    (optionalWithin name members fun v _ => c.de v) = (optional name c).de members := by
  show _ = match IndexMap.lookup name.toList members with
    | some v => if v.isNull then some none else (c.de v).map some
    | none => some none
  unfold optionalWithin
  split
  · rename_i found
    rw [found]
  · rename_i v found
    show (if v.isNull then some none else (c.de v).map some) = _
    rw [found]

theorem listWithin_eq (v : Value) : (listWithin v fun w _ => c.de w) = (list c).de v := by
  cases v with
  | arr items => exact mapM_attach items c.de
  | _ => rfl

theorem mapWithin_eq (v : Value) : (mapWithin v fun w _ => c.de w) = (map c).de v := by
  cases v with
  | obj members =>
    exact congrArg (Option.map collect)
      (mapM_attach members fun m => (c.de m.2).map fun a => (m.1, a))
  | _ => rfl

/-! ## Values up to the order of members -/

/-- The values are one up to the order of the members of the objects in them. -/
inductive Alike : Value → Value → Prop where
  | same (v : Value) : Alike v v
  | arr {vs ws : List Value} (length : vs.length = ws.length)
      (item : ∀ e ∈ vs.zip ws, Alike e.1 e.2) : Alike (.arr vs) (.arr ws)
  | obj {m m' : Members}
      (names : ∀ n, (IndexMap.lookup n m).isSome = (IndexMap.lookup n m').isSome)
      (member : ∀ n v w, IndexMap.lookup n m = some v → IndexMap.lookup n m' = some w → Alike v w) :
      Alike (.obj m) (.obj m')

/-- Objects are alike that have the same names in the same order, and alike members. -/
theorem alike_of_zip {m m' : Members} (names : m.map Prod.fst = m'.map Prod.fst)
    (each : ∀ e ∈ m.zip m', Alike e.1.2 e.2.2) : Alike (.obj m) (.obj m') := by
  have both (n : List Char) : (IndexMap.lookup n m).isSome = (IndexMap.lookup n m').isSome ∧
      ∀ v w, IndexMap.lookup n m = some v → IndexMap.lookup n m' = some w → Alike v w := by
    induction m generalizing m' with
    | nil =>
      obtain rfl := List.map_eq_nil_iff.1 names.symm
      exact ⟨rfl, fun v w here => nomatch here⟩
    | cons e m ih =>
      obtain ⟨e', m', rfl⟩ := List.exists_cons_of_ne_nil (l := m') fun none => by
        rw [none] at names
        cases names
      obtain ⟨k, v⟩ := e
      obtain ⟨k', v'⟩ := e'
      obtain ⟨rfl, rest⟩ := List.cons.inj names
      have later := ih rest fun e mem => each e (List.mem_cons_of_mem _ mem)
      have here : Alike v v' := each ((k, v), (k, v')) List.mem_cons_self
      simp only [IndexMap.lookup_cons]
      split
      · refine ⟨rfl, fun w w' first second => ?_⟩
        cases first
        cases second
        exact here
      · exact later
  exact .obj (fun n => (both n).1) fun n => (both n).2

end Serde
