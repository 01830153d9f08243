import Typeway.Base.CharBoundary
import Typeway.Protobuf.BytesStr

/-!
# The text that a `BytesStr` trusts

The view of a `BytesStr` as a string does not look at its bytes. They are text when it is made, and
a clone or a conversion keeps them; `slice` takes any range that is inside.
-/

namespace Typeway.Protobuf

open Checked

namespace BytesStr

/-- `BytesStr::from_utf8`. -/
def fromUtf8 (bytes : Bytes) : Option BytesStr :=
  if (Utf8.decode bytes.asSlice).isSome then some ⟨bytes⟩ else none

/-- `From<String>`. -/
def fromString (s : String) : BytesStr :=
  ⟨Bytes.ofList (Utf8.encode s)⟩

/-- `From<&'static str>`. -/
def fromStatic (s : String) : BytesStr :=
  ⟨Bytes.ofList (Utf8.encode s)⟩

def default : BytesStr :=
  ⟨Bytes.ofList []⟩

/-- `Deserialize`, once the string is read. -/
def deserialize (s : String) : BytesStr :=
  fromString s

/-- `typeway_decode`, which copies the bytes. -/
def typewayDecode (bytes : List UInt8) : Option BytesStr :=
  (Utf8.decode bytes).map fromString

/-- `typeway_decode_bytes`, which shares them. -/
def typewayDecodeBytes (bytes : Bytes) : Option BytesStr :=
  fromUtf8 bytes

/-- `self.slice(lo..hi)`. -/
def slice {ε : Type} (s : BytesStr) (lo hi : Nat) : Run ε BytesStr :=
  (s.inner.slice lo hi).map BytesStr.mk

def asBytes (s : BytesStr) : List UInt8 :=
  s.inner.asSlice

def intoBytes (s : BytesStr) : Bytes :=
  s.inner

/-- `From<BytesStr> for String`. -/
def toString (s : BytesStr) : String :=
  s.deref

/-- The bytes are text, which `str::from_utf8_unchecked` takes for granted. -/
def Valid (s : BytesStr) : Prop :=
  (Utf8.decode s.asBytes).isSome = true

instance (s : BytesStr) : Decidable s.Valid :=
  inferInstanceAs (Decidable (_ = true))

theorem valid_fromString (s : String) : (fromString s).Valid := by
  rw [Valid, asBytes, fromString, Bytes.asSlice_ofList, Utf8.decode_encode]
  rfl

theorem valid_fromUtf8 {bytes : Bytes} {s : BytesStr} (made : fromUtf8 bytes = some s) :
    s.Valid := by
  unfold fromUtf8 at made
  split at made
  · rename_i text
    obtain rfl := Option.some.inj made
    exact text
  · cases made

theorem valid_typewayDecode {bytes : List UInt8} {s : BytesStr} (made : typewayDecode bytes = some s) :
    s.Valid := by
  obtain ⟨text, _, rfl⟩ := Option.map_eq_some_iff.1 made
  exact valid_fromString text

/-- What `slice` returns holds a range of the bytes. -/
theorem slice_eq_ok {ε : Type} {s t : BytesStr} {lo hi : Nat}
    (cut : (s.slice lo hi : Run ε BytesStr) = .ok t) :
    lo ≤ hi ∧ hi ≤ s.asBytes.length ∧ t.asBytes = (s.asBytes.drop lo).take (hi - lo) := by
  have bytes := s.inner.slice_asSlice (ε := ε) lo hi
  unfold slice at cut
  cases inner : (s.inner.slice lo hi : Run ε Bytes) with
  | error e =>
    rw [inner] at cut
    cases cut
  | ok b =>
    rw [inner] at cut bytes
    cases cut
    change Except.ok b.asSlice = Checked.slice s.asBytes lo hi at bytes
    unfold Checked.slice at bytes
    split at bytes
    · rename_i fits
      exact ⟨fits.1, fits.2, Except.ok.inj bytes⟩
    · cases bytes

/-- The ends of a range, where it has bytes inside at all, are between characters. -/
def AtChars (s : BytesStr) (lo hi : Nat) : Prop :=
  lo < hi → hi ≤ s.asBytes.length →
    Utf8.isCharBoundary s.asBytes lo = true ∧ Utf8.isCharBoundary s.asBytes hi = true

instance (s : BytesStr) (lo hi : Nat) : Decidable (s.AtChars lo hi) :=
  inferInstanceAs (Decidable (_ → _ → _))

theorem valid_slice_iff {ε : Type} {s t : BytesStr} {lo hi : Nat} (valid : s.Valid)
    (cut : (s.slice lo hi : Run ε BytesStr) = .ok t) : t.Valid ↔ s.AtChars lo hi := by
  obtain ⟨order, inside, bytes⟩ := slice_eq_ok cut
  rw [Valid, bytes, Utf8.decode_cut_isSome_iff valid order inside]
  constructor
  · rintro (rfl | ends) nonempty _
    · exact absurd nonempty (Nat.lt_irrefl _)
    · exact ends
  · intro atChars
    obtain empty | nonempty := Nat.eq_or_lt_of_le order
    · exact .inl empty
    · exact .inr (atChars nonempty inside)

/-! ## Programs -/

/-- A statement of a program that makes a `BytesStr`, from outside or from one made before. -/
inductive Statement where
  | fromUtf8 (bytes : Bytes)
  | fromString (s : String)
  | fromStatic (s : String)
  | default
  | deserialize (s : String)
  | typewayDecode (bytes : List UInt8)
  | typewayDecodeBytes (bytes : Bytes)
  | clone (i : Nat)
  | slice (i lo hi : Nat)
  | throughString (i : Nat)
  | throughBytes (i : Nat)

/-- What a statement makes, unless it is refused or panics. -/
def Statement.made (values : List BytesStr) : Statement → Option BytesStr
  | .fromUtf8 bytes => BytesStr.fromUtf8 bytes
  | .fromString s => some (BytesStr.fromString s)
  | .fromStatic s => some (BytesStr.fromStatic s)
  | .default => some BytesStr.default
  | .deserialize s => some (BytesStr.deserialize s)
  | .typewayDecode bytes => BytesStr.typewayDecode bytes
  | .typewayDecodeBytes bytes => BytesStr.typewayDecodeBytes bytes
  | .clone i => values[i]?
  | .slice i lo hi => values[i]?.bind fun s => (s.slice lo hi : Run Empty BytesStr).toOption
  | .throughString i => values[i]?.map fun s => BytesStr.fromString s.toString
  | .throughBytes i => values[i]?.bind fun s => BytesStr.fromUtf8 s.intoBytes

/-- The values that a program has made. -/
def run (values : List BytesStr) : List Statement → List BytesStr
  | [] => values
  | statement :: program => run (values ++ (statement.made values).toList) program

/-- A statement cuts between characters. -/
def Statement.AtChars (values : List BytesStr) : Statement → Prop
  | .slice i lo hi => ∀ s ∈ values[i]?, s.AtChars lo hi
  | _ => True

/-- Every statement of a program does, where it stands. -/
def CutsAtChars (values : List BytesStr) : List Statement → Prop
  | [] => True
  | statement :: program =>
    statement.AtChars values ∧ CutsAtChars (values ++ (statement.made values).toList) program

def AllValid (values : List BytesStr) : Prop :=
  ∀ s ∈ values, s.Valid

theorem subset_run (program : List Statement) {values : List BytesStr} :
    ∀ s ∈ values, s ∈ run values program := by
  induction program generalizing values with
  | nil => exact fun s mem => mem
  | cons statement program ih => exact fun s mem => ih s (List.mem_append_left _ mem)

theorem AllValid.get {values : List BytesStr} (valid : AllValid values) {i : Nat} {s : BytesStr}
    (at_i : values[i]? = some s) : s.Valid :=
  valid s (List.mem_of_getElem? at_i)

/-- Of valid values, a statement makes a valid one when it cuts between characters. -/
theorem made_valid_iff {values : List BytesStr} (valid : AllValid values) (statement : Statement) :
    (∀ s ∈ statement.made values, s.Valid) ↔ statement.AtChars values := by
  cases statement with
  | slice i lo hi =>
    simp only [Statement.made, Statement.AtChars, Option.mem_def]
    cases at_i : values[i]? with
    | none => exact iff_of_true nofun nofun
    | some s =>
      rw [Option.bind_some]
      cases cut : (s.slice lo hi : Run Empty BytesStr) with
      | error e =>
        refine iff_of_true nofun ?_
        rintro _ ⟨⟩ nonempty inside
        -- a range that is inside is cut
        have fits : lo ≤ hi ∧ hi ≤ s.inner.stop - s.inner.start := by
          rw [asBytes, Bytes.asSlice_length] at inside
          omega
        rw [slice, Bytes.slice, dif_pos fits] at cut
        cases cut
      | ok t =>
        have exact_cut := valid_slice_iff (valid.get at_i) cut
        constructor
        · rintro all _ ⟨⟩
          exact exact_cut.1 (all t rfl)
        · rintro atChars _ ⟨⟩
          exact exact_cut.2 (atChars s rfl)
  | fromUtf8 bytes | typewayDecodeBytes bytes =>
    exact iff_of_true (fun s made => valid_fromUtf8 made) trivial
  | fromString text | fromStatic text | deserialize text =>
    exact iff_of_true (fun s made => Option.some.inj made ▸ valid_fromString text) trivial
  | default => exact iff_of_true (fun s made => Option.some.inj made ▸ valid_fromString "") trivial
  | typewayDecode bytes => exact iff_of_true (fun s made => valid_typewayDecode made) trivial
  | clone i => exact iff_of_true (fun s made => valid.get made) trivial
  | throughString i =>
    refine iff_of_true (fun s made => ?_) trivial
    obtain ⟨source, _, rfl⟩ := Option.map_eq_some_iff.1 made
    exact valid_fromString _
  | throughBytes i =>
    refine iff_of_true (fun s made => ?_) trivial
    obtain ⟨source, _, again⟩ := Option.bind_eq_some_iff.1 made
    exact valid_fromUtf8 again

theorem allValid_append_iff {values : List BytesStr} (valid : AllValid values) (more : Option BytesStr) :
    AllValid (values ++ more.toList) ↔ ∀ s ∈ more, s.Valid := by
  constructor
  · exact fun all s mem => all s (List.mem_append_right _ (Option.mem_toList.2 mem))
  · intro made s mem
    obtain old | new := List.mem_append.1 mem
    · exact valid s old
    · exact made s (Option.mem_toList.1 new)

/-- A program over valid values keeps to valid values when its cuts do. -/
theorem allValid_run_iff (program : List Statement) {values : List BytesStr} (valid : AllValid values) :
    AllValid (run values program) ↔ CutsAtChars values program := by
  induction program generalizing values with
  | nil => exact iff_of_true valid trivial
  | cons statement program ih =>
    have step := (allValid_append_iff valid (statement.made values)).trans
      (made_valid_iff valid statement)
    rw [run, CutsAtChars]
    constructor
    · intro all
      have next := fun s mem => all s (subset_run program s mem)
      exact ⟨step.1 next, (ih next).1 all⟩
    · rintro ⟨atChars, rest⟩
      exact (ih (step.2 atChars)).2 rest

/-- Every `BytesStr` that a program makes holds text if and only if each range it cuts is empty or
has its ends between characters. -/
theorem valid_reached_iff (program : List Statement) :
    AllValid (run [] program) ↔ CutsAtChars [] program :=
  allValid_run_iff program (List.forall_mem_nil _)

/-- One byte of a character of two. -/
theorem half_char_reached :
    ¬ ∀ program : List Statement, AllValid (run [] program) := by
  intro all
  have cuts := (allValid_run_iff [.fromStatic "é", .slice 0 0 1] (List.forall_mem_nil _)).1 (all _)
  exact absurd (cuts.2.1 _ rfl) (by decide)

end BytesStr

end Typeway.Protobuf
