import Mathlib.Data.List.Basic

/-!
# Text as bytes
-/

namespace Utf8

/-- `s.as_bytes()`. -/
def encode (s : String) : List UInt8 :=
  s.toByteArray.data.toList

/-- `str::from_utf8`. -/
def decode (bytes : List UInt8) : Option String :=
  String.fromUTF8? ⟨bytes.toArray⟩

@[simp] theorem decode_encode (s : String) : decode (encode s) = some s := by
  have array : (⟨(encode s).toArray⟩ : ByteArray) = s.toByteArray := rfl
  rw [decode, array, String.fromUTF8?, dif_pos s.isValidUTF8]
  rfl

@[simp] theorem encode_empty : encode "" = [] := rfl

theorem isEmpty_iff {s : String} : s.isEmpty = true ↔ s = "" :=
  String.isEmpty_iff

/-! ## Lists of characters -/

/-- `s.as_bytes()`, of a text as its characters. -/
def bytes (text : List Char) : List UInt8 :=
  text.flatMap String.utf8EncodeChar

/-- `String::from_utf8`, of a text as its characters. -/
def chars? (b : List UInt8) : Option (List Char) :=
  (decode b).map String.toList

theorem encode_ofList (text : List Char) : encode (String.ofList text) = bytes text := by
  rw [encode, String.toByteArray_ofList, List.utf8Encode, List.data_toByteArray]
  rfl

@[simp] theorem chars?_bytes (text : List Char) : chars? (bytes text) = some text := by
  rw [chars?, ← encode_ofList, decode_encode, Option.map_some, String.toList_ofList]

theorem encode_of_decode {b : List UInt8} {s : String} (h : decode b = some s) : encode s = b := by
  rw [decode, String.fromUTF8?] at h
  split at h
  · cases h
    rfl
  · cases h

theorem bytes_of_chars? {b : List UInt8} {text : List Char} (h : chars? b = some text) :
    bytes text = b := by
  obtain ⟨s, decoded, rfl⟩ := Option.map_eq_some_iff.1 h
  rw [← encode_ofList, String.ofList_toList]
  exact encode_of_decode decoded

@[simp] theorem bytes_nil : bytes [] = [] := rfl

@[simp] theorem bytes_append (text rest : List Char) : bytes (text ++ rest) = bytes text ++ bytes rest :=
  List.flatMap_append

theorem utf8EncodeChar_ascii {c : Char} (ascii : c.toNat < 128) :
    String.utf8EncodeChar c = [UInt8.ofNat c.toNat] := by
  rw [String.utf8EncodeChar]
  have value : c.val.toNat = c.toNat := rfl
  exact if_pos (by omega)

/-- A character below 128 is its byte. -/
theorem bytes_ascii {text : List Char} (ascii : ∀ c ∈ text, c.toNat < 128) :
    bytes text = text.map fun c => UInt8.ofNat c.toNat := by
  induction text with
  | nil => rfl
  | cons c text ih =>
    rw [List.forall_mem_cons] at ascii
    rw [bytes, List.flatMap_cons, utf8EncodeChar_ascii ascii.1, List.map_cons, ← ih ascii.2]
    rfl

theorem bytes_injective {text text' : List Char} (same : bytes text = bytes text') : text = text' := by
  have read := chars?_bytes text
  rw [same, chars?_bytes] at read
  exact (Option.some.inj read).symm

theorem toNat_ofByte {b : UInt8} (ascii : b.toNat < 128) : (Char.ofNat b.toNat).toNat = b.toNat := by
  have valid : b.toNat.isValidChar := .inl (by omega)
  rw [Char.ofNat, dif_pos valid]
  rfl

/-- Bytes below 128 are their characters. -/
theorem bytes_ofBytes {b : List UInt8} (ascii : ∀ byte ∈ b, byte.toNat < 128) :
    bytes (b.map fun byte => Char.ofNat byte.toNat) = b := by
  induction b with
  | nil => rfl
  | cons byte b ih =>
    rw [List.forall_mem_cons] at ascii
    have value := toNat_ofByte ascii.1
    rw [List.map_cons, bytes, List.flatMap_cons, utf8EncodeChar_ascii (by omega), value,
      UInt8.ofNat_toNat]
    exact congrArg (byte :: ·) (ih ascii.2)

/-! ## Where characters end -/

/-- Other characters have no byte below 128. -/
theorem utf8EncodeChar_high {c : Char} (high : 128 ≤ c.toNat) :
    ∀ byte ∈ String.utf8EncodeChar c, 128 ≤ byte.toNat := by
  have value : c.val.toNat = c.toNat := rfl
  have byte (n k : Nat) (least : 128 ≤ k) (most : n + k < 256) : 128 ≤ (UInt8.ofNat (n + k)).toNat := by
    have small : (UInt8.ofNat (n + k)).toNat = n + k := Nat.mod_eq_of_lt most
    omega
  unfold String.utf8EncodeChar
  dsimp only
  rw [if_neg (by omega)]
  split
  · simp only [List.forall_mem_cons, List.not_mem_nil, false_imp_iff, implies_true, and_true]
    exact ⟨byte _ _ (by omega) (by omega), byte _ _ (by omega) (by omega)⟩
  · split
    · simp only [List.forall_mem_cons, List.not_mem_nil, false_imp_iff, implies_true, and_true]
      exact ⟨byte _ _ (by omega) (by omega), byte _ _ (by omega) (by omega),
        byte _ _ (by omega) (by omega)⟩
    · simp only [List.forall_mem_cons, List.not_mem_nil, false_imp_iff, implies_true, and_true]
      exact ⟨byte _ _ (by omega) (by omega), byte _ _ (by omega) (by omega),
        byte _ _ (by omega) (by omega), byte _ _ (by omega) (by omega)⟩

/-- A byte below 128 in a text is a character of its own. -/
theorem cut_ascii {c : Char} (ascii : c.toNat < 128) {text : List Char} {before behind : List UInt8}
    (h : bytes text = before ++ UInt8.ofNat c.toNat :: behind) :
    ∃ front back, text = front ++ c :: back ∧ bytes front = before ∧ bytes back = behind := by
  induction text generalizing before with
  | nil => exact absurd h (by simp)
  | cons d text ih =>
    rw [bytes, List.flatMap_cons] at h
    have step {more : List UInt8} (later : bytes text = more ++ UInt8.ofNat c.toNat :: behind)
        (split : before = String.utf8EncodeChar d ++ more) :
        ∃ front back, d :: text = front ++ c :: back ∧ bytes front = before ∧ bytes back = behind := by
      obtain ⟨front, back, rfl, rfl, rfl⟩ := ih later
      exact ⟨d :: front, back, rfl, split.symm, rfl⟩
    obtain ⟨more, rfl, later⟩ | ⟨more, inside, later⟩ := List.append_eq_append_iff.1 h
    · exact step later rfl
    · cases more with
      | nil =>
        rw [List.nil_append] at later
        refine @step [] later.symm ?_
        rw [inside, List.append_nil, List.append_nil]
      | cons byte more =>
        obtain ⟨rfl, rfl⟩ := List.cons_eq_cons.1 later
        have value : (UInt8.ofNat c.toNat).toNat = c.toNat := Nat.mod_eq_of_lt (by omega)
        have single : d.toNat < 128 := by
          by_contra high
          have := utf8EncodeChar_high (Nat.le_of_not_lt high) (UInt8.ofNat c.toNat)
            (inside ▸ by simp)
          omega
        rw [utf8EncodeChar_ascii single] at inside
        obtain ⟨rfl, same, rfl⟩ : before = [] ∧ UInt8.ofNat d.toNat = UInt8.ofNat c.toNat ∧ more = [] := by
          cases before with
          | nil =>
            obtain ⟨same, rest⟩ := List.cons_eq_cons.1 inside
            exact ⟨rfl, same, rest.symm⟩
          | cons first before => simp at inside
        have value' : (UInt8.ofNat d.toNat).toNat = d.toNat := Nat.mod_eq_of_lt (by omega)
        have equal : d = c := by
          apply Char.ext
          apply UInt32.toNat_inj.1
          show d.toNat = c.toNat
          rw [← value', same, value]
        exact ⟨[], text, congrArg (· :: text) equal, rfl, rfl⟩

end Utf8
