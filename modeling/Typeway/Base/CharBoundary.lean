import Typeway.Base.Utf8

/-!
# Cutting text at bytes

A range of the bytes of a text is text again when it is empty or has its ends between characters,
and at no other time.
-/

namespace Utf8

/-- `s.is_char_boundary(k)`, on the bytes of `s`. -/
def isCharBoundary (bytes : List UInt8) (k : Nat) : Bool :=
  match bytes[k]? with
  | some byte => decide byte.IsUTF8FirstByte
  | none => k == bytes.length

theorem decode_isSome_iff {bytes : List UInt8} :
    (decode bytes).isSome = true ↔ ByteArray.IsValidUTF8 ⟨bytes.toArray⟩ := by
  rw [decode, String.fromUTF8?]
  split
  · rename_i valid
    exact iff_of_true rfl valid
  · rename_i invalid
    exact iff_of_false Bool.false_ne_true invalid

theorem isValid_iff_isCharBoundary (s : String) (k : Nat) :
    (⟨k⟩ : String.Pos.Raw).IsValid s ↔ isCharBoundary (encode s) k = true := by
  have size : s.rawEndPos.byteIdx = (encode s).length := by
    rw [String.byteIdx_rawEndPos, ← String.size_toByteArray]
    rfl
  rw [String.Pos.Raw.isValid_iff_isUTF8FirstByte, String.Pos.Raw.ext_iff, size, isCharBoundary]
  by_cases inside : k < (encode s).length
  · have byte : (encode s)[k]? = some ((encode s)[k]) := List.getElem?_eq_getElem inside
    rw [byte]
    simp only [decide_eq_true_eq]
    constructor
    · rintro (last | ⟨_, first⟩)
      · exact absurd last (Nat.ne_of_lt inside)
      · exact first
    · exact fun first => .inr ⟨String.Pos.Raw.lt_iff.2 (size.symm ▸ inside), first⟩
  · rw [List.getElem?_eq_none (Nat.le_of_not_lt inside)]
    simp only [beq_iff_eq]
    constructor
    · rintro (last | ⟨before, _⟩)
      · exact last
      · exact absurd (size ▸ String.Pos.Raw.lt_iff.1 before) inside
    · exact .inl

/-- The exact condition for a range of a text to be text. -/
theorem decode_cut_isSome_iff {bytes : List UInt8} (valid : (decode bytes).isSome = true)
    {lo hi : Nat} (order : lo ≤ hi) (inside : hi ≤ bytes.length) :
    (decode ((bytes.drop lo).take (hi - lo))).isSome = true ↔
      lo = hi ∨ (isCharBoundary bytes lo = true ∧ isCharBoundary bytes hi = true) := by
  obtain ⟨s, text⟩ := Option.isSome_iff_exists.1 valid
  obtain rfl := encode_of_decode text
  have cut : (⟨(((encode s).drop lo).take (hi - lo)).toArray⟩ : ByteArray) =
      s.toByteArray.extract lo hi := by
    apply ByteArray.ext
    rw [ByteArray.data_extract]
    apply Array.ext'
    rw [Array.toList_extract, List.extract_eq_take_drop]
    rfl
  have size : hi ≤ s.rawEndPos.byteIdx := by
    rw [String.byteIdx_rawEndPos, ← String.size_toByteArray]
    exact inside
  have exact_cut := String.Pos.Raw.isValidUTF8_extract_iff (s := s) ⟨lo⟩ ⟨hi⟩
    (String.Pos.Raw.le_iff.2 order) (String.Pos.Raw.le_iff.2 size)
  rw [decode_isSome_iff, cut, exact_cut, isValid_iff_isCharBoundary, isValid_iff_isCharBoundary,
    String.Pos.Raw.ext_iff]

end Utf8
