import Typeway.Base.LittleEndian

/-!
# gRPC frames

`framing.rs`: a message behind a compression flag and its length as a big-endian `u32`. The
decoder reads the frame a text of bytes begins with, and says nothing about what is behind it.
-/

namespace Typeway.Grpc

inductive FramingError where
  | tooShort (got : Nat)
  | compressedNotSupported
  | incomplete (expected got : Nat)
  deriving DecidableEq

/-- `(message.len() as u32).to_be_bytes()` -/
def frameLength (message : List UInt8) : List UInt8 :=
  (LittleEndian.encode 4 message.length).reverse

def encodeGrpcFrame (message : List UInt8) : List UInt8 :=
  0 :: (frameLength message ++ message)

def decodeGrpcFrame : List UInt8 → Except FramingError (List UInt8)
  | compressed :: a :: b :: c :: d :: rest =>
    if compressed ≠ 0 then .error .compressedNotSupported
    else
      let len := LittleEndian.value [d, c, b, a]
      if rest.length < len then .error (.incomplete len rest.length) else .ok (rest.take len)
  | data => .error (.tooShort data.length)

/-- The bytes are one uncompressed frame around the message, and nothing else. -/
structure IsFrame (data message : List UInt8) : Prop where
  eq : data = encodeGrpcFrame message
  fits : message.length < 2 ^ 32

/-- The bytes begin with no uncompressed frame. -/
inductive Malformed : List UInt8 → Prop
  | short {data : List UInt8} (short : data.length < 5) : Malformed data
  | compressed {flag a b c d : UInt8} {rest : List UInt8} (set : flag ≠ 0) :
      Malformed (flag :: a :: b :: c :: d :: rest)
  | incomplete {flag a b c d : UInt8} {rest : List UInt8}
      (beyond : rest.length < LittleEndian.value [d, c, b, a]) :
      Malformed (flag :: a :: b :: c :: d :: rest)

@[simp] theorem frameLength_length (message : List UInt8) : (frameLength message).length = 4 := by
  rw [frameLength, List.length_reverse, LittleEndian.encode_length]

theorem encodeGrpcFrame_drop (message : List UInt8) : (encodeGrpcFrame message).drop 5 = message := by
  rw [encodeGrpcFrame, List.drop_succ_cons]
  exact List.drop_left' (frameLength_length message)

theorem IsFrame.drop {data message : List UInt8} (frame : IsFrame data message) :
    data.drop 5 = message := by
  rw [frame.eq, encodeGrpcFrame_drop]

theorem IsFrame.length {data message : List UInt8} (frame : IsFrame data message) :
    data.length = 5 + message.length := by
  rw [frame.eq, encodeGrpcFrame, List.length_cons, List.length_append, frameLength_length]
  omega

/-- The length a header gives is the length of the message that belongs to it. -/
theorem frameLength_eq_iff {a b c d : UInt8} {message : List UInt8}
    (fits : message.length < 2 ^ 32) :
    frameLength message = [a, b, c, d] ↔ LittleEndian.value [d, c, b, a] = message.length := by
  constructor
  · intro same
    have reversed : LittleEndian.encode 4 message.length = [d, c, b, a] := by
      rw [← List.reverse_reverse (LittleEndian.encode 4 message.length), ← frameLength, same]
      rfl
    rw [← reversed]
    exact LittleEndian.value_encode (by simpa using fits)
  · intro len
    rw [frameLength, ← len]
    have back := LittleEndian.encode_value [d, c, b, a]
    rw [List.length_cons, List.length_cons, List.length_cons, List.length_singleton] at back
    rw [back]
    rfl

/-- What is decoded is what the bytes have a frame around, whatever is behind the frame. -/
theorem decodeGrpcFrame_eq_ok {data message : List UInt8} :
    decodeGrpcFrame data = .ok message ↔
      ∃ rest, data = encodeGrpcFrame message ++ rest ∧ message.length < 2 ^ 32 := by
  constructor
  · intro decoded
    unfold decodeGrpcFrame at decoded
    split at decoded
    case h_2 => cases decoded
    case h_1 compressed a b c d rest =>
      split at decoded
      · cases decoded
      · next plain =>
        dsimp only at decoded
        split at decoded
        · cases decoded
        · next enough =>
          have flag : compressed = 0 := not_not.1 plain
          obtain rfl := Except.ok.inj decoded
          have small : LittleEndian.value [d, c, b, a] < 2 ^ 32 := by
            have bound := LittleEndian.value_lt [d, c, b, a]
            rwa [show 256 ^ [d, c, b, a].length = 2 ^ 32 by simp] at bound
          have len : (rest.take (LittleEndian.value [d, c, b, a])).length =
              LittleEndian.value [d, c, b, a] := by
            rw [List.length_take]
            omega
          have fits : (rest.take (LittleEndian.value [d, c, b, a])).length < 2 ^ 32 := by
            rwa [len]
          refine ⟨rest.drop (LittleEndian.value [d, c, b, a]), ?_, fits⟩
          rw [encodeGrpcFrame, (frameLength_eq_iff fits).2 len.symm, flag]
          simp only [List.cons_append, List.nil_append, List.take_append_drop]
  · rintro ⟨rest, rfl, fits⟩
    obtain ⟨a, b, c, d, header⟩ : ∃ a b c d, frameLength message = [a, b, c, d] := by
      have four := frameLength_length message
      match h : frameLength message, four with
      | [a, b, c, d], _ => exact ⟨a, b, c, d, rfl⟩
    have len := (frameLength_eq_iff fits).1 header
    rw [encodeGrpcFrame, header]
    simp only [List.cons_append, List.nil_append, decodeGrpcFrame, ne_eq, not_true_eq_false,
      ↓reduceIte, len]
    rw [if_neg (by rw [List.length_append]; omega), List.take_left]

theorem IsFrame.decode {data message : List UInt8} (frame : IsFrame data message) :
    decodeGrpcFrame data = .ok message :=
  decodeGrpcFrame_eq_ok.2 ⟨[], by rw [frame.eq, List.append_nil], frame.fits⟩

/-- The decoder refuses the malformed bytes and no others. -/
theorem malformed_iff {data : List UInt8} :
    Malformed data ↔ ∃ e, decodeGrpcFrame data = .error e := by
  constructor
  · intro malformed
    cases malformed with
    | short short =>
      refine ⟨.tooShort data.length, ?_⟩
      match data, short with
      | [], _ | [_], _ | [_, _], _ | [_, _, _], _ | [_, _, _, _], _ => rfl
    | compressed set => exact ⟨.compressedNotSupported, by rw [decodeGrpcFrame, if_pos set]⟩
    | @incomplete flag a b c d rest beyond =>
      by_cases set : flag ≠ 0
      · exact ⟨.compressedNotSupported, by rw [decodeGrpcFrame, if_pos set]⟩
      · refine ⟨.incomplete (LittleEndian.value [d, c, b, a]) rest.length, ?_⟩
        rw [decodeGrpcFrame, if_neg set]
        exact if_pos beyond
  · rintro ⟨e, refused⟩
    match data, refused with
    | [], _ | [_], _ | [_, _], _ | [_, _, _], _ | [_, _, _, _], _ => exact .short (by simp)
    | flag :: a :: b :: c :: d :: rest, refused =>
      by_cases set : flag ≠ 0
      · exact .compressed set
      · by_cases beyond : rest.length < LittleEndian.value [d, c, b, a]
        · exact .incomplete beyond
        · rw [decodeGrpcFrame, if_neg set] at refused
          dsimp only at refused
          rw [if_neg beyond] at refused
          cases refused

theorem IsFrame.not_malformed {data message : List UInt8} (frame : IsFrame data message) :
    ¬ Malformed data := by
  rw [malformed_iff]
  rintro ⟨e, refused⟩
  rw [frame.decode] at refused
  cases refused

end Typeway.Grpc
