import Typeway.Protobuf.Codec

/-!
# Tags and delimited values

The two shapes every record is made of: a field's number and wire type in one varint, and bytes
behind their length.
-/

namespace Typeway.Protobuf

/-- The varint of a tag and a wire type. -/
def tagBytes (tag : UInt32) (wt : UInt8) : List UInt8 :=
  Base128.encode (tag.toNat * 8 + wt.toNat)

/-- A payload behind its length. -/
def delimited (payload : List UInt8) : List UInt8 :=
  Base128.encode (payload.length % 2 ^ 64) ++ payload

/-- `(tag << 3) | wt` on 64 bits. -/
theorem tag_shift_or {wt : UInt8} (hwt : wt.toNat < 8) (tag : UInt32) :
    ((tag.toUInt64 <<< 3) ||| wt.toUInt64).toNat = tag.toNat * 8 + wt.toNat := by
  have fits : tag.toNat * 8 < 2 ^ 64 := by
    have := tag.toNat_lt
    omega
  rw [UInt64.toNat_or, UInt64.toNat_shiftLeft, UInt32.toNat_toUInt64, UInt8.toNat_toUInt64,
    show (3 : UInt64).toNat % 64 = 3 from rfl, Nat.shiftLeft_eq, Nat.mod_eq_of_lt (by omega),
    Nat.mul_comm, ← Nat.two_pow_add_eq_or_of_lt (i := 3) hwt]

theorem twEncodeTag_eq {wt : UInt8} (hwt : wt.toNat < 8) (tag : UInt32) (buf : List UInt8) :
    twEncodeTag buf tag wt = buf ++ tagBytes tag wt := by
  rw [twEncodeTag, twEncodeVarint_eq, tag_shift_or hwt, tagBytes]

/-- The word of a tag. -/
def tagWord (tag : UInt32) (wireType : UInt8) : UInt64 :=
  .ofNat (tag.toNat * 8 + wireType.toNat)

section

variable {wireType : UInt8} (hwt : wireType.toNat < 8) (tag : UInt32)

include hwt

theorem tagWord_toNat : (tagWord tag wireType).toNat = tag.toNat * 8 + wireType.toNat := by
  have bound := tag.toNat_lt
  rw [tagWord, UInt64.toNat_ofNat', Nat.mod_eq_of_lt (by omega)]

theorem spells_tagBytes : Spells (tagBytes tag wireType) (tagWord tag wireType) := by
  rw [tagBytes, ← tagWord_toNat hwt]
  exact spells_encode _

/-- The field number and the wire type a tag is split into. -/
theorem tagWord_number : (tagWord tag wireType >>> 3).toUInt32 = tag := by
  have bound := tag.toNat_lt
  apply UInt32.toNat_inj.mp
  rw [UInt64.toNat_toUInt32, UInt64.toNat_shiftRight, tagWord_toNat hwt,
    show (3 : UInt64).toNat % 64 = 3 from rfl, Nat.shiftRight_eq_div_pow]
  omega

theorem tagWord_wire : (tagWord tag wireType &&& 7).toUInt8 = wireType := by
  apply UInt8.toNat_inj.mp
  rw [UInt64.toNat_toUInt8, UInt64.toNat_and, tagWord_toNat hwt,
    show (7 : UInt64).toNat = 2 ^ 3 - 1 from rfl, Nat.and_two_pow_sub_one_eq_mod]
  omega

end

/-- A payload behind its length, in any spelling. -/
def Framed (payload l : List UInt8) : Prop :=
  ∃ len, l = len ++ payload ∧ Spells len (UInt64.ofNat payload.length)

theorem framed_delimited (payload : List UInt8) : Framed payload (delimited payload) := by
  refine ⟨Base128.encode (payload.length % 2 ^ 64), rfl, ?_⟩
  have := spells_encode (UInt64.ofNat payload.length)
  rwa [UInt64.toNat_ofNat'] at this

end Typeway.Protobuf
