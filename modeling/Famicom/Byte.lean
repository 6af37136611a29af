/-!
# Bits of a byte

Register bytes are read and made up bit by bit. A bit is named by its value in the byte, as
register descriptions do.
-/

namespace Famicom.Byte

/-- Whether the bit of value `weight` is set. -/
def bit (byte weight : UInt8) : Bool := byte / weight % 2 == 1

/-- The byte with at most the bit of value `weight` set. -/
def ofBit (weight : UInt8) (level : Bool) : UInt8 := if level then weight else 0

/-- A byte is negative when its top bit is set. -/
def isNegative (byte : UInt8) : Bool := decide (0x80 ≤ byte)

/-- The same bits in the opposite order. -/
def reversed (byte : UInt8) : UInt8 :=
  ofBit 0x80 (bit byte 0x01) + ofBit 0x40 (bit byte 0x02) + ofBit 0x20 (bit byte 0x04) +
    ofBit 0x10 (bit byte 0x08) + ofBit 0x08 (bit byte 0x10) + ofBit 0x04 (bit byte 0x20) +
    ofBit 0x02 (bit byte 0x40) + ofBit 0x01 (bit byte 0x80)

/-- A bit of a byte, as a number. -/
theorem bit_eq_decide (byte weight : UInt8) :
    bit byte weight = decide (byte.toNat / weight.toNat % 2 = 1) := by
  rw [Bool.eq_iff_iff, bit, beq_iff_eq, decide_eq_true_eq, ← UInt8.toNat_inj, UInt8.toNat_mod,
    UInt8.toNat_div]
  rfl

/-- The sign of a byte, as a number. -/
theorem isNegative_eq_decide (byte : UInt8) :
    isNegative byte = decide (0x80 ≤ byte.toNat) := by
  rw [isNegative, decide_eq_decide, UInt8.le_iff_toNat_le]
  rfl

/-- A byte with at most one bit set, as a number. -/
theorem toNat_ofBit (weight : UInt8) (level : Bool) :
    (ofBit weight level).toNat = weight.toNat * level.toNat := by
  cases level
  · exact (Nat.mul_zero _).symm
  · exact (Nat.mul_one _).symm

end Famicom.Byte
