import Famicom.Byte

/-!
# Processor status

The status byte as eight separate flags. The two bits without storage in the chip are kept
like the others: the byte that is pushed differs from the one that is held only in them.
-/

namespace Famicom

/-- The processor status, one field for each bit of its byte. -/
structure Status where
  /-- Bit 7: the last result was negative as a signed byte. -/
  negative : Bool
  /-- Bit 6: the last sum left the signed range. -/
  overflow : Bool
  /-- Bit 5: always set in a pushed byte. -/
  reserved : Bool
  /-- Bit 4: set in a pushed byte by the instructions that push it. -/
  brk : Bool
  /-- Bit 3: stored, but without effect on sums. -/
  decimal : Bool
  /-- Bit 2: masks the shared interrupt line. -/
  interruptDisable : Bool
  /-- Bit 1: the last result was zero. -/
  zero : Bool
  /-- Bit 0: carry of the last sum, comparison or shift. -/
  carry : Bool
deriving DecidableEq, Repr

/-- The flags that a branch can test. -/
inductive Flag where
  | negative
  | overflow
  | zero
  | carry
deriving DecidableEq, Repr

namespace Status

/-- The flags as one byte. -/
def toByte (status : Status) : UInt8 :=
  Byte.ofBit 0x80 status.negative + Byte.ofBit 0x40 status.overflow +
    Byte.ofBit 0x20 status.reserved + Byte.ofBit 0x10 status.brk +
    Byte.ofBit 0x08 status.decimal + Byte.ofBit 0x04 status.interruptDisable +
    Byte.ofBit 0x02 status.zero + Byte.ofBit 0x01 status.carry

/-- The flags of a byte. -/
def ofByte (byte : UInt8) : Status :=
  { negative := Byte.bit byte 0x80
    overflow := Byte.bit byte 0x40
    reserved := Byte.bit byte 0x20
    brk := Byte.bit byte 0x10
    decimal := Byte.bit byte 0x08
    interruptDisable := Byte.bit byte 0x04
    zero := Byte.bit byte 0x02
    carry := Byte.bit byte 0x01 }

theorem ofByte_toByte (status : Status) : ofByte status.toByte = status := by
  obtain ⟨n, v, r, b, d, i, z, c⟩ := status
  revert n v r b d i z c
  decide

/-- Interrupts masked, all else clear. -/
def initial : Status := ofByte 0x24

/-- Zero and negative as `result` has them. -/
def withResult (status : Status) (result : UInt8) : Status :=
  { status with zero := result == 0, negative := Byte.isNegative result }

/-- The level of one flag. -/
def test (status : Status) : Flag → Bool
  | .negative => status.negative
  | .overflow => status.overflow
  | .zero => status.zero
  | .carry => status.carry

/-- The status taken from a pulled byte: the bits without storage keep their idle levels. -/
def ofPulled (byte : UInt8) : Status :=
  { ofByte byte with brk := false, reserved := true }

/-- The status as an instruction pushes it. -/
def pushed (status : Status) : Status :=
  { status with brk := true, reserved := true }

end Status

end Famicom
