import Famicom.Byte

/-!
# Control, mask and status of the picture unit

Two bytes that programs write to choose tables, sizes and layers, and the flags that they read
back. The written bytes are kept whole and their meaning is read off; the flags are separate,
since the unit sets and clears them one at a time.
-/

namespace Famicom

/-- The control register. -/
structure Control where
  /-- The byte written last. -/
  bits : UInt8 := 0
deriving DecidableEq, Repr

namespace Control

/-- The selected nametable, placed where picture addresses hold it. -/
def nametableBits (control : Control) : UInt16 := control.bits.toUInt16 % 4 * 0x400

/-- How far the picture address moves after a data access. -/
def addressStep (control : Control) : UInt16 := if Byte.bit control.bits 0x04 then 32 else 1

/-- Pattern table of small sprites. -/
def spriteTable (control : Control) : Nat := if Byte.bit control.bits 0x08 then 0x1000 else 0

/-- Pattern table of the background. -/
def backgroundTable (control : Control) : Nat := if Byte.bit control.bits 0x10 then 0x1000 else 0

/-- Height of every sprite in lines. -/
def spriteHeight (control : Control) : Nat := if Byte.bit control.bits 0x20 then 16 else 8

/-- Whether the start of vertical blank is announced to the processor. -/
def nmiEnabled (control : Control) : Bool := Byte.bit control.bits 0x80

end Control

/-- The mask register. -/
structure Mask where
  /-- The byte written last. -/
  bits : UInt8 := 0
deriving DecidableEq, Repr

namespace Mask

/-- Colours are reduced to their grey column. -/
def greyscale (mask : Mask) : Bool := Byte.bit mask.bits 0x01

/-- The background also shows in the leftmost eight columns. -/
def leftBackground (mask : Mask) : Bool := Byte.bit mask.bits 0x02

/-- Sprites also show in the leftmost eight columns. -/
def leftSprites (mask : Mask) : Bool := Byte.bit mask.bits 0x04

/-- The background shows. -/
def showBackground (mask : Mask) : Bool := Byte.bit mask.bits 0x08

/-- Sprites show. -/
def showSprites (mask : Mask) : Bool := Byte.bit mask.bits 0x10

/-- Either layer shows; all fetching and scrolling depends on this. -/
def rendering (mask : Mask) : Bool := mask.showBackground || mask.showSprites

/-- The three emphasis bits. -/
def emphasis (mask : Mask) : UInt8 := mask.bits / 0x20

end Mask

/-- The status flags. -/
structure PpuStatus where
  /-- Vertical blank has begun and has not been read. -/
  vblank : Bool := false
  /-- An opaque pixel of the first sprite has met the background in this frame. -/
  spriteZeroHit : Bool := false
  /-- Too many sprites were found on a line of this frame. -/
  spriteOverflow : Bool := false
  /-- Levels of the five lines without a flag. -/
  idle : UInt8 := 0
deriving DecidableEq, Repr

namespace PpuStatus

/-- The three flags in a byte. -/
def flagBits (status : PpuStatus) : UInt8 :=
  Byte.ofBit 0x80 status.vblank + Byte.ofBit 0x40 status.spriteZeroHit +
    Byte.ofBit 0x20 status.spriteOverflow

/-- The flags and the idle lines as one byte. -/
def toByte (status : PpuStatus) : UInt8 := status.flagBits + status.idle % 0x20

/-- The flags and the idle lines of a byte. -/
def ofByte (byte : UInt8) : PpuStatus :=
  { vblank := Byte.bit byte 0x80
    spriteZeroHit := Byte.bit byte 0x40
    spriteOverflow := Byte.bit byte 0x20
    idle := byte % 0x20 }

end PpuStatus

end Famicom
