import Famicom.Ppu.Bus
import Famicom.Ppu.Nmi
import Famicom.Ppu.PixelShifter
import Famicom.Ppu.Screen
import Famicom.Ppu.Scroll
import Famicom.Ppu.Sprite.Evaluation
import Famicom.Ppu.Sprite.Unit
import Famicom.Text.Digits

/-!
# The picture unit

The state of the unit: its position in the frame, the memories, the registers that programs
reach, and the two pipelines behind the picture. A reset returns everything to its value at
power-on except the memories and the frames drawn so far.
-/

namespace Famicom

/-- The state of the picture unit. -/
structure Ppu where
  /-- Current line: 0 to 239 picture, 240 to 260 idle, 261 before the picture. -/
  scanline : Nat := 0
  /-- Current dot of the line. -/
  dot : Nat := 0
  /-- Every second frame can be a dot shorter. -/
  oddFrame : Bool := false
  /-- Frames completed since power-on. -/
  frameCount : Nat := 0
  /-- Nametable memory. -/
  vram : Memory 12 := Memory.filled 12 0
  /-- Palette memory. -/
  palette : Memory 5 := ⟨Palette.powerUp⟩
  /-- Byte fetched ahead for the data register. -/
  readBuffer : UInt8 := 0
  /-- Byte last seen on the lines to the processor. -/
  lines : UInt8 := 0
  /-- Control register. -/
  control : Control := {}
  /-- Mask register. -/
  mask : Mask := {}
  /-- Status flags. -/
  status : PpuStatus := {}
  /-- Scroll registers. -/
  scroll : Scroll := {}
  /-- Conditions behind the non-maskable line. -/
  nmi : Nmi := {}
  /-- Object memory position of the next access. -/
  oamAddress : UInt8 := 0
  /-- Object memory. -/
  oam : Memory 8 := Memory.filled 8 0
  /-- Sprites picked for the next line. -/
  secondaryOam : Memory 5 := Memory.filled 5 0xFF
  /-- How many sprites are picked for the next line. -/
  pickedCount : Nat := 0
  /-- The first picked sprite is the first one of object memory. -/
  pickedZero : Bool := false
  /-- Sprites of the current line. -/
  sprites : SpriteUnits := {}
  /-- Background tile fetched last. -/
  next : FetchedTile := {}
  /-- Background pixels about to be drawn. -/
  shifter : PixelShifter := {}
  /-- The frame being drawn. -/
  drawing : Screen := Frame.blank 256 240
  /-- The last completed frame. -/
  frame : Screen := Frame.blank 256 240
deriving DecidableEq

namespace Ppu

/-- Back to the power-on values; memories, frames and their count stay. -/
def reset (ppu : Ppu) : Ppu :=
  { frameCount := ppu.frameCount
    vram := ppu.vram
    palette := ppu.palette
    oam := ppu.oam
    secondaryOam := ppu.secondaryOam
    drawing := ppu.drawing
    frame := ppu.frame }

/-- The level announced to the processor. -/
def nmiLine (ppu : Ppu) : Bool := ppu.nmi.line

/-- The palette entry at a picture address. -/
def paletteEntry (ppu : Ppu) (address : UInt16) : UInt8 :=
  ppu.palette.get (Palette.cell address.toNat)

/-- The nametable byte at a picture address. -/
def nametableByte (ppu : Ppu) (wiring : Wiring) (address : UInt16) : UInt8 :=
  ppu.vram.get (wiring.cell address.toNat)

/-- The state as one line of text. -/
def state (ppu : Ppu) : String :=
  "scanline=" ++ toString ppu.scanline ++ " dot=" ++ toString ppu.dot ++
    " odd=" ++ toString ppu.oddFrame ++ " frame=" ++ toString ppu.frameCount ++
    " status=" ++ Text.binaryByte ppu.status.toByte ++ " v=" ++ Text.hexWord ppu.scroll.v ++
    " t=" ++ Text.hexWord ppu.scroll.t ++ " nmi_line=" ++ toString ppu.nmiLine

end Ppu

end Famicom
