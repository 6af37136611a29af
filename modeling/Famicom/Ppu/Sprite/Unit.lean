import Famicom.Byte
import Famicom.Ppu.Control

/-!
# Drawing the sprites of a line

For each sprite of the line one of eight units holds a line of its pattern. It counts down to
the sprite's column and then moves the pattern out pixel by pixel. The first unit that puts out
a pixel wins.
-/

namespace Famicom

namespace Sprite

/-- The line of a sprite that shows on the line after `scanline`, counted from the top of its
pattern. -/
def row (scanline height : Nat) (y attributes : UInt8) : Nat :=
  let row := (scanline + 0x100 - y.toNat) % height
  if Byte.bit attributes 0x80 then height - 1 - row else row

/-- Address of the low pattern byte of a sprite line; the high byte lies eight further. Tall
sprites are two tiles, and the lowest bit of their number selects the pattern table. -/
def patternAddress (control : Control) (tile : UInt8) (row : Nat) : Nat :=
  if control.spriteHeight = 16 then
    tile.toNat % 2 * 0x1000 + (tile.toNat / 2 * 2 + row / 8) * 16 + row % 8
  else control.spriteTable + tile.toNat * 16 + row

end Sprite

/-- One sprite of the current line. -/
structure SpriteUnit where
  /-- Low pattern bits, the next pixel in the top bit. -/
  low : UInt8 := 0
  /-- High pattern bits, the next pixel in the top bit. -/
  high : UInt8 := 0
  /-- Dots until the sprite begins. -/
  x : UInt8 := 0xFF
  /-- Palette, priority and orientation. -/
  attributes : UInt8 := 0
deriving DecidableEq, Repr

namespace SpriteUnit

/-- Count down, or move out one pixel. -/
def shift (unit : SpriteUnit) : SpriteUnit :=
  if unit.x = 0 then { unit with low := unit.low <<< 1, high := unit.high <<< 1 }
  else { unit with x := unit.x - 1 }

/-- The palette entry at the current dot, 0 where the sprite is transparent or absent. -/
def pixel (unit : SpriteUnit) : UInt8 :=
  if unit.x = 0 then unit.high / 0x80 * 2 + unit.low / 0x80 else 0

/-- A unit with a fetched pattern line, turned around where the attributes ask for it. -/
def ofPattern (x attributes low high : UInt8) : SpriteUnit :=
  if Byte.bit attributes 0x40 then
    { x, attributes, low := Byte.reversed low, high := Byte.reversed high }
  else { x, attributes, low, high }

end SpriteUnit

/-- What the sprites contribute to a point. -/
structure SpritePixel where
  /-- Palette number. -/
  palette : UInt8 := 0
  /-- Entry in the palette; 0 is transparent. -/
  pixel : UInt8 := 0
  /-- The sprite stands before the background. -/
  inFront : Bool := false
  /-- The first sprite of object memory is solid here. -/
  zero : Bool := false
deriving DecidableEq, Repr

/-- The sprite units of the current line. -/
structure SpriteUnits where
  /-- The eight units. -/
  units : Vector SpriteUnit 8 := Vector.replicate 8 {}
  /-- How many units are in use. -/
  count : Nat := 0
  /-- The first unit holds the first sprite of object memory. -/
  zeroFirst : Bool := false
deriving DecidableEq

namespace SpriteUnits

/-- The unit numbers in order of priority. -/
def slots : List (Fin 8) := [0, 1, 2, 3, 4, 5, 6, 7]

/-- The slot of the number `n`; the numbers wrap. -/
def slotOf (n : Nat) : Fin 8 := Fin.ofNat 8 n

/-- The unit in a slot. -/
def unit (sprites : SpriteUnits) (slot : Fin 8) : SpriteUnit := sprites.units[slot]

/-- The entry that unit `slot` puts out, 0 where the unit is not in use. -/
def pixelAt (sprites : SpriteUnits) (slot : Fin 8) : UInt8 :=
  if slot.val < sprites.count then (sprites.unit slot).pixel else 0

/-- The pixel at the current dot: the first unit that puts out a pixel wins. -/
def pixel (sprites : SpriteUnits) : SpritePixel :=
  match slots.find? fun slot => sprites.pixelAt slot != 0 with
  | none => {}
  | some slot =>
    let attributes := (sprites.unit slot).attributes
    { palette := attributes % 4
      pixel := sprites.pixelAt slot
      inFront := !Byte.bit attributes 0x20
      zero := sprites.zeroFirst && sprites.pixelAt 0 != 0 }

/-- Move every unit on by one dot. -/
def shift (sprites : SpriteUnits) : SpriteUnits :=
  { sprites with units := sprites.units.map SpriteUnit.shift }

/-- Put a sprite into a unit. -/
def fill (sprites : SpriteUnits) (slot : Fin 8) (unit : SpriteUnit) : SpriteUnits :=
  { sprites with units := sprites.units.set slot.val unit slot.isLt }

end SpriteUnits

end Famicom
