/-!
# Scroll registers

A picture address packs a position in the picture into fifteen bits: five for the column and
five for the row of a tile, one for each direction to choose the nametable, and three for the
line within the tile. The unit holds the current address `v` and the address `t` that the
picture starts from; programs write both piecewise through two registers that share a toggle.

Fields are read by division and replaced by exchanging their share of the sum, so that the
other bits stay as they are.
-/

namespace Famicom

namespace PictureAddress

/-- Column of the tile. -/
def coarseX (v : UInt16) : UInt16 := v % 0x20

/-- Row of the tile; rows 30 and 31 hold attributes. -/
def coarseY (v : UInt16) : UInt16 := v / 0x20 % 0x20

/-- Which of two nametables side by side. -/
def nametableX (v : UInt16) : UInt16 := v / 0x400 % 2

/-- Which of two nametables one above the other. -/
def nametableY (v : UInt16) : UInt16 := v / 0x800 % 2

/-- Line within the tile. -/
def fineY (v : UInt16) : UInt16 := v / 0x1000 % 8

/-- Exchange the column. -/
def withCoarseX (v x : UInt16) : UInt16 := v - coarseX v + x % 0x20

/-- Exchange the row. -/
def withCoarseY (v y : UInt16) : UInt16 := v - coarseY v * 0x20 + y % 0x20 * 0x20

/-- Exchange the horizontal nametable bit. -/
def withNametableX (v n : UInt16) : UInt16 := v - nametableX v * 0x400 + n % 2 * 0x400

/-- Exchange the vertical nametable bit. -/
def withNametableY (v n : UInt16) : UInt16 := v - nametableY v * 0x800 + n % 2 * 0x800

/-- Exchange the line within the tile. -/
def withFineY (v y : UInt16) : UInt16 := v - fineY v * 0x1000 + y % 8 * 0x1000

/-- One tile to the right, from the last column into the neighbouring nametable. -/
def incrementX (v : UInt16) : UInt16 :=
  if coarseX v = 31 then withNametableX (withCoarseX v 0) (nametableX v + 1)
  else withCoarseX v (coarseX v + 1)

/-- One line down. Row 29 is followed by the neighbouring nametable; row 31, which only a
program can reach, by the top of the same one. -/
def incrementY (v : UInt16) : UInt16 :=
  if fineY v ≠ 7 then withFineY v (fineY v + 1)
  else
    let top := withFineY v 0
    if coarseY v = 29 then withNametableY (withCoarseY top 0) (nametableY v + 1)
    else withCoarseY top (coarseY v + 1)

/-- Take over column and horizontal nametable bit. -/
def copyHorizontal (v t : UInt16) : UInt16 :=
  withNametableX (withCoarseX v (coarseX t)) (nametableX t)

/-- Take over line, row and vertical nametable bit. -/
def copyVertical (v t : UInt16) : UInt16 :=
  withFineY (withNametableY (withCoarseY v (coarseY t)) (nametableY t)) (fineY t)

/-- Take over both nametable bits. -/
def copyNametables (v t : UInt16) : UInt16 :=
  withNametableY (withNametableX v (nametableX t)) (nametableY t)

end PictureAddress

/-- The scroll registers. -/
structure Scroll where
  /-- Current picture address. -/
  v : UInt16 := 0
  /-- Address of the top left corner of the picture. -/
  t : UInt16 := 0
  /-- Column within the tile. -/
  x : UInt8 := 0
  /-- The next write is the second of a pair. -/
  w : Bool := false
deriving DecidableEq, Repr

namespace Scroll

open PictureAddress

/-- Choose the nametable of the top left corner by the bits of a picture address. -/
def selectNametable (scroll : Scroll) (bits : UInt16) : Scroll :=
  { scroll with t := copyNametables scroll.t bits }

/-- A write to the scroll register: horizontal position first, vertical position second. -/
def writeScroll (scroll : Scroll) (value : UInt8) : Scroll :=
  let position := value.toUInt16
  if scroll.w then
    { scroll with
      t := withFineY (withCoarseY scroll.t (position / 8)) (position % 8)
      w := false }
  else
    { scroll with
      t := withCoarseX scroll.t (position / 8)
      x := value % 8
      w := true }

/-- A write to the address register: the high six bits first, the low byte second. The second
write makes the address current. -/
def writeAddress (scroll : Scroll) (value : UInt8) : Scroll :=
  if scroll.w then
    let t := scroll.t / 0x100 % 0x80 * 0x100 + value.toUInt16
    { scroll with t, v := t, w := false }
  else
    { scroll with t := value.toUInt16 % 0x40 * 0x100 + scroll.t % 0x100, w := true }

/-- Begin a new pair of writes. -/
def resetToggle (scroll : Scroll) : Scroll := { scroll with w := false }

/-- The address that data accesses use, fourteen bits wide. -/
def address (scroll : Scroll) : UInt16 := scroll.v % 0x4000

/-- Advance the current address after a data access. -/
def advance (scroll : Scroll) (step : UInt16) : Scroll :=
  { scroll with v := (scroll.v + step) % 0x8000 }

/-- One tile to the right. -/
def incrementX (scroll : Scroll) : Scroll :=
  { scroll with v := PictureAddress.incrementX scroll.v }

/-- One line down. -/
def incrementY (scroll : Scroll) : Scroll :=
  { scroll with v := PictureAddress.incrementY scroll.v }

/-- Return to the left edge of the picture. -/
def copyHorizontal (scroll : Scroll) : Scroll :=
  { scroll with v := PictureAddress.copyHorizontal scroll.v scroll.t }

/-- Return to the top edge of the picture. -/
def copyVertical (scroll : Scroll) : Scroll :=
  { scroll with v := PictureAddress.copyVertical scroll.v scroll.t }

/-- Line within the tile under `v`. -/
def fineY (scroll : Scroll) : UInt16 := PictureAddress.fineY scroll.v

/-- Nametable address of the tile under `v`. -/
def tileAddress (scroll : Scroll) : UInt16 := 0x2000 + scroll.v % 0x1000

/-- Nametable address of the attributes of the tile under `v`, one byte for sixteen tiles. -/
def attributeAddress (scroll : Scroll) : UInt16 :=
  0x23C0 + scroll.v / 0x400 % 4 * 0x400 + coarseY scroll.v / 4 * 8 + coarseX scroll.v / 4

end Scroll

end Famicom
