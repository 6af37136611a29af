import Famicom.Ppu.State

/-!
# Pattern table viewer

The patterns of a cartridge as pictures, for inspection. Reading them goes through the bus like
every other fetch.
-/

namespace Famicom.Ppu

variable {Bus : Type} [PatternBus Bus]

/-- The eight pixels of a tile line, from its two pattern bytes. -/
def tileLine (low high : UInt8) : List UInt8 :=
  (List.range 8).map fun column =>
    let shift := UInt8.ofNat (7 - column)
    (high >>> shift) % 2 * 2 + (low >>> shift) % 2

/-- The lines of a tile from line `8 - rows` on. -/
def tileLines (base : Nat) : (rows : Nat) → Bus → List (List UInt8) × Bus
  | 0, bus => ([], bus)
  | rows + 1, bus =>
    let row := base + (7 - rows)
    let (low, bus) := PatternBus.read bus (UInt16.ofNat row)
    let (high, bus) := PatternBus.read bus (UInt16.ofNat (row + 8))
    let (rest, bus) := tileLines base rows bus
    (tileLine low high :: rest, bus)

/-- The pixels of a tile, line by line. -/
def patternTile (table tile : UInt8) (bus : Bus) : List (List UInt8) × Bus :=
  tileLines (table.toNat % 2 * 0x1000 + tile.toNat * 16) 8 bus

/-- The palette cell for a pixel in one of the eight palettes. -/
def viewerCell (palette pixel : UInt8) : Nat :=
  if pixel = 0 then 0 else palette.toNat % 8 * 4 + pixel.toNat

/-- A tile drawn at its place among sixteen columns of tiles. -/
def drawTile (ppu : Ppu) (palette : UInt8) (tile : Nat) (lines : List (List UInt8))
    (frame : Frame 128 128) : Frame 128 128 :=
  lines.zipIdx.foldl (fun frame line =>
    line.1.zipIdx.foldl (fun frame pixel =>
      frame.set (.ofNat (tile % 16 * 8 + pixel.2)) (.ofNat (tile / 16 * 8 + line.2))
        (ppu.palette.get (viewerCell palette pixel.1))) frame) frame

/-- The tiles of a table drawn from tile `256 - count` on. -/
def drawTiles (ppu : Ppu) (table palette : UInt8) :
    (count : Nat) → Frame 128 128 → Bus → Frame 128 128 × Bus
  | 0, frame, bus => (frame, bus)
  | count + 1, frame, bus =>
    let tile := 255 - count
    let (lines, bus) := patternTile table (UInt8.ofNat tile) bus
    drawTiles ppu table palette count (ppu.drawTile palette tile lines frame) bus

/-- A whole pattern table, sixteen by sixteen tiles, in one of the eight palettes. -/
def patternTable (ppu : Ppu) (table palette : UInt8) (bus : Bus) : Frame 128 128 × Bus :=
  ppu.drawTiles table palette 256 (Frame.blank 128 128) bus

end Famicom.Ppu
