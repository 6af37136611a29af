/-!
# The background pipeline

Every eight dots the unit fetches one tile: its number, its palette and the two bytes of its
current line. Four shift registers hold sixteen pixels and move by one pixel per dot. A fetched
tile enters their lower half, so it is drawn eight to fifteen dots later, depending on the
column within the tile at which the picture starts.
-/

namespace Famicom

/-- What a layer contributes to a point: a palette and one of its four entries. -/
structure LayerPixel where
  /-- Palette number. -/
  palette : UInt8 := 0
  /-- Entry in the palette; 0 is transparent. -/
  pixel : UInt8 := 0
deriving DecidableEq, Repr

/-- The tile fetched last. -/
structure FetchedTile where
  /-- Number of the tile. -/
  tile : UInt8 := 0
  /-- Its palette. -/
  palette : UInt8 := 0
  /-- Low pattern bits of the current line. -/
  low : UInt8 := 0
  /-- High pattern bits of the current line. -/
  high : UInt8 := 0
deriving DecidableEq, Repr

/-- Sixteen pixels of the background, the next one in the top bits. -/
structure PixelShifter where
  /-- Low pattern bits. -/
  low : UInt16 := 0
  /-- High pattern bits. -/
  high : UInt16 := 0
  /-- Low palette bits. -/
  paletteLow : UInt16 := 0
  /-- High palette bits. -/
  paletteHigh : UInt16 := 0
  /-- Low palette bit that moves in from below. -/
  feedLow : Bool := false
  /-- High palette bit that moves in from below. -/
  feedHigh : Bool := false
deriving DecidableEq, Repr

namespace PixelShifter

/-- A shift register moved by one pixel, with `feed` entering from below. -/
def moved (register : UInt16) (feed : Bool) : UInt16 :=
  (register <<< 1) + if feed then 1 else 0

/-- A shift register with `byte` in its lower half. -/
def loaded (register : UInt16) (byte : UInt8) : UInt16 :=
  register / 0x100 * 0x100 + byte.toUInt16

/-- Eight copies of a palette bit. -/
def spread (level : Bool) : UInt8 := if level then 0xFF else 0

/-- Move on by one pixel. -/
def shift (shifter : PixelShifter) : PixelShifter :=
  { shifter with
    low := moved shifter.low false
    high := moved shifter.high false
    paletteLow := moved shifter.paletteLow shifter.feedLow
    paletteHigh := moved shifter.paletteHigh shifter.feedHigh }

/-- Take a tile into the lower half. -/
def load (shifter : PixelShifter) (next : FetchedTile) : PixelShifter :=
  let feedLow := next.palette % 2 == 1
  let feedHigh := next.palette / 2 % 2 == 1
  { low := loaded shifter.low next.low
    high := loaded shifter.high next.high
    paletteLow := loaded shifter.paletteLow (spread feedLow)
    paletteHigh := loaded shifter.paletteHigh (spread feedHigh)
    feedLow, feedHigh }

/-- The bit that lies `column` pixels behind the next one. -/
def bit (register : UInt16) (column : UInt8) : UInt8 :=
  (register >>> (15 - column % 8).toUInt16).toUInt8 % 2

/-- The pixel that lies `column` pixels behind the next one. -/
def pixel (shifter : PixelShifter) (column : UInt8) : LayerPixel :=
  { palette := bit shifter.paletteHigh column * 2 + bit shifter.paletteLow column
    pixel := bit shifter.high column * 2 + bit shifter.low column }

end PixelShifter

namespace FetchedTile

/-- The palette of the quarter that a tile lies in. An attribute byte holds two bits for each
quarter of a block of four by four tiles. -/
def paletteOf (attributes : UInt8) (coarseX coarseY : UInt16) : UInt8 :=
  let quarter := coarseY / 2 % 2 * 2 + coarseX / 2 % 2
  attributes >>> (quarter * 2).toUInt8 % 4

/-- Address of the low pattern byte of line `row` of a tile; the high byte lies eight further. -/
def patternAddress (table : Nat) (tile : UInt8) (row : Nat) : Nat :=
  table + tile.toNat * 16 + row

end FetchedTile

end Famicom
