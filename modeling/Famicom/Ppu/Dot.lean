import Famicom.Ppu.Schedule
import Famicom.Ppu.State

/-!
# One dot

The work that the schedule names, and the step from one dot to the next. A frame ends after
its last line; an odd frame with a visible layer ends one dot earlier.
-/

namespace Famicom.Ppu

variable {Bus : Type} [PatternBus Bus]

/-- The background at the current dot. -/
def backgroundPixel (ppu : Ppu) : LayerPixel :=
  if !ppu.mask.showBackground || (decide (ppu.dot ≤ 8) && !ppu.mask.leftBackground) then {}
  else ppu.shifter.pixel ppu.scroll.x

/-- The sprites at the current dot. -/
def spritePixel (ppu : Ppu) : SpritePixel :=
  if !ppu.mask.showSprites || (decide (ppu.dot ≤ 8) && !ppu.mask.leftSprites) then {}
  else ppu.sprites.pixel

/-- Whether the first sprite meets the background at the current dot. The last column never
counts, and the leftmost eight only while both layers show there. -/
def hitsSpriteZero (ppu : Ppu) (background : LayerPixel) (sprite : SpritePixel) : Bool :=
  sprite.zero && background.pixel != 0 && ppu.dot != 256 &&
    (decide (8 < ppu.dot) || (ppu.mask.leftBackground && ppu.mask.leftSprites))

/-- The palette cell of a point. A sprite shows where it is opaque and either stands in front
or finds the background transparent. -/
def paletteCell (background : LayerPixel) (sprite : SpritePixel) : Nat :=
  if sprite.pixel != 0 && (background.pixel == 0 || sprite.inFront) then
    0x10 + sprite.palette.toNat * 4 + sprite.pixel.toNat
  else if background.pixel = 0 then 0
  else background.palette.toNat * 4 + background.pixel.toNat

/-- The cell shown while both layers are hidden: the backdrop, unless the picture address
points into palette memory. -/
def idleCell (ppu : Ppu) : Nat :=
  let address := ppu.scroll.address
  if 0x3F00 ≤ address then Palette.cell address.toNat else 0

/-- The colour number of a palette entry under the mask. -/
def maskedColour (ppu : Ppu) (cell : Nat) : UInt8 :=
  let entry := ppu.palette.get cell
  if ppu.mask.greyscale then entry / 0x10 % 4 * 0x10 else entry % 0x40

/-- Put out the pixel of the current dot. -/
def renderPixel (ppu : Ppu) : Ppu :=
  if ppu.mask.rendering then
    let background := ppu.backgroundPixel
    let sprite := ppu.spritePixel
    let colour := ppu.maskedColour (paletteCell background sprite)
    let hit := ppu.status.spriteZeroHit || ppu.hitsSpriteZero background sprite
    { ppu with
      drawing := ppu.drawing.set (.ofNat (ppu.dot - 1)) (.ofNat ppu.scanline) colour
      status := { ppu.status with spriteZeroHit := hit } }
  else
    let colour := ppu.maskedColour ppu.idleCell
    { ppu with drawing := ppu.drawing.set (.ofNat (ppu.dot - 1)) (.ofNat ppu.scanline) colour }

/-- Fetch the number of the tile under the picture address. -/
def fetchNametable (ppu : Ppu) (wiring : Wiring) : Ppu :=
  let tile := ppu.nametableByte wiring ppu.scroll.tileAddress
  { ppu with next := { ppu.next with tile } }

/-- Fetch the palette of the tile under the picture address. -/
def fetchAttribute (ppu : Ppu) (wiring : Wiring) : Ppu :=
  let attributes := ppu.nametableByte wiring ppu.scroll.attributeAddress
  let palette := FetchedTile.paletteOf attributes
    (PictureAddress.coarseX ppu.scroll.v) (PictureAddress.coarseY ppu.scroll.v)
  { ppu with next := { ppu.next with palette } }

/-- Address of the low pattern byte of the fetched tile's current line. -/
def tileRowAddress (ppu : Ppu) : Nat :=
  FetchedTile.patternAddress ppu.control.backgroundTable ppu.next.tile ppu.scroll.fineY.toNat

/-- Fetch the low pattern byte of the tile. -/
def fetchPatternLow (ppu : Ppu) (bus : Bus) : Ppu × Bus :=
  let (low, bus) := PatternBus.read bus (UInt16.ofNat ppu.tileRowAddress)
  ({ ppu with next := { ppu.next with low } }, bus)

/-- Fetch the high pattern byte of the tile. -/
def fetchPatternHigh (ppu : Ppu) (bus : Bus) : Ppu × Bus :=
  let (high, bus) := PatternBus.read bus (UInt16.ofNat (ppu.tileRowAddress + 8))
  ({ ppu with next := { ppu.next with high } }, bus)

/-- Find the sprites of the next line. -/
def evaluateSprites (ppu : Ppu) : Ppu :=
  let found :=
    Sprite.evaluate ppu.oam ppu.scanline ppu.control.spriteHeight ppu.secondaryOam
  { ppu with
    secondaryOam := found.secondary
    pickedCount := found.found
    pickedZero := found.zero
    status := { ppu.status with
      spriteOverflow := ppu.status.spriteOverflow || found.overflow } }

/-- The sprite units once the fetching for the next line has reached `slot`: the first fetch
takes over what was picked. -/
def spritesFrom (ppu : Ppu) (slot : Fin 8) : SpriteUnits :=
  if slot.val = 0 then
    { ppu.sprites with count := ppu.pickedCount, zeroFirst := ppu.pickedZero }
  else ppu.sprites

/-- Address of the low pattern byte fetched for `slot`. A slot without a sprite fetches the
last tile. -/
def spriteRowAddress (ppu : Ppu) (slot : Fin 8) : Nat :=
  if slot.val < (ppu.spritesFrom slot).count then
    let y := ppu.secondaryOam.get (slot.val * 4)
    let tile := ppu.secondaryOam.get (slot.val * 4 + 1)
    let attributes := ppu.secondaryOam.get (slot.val * 4 + 2)
    Sprite.patternAddress ppu.control tile
      (Sprite.row ppu.scanline ppu.control.spriteHeight y attributes)
  else ppu.control.spriteTable + 0xFF * 16

/-- Fetch one sprite of the next line into its unit. -/
def fillSpriteUnit (ppu : Ppu) (slot : Fin 8) (bus : Bus) : Ppu × Bus :=
  let address := ppu.spriteRowAddress slot
  let (low, bus) := PatternBus.read bus (UInt16.ofNat address)
  let (high, bus) := PatternBus.read bus (UInt16.ofNat (address + 8))
  let sprites := ppu.spritesFrom slot
  let unit : SpriteUnit :=
    if slot.val < sprites.count then
      .ofPattern (ppu.secondaryOam.get (slot.val * 4 + 3))
        (ppu.secondaryOam.get (slot.val * 4 + 2)) low high
    else {}
  ({ ppu with sprites := sprites.fill slot unit }, bus)

/-- Announce vertical blank. -/
def beginVblank (ppu : Ppu) : Ppu :=
  { ppu with
    status := { ppu.status with vblank := true }
    nmi := ppu.nmi.on .vblankSet }

/-- Prepare the flags and the sprite search for a new picture. -/
def clearFlags (ppu : Ppu) : Ppu :=
  { ppu with
    status := { ppu.status with vblank := false, spriteZeroHit := false, spriteOverflow := false }
    pickedCount := 0
    pickedZero := false
    nmi := ppu.nmi.on .vblankCleared }

/-- Do one part of the work of a dot. -/
@[specialize] def perform (operation : DotOperation) (ppu : Ppu) (bus : Bus) : Ppu × Bus :=
  match operation with
  | .renderPixel => (ppu.renderPixel, bus)
  | .shiftBackground => ({ ppu with shifter := ppu.shifter.shift }, bus)
  | .shiftSprites => ({ ppu with sprites := ppu.sprites.shift }, bus)
  | .fetchNametable => (ppu.fetchNametable (PatternBus.wiring bus), bus)
  | .fetchAttribute => (ppu.fetchAttribute (PatternBus.wiring bus), bus)
  | .fetchPatternLow => ppu.fetchPatternLow bus
  | .fetchPatternHigh => ppu.fetchPatternHigh bus
  | .loadBackground => ({ ppu with shifter := ppu.shifter.load ppu.next }, bus)
  | .incrementX => ({ ppu with scroll := ppu.scroll.incrementX }, bus)
  | .incrementY => ({ ppu with scroll := ppu.scroll.incrementY }, bus)
  | .copyHorizontal => ({ ppu with scroll := ppu.scroll.copyHorizontal }, bus)
  | .copyVertical => ({ ppu with scroll := ppu.scroll.copyVertical }, bus)
  | .clearSecondaryOam => ({ ppu with secondaryOam := Memory.filled 5 0xFF }, bus)
  | .evaluateSprites => (ppu.evaluateSprites, bus)
  | .fillSpriteUnit => ppu.fillSpriteUnit (SpriteUnits.slotOf ((ppu.dot - 257) / 8)) bus
  | .setVblank => (ppu.beginVblank, bus)
  | .clearFlags => (ppu.clearFlags, bus)

/-- Do a list of work, leaving out what needs a visible layer when there is none. -/
@[specialize] def performAll (rendering : Bool) :
    List DotOperation → Ppu → Bus → Ppu × Bus
  | [], ppu, bus => (ppu, bus)
  | operation :: rest, ppu, bus =>
    if operation.needsRendering && !rendering then performAll rendering rest ppu bus
    else
      let (ppu, bus) := ppu.perform operation bus
      performAll rendering rest ppu bus

/-- Show the finished frame and begin the next one at the top left corner. -/
def completeFrame (ppu : Ppu) : Ppu :=
  { ppu with
    scanline := 0
    dot := 0
    oddFrame := !ppu.oddFrame
    frameCount := ppu.frameCount + 1
    drawing := ppu.frame
    frame := ppu.drawing }

/-- Whether the current dot is the last one of its frame. -/
def onLastDot (ppu : Ppu) : Bool :=
  ppu.scanline == Schedule.prerenderScanline &&
    (ppu.dot == Schedule.dots - 1 ||
      (ppu.dot == Schedule.dots - 2 && ppu.oddFrame && ppu.mask.rendering))

/-- Go to the next dot; the flag says whether a frame was completed. -/
def nextDot (ppu : Ppu) : Bool × Ppu :=
  if ppu.onLastDot then (true, ppu.completeFrame)
  else if ppu.dot = Schedule.dots - 1 then
    (false, { ppu with dot := 0, scanline := ppu.scanline + 1 })
  else (false, { ppu with dot := ppu.dot + 1 })

/-- Work through one dot; the flag says whether a frame was completed. -/
@[specialize] def tick (ppu : Ppu) (bus : Bus) : Bool × Ppu × Bus :=
  let (ppu, bus) :=
    performAll ppu.mask.rendering (Schedule.work ppu.scanline ppu.dot) ppu bus
  let (completed, ppu) := ppu.nextDot
  (completed, ppu, bus)

/-- Work through a number of dots, adding the completed frames to a count. -/
@[specialize] def runFrom (frames : Nat) : (dots : Nat) → Ppu → Bus → Nat × Ppu × Bus
  | 0, ppu, bus => (frames, ppu, bus)
  | dots + 1, ppu, bus =>
    let (completed, ppu, bus) := ppu.tick bus
    runFrom (frames + completed.toNat) dots ppu bus

/-- Work through a number of dots; the count of completed frames comes first. -/
@[specialize] def run (dots : Nat) (ppu : Ppu) (bus : Bus) : Nat × Ppu × Bus :=
  runFrom 0 dots ppu bus

end Famicom.Ppu
