import Famicom.Proofs.Ppu.Position
import Famicom.Proofs.Safety.Cartridge
import Famicom.Proofs.Safety.Picture

/-!
# Checked dots

The work of a dot with every index, sum and difference checked. A dot needs a position that the
schedule has an entry for, and counts of sprites that the units have room for; the schedule does
the rest, since it puts out pixels only behind the left edge of a line, and fills the eight
sprite units only where one of them has its turn. A dot keeps what it needs.
-/

namespace Famicom

open Checked

/-- Where in a line the parts of the work that count from the position are placed. -/
def DotOperation.Placed (dot : Nat) : DotOperation → Prop
  | .renderPixel => 1 ≤ dot
  | .fillSpriteUnit => 257 ≤ dot ∧ dot ≤ 320
  | _ => True

namespace Schedule

/-- The parts of the work that an entry of the schedule has room for. -/
def room : Nat := 8

/-- The work of every position. -/
def table : Vector (Vector (List DotOperation) dots) scanlines :=
  .ofFn fun scanline => .ofFn fun dot => work scanline dot

/-- The work at a position, looked up in the table. -/
def workChecked (scanline dot : Nat) : Checked (List DotOperation) := do
  let line ← element table.toArray scanline
  let work ← element line.toArray dot
  if work.length ≤ room then .ok work else .error (.index work.length room)

/-- At most `most` parts of work, all of them in their place. -/
structure Fits (dot most : Nat) (work : List DotOperation) : Prop where
  placed : ∀ operation ∈ work, operation.Placed dot
  length_le : work.length ≤ most

variable {dot most more : Nat} {first second : List DotOperation}

/-- Work done after other work. -/
theorem Fits.append (h : Fits dot most first) (h' : Fits dot more second) :
    Fits dot (most + more) (first ++ second) := by
  constructor
  · intro operation hmem
    rcases List.mem_append.mp hmem with hfirst | hsecond
    · exact h.placed operation hfirst
    · exact h'.placed operation hsecond
  · rw [List.length_append]
    exact Nat.add_le_add h.length_le h'.length_le

theorem Fits.mono (h : Fits dot most first) (hle : most ≤ more) : Fits dot more first :=
  ⟨h.placed, Nat.le_trans h.length_le hle⟩

theorem fits_nil (dot : Nat) : Fits dot 0 [] :=
  ⟨fun _ h => absurd h List.not_mem_nil, Nat.le_refl 0⟩

/-- The fetches of a tile can be placed anywhere. -/
theorem fetches_fits (dot : Nat) : Fits dot 2 (fetches dot) := by
  unfold fetches
  split <;> constructor <;> simp [DotOperation.Placed]

/-- The work at the end of a line fills a unit only where one has its turn. -/
theorem lineEnd_fits (dot : Nat) : Fits dot 2 (lineEnd dot) := by
  unfold lineEnd
  split
  · next h => constructor <;> simp [DotOperation.Placed, h]
  · split
    · next h => constructor <;> simp [DotOperation.Placed, h.1, h.2.1]
    · exact (fits_nil dot).mono (Nat.zero_le 2)

/-- A dot of the background that puts out no pixel. -/
theorem shift_fits (dot : Nat) : Fits dot 3 ([.shiftBackground] ++ fetches dot) := by
  have hshift : Fits dot 1 [.shiftBackground] := by
    constructor <;> simp [DotOperation.Placed]
  exact hshift.append (fetches_fits dot)

/-- The work of a dot is in its place, and not too much. -/
theorem operations_fits (line : Line) (dot : Nat) : Fits dot room (operations line dot) := by
  cases line with
  | visible =>
    rw [operations]
    split
    · next h =>
      have hpicture : Fits dot 3 [.renderPixel, .shiftBackground, .shiftSprites] := by
        constructor <;> simp [DotOperation.Placed, h.1]
      have hsprites : Fits dot 2 (if dot = 64 then [.clearSecondaryOam]
          else if dot = 256 then [.incrementY, .evaluateSprites] else []) := by
        split
        · constructor <;> simp [DotOperation.Placed]
        · split <;> constructor <;> simp [DotOperation.Placed]
      exact ((hpicture.append (fetches_fits dot)).append hsprites).mono (by decide)
    · split
      · exact (shift_fits dot).mono (by decide)
      · exact (lineEnd_fits dot).mono (by decide)
  | prerender =>
    rw [operations]
    split
    · have hflags : Fits dot 1 (if dot = 1 then [.clearFlags]
          else if dot = 256 then [.incrementY] else []) := by
        split
        · constructor <;> simp [DotOperation.Placed]
        · split <;> constructor <;> simp [DotOperation.Placed]
      exact ((shift_fits dot).append hflags).mono (by decide)
    · split
      · exact (shift_fits dot).mono (by decide)
      · split
        · exact (lineEnd_fits dot).mono (by decide)
        · have hcopy : Fits dot 1 (if 280 ≤ dot ∧ dot ≤ 304 then [.copyVertical] else []) := by
            split <;> constructor <;> simp [DotOperation.Placed]
          exact (hcopy.append (lineEnd_fits dot)).mono (by decide)
  | vblankStart =>
    rw [operations]
    split <;> constructor <;> simp [DotOperation.Placed, room]
  | idle => exact (fits_nil dot).mono (Nat.zero_le room)

/-- The work at a position is in its place, and not too much. -/
theorem work_fits (scanline dot : Nat) : Fits dot room (work scanline dot) :=
  operations_fits _ dot

theorem workChecked_eq {scanline dot : Nat} (hscanline : scanline < scanlines)
    (hdot : dot < dots) : workChecked scanline dot = .ok (work scanline dot) := by
  have hroom := (work_fits scanline dot).length_le
  rw [workChecked, element_toArray table hscanline, ok_bind, table, Vector.getElem_ofFn,
    element_toArray _ hdot, ok_bind, Vector.getElem_ofFn, if_pos hroom]

end Schedule

namespace Ppu

/-- The background at the current dot, checked. -/
def backgroundPixelChecked (ppu : Ppu) : Checked LayerPixel :=
  if !ppu.mask.showBackground || (decide (ppu.dot ≤ 8) && !ppu.mask.leftBackground) then .ok {}
  else ppu.shifter.pixelChecked ppu.scroll.x

theorem backgroundPixelChecked_eq (ppu : Ppu) :
    ppu.backgroundPixelChecked = .ok ppu.backgroundPixel := by
  rw [backgroundPixelChecked, PixelShifter.pixelChecked_eq, backgroundPixel,
    apply_ite Except.ok]

/-- The background shows an entry of a palette. -/
theorem backgroundPixel_inPalette (ppu : Ppu) :
    InPalette ppu.backgroundPixel.palette ppu.backgroundPixel.pixel := by
  rw [backgroundPixel]
  split
  · constructor <;> decide
  · exact PixelShifter.pixel_inPalette _ _

/-- The sprites at the current dot, checked. -/
def spritePixelChecked (ppu : Ppu) : Checked SpritePixel :=
  if !ppu.mask.showSprites || (decide (ppu.dot ≤ 8) && !ppu.mask.leftSprites) then .ok {}
  else ppu.sprites.pixelChecked

theorem spritePixelChecked_eq {ppu : Ppu} (h : ppu.sprites.count ≤ 8) :
    ppu.spritePixelChecked = .ok ppu.spritePixel := by
  rw [spritePixelChecked, SpriteUnits.pixelChecked_eq h, spritePixel, apply_ite Except.ok]

/-- The sprites show an entry of a palette. -/
theorem spritePixel_inPalette (ppu : Ppu) :
    InPalette ppu.spritePixel.palette ppu.spritePixel.pixel := by
  rw [spritePixel]
  split
  · constructor <;> decide
  · exact SpriteUnits.pixel_inPalette _

/-- A point has a palette cell. -/
theorem paletteCell_lt {background : LayerPixel} {sprite : SpritePixel}
    (h : InPalette background.palette background.pixel)
    (h' : InPalette sprite.palette sprite.pixel) : paletteCell background sprite < 0x20 := by
  obtain ⟨hpalette, hpixel⟩ := h
  obtain ⟨hpalette', hpixel'⟩ := h'
  rw [paletteCell]
  split
  · omega
  · split <;> omega

/-- The cell shown while both layers are hidden, checked. -/
def idleCellChecked (ppu : Ppu) : Checked Nat :=
  let address := ppu.scroll.address
  if 0x3F00 ≤ address then Palette.cellChecked address.toNat else .ok 0

theorem idleCellChecked_eq (ppu : Ppu) : ppu.idleCellChecked = .ok ppu.idleCell := by
  rw [idleCellChecked, Palette.cellChecked_eq, idleCell, apply_ite Except.ok]

theorem idleCell_lt (ppu : Ppu) : ppu.idleCell < 0x20 := by
  rw [idleCell]
  split
  · exact Palette.cell_lt _
  · decide

/-- The colour number of a palette entry, checked. -/
def maskedColourChecked (ppu : Ppu) (cell : Nat) : Checked UInt8 := do
  let entry ← ppu.palette.getChecked cell
  .ok (if ppu.mask.greyscale then entry / 0x10 % 4 * 0x10 else entry % 0x40)

theorem maskedColourChecked_eq (ppu : Ppu) {cell : Nat} (h : cell < 0x20) :
    ppu.maskedColourChecked cell = .ok (ppu.maskedColour cell) := by
  rw [maskedColourChecked, ppu.palette.getChecked_eq h]
  rfl

/-- Put out the pixel of the current dot, checked. -/
def renderPixelChecked (ppu : Ppu) : Checked Ppu := do
  let x ← difference ppu.dot 1
  if ppu.mask.rendering then
    let background ← ppu.backgroundPixelChecked
    let sprite ← ppu.spritePixelChecked
    let colour ← ppu.maskedColourChecked (paletteCell background sprite)
    let drawing ← ppu.drawing.setChecked (.ofNat x) (.ofNat ppu.scanline) colour
    let hit := ppu.status.spriteZeroHit || ppu.hitsSpriteZero background sprite
    .ok { ppu with drawing, status := { ppu.status with spriteZeroHit := hit } }
  else
    let cell ← ppu.idleCellChecked
    let colour ← ppu.maskedColourChecked cell
    let drawing ← ppu.drawing.setChecked (.ofNat x) (.ofNat ppu.scanline) colour
    .ok { ppu with drawing }

theorem renderPixelChecked_eq {ppu : Ppu} (hdot : 1 ≤ ppu.dot) (hcount : ppu.sprites.count ≤ 8) :
    ppu.renderPixelChecked = .ok ppu.renderPixel := by
  have hcell :=
    paletteCell_lt ppu.backgroundPixel_inPalette ppu.spritePixel_inPalette
  rw [renderPixelChecked, difference_eq hdot, ok_bind, renderPixel]
  split
  · rw [backgroundPixelChecked_eq, ok_bind, spritePixelChecked_eq hcount, ok_bind,
      maskedColourChecked_eq ppu hcell, ok_bind, Frame.setChecked_eq Frame.screen_fits, ok_bind]
  · rw [idleCellChecked_eq, ok_bind, maskedColourChecked_eq ppu ppu.idleCell_lt, ok_bind,
      Frame.setChecked_eq Frame.screen_fits, ok_bind]

/-- The nametable byte at a picture address, checked. -/
def nametableByteChecked (ppu : Ppu) (wiring : Wiring) (address : UInt16) : Checked UInt8 := do
  let cell ← wiring.cellChecked address.toNat
  ppu.vram.getChecked cell

theorem nametableByteChecked_eq (ppu : Ppu) (wiring : Wiring) (address : UInt16) :
    ppu.nametableByteChecked wiring address = .ok (ppu.nametableByte wiring address) := by
  rw [nametableByteChecked, Wiring.cellChecked_eq, ok_bind,
    ppu.vram.getChecked_eq (wiring.cell_lt _)]
  rfl

/-- Fetch the number of the tile under the picture address, checked. -/
def fetchNametableChecked (ppu : Ppu) (wiring : Wiring) : Checked Ppu := do
  let tile ← ppu.nametableByteChecked wiring ppu.scroll.tileAddress
  .ok { ppu with next := { ppu.next with tile } }

theorem fetchNametableChecked_eq (ppu : Ppu) (wiring : Wiring) :
    ppu.fetchNametableChecked wiring = .ok (ppu.fetchNametable wiring) := by
  rw [fetchNametableChecked, nametableByteChecked_eq]
  rfl

/-- Fetch the palette of the tile under the picture address, checked. -/
def fetchAttributeChecked (ppu : Ppu) (wiring : Wiring) : Checked Ppu := do
  let attributes ← ppu.nametableByteChecked wiring ppu.scroll.attributeAddress
  let palette ← FetchedTile.paletteOfChecked attributes
    (PictureAddress.coarseX ppu.scroll.v) (PictureAddress.coarseY ppu.scroll.v)
  .ok { ppu with next := { ppu.next with palette } }

theorem fetchAttributeChecked_eq (ppu : Ppu) (wiring : Wiring) :
    ppu.fetchAttributeChecked wiring = .ok (ppu.fetchAttribute wiring) := by
  rw [fetchAttributeChecked, nametableByteChecked_eq, ok_bind, FetchedTile.paletteOfChecked_eq]
  rfl

/-- Address of the low pattern byte of the fetched tile's current line, checked. -/
def tileRowAddressChecked (ppu : Ppu) : Checked Nat :=
  FetchedTile.patternAddressChecked ppu.control.backgroundTable ppu.next.tile
    ppu.scroll.fineY.toNat

theorem tileRowAddressChecked_eq (ppu : Ppu) :
    ppu.tileRowAddressChecked = .ok ppu.tileRowAddress :=
  FetchedTile.patternAddressChecked_eq ppu.control.backgroundTable_le _ ppu.scroll.fineY_lt

/-- A pattern byte is followed by another one eight bytes further. -/
theorem tileRowAddress_lt (ppu : Ppu) : ppu.tileRowAddress < 0x1FF8 := by
  have htable := ppu.control.backgroundTable_le
  have htile := ppu.next.tile.toNat_lt
  have hrow := ppu.scroll.fineY_lt
  rw [tileRowAddress, FetchedTile.patternAddress]
  omega

/-- Fetch the low pattern byte of the tile, checked. -/
def fetchPatternLowChecked (ppu : Ppu) (board : Board) : Checked Ppu := do
  let address ← ppu.tileRowAddressChecked
  let low ← board.readPatternChecked (UInt16.ofNat address)
  .ok { ppu with next := { ppu.next with low } }

theorem fetchPatternLowChecked_eq (ppu : Ppu) {board : Board} (h : board.Sound) :
    ppu.fetchPatternLowChecked board = .ok (ppu.fetchPatternLow board).1 := by
  rw [fetchPatternLowChecked, tileRowAddressChecked_eq, ok_bind, board.readPatternChecked_eq h]
  rfl

/-- Fetch the high pattern byte of the tile, checked. -/
def fetchPatternHighChecked (ppu : Ppu) (board : Board) : Checked Ppu := do
  let address ← ppu.tileRowAddressChecked
  let address ← wordSum address 8
  let high ← board.readPatternChecked (UInt16.ofNat address)
  .ok { ppu with next := { ppu.next with high } }

theorem fetchPatternHighChecked_eq (ppu : Ppu) {board : Board} (h : board.Sound) :
    ppu.fetchPatternHighChecked board = .ok (ppu.fetchPatternHigh board).1 := by
  have haddress := ppu.tileRowAddress_lt
  rw [fetchPatternHighChecked, tileRowAddressChecked_eq, ok_bind, wordSum_eq (by omega), ok_bind,
    board.readPatternChecked_eq h]
  rfl

/-- Find the sprites of the next line, checked. -/
def evaluateSpritesChecked (ppu : Ppu) : Checked Ppu := do
  let found ←
    Sprite.evaluateChecked ppu.oam ppu.scanline ppu.control.spriteHeight ppu.secondaryOam
  .ok { ppu with
    secondaryOam := found.secondary
    pickedCount := found.found
    pickedZero := found.zero
    status := { ppu.status with
      spriteOverflow := ppu.status.spriteOverflow || found.overflow } }

theorem evaluateSpritesChecked_eq (ppu : Ppu) :
    ppu.evaluateSpritesChecked = .ok ppu.evaluateSprites := by
  rw [evaluateSpritesChecked, Sprite.evaluateChecked_eq]
  rfl

/-- Address of the low pattern byte fetched for a slot with the bytes that were picked for it,
checked. -/
def spriteRowAddressChecked (ppu : Ppu) (slot : Fin 8) (y tile attributes : UInt8) :
    Checked Nat :=
  if slot.val < (ppu.spritesFrom slot).count then do
    let row ← Sprite.rowChecked ppu.scanline ppu.control.spriteHeight y attributes
    Sprite.patternAddressChecked ppu.control tile row
  else wordSum ppu.control.spriteTable (0xFF * 16)

theorem spriteRowAddressChecked_eq (ppu : Ppu) (slot : Fin 8) :
    ppu.spriteRowAddressChecked slot (ppu.secondaryOam.get (slot.val * 4))
        (ppu.secondaryOam.get (slot.val * 4 + 1)) (ppu.secondaryOam.get (slot.val * 4 + 2)) =
      .ok (ppu.spriteRowAddress slot) := by
  have hheight := ppu.control.spriteHeight_pos
  have htable := ppu.control.spriteTable_le
  rw [spriteRowAddressChecked, spriteRowAddress]
  split
  · rw [Sprite.rowChecked_eq _ hheight, ok_bind,
      Sprite.patternAddressChecked_eq _ (Sprite.row_lt _ hheight _ _)]
  · exact wordSum_eq (by omega)

/-- A pattern byte of a sprite is followed by another one eight bytes further. -/
theorem spriteRowAddress_lt (ppu : Ppu) (slot : Fin 8) : ppu.spriteRowAddress slot < 0x1FF8 := by
  have htable := ppu.control.spriteTable_le
  rw [spriteRowAddress]
  split
  · exact Sprite.patternAddress_lt _ (Sprite.row_lt _ ppu.control.spriteHeight_pos _ _)
  · omega

/-- Fetch one sprite of the next line into its unit, checked. -/
def fillSpriteUnitChecked (ppu : Ppu) (n : Nat) (board : Board) : Checked Ppu := do
  let slot ← SpriteUnits.slotChecked n
  let y ← ppu.secondaryOam.getChecked (slot.val * 4)
  let tile ← ppu.secondaryOam.getChecked (slot.val * 4 + 1)
  let attributes ← ppu.secondaryOam.getChecked (slot.val * 4 + 2)
  let x ← ppu.secondaryOam.getChecked (slot.val * 4 + 3)
  let address ← ppu.spriteRowAddressChecked slot y tile attributes
  let low ← board.readPatternChecked (UInt16.ofNat address)
  let address ← wordSum address 8
  let high ← board.readPatternChecked (UInt16.ofNat address)
  let sprites := ppu.spritesFrom slot
  let unit : SpriteUnit :=
    if slot.val < sprites.count then .ofPattern x attributes low high else {}
  .ok { ppu with sprites := sprites.fill slot unit }

theorem fillSpriteUnitChecked_eq (ppu : Ppu) {n : Nat} (hn : n < 8) {board : Board}
    (h : board.Sound) :
    ppu.fillSpriteUnitChecked n board =
      .ok (ppu.fillSpriteUnit (SpriteUnits.slotOf n) board).1 := by
  rw [fillSpriteUnitChecked, SpriteUnits.slotChecked_eq hn, ok_bind]
  generalize SpriteUnits.slotOf n = slot
  have hread {cell : Nat} (hcell : cell < slot.val * 4 + 4) :
      ppu.secondaryOam.getChecked cell = .ok (ppu.secondaryOam.get cell) := by
    refine ppu.secondaryOam.getChecked_eq ?_
    change cell < 32
    omega
  have haddress := ppu.spriteRowAddress_lt slot
  rw [hread (by omega), ok_bind, hread (by omega), ok_bind, hread (by omega), ok_bind,
    hread (by omega), ok_bind, spriteRowAddressChecked_eq, ok_bind,
    board.readPatternChecked_eq h, ok_bind, wordSum_eq (by omega), ok_bind,
    board.readPatternChecked_eq h]
  rfl

/-- Do one part of the work of a dot, checked. -/
def performChecked (operation : DotOperation) (ppu : Ppu) (board : Board) : Checked Ppu :=
  match operation with
  | .renderPixel => ppu.renderPixelChecked
  | .shiftBackground => .ok { ppu with shifter := ppu.shifter.shift }
  | .shiftSprites => do
    let sprites ← ppu.sprites.shiftChecked
    .ok { ppu with sprites }
  | .fetchNametable => ppu.fetchNametableChecked board.wiring
  | .fetchAttribute => ppu.fetchAttributeChecked board.wiring
  | .fetchPatternLow => ppu.fetchPatternLowChecked board
  | .fetchPatternHigh => ppu.fetchPatternHighChecked board
  | .loadBackground => .ok { ppu with shifter := ppu.shifter.load ppu.next }
  | .incrementX => do
    let v ← PictureAddress.incrementXChecked ppu.scroll.v
    .ok { ppu with scroll := { ppu.scroll with v } }
  | .incrementY => do
    let v ← PictureAddress.incrementYChecked ppu.scroll.v
    .ok { ppu with scroll := { ppu.scroll with v } }
  | .copyHorizontal => .ok { ppu with scroll := ppu.scroll.copyHorizontal }
  | .copyVertical => .ok { ppu with scroll := ppu.scroll.copyVertical }
  | .clearSecondaryOam => .ok { ppu with secondaryOam := Memory.filled 5 0xFF }
  | .evaluateSprites => ppu.evaluateSpritesChecked
  | .fillSpriteUnit => do
    let offset ← difference ppu.dot 257
    ppu.fillSpriteUnitChecked (offset / 8) board
  | .setVblank => .ok ppu.beginVblank
  | .clearFlags => .ok ppu.clearFlags

/-- A unit at a position of the frame, with as many sprites as it has room for. -/
structure Sound (ppu : Ppu) : Prop extends OnGrid ppu where
  picked_le : ppu.pickedCount ≤ 8
  units_le : ppu.sprites.count ≤ 8

variable {ppu : Ppu} {board : Board} {operation : DotOperation} {work : List DotOperation}

theorem performChecked_eq (h : ppu.sprites.count ≤ 8) (hboard : board.Sound)
    (hplaced : operation.Placed ppu.dot) :
    ppu.performChecked operation board = .ok (ppu.perform operation board).1 := by
  cases operation with
  | renderPixel => exact renderPixelChecked_eq hplaced h
  | shiftSprites =>
    rw [performChecked, SpriteUnits.shiftChecked_eq]
    rfl
  | fetchNametable => exact ppu.fetchNametableChecked_eq board.wiring
  | fetchAttribute => exact ppu.fetchAttributeChecked_eq board.wiring
  | fetchPatternLow => exact ppu.fetchPatternLowChecked_eq hboard
  | fetchPatternHigh => exact ppu.fetchPatternHighChecked_eq hboard
  | incrementX =>
    rw [performChecked, PictureAddress.incrementXChecked_eq]
    rfl
  | incrementY =>
    rw [performChecked, PictureAddress.incrementYChecked_eq]
    rfl
  | evaluateSprites => exact ppu.evaluateSpritesChecked_eq
  | fillSpriteUnit =>
    obtain ⟨hfirst, hlast⟩ := hplaced
    rw [performChecked, difference_eq hfirst, ok_bind,
      ppu.fillSpriteUnitChecked_eq (by omega) hboard]
    rfl
  | shiftBackground | loadBackground | copyHorizontal | copyVertical | clearSecondaryOam
  | setVblank | clearFlags => rfl

/-- No part of the work takes more sprites than there is room for. -/
theorem Sound.perform (h : ppu.Sound) (operation : DotOperation) (board : Board) :
    (ppu.perform operation board).1.Sound := by
  have houtside := perform_sameOutside operation ppu board
  obtain ⟨⟨hscanline, hdot⟩, hpicked, hunits⟩ := h
  refine ⟨⟨houtside.scanline ▸ hscanline, houtside.dot ▸ hdot⟩, ?_, ?_⟩
  · cases operation with
    | renderPixel =>
      obtain ⟨drawing, hit, heq⟩ := ppu.renderPixel_eq
      change ppu.renderPixel.pickedCount ≤ 8
      rw [heq]
      exact hpicked
    | evaluateSprites => exact Sprite.found_evaluate_le _ _ _ _
    | clearFlags => exact Nat.zero_le 8
    | _ => exact hpicked
  · cases operation with
    | renderPixel =>
      obtain ⟨drawing, hit, heq⟩ := ppu.renderPixel_eq
      change ppu.renderPixel.sprites.count ≤ 8
      rw [heq]
      exact hunits
    | fillSpriteUnit =>
      change (ppu.spritesFrom _).count ≤ 8
      rw [spritesFrom]
      split
      · exact hpicked
      · exact hunits
    | _ => exact hunits

/-- Do a list of work, checked. -/
def performAllChecked (rendering : Bool) : List DotOperation → Ppu → Board → Checked Ppu
  | [], ppu, _ => .ok ppu
  | operation :: rest, ppu, board =>
    if operation.needsRendering && !rendering then performAllChecked rendering rest ppu board
    else do
      let ppu ← ppu.performChecked operation board
      performAllChecked rendering rest ppu board

theorem performAllChecked_eq (h : ppu.Sound) (hboard : board.Sound)
    (hplaced : ∀ operation ∈ work, operation.Placed ppu.dot) (rendering : Bool) :
    performAllChecked rendering work ppu board = .ok (performAll rendering work ppu board).1 := by
  induction work generalizing ppu with
  | nil => rfl
  | cons operation rest ih =>
    have hrest : ∀ operation ∈ rest, operation.Placed ppu.dot :=
      fun _ hmem => hplaced _ (List.mem_cons_of_mem _ hmem)
    rw [performAllChecked, performAll]
    split
    · exact ih h hrest
    · have hsame := perform_sameOutside operation ppu board
      rw [performChecked_eq h.units_le hboard (hplaced _ List.mem_cons_self), ok_bind,
        ih (h.perform operation board) (by rwa [hsame.dot])]
      dsimp only
      rw [perform_board]

/-- The work of a dot keeps a unit sound. -/
theorem Sound.performAll (h : ppu.Sound) (rendering : Bool) (work : List DotOperation)
    (board : Board) : (performAll rendering work ppu board).1.Sound :=
  performAll_keeps Sound (fun operation _ _ _ board hkept => hkept.perform operation board) h board

/-- Work through one dot, checked; the flag says whether a frame was completed. -/
def tickChecked (ppu : Ppu) (board : Board) : Checked (Bool × Ppu) := do
  let work ← Schedule.workChecked ppu.scanline ppu.dot
  let ppu ← performAllChecked ppu.mask.rendering work ppu board
  .ok ppu.nextDot

theorem tickChecked_eq (h : ppu.Sound) (hboard : board.Sound) :
    ppu.tickChecked board = .ok ((ppu.tick board).1, (ppu.tick board).2.1) := by
  have hfits := Schedule.work_fits ppu.scanline ppu.dot
  rw [tickChecked, Schedule.workChecked_eq h.scanline_lt h.dot_lt, ok_bind,
    performAllChecked_eq h hboard hfits.placed, ok_bind]
  rfl

/-- The step to the next dot leaves the sprites alone. -/
theorem nextDot_sprites (ppu : Ppu) :
    ppu.nextDot.2.pickedCount = ppu.pickedCount ∧ ppu.nextDot.2.sprites = ppu.sprites := by
  unfold nextDot completeFrame
  split
  · exact ⟨rfl, rfl⟩
  · split <;> exact ⟨rfl, rfl⟩

/-- A dot keeps a unit sound. -/
theorem Sound.tick (h : ppu.Sound) (board : Board) : (ppu.tick board).2.1.Sound := by
  have hworked : (ppu.worked board).Sound := h.performAll _ _ _
  obtain ⟨hpicked, hsprites⟩ := nextDot_sprites (ppu.worked board)
  refine ⟨h.toOnGrid.tick board, ?_, ?_⟩
  · rw [tick_unit, hpicked]
    exact hworked.picked_le
  · rw [tick_unit, hsprites]
    exact hworked.units_le

/-- Work through a number of dots, checked, adding the completed frames to a count. -/
def runFromChecked (frames : Nat) : (dots : Nat) → Ppu → Board → Checked (Nat × Ppu)
  | 0, ppu, _ => .ok (frames, ppu)
  | dots + 1, ppu, board => do
    let (completed, ppu) ← ppu.tickChecked board
    runFromChecked (frames + completed.toNat) dots ppu board

/-- Work through a number of dots, checked; the count of completed frames comes first. -/
def runChecked (dots : Nat) (ppu : Ppu) (board : Board) : Checked (Nat × Ppu) :=
  runFromChecked 0 dots ppu board

theorem runFromChecked_eq (h : ppu.Sound) (hboard : board.Sound) (frames dots : Nat) :
    runFromChecked frames dots ppu board =
      .ok ((runFrom frames dots ppu board).1, (runFrom frames dots ppu board).2.1) := by
  induction dots generalizing frames ppu with
  | zero => rfl
  | succ dots ih =>
    rw [runFromChecked, tickChecked_eq h hboard, ok_bind, runFrom]
    dsimp only
    rw [tick_board]
    exact ih (h.tick board) _

theorem runChecked_eq (h : ppu.Sound) (hboard : board.Sound) (dots : Nat) :
    ppu.runChecked dots board = .ok ((ppu.run dots board).1, (ppu.run dots board).2.1) :=
  runFromChecked_eq h hboard 0 dots

/-- Dots keep a unit sound, and do not change a board. -/
theorem Sound.runFrom (h : ppu.Sound) (frames dots : Nat) (board : Board) :
    (runFrom frames dots ppu board).2.1.Sound ∧ (runFrom frames dots ppu board).2.2 = board := by
  induction dots generalizing frames ppu with
  | zero => exact ⟨h, rfl⟩
  | succ dots ih =>
    rw [Ppu.runFrom]
    dsimp only
    rw [tick_board]
    exact ih (h.tick board) _

end Ppu

end Famicom
