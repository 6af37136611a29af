import Famicom.Proofs.Ppu.ScrollFields
import Famicom.Proofs.Ppu.SpriteSearch
import Famicom.Proofs.Ppu.PixelStream
import Famicom.Proofs.Ppu.FramePoints
import Famicom.Ppu.State
import Famicom.Proofs.Safety.Checked

/-!
# Checked parts of the picture

What the picture is made of, with every index, sum, product, difference and shift checked: the
memories behind picture addresses, the steps of the scroll registers, the shift registers of the
background, the sprite units, and the search for the sprites of a line. Most of these parts can
do no harm whatever they are given; the others need a row inside its sprite, or a count of
sprites that the units have room for.
-/

namespace Famicom

open Checked

/-- The palette cell behind an address, with the way back to the background checked. -/
def Palette.cellChecked (address : Nat) : Checked Nat :=
  let index := address % 0x20
  if 0x10 ≤ index ∧ index % 4 = 0 then difference index 0x10 else .ok index

theorem Palette.cellChecked_eq (address : Nat) : cellChecked address = .ok (cell address) := by
  simp only [cellChecked, cell]
  split
  · next hmirror => exact difference_eq hmirror.1
  · rfl

/-- The nametable memory cell behind a picture address, with the place of its table checked. -/
def Wiring.cellChecked (wiring : Wiring) (address : Nat) : Checked Nat := do
  let start ← wordProduct (wiring.physicalTable (address % 0x1000 / 0x400)) 0x400
  wordSum start (address % 0x400)

theorem Wiring.cellChecked_eq (wiring : Wiring) (address : Nat) :
    wiring.cellChecked address = .ok (wiring.cell address) := by
  have htable : address % 0x1000 / 0x400 < 4 := by omega
  have hphysical := wiring.physicalTable_lt htable
  rw [cellChecked, wordProduct_eq (by omega), ok_bind]
  exact wordSum_eq (by omega)

/-- Set a point of the picture, with its place in the picture checked. -/
def Frame.setChecked {width height : UInt64} (frame : Frame width height) (x y : UInt64)
    (colour : UInt8) : Checked (Frame width height) :=
  if x < width ∧ y < height then do
    let start ← within UInt64.size (y.toNat * width.toNat)
    let index ← within UInt64.size (start + x.toNat)
    if h : index < (width * height).toNat then
      .ok ⟨frame.cells.set index (colour % 0x40) h⟩
    else .error (.index index (width * height).toNat)
  else .ok frame

theorem Frame.setChecked_eq {width height : UInt64} (hfits : Fits width height)
    (frame : Frame width height) (x y : UInt64) (colour : UInt8) :
    frame.setChecked x y colour = .ok (frame.set x y colour) := by
  unfold setChecked set
  split
  · next h =>
    have hindex := hfits.index_lt_area h
    have hword : y.toNat * width.toNat + x.toNat < UInt64.size :=
      Nat.lt_trans hindex (width * height).toNat_lt
    rw [within_eq (Nat.lt_of_le_of_lt (Nat.le_add_right _ _) hword), ok_bind, within_eq hword,
      ok_bind, dif_pos hindex, hfits.toNat_place h]
    congr 2
    refine Vector.ext fun i hi => ?_
    rw [Vector.getElem_set, Vector.getElem_setIfInBounds]
  · rfl

namespace PictureAddress

/-- One tile to the right, by counting up the address where the column allows it. -/
def incrementXChecked (v : UInt16) : Checked UInt16 :=
  if coarseX v = 31 then .ok (withNametableX (withCoarseX v 0) (nametableX v + 1))
  else do
    let moved ← wordSum v.toNat 1
    .ok (UInt16.ofNat moved)

theorem incrementXChecked_eq (v : UInt16) : incrementXChecked v = .ok (incrementX v) := by
  unfold incrementXChecked incrementX
  split
  · rfl
  · next hcolumn =>
    have hv : v.toNat < 0x10000 := v.toNat_lt
    have hlast : v.toNat % 0x20 ≠ 31 := fun heq =>
      hcolumn (UInt16.toNat_inj.mp ((toNat_coarseX v).trans heq))
    have hmoved : (withCoarseX v (coarseX v + 1)).toNat = v.toNat + 1 := by
      rw [toNat_withCoarseX, UInt16.toNat_add, toNat_coarseX]
      change v.toNat - v.toNat % 0x20 + (v.toNat % 0x20 + 1) % 0x10000 % 0x20 = v.toNat + 1
      omega
    rw [wordSum_eq (by omega), ok_bind, ← hmoved, UInt16.ofNat_toNat]

/-- One line down, by counting up the address while the line stays within the tile. -/
def incrementYChecked (v : UInt16) : Checked UInt16 :=
  if fineY v ≠ 7 then do
    let moved ← wordSum v.toNat 0x1000
    .ok (UInt16.ofNat moved)
  else .ok (incrementY v)

theorem incrementYChecked_eq (v : UInt16) : incrementYChecked v = .ok (incrementY v) := by
  unfold incrementYChecked
  split
  · next hfine =>
    have hv : v.toNat < 0x10000 := v.toNat_lt
    have hlast : v.toNat / 0x1000 % 8 ≠ 7 := fun heq =>
      hfine (UInt16.toNat_inj.mp ((toNat_fineY v).trans heq))
    have hmoved : (incrementY v).toNat = v.toNat + 0x1000 := by
      rw [incrementY, if_pos hfine, toNat_withFineY, UInt16.toNat_add, toNat_fineY]
      change v.toNat - v.toNat / 0x1000 % 8 * 0x1000 +
        (v.toNat / 0x1000 % 8 + 1) % 0x10000 % 8 * 0x1000 = v.toNat + 0x1000
      omega
    rw [wordSum_eq (by omega), ok_bind, ← hmoved, UInt16.ofNat_toNat]
  · rfl

end PictureAddress

/-- A tile has eight lines. -/
theorem Scroll.fineY_lt (scroll : Scroll) : scroll.fineY.toNat < 8 := by
  rw [Scroll.fineY, PictureAddress.toNat_fineY]
  exact Nat.mod_lt _ (by decide)

/-- A palette number and an entry of two bits each. -/
structure InPalette (palette pixel : UInt8) : Prop where
  palette_lt : palette.toNat < 4
  pixel_lt : pixel.toNat < 4

/-- Two bits make a number below four. -/
theorem toNat_pair_lt (high low : UInt8) (hhigh : high.toNat < 2) (hlow : low.toNat < 2) :
    (high * 2 + low).toNat < 4 := by
  simp only [UInt8.toNat_add, UInt8.toNat_mul, UInt8.reduceToNat]
  omega

namespace PixelShifter

/-- The bit that lies `column` pixels behind the next one, checked. -/
def bitChecked (register : UInt16) (column : UInt8) : Checked UInt8 := do
  let place ← difference 15 (column.toNat % 8)
  let place ← shiftAmount place 16
  .ok ((register >>> UInt16.ofNat place).toUInt8 % 2)

theorem bitChecked_eq (register : UInt16) (column : UInt8) :
    bitChecked register column = .ok (bit register column) := by
  rw [bitChecked, difference_eq (by omega), ok_bind, shiftAmount_eq (by omega), ok_bind,
    ← toNat_bitAmount, UInt16.ofNat_toNat, bit]

/-- The pixel that lies `column` pixels behind the next one, checked. -/
def pixelChecked (shifter : PixelShifter) (column : UInt8) : Checked LayerPixel := do
  let low ← bitChecked shifter.low column
  let high ← bitChecked shifter.high column
  let paletteLow ← bitChecked shifter.paletteLow column
  let paletteHigh ← bitChecked shifter.paletteHigh column
  .ok { palette := paletteHigh * 2 + paletteLow, pixel := high * 2 + low }

theorem pixelChecked_eq (shifter : PixelShifter) (column : UInt8) :
    shifter.pixelChecked column = .ok (shifter.pixel column) := by
  simp only [pixelChecked, bitChecked_eq, ok_bind, pixel]

/-- The shift registers put out an entry of a palette. -/
theorem pixel_inPalette (shifter : PixelShifter) (column : UInt8) :
    InPalette (shifter.pixel column).palette (shifter.pixel column).pixel := by
  have hbit (register : UInt16) : (bit register column).toNat < 2 := by
    rw [bit, UInt8.toNat_mod]
    exact Nat.mod_lt _ (by decide)
  exact ⟨toNat_pair_lt _ _ (hbit _) (hbit _), toNat_pair_lt _ _ (hbit _) (hbit _)⟩

end PixelShifter

namespace Control

theorem spriteTable_le (control : Control) : control.spriteTable ≤ 0x1000 := by
  rw [spriteTable]
  split <;> decide

theorem backgroundTable_le (control : Control) : control.backgroundTable ≤ 0x1000 := by
  rw [backgroundTable]
  split <;> decide

/-- Sprites are eight or sixteen lines high. -/
theorem spriteHeight_eq (control : Control) :
    control.spriteHeight = 8 ∨ control.spriteHeight = 16 := by
  rw [spriteHeight]
  split
  · exact .inr rfl
  · exact .inl rfl

theorem spriteHeight_of_small {control : Control} (h : ¬control.spriteHeight = 16) :
    control.spriteHeight = 8 :=
  control.spriteHeight_eq.resolve_right h

theorem spriteHeight_pos (control : Control) : 0 < control.spriteHeight := by
  rcases control.spriteHeight_eq with h | h <;> rw [h] <;> decide

end Control

namespace FetchedTile

/-- The palette of the quarter that a tile lies in, checked. -/
def paletteOfChecked (attributes : UInt8) (coarseX coarseY : UInt16) : Checked UInt8 := do
  let quarter := coarseY / 2 % 2 * 2 + coarseX / 2 % 2
  let amount ← shiftAmount (quarter.toNat * 2) 8
  .ok (attributes >>> UInt8.ofNat amount % 4)

theorem paletteOfChecked_eq (attributes : UInt8) (coarseX coarseY : UInt16) :
    paletteOfChecked attributes coarseX coarseY =
      .ok (paletteOf attributes coarseX coarseY) := by
  have hquarter : (coarseY / 2 % 2 * 2 + coarseX / 2 % 2).toNat < 4 := by
    simp only [UInt16.toNat_add, UInt16.toNat_mul, UInt16.toNat_mod, UInt16.reduceToNat]
    omega
  rw [paletteOfChecked, paletteOf]
  generalize coarseY / 2 % 2 * 2 + coarseX / 2 % 2 = quarter at hquarter ⊢
  have hamount : (quarter * 2).toUInt8.toNat = quarter.toNat * 2 := by
    simp only [UInt16.toNat_toUInt8, UInt16.toNat_mul, UInt16.reduceToNat]
    omega
  rw [shiftAmount_eq (by omega), ok_bind, ← hamount, UInt8.ofNat_toNat]

/-- Address of the low pattern byte of line `row` of a tile, checked. -/
def patternAddressChecked (table : Nat) (tile : UInt8) (row : Nat) : Checked Nat := do
  let place ← wordProduct tile.toNat 16
  let start ← wordSum table place
  wordSum start row

theorem patternAddressChecked_eq {table row : Nat} (htable : table ≤ 0x1000) (tile : UInt8)
    (hrow : row < 8) :
    patternAddressChecked table tile row = .ok (patternAddress table tile row) := by
  have htile := tile.toNat_lt
  rw [patternAddressChecked, wordProduct_eq (by omega), ok_bind, wordSum_eq (by omega), ok_bind]
  exact wordSum_eq (by omega)

end FetchedTile

namespace SpriteUnit

/-- Count down, or move out one pixel, checked. -/
def shiftChecked (unit : SpriteUnit) : Checked SpriteUnit :=
  if unit.x = 0 then .ok { unit with low := unit.low <<< 1, high := unit.high <<< 1 }
  else do
    let x ← difference unit.x.toNat 1
    .ok { unit with x := UInt8.ofNat x }

theorem shiftChecked_eq (unit : SpriteUnit) : unit.shiftChecked = .ok unit.shift := by
  unfold shiftChecked shift
  split
  · rfl
  · next hwaiting =>
    have hpos : 1 ≤ unit.x.toNat := by
      rw [Nat.one_le_iff_ne_zero]
      exact fun hzero => hwaiting (UInt8.toNat_inj.mp hzero)
    have hx : (unit.x - 1).toNat = unit.x.toNat - 1 := UInt8.toNat_sub_of_le _ _ hpos
    rw [difference_eq hpos, ok_bind, ← hx, UInt8.ofNat_toNat]

/-- A unit puts out an entry of a palette. -/
theorem pixel_lt (unit : SpriteUnit) : unit.pixel.toNat < 4 := by
  have htop (byte : UInt8) : (byte / 0x80).toNat < 2 := by
    have hbyte := byte.toNat_lt
    rw [UInt8.toNat_div]
    change byte.toNat / 128 < 2
    omega
  rw [pixel]
  split
  · exact toNat_pair_lt _ _ (htop _) (htop _)
  · decide

end SpriteUnit

namespace SpriteUnits

/-- Move every unit on by one dot, checked. -/
def shiftChecked (sprites : SpriteUnits) : Checked SpriteUnits := do
  let units ← sprites.units.mapM SpriteUnit.shiftChecked
  .ok { sprites with units }

theorem shiftChecked_eq (sprites : SpriteUnits) : sprites.shiftChecked = .ok sprites.shift := by
  have hunit : SpriteUnit.shiftChecked = fun unit => pure unit.shift :=
    funext SpriteUnit.shiftChecked_eq
  rw [shiftChecked, hunit, Vector.mapM_pure]
  rfl

/-- What units show together: the first one with a pixel decides. -/
def shown (units : List SpriteUnit) (zeroFirst : Bool) : SpritePixel :=
  match units.find? fun unit => unit.pixel != 0 with
  | none => {}
  | some unit =>
    { palette := unit.attributes % 4
      pixel := unit.pixel
      inFront := !Byte.bit unit.attributes 0x20
      zero := zeroFirst && units.head?.any fun first => first.pixel != 0 }

/-- The pixel at the current dot, checked: every unit in use is looked at. -/
def pixelChecked (sprites : SpriteUnits) : Checked SpritePixel := do
  let units ← (List.range sprites.count).mapM fun slot => element sprites.units.toArray slot
  .ok (shown units sprites.zeroFirst)

/-- The slots in use. -/
def inUse (sprites : SpriteUnits) : List (Fin 8) :=
  slots.filter fun slot => slot.val < sprites.count

/-- The slots in use are counted from 0. -/
theorem map_inUse {sprites : SpriteUnits} (h : sprites.count ≤ 8) :
    sprites.inUse.map Fin.val = List.range sprites.count := by
  have hall : ∀ count ≤ 8,
      (slots.filter fun slot => slot.val < count).map Fin.val = List.range count := by decide
  exact hall _ h

/-- The first slot in use is slot 0. -/
theorem head_inUse {sprites : SpriteUnits} (h : sprites.count ≤ 8) :
    (sprites.inUse.map sprites.unit).head?.any (fun first => first.pixel != 0) =
      (sprites.pixelAt (slotOf 0) != 0) := by
  have hall : ∀ count ≤ 8, (slots.filter fun slot => slot.val < count).head? =
      if 0 < count then some (slotOf 0) else none := by decide
  rw [List.head?_map, inUse, hall _ h, pixelAt]
  by_cases hcount : 0 < sprites.count
  · rw [if_pos hcount, if_pos (by exact hcount)]
    rfl
  · rw [if_neg hcount, if_neg (by exact hcount)]
    rfl

/-- A slot puts out a pixel when it is in use and its unit does. -/
theorem pixelAt_bne_zero (sprites : SpriteUnits) (slot : Fin 8) :
    (sprites.pixelAt slot != 0) =
      decide (decide (slot.val < sprites.count) = true ∧ (sprites.unit slot).pixel != 0) := by
  rw [pixelAt]
  by_cases hused : slot.val < sprites.count
  · simp only [if_pos hused, decide_eq_true hused, true_and, Bool.decide_eq_true]
  · simp only [if_neg hused, decide_eq_false hused, Bool.false_eq_true, false_and, decide_false,
      bne_self_eq_false]

/-- The units in use decide the pixel. -/
theorem shown_inUse {sprites : SpriteUnits} (h : sprites.count ≤ 8) :
    shown (sprites.inUse.map sprites.unit) sprites.zeroFirst = sprites.pixel := by
  have hfind : (sprites.inUse.map sprites.unit).find? (fun unit => unit.pixel != 0) =
      (slots.find? fun slot => sprites.pixelAt slot != 0).map sprites.unit := by
    simp only [List.find?_map, inUse, List.find?_filter, pixelAt_bne_zero]
    rfl
  rw [shown, hfind, head_inUse h, pixel]
  cases hslot : slots.find? fun slot => sprites.pixelAt slot != 0 with
  | none => rfl
  | some slot =>
    have hpixel : (sprites.pixelAt slot != 0) = true :=
      List.find?_some (p := fun slot => sprites.pixelAt slot != 0) hslot
    have hused : slot.val < sprites.count := by
      rw [pixelAt_bne_zero] at hpixel
      exact of_decide_eq_true (of_decide_eq_true hpixel).1
    have hunit : sprites.pixelAt slot = (sprites.unit slot).pixel := if_pos hused
    simp only [Option.map_some, hunit]
    rfl

theorem pixelChecked_eq {sprites : SpriteUnits} (h : sprites.count ≤ 8) :
    sprites.pixelChecked = .ok sprites.pixel := by
  have hunits : (List.range sprites.count).mapM (fun slot => element sprites.units.toArray slot) =
      .ok (sprites.inUse.map sprites.unit) := by
    rw [← map_inUse h, List.mapM_map]
    refine mapM_eq fun slot _ => ?_
    exact element_toArray sprites.units slot.isLt
  rw [pixelChecked, hunits, ok_bind, shown_inUse h]

/-- The units put out an entry of a palette. -/
theorem pixel_inPalette (sprites : SpriteUnits) :
    InPalette sprites.pixel.palette sprites.pixel.pixel := by
  rw [pixel]
  split
  · constructor <;> decide
  · next slot _ =>
    constructor
    · rw [UInt8.toNat_mod]
      exact Nat.mod_lt _ (by decide)
    · simp only [pixelAt]
      split
      · exact SpriteUnit.pixel_lt _
      · decide

/-- The slot of a number. -/
def slotChecked (n : Nat) : Checked (Fin 8) :=
  if h : n < 8 then .ok ⟨n, h⟩ else .error (.index n 8)

theorem slotChecked_eq {n : Nat} (h : n < 8) : slotChecked n = .ok (slotOf n) := by
  rw [slotChecked, dif_pos h]
  exact congrArg Except.ok (Fin.ext (Nat.mod_eq_of_lt h).symm)

end SpriteUnits

namespace Sprite

/-- The line of a sprite that shows, with the way from its last line checked. -/
def rowChecked (scanline height : Nat) (y attributes : UInt8) : Checked Nat := do
  let last ← difference height 1
  let row := (scanline + 0x100 - y.toNat) % height
  if Byte.bit attributes 0x80 then difference last row else .ok row

theorem rowChecked_eq (scanline : Nat) {height : Nat} (h : 0 < height) (y attributes : UInt8) :
    rowChecked scanline height y attributes = .ok (row scanline height y attributes) := by
  have hrow : (scanline + 0x100 - y.toNat) % height < height := Nat.mod_lt _ h
  rw [rowChecked, difference_eq h, ok_bind, row]
  split
  · exact difference_eq (by omega)
  · rfl

/-- The line that shows lies inside its sprite. -/
theorem row_lt (scanline : Nat) {height : Nat} (h : 0 < height) (y attributes : UInt8) :
    row scanline height y attributes < height := by
  have hrow : (scanline + 0x100 - y.toNat) % height < height := Nat.mod_lt _ h
  rw [row]
  split <;> omega

/-- Address of the low pattern byte of a sprite line, checked. -/
def patternAddressChecked (control : Control) (tile : UInt8) (row : Nat) : Checked Nat :=
  if control.spriteHeight = 16 then do
    let table ← wordProduct (tile.toNat % 2) 0x1000
    let half ← wordSum (tile.toNat / 2 * 2) (row / 8)
    let place ← wordProduct half 16
    let start ← wordSum table place
    wordSum start (row % 8)
  else FetchedTile.patternAddressChecked control.spriteTable tile row

theorem patternAddressChecked_eq {control : Control} (tile : UInt8) {row : Nat}
    (hrow : row < control.spriteHeight) :
    patternAddressChecked control tile row = .ok (patternAddress control tile row) := by
  have htile := tile.toNat_lt
  rw [patternAddressChecked, patternAddress]
  split
  · next htall =>
    rw [htall] at hrow
    rw [wordProduct_eq (by omega), ok_bind, wordSum_eq (by omega), ok_bind,
      wordProduct_eq (by omega), ok_bind, wordSum_eq (by omega), ok_bind]
    exact wordSum_eq (by omega)
  · next hsmall =>
    rw [Control.spriteHeight_of_small hsmall] at hrow
    exact FetchedTile.patternAddressChecked_eq control.spriteTable_le tile hrow

/-- The patterns of sprites lie in the pattern window, with eight more bytes behind each of
their low bytes. -/
theorem patternAddress_lt {control : Control} (tile : UInt8) {row : Nat}
    (hrow : row < control.spriteHeight) : patternAddress control tile row < 0x1FF8 := by
  have htile := tile.toNat_lt
  have htable := control.spriteTable_le
  rw [patternAddress]
  split
  · next htall =>
    rw [htall] at hrow
    omega
  · next hsmall =>
    rw [Control.spriteHeight_of_small hsmall] at hrow
    omega

/-- Whether a sprite touches the next line, checked. -/
def inRangeChecked (scanline height : Nat) (y : UInt8) : Checked Bool :=
  if y.toNat ≤ scanline then do
    let row ← difference scanline y.toNat
    .ok (decide (row < height))
  else .ok false

theorem inRangeChecked_eq (scanline height : Nat) (y : UInt8) :
    inRangeChecked scanline height y = .ok (inRange scanline height y) := by
  rw [inRangeChecked, inRange]
  by_cases hbelow : y.toNat ≤ scanline
  · rw [if_pos hbelow, difference_eq hbelow, ok_bind]
    simp only [hbelow, true_and]
  · rw [if_neg hbelow, decide_eq_false fun h => hbelow h.1]

/-- Copy the four bytes of sprite `n` to place `slot` of the second memory, checked. -/
def copyChecked (oam : Memory 8) (n slot : Nat) (secondary : Memory 5) : Checked (Memory 5) := do
  let bytes ← oam.readChecked (n * 4) 4
  secondary.loadChecked (slot * 4) bytes

theorem copyChecked_eq (oam : Memory 8) {n slot : Nat} (hn : n < total) (hslot : slot < perLine)
    (secondary : Memory 5) :
    copyChecked oam n slot secondary = .ok (copy oam n slot secondary) := by
  have hlength : (oam.read (n * 4) 4).length = 4 := by
    rw [Memory.read, List.length_map, List.length_range]
  have hmemory : chipSize 8 = 256 := rfl
  have hsecond : chipSize 5 = 32 := rfl
  rw [total] at hn
  rw [perLine] at hslot
  rw [copyChecked, oam.readChecked_eq (by omega), ok_bind, secondary.loadChecked_eq (by omega)]
  rfl

/-- Look for one more sprite, checked. -/
def searchOverflowChecked (oam : Memory 8) (scanline height : Nat) :
    (left column : Nat) → Checked Bool
  | 0, _ => .ok false
  | left + 1, column => do
    let n ← difference total (left + 1)
    let y ← oam.getChecked (n * 4 + column)
    let overflow ← inRangeChecked scanline height y
    if overflow then .ok true
    else searchOverflowChecked oam scanline height left ((column + 1) % 4)

theorem searchOverflowChecked_eq (oam : Memory 8) (scanline height : Nat) {left column : Nat}
    (hleft : left ≤ total) (hcolumn : column < 4) :
    searchOverflowChecked oam scanline height left column =
      .ok (searchOverflow oam scanline height left column) := by
  induction left generalizing column with
  | zero => rfl
  | succ left ih =>
    have hcell : (total - (left + 1)) * 4 + column < chipSize 8 := by
      change (64 - (left + 1)) * 4 + column < 256
      omega
    rw [searchOverflowChecked, difference_eq hleft, ok_bind, oam.getChecked_eq hcell, ok_bind,
      inRangeChecked_eq, ok_bind, ih (by omega) (Nat.mod_lt _ (by decide)), searchOverflow]
    split
    · next h => rw [h, Bool.true_or]
    · next h => rw [Bool.eq_false_iff.mpr h, Bool.false_or]

/-- Go on with the search, checked. -/
def searchChecked (oam : Memory 8) (scanline height : Nat) :
    (left : Nat) → Evaluation → Checked Evaluation
  | 0, evaluation => .ok evaluation
  | left + 1, evaluation => do
    let n ← difference total (left + 1)
    if evaluation.found = perLine then
      let overflow ← searchOverflowChecked oam scanline height (left + 1) 0
      .ok { evaluation with overflow }
    else
      let y ← oam.getChecked (n * 4)
      let touches ← inRangeChecked scanline height y
      if touches then
        let secondary ← copyChecked oam n evaluation.found evaluation.secondary
        searchChecked oam scanline height left
          { evaluation with
            secondary
            found := evaluation.found + 1
            zero := evaluation.zero || n == 0 }
      else searchChecked oam scanline height left evaluation

theorem searchChecked_eq (oam : Memory 8) (scanline height : Nat) {left : Nat}
    {evaluation : Evaluation} (hleft : left ≤ total) (hfound : evaluation.found ≤ perLine) :
    searchChecked oam scanline height left evaluation =
      .ok (search oam scanline height left evaluation) := by
  induction left generalizing evaluation with
  | zero => rfl
  | succ left ih =>
    have hn : total - (left + 1) < total := Nat.sub_lt (by decide) (Nat.succ_pos left)
    have hcell : (total - (left + 1)) * 4 < chipSize 8 := by
      change (64 - (left + 1)) * 4 < 256
      omega
    rw [searchChecked, difference_eq hleft, ok_bind, search]
    split
    · rw [searchOverflowChecked_eq oam scanline height hleft (by decide), ok_bind]
    · next hroom =>
      have hslot : evaluation.found < perLine := Nat.lt_of_le_of_ne hfound hroom
      rw [oam.getChecked_eq hcell, ok_bind, inRangeChecked_eq, ok_bind]
      split
      · rw [copyChecked_eq oam hn hslot, ok_bind]
        exact ih (Nat.le_of_succ_le hleft) hslot
      · exact ih (Nat.le_of_succ_le hleft) hfound

/-- Search object memory, checked. -/
def evaluateChecked (oam : Memory 8) (scanline height : Nat) (secondary : Memory 5) :
    Checked Evaluation :=
  searchChecked oam scanline height total { secondary }

theorem evaluateChecked_eq (oam : Memory 8) (scanline height : Nat) (secondary : Memory 5) :
    evaluateChecked oam scanline height secondary =
      .ok (evaluate oam scanline height secondary) :=
  searchChecked_eq oam scanline height (Nat.le_refl total) (Nat.zero_le perLine)

end Sprite

end Famicom
