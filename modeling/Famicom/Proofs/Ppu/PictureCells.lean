import Famicom.Proofs.Ppu.Uses

/-!
# Cells behind picture addresses

A picture address has fourteen bits, but fewer bytes stand behind them. The wiring shows one
kilobyte of nametable memory in several places, the nametables appear twice, and palette memory
repeats, with the first entry of every sprite palette in that of a background palette. Addresses
with the same cell show the same byte, whatever is stored through either of them.
-/

namespace Famicom

/-- What stands behind a picture address. -/
inductive PictureCell where
  /-- A byte of the pattern window. -/
  | pattern (offset : Nat)
  /-- A byte of a kilobyte of nametable memory. -/
  | nametable (table offset : Nat)
  /-- An entry of palette memory. -/
  | palette (entry : Nat)
deriving DecidableEq, Repr

namespace PictureCell

/-- The kilobyte of nametable memory that is wired to an address. -/
def table (wiring : Wiring) (place : Nat) : Nat :=
  match wiring with
  | .vertical => place / 0x400 % 2
  | .horizontal => place / 0x800 % 2
  | .fourScreen => place / 0x400 % 4
  | .single0 => 0
  | .single1 => 1

/-- The entry of palette memory at an address. -/
def entry (place : Nat) : Nat := if place % 4 = 0 then place % 0x10 else place % 0x20

/-- The cell behind an address. -/
def of (wiring : Wiring) (address : UInt16) : PictureCell :=
  let place := address.toNat
  if place < 0x2000 then .pattern place
  else if place < 0x3F00 then .nametable (table wiring place) (place % 0x400)
  else .palette (entry place)

theorem table_lt (wiring : Wiring) (place : Nat) : table wiring place < 4 := by
  cases wiring <;> simp only [table] <;> omega

/-- The wiring puts the byte of an address into its kilobyte. -/
theorem wiring_cell (wiring : Wiring) (place : Nat) :
    wiring.cell place = table wiring place * 0x400 + place % 0x400 := by
  have htable : wiring.physicalTable (place % 0x1000 / 0x400) = table wiring place := by
    cases wiring <;> simp only [Wiring.physicalTable, table] <;> omega
  rw [Wiring.cell, htable]

theorem entry_lt (place : Nat) : entry place < 0x20 := by
  unfold entry
  split <;> omega

/-- Palette memory holds the entry of an address. -/
theorem palette_cell (place : Nat) : Palette.cell place = entry place := by
  simp only [Palette.cell, entry]
  split <;> split <;> omega

variable {wiring : Wiring} {address : UInt16}

theorem of_pattern (h : address < 0x2000) : of wiring address = .pattern address.toNat :=
  if_pos (UInt16.lt_iff_toNat_lt.mp h)

theorem of_nametable (h : ¬ address < 0x2000) (h' : address < 0x3F00) :
    of wiring address = .nametable (table wiring address.toNat) (address.toNat % 0x400) := by
  rw [UInt16.lt_iff_toNat_lt] at h h'
  exact (if_neg h).trans (if_pos h')

theorem of_palette (h : ¬ address < 0x3F00) :
    of wiring address = .palette (entry address.toNat) := by
  rw [UInt16.lt_iff_toNat_lt] at h
  have hpattern : ¬ address.toNat < 0x2000 := fun hlt => h (Nat.lt_trans hlt (by decide))
  exact (if_neg hpattern).trans (if_neg h)

end PictureCell

namespace PpuSide

open PictureCell

/-- The cell behind an address as the cartridge wires it. -/
def cell (side : PpuSide) (address : UInt16) : PictureCell := .of side.board.wiring address

/-- The byte in a cell. Palette entries have six bits. -/
def held (side : PpuSide) : PictureCell → UInt8
  | .pattern offset => side.board.readPattern (UInt16.ofNat offset)
  | .nametable table offset => side.ppu.vram.get (table * 0x400 + offset)
  | .palette entry => side.ppu.palette.get entry % 0x40

/-- The byte in a cell after a value is stored there. Patterns of the image stay, and six bits of
the value reach palette memory. -/
def stored (side : PpuSide) (value : UInt8) : PictureCell → UInt8
  | .pattern offset => if side.board.chr.isRam then value else side.held (.pattern offset)
  | .nametable _ _ => value
  | .palette _ => value % 0x40

/-- The unit and the cartridge after a value is stored at an address. -/
def store (side : PpuSide) (address : UInt16) (value : UInt8) : PpuSide :=
  let (ppu, board) := side.ppu.writePicture address value side.board
  { ppu, board }

variable (side : PpuSide) {address other : UInt16}

/-- Below palette memory the byte at an address is the one in its cell. -/
theorem readPicture_eq (h : address < 0x3F00) :
    (side.ppu.readPicture address side.board).1 = side.held (side.cell address) := by
  unfold Ppu.readPicture cell
  split
  · next hpattern =>
    rw [of_pattern hpattern, held, UInt16.ofNat_toNat]
    rfl
  · next hpattern =>
    rw [of_nametable hpattern h, held, ← wiring_cell]
    rfl

/-- Six bits of the byte that is read in palette memory are the entry. -/
theorem paletteByte_eq (h : ¬ side.ppu.scroll.address < 0x3F00) :
    side.ppu.paletteByte % 0x40 = side.held (side.cell side.ppu.scroll.address) := by
  have hbits (entry lines : UInt8) : (entry ||| lines / 0x40 * 0x40) % 0x40 = entry % 0x40 := by
    apply UInt8.toNat_inj.mp
    simp only [UInt8.toNat_mod, UInt8.toNat_or, UInt8.toNat_mul, UInt8.toNat_div,
      UInt8.reduceToNat]
    have hlines : lines.toNat / 64 * 64 % 256 % 64 = 0 := by omega
    have hor := Nat.or_mod_two_pow (a := entry.toNat) (b := lines.toNat / 64 * 64 % 256) (n := 6)
    exact hor.trans (by rw [hlines, Nat.or_zero])
  rw [cell, of_palette h, held, ← palette_cell]
  exact hbits _ _

/-- A pattern byte is stored at its own address, if patterns can be stored at all. -/
theorem readPattern_writePattern (board : Board) (value : UInt8) (haddress : address < 0x2000)
    (hother : other < 0x2000) :
    (board.writePattern address value).readPattern other =
      if address.toNat = other.toNat then
        if board.chr.isRam then value else board.readPattern other
      else board.readPattern other := by
  rw [UInt16.lt_iff_toNat_lt] at haddress hother
  obtain ⟨prg, chr, wiring, latch⟩ := board
  cases chr with
  | rom bytes => split <;> rfl
  | ram memory =>
    have hplace : address.toNat % chipSize 13 = address.toNat := Nat.mod_eq_of_lt haddress
    have hplace' : other.toNat % chipSize 13 = other.toNat := Nat.mod_eq_of_lt hother
    change (memory.set address.toNat value).get other.toNat = _
    rw [Memory.get_set, hplace, hplace']
    rfl

/-- Two addresses of nametable memory reach one byte exactly when they have one cell. -/
theorem get_set_vram (vram : Memory 12) (wiring : Wiring) (place place' : Nat) (value : UInt8) :
    (vram.set (wiring.cell place) value).get (table wiring place' * 0x400 + place' % 0x400) =
      if table wiring place = table wiring place' ∧ place % 0x400 = place' % 0x400 then value
      else vram.get (table wiring place' * 0x400 + place' % 0x400) := by
  have htable := table_lt wiring place
  have htable' := table_lt wiring place'
  have hsize : chipSize 12 = 0x1000 := rfl
  have hcell : wiring.cell place % chipSize 12 =
      (table wiring place' * 0x400 + place' % 0x400) % chipSize 12 ↔
        table wiring place = table wiring place' ∧ place % 0x400 = place' % 0x400 := by
    rw [wiring_cell, hsize]
    omega
  rw [Memory.get_set]
  simp only [hcell]

/-- Two addresses of palette memory reach one byte exactly when they have one cell. -/
theorem get_set_palette (palette : Memory 5) (place place' : Nat) (value : UInt8) :
    (palette.set (Palette.cell place) value).get (entry place') =
      if entry place = entry place' then value else palette.get (entry place') := by
  have hplace : entry place % chipSize 5 = entry place := Nat.mod_eq_of_lt (entry_lt place)
  have hplace' : entry place' % chipSize 5 = entry place' := Nat.mod_eq_of_lt (entry_lt place')
  rw [palette_cell, Memory.get_set, hplace, hplace']

theorem store_pattern (h : address < 0x2000) (value : UInt8) :
    side.store address value = { side with board := side.board.writePattern address value } := by
  rw [store, Ppu.writePicture, if_pos h]
  rfl

theorem store_nametable (h : ¬ address < 0x2000) (h' : address < 0x3F00) (value : UInt8) :
    side.store address value =
      { side with ppu := { side.ppu with
          vram := side.ppu.vram.set (side.board.wiring.cell address.toNat) value } } := by
  rw [store, Ppu.writePicture, if_neg h, if_pos h']
  rfl

theorem store_palette (h : ¬ address < 0x3F00) (value : UInt8) :
    side.store address value =
      { side with ppu := { side.ppu with
          palette := side.ppu.palette.set (Palette.cell address.toNat) (value % 0x40) } } := by
  have hpattern : ¬ address < 0x2000 := fun hlt => h (UInt16.lt_trans hlt (by decide))
  rw [store, Ppu.writePicture, if_neg hpattern, if_neg h]

/-- A store moves no register and changes neither the wiring nor the kind of patterns. -/
theorem store_leaves (address : UInt16) (value : UInt8) :
    let kept := side.store address value
    kept.ppu.readBuffer = side.ppu.readBuffer ∧ kept.ppu.control = side.ppu.control ∧
      kept.ppu.mask = side.ppu.mask ∧ kept.ppu.scroll = side.ppu.scroll ∧
      kept.board.wiring = side.board.wiring ∧ kept.board.chr.isRam = side.board.chr.isRam := by
  by_cases hpattern : address < 0x2000
  · rw [store_pattern side hpattern]
    refine ⟨rfl, rfl, rfl, rfl, rfl, ?_⟩
    change (side.board.chr.write address.toNat value).isRam = side.board.chr.isRam
    cases side.board.chr <;> rfl
  · by_cases hnametable : address < 0x3F00
    · rw [store_nametable side hpattern hnametable]
      exact ⟨rfl, rfl, rfl, rfl, rfl, rfl⟩
    · rw [store_palette side hnametable]
      exact ⟨rfl, rfl, rfl, rfl, rfl, rfl⟩

-- Cells of different regions are built differently, so in each of the next three lemmas only the
-- region of the store itself needs an argument about addresses.

/-- A store in the pattern window reaches one pattern byte. -/
theorem held_store_pattern (h : address < 0x2000) (other : UInt16) (value : UInt8) :
    (side.store address value).held (side.cell other) =
      if side.cell address = side.cell other then side.stored value (side.cell other)
      else side.held (side.cell other) := by
  rw [store_pattern side h]
  unfold cell
  rw [of_pattern h]
  by_cases hpattern : other < 0x2000
  · have hread := readPattern_writePattern side.board value h hpattern
    rw [of_pattern hpattern]
    simpa only [held, stored, UInt16.ofNat_toNat, PictureCell.pattern.injEq] using hread
  · by_cases hnametable : other < 0x3F00
    · rw [of_nametable hpattern hnametable, if_neg (by simp)]
      rfl
    · rw [of_palette hnametable, if_neg (by simp)]
      rfl

/-- A store in the nametables reaches one byte of their memory. -/
theorem held_store_nametable (h : ¬ address < 0x2000) (h' : address < 0x3F00) (other : UInt16)
    (value : UInt8) :
    (side.store address value).held (side.cell other) =
      if side.cell address = side.cell other then side.stored value (side.cell other)
      else side.held (side.cell other) := by
  rw [store_nametable side h h']
  unfold cell
  rw [of_nametable h h']
  by_cases hpattern : other < 0x2000
  · rw [of_pattern hpattern, if_neg (by simp)]
    rfl
  · by_cases hnametable : other < 0x3F00
    · rw [of_nametable hpattern hnametable]
      simp only [held, stored, PictureCell.nametable.injEq, get_set_vram]
    · rw [of_palette hnametable, if_neg (by simp)]
      rfl

/-- A store in palette memory reaches six bits of one entry. -/
theorem held_store_palette (h : ¬ address < 0x3F00) (other : UInt16) (value : UInt8) :
    (side.store address value).held (side.cell other) =
      if side.cell address = side.cell other then side.stored value (side.cell other)
      else side.held (side.cell other) := by
  rw [store_palette side h]
  unfold cell
  rw [of_palette h]
  by_cases hpattern : other < 0x2000
  · rw [of_pattern hpattern, if_neg (by simp)]
    rfl
  · by_cases hnametable : other < 0x3F00
    · rw [of_nametable hpattern hnametable, if_neg (by simp)]
      rfl
    · have hbits : value % 0x40 % 0x40 = value % 0x40 :=
        UInt8.toNat_inj.mp (Nat.mod_mod _ _)
      rw [of_palette hnametable]
      simp only [held, stored, PictureCell.palette.injEq, get_set_palette]
      rw [apply_ite (· % 0x40), hbits]

/-- A store reaches the addresses that have the same cell, and no other ones. -/
theorem held_store (address other : UInt16) (value : UInt8) :
    (side.store address value).held (side.cell other) =
      if side.cell address = side.cell other then side.stored value (side.cell other)
      else side.held (side.cell other) := by
  by_cases hpattern : address < 0x2000
  · exact held_store_pattern side hpattern other value
  · by_cases hnametable : address < 0x3F00
    · exact held_store_nametable side hpattern hnametable other value
    · exact held_store_palette side hnametable other value

end PpuSide

end Famicom
