import Famicom.Ppu.Scroll

/-!
# Picture addresses as numbers

The fields of a picture address, and what a step to the right does to them: the column counts
up through two nametables side by side, and the other fields stay.
-/

namespace Famicom.PictureAddress

/-- The column of a tile, counted through two nametables side by side. -/
def column (v : Nat) : Nat := v / 0x400 % 2 * 32 + v % 32

/-- The fields that a step to the right leaves alone. -/
structure SameRow (v w : Nat) : Prop where
  coarseY : w / 0x20 % 0x20 = v / 0x20 % 0x20
  nametableY : w / 0x800 % 2 = v / 0x800 % 2
  fineY : w / 0x1000 % 8 = v / 0x1000 % 8

/-- A step to the right as arithmetic. -/
theorem toNat_incrementX (v : UInt16) :
    (incrementX v).toNat =
      if v.toNat % 32 = 31 then
        if v.toNat / 0x400 % 2 = 0 then v.toNat - 31 + 0x400 else v.toNat - 31 - 0x400
      else v.toNat + 1 := by
  have hv := v.toNat_lt
  have hcolumn : coarseX v = 31 ↔ v.toNat % 32 = 31 := by
    rw [← UInt16.toNat_inj, coarseX, UInt16.toNat_mod]
    rfl
  unfold incrementX
  by_cases h : v.toNat % 32 = 31
  · rw [if_pos (hcolumn.mpr h), if_pos h]
    simp only [withNametableX, withCoarseX, nametableX, coarseX, UInt16.toNat_add,
      UInt16.toNat_sub, UInt16.toNat_mul, UInt16.toNat_mod, UInt16.toNat_div,
      UInt16.reduceToNat]
    split <;> omega
  · rw [if_neg (fun heq => h (hcolumn.mp heq)), if_neg h]
    simp only [withCoarseX, coarseX, UInt16.toNat_add, UInt16.toNat_sub, UInt16.toNat_mod,
      UInt16.reduceToNat]
    omega

/-- A step to the right counts the column up. -/
theorem column_incrementX (v : UInt16) :
    column (incrementX v).toNat = (column v.toNat + 1) % 64 := by
  rw [toNat_incrementX, column, column]
  split
  · split <;> omega
  · omega

/-- A step to the right stays in the row. -/
theorem sameRow_incrementX (v : UInt16) : SameRow v.toNat (incrementX v).toNat := by
  rw [toNat_incrementX]
  split
  · split <;> constructor <;> omega
  · constructor <;> omega

/-- The picture address a number of tiles further to the right. -/
def tilesRight (v : UInt16) : Nat → UInt16
  | 0 => v
  | tiles + 1 => incrementX (tilesRight v tiles)

/-- Steps to the right count the column up, through two nametables and round again. -/
theorem column_tilesRight (v : UInt16) (tiles : Nat) :
    column (tilesRight v tiles).toNat = (column v.toNat + tiles) % 64 := by
  induction tiles with
  | zero =>
    change column v.toNat = (column v.toNat + 0) % 64
    rw [column]
    omega
  | succ tiles ih =>
    rw [tilesRight, column_incrementX, ih]
    omega

/-- Steps to the right stay in the row. -/
theorem sameRow_tilesRight (v : UInt16) (tiles : Nat) :
    SameRow v.toNat (tilesRight v tiles).toNat := by
  induction tiles with
  | zero => exact ⟨rfl, rfl, rfl⟩
  | succ tiles ih =>
    have hstep := sameRow_incrementX (tilesRight v tiles)
    exact ⟨hstep.coarseY.trans ih.coarseY, hstep.nametableY.trans ih.nametableY,
      hstep.fineY.trans ih.fineY⟩

end Famicom.PictureAddress
