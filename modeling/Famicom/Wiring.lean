/-!
# Nametable wiring

The picture space of four nametables is backed by whatever the cartridge connects. The wiring
decides which kilobyte of nametable memory each of the four tables shows.
-/

namespace Famicom

/-- How a cartridge connects the four nametables. -/
inductive Wiring where
  /-- The two tables of a column are one, for games that scroll sideways. -/
  | vertical
  /-- The two tables of a row are one, for games that scroll up and down. -/
  | horizontal
  /-- Four separate tables. -/
  | fourScreen
  /-- The first table everywhere. -/
  | single0
  /-- The second table everywhere. -/
  | single1
deriving DecidableEq, Repr

namespace Wiring

/-- The kilobyte behind table `table`, the four tables being counted by rows. -/
def physicalTable (wiring : Wiring) (table : Nat) : Nat :=
  match wiring with
  | vertical => table % 2
  | horizontal => table / 2
  | fourScreen => table
  | single0 => 0
  | single1 => 1

/-- The nametable memory cell behind a picture address; the range repeats every 4 KB. -/
def cell (wiring : Wiring) (address : Nat) : Nat :=
  wiring.physicalTable (address % 0x1000 / 0x400) * 0x400 + address % 0x400

theorem physicalTable_lt (wiring : Wiring) {table : Nat} (h : table < 4) :
    wiring.physicalTable table < 4 := by
  cases wiring <;> simp only [physicalTable] <;> omega

/-- Every wiring stays inside the 4 KB of nametable memory. -/
theorem cell_lt (wiring : Wiring) (address : Nat) : wiring.cell address < 0x1000 := by
  have := wiring.physicalTable_lt (show address % 0x1000 / 0x400 < 4 by omega)
  simp only [cell]
  omega

end Wiring

end Famicom
