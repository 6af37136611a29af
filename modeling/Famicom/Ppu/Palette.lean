import Famicom.Memory

/-!
# Colours

The picture unit knows 64 colours. Palette memory holds 32 of their numbers: four background
and four sprite palettes of four entries. The first entry of every sprite palette is the first
entry of the background palette beside it.
-/

namespace Famicom

/-- A colour on the screen. -/
structure Rgb where
  red : UInt8
  green : UInt8
  blue : UInt8
deriving DecidableEq, Repr

namespace Palette

/-- The 64 colours by number. -/
def systemColours : Vector Rgb 64 :=
  #v[
    ⟨0x80, 0x80, 0x80⟩, ⟨0x00, 0x3D, 0xA6⟩, ⟨0x00, 0x12, 0xB0⟩, ⟨0x44, 0x00, 0x96⟩,
    ⟨0xA1, 0x00, 0x5E⟩, ⟨0xC7, 0x00, 0x28⟩, ⟨0xBA, 0x06, 0x00⟩, ⟨0x8C, 0x17, 0x00⟩,
    ⟨0x5C, 0x2F, 0x00⟩, ⟨0x10, 0x45, 0x00⟩, ⟨0x05, 0x4A, 0x00⟩, ⟨0x00, 0x47, 0x2E⟩,
    ⟨0x00, 0x41, 0x66⟩, ⟨0x00, 0x00, 0x00⟩, ⟨0x05, 0x05, 0x05⟩, ⟨0x05, 0x05, 0x05⟩,
    ⟨0xC7, 0xC7, 0xC7⟩, ⟨0x00, 0x77, 0xFF⟩, ⟨0x21, 0x55, 0xFF⟩, ⟨0x82, 0x37, 0xFA⟩,
    ⟨0xEB, 0x2F, 0xB5⟩, ⟨0xFF, 0x29, 0x50⟩, ⟨0xFF, 0x22, 0x00⟩, ⟨0xD6, 0x32, 0x00⟩,
    ⟨0xC4, 0x62, 0x00⟩, ⟨0x35, 0x80, 0x00⟩, ⟨0x05, 0x8F, 0x00⟩, ⟨0x00, 0x8A, 0x55⟩,
    ⟨0x00, 0x99, 0xCC⟩, ⟨0x21, 0x21, 0x21⟩, ⟨0x09, 0x09, 0x09⟩, ⟨0x09, 0x09, 0x09⟩,
    ⟨0xFF, 0xFF, 0xFF⟩, ⟨0x0F, 0xD7, 0xFF⟩, ⟨0x69, 0xA2, 0xFF⟩, ⟨0xD4, 0x80, 0xFF⟩,
    ⟨0xFF, 0x45, 0xF3⟩, ⟨0xFF, 0x61, 0x8B⟩, ⟨0xFF, 0x88, 0x33⟩, ⟨0xFF, 0x9C, 0x12⟩,
    ⟨0xFA, 0xBC, 0x20⟩, ⟨0x9F, 0xE3, 0x0E⟩, ⟨0x2B, 0xF0, 0x35⟩, ⟨0x0C, 0xF0, 0xA4⟩,
    ⟨0x05, 0xFB, 0xFF⟩, ⟨0x5E, 0x5E, 0x5E⟩, ⟨0x0D, 0x0D, 0x0D⟩, ⟨0x0D, 0x0D, 0x0D⟩,
    ⟨0xFF, 0xFF, 0xFF⟩, ⟨0xA6, 0xFC, 0xFF⟩, ⟨0xB3, 0xEC, 0xFF⟩, ⟨0xDA, 0xAB, 0xEB⟩,
    ⟨0xFF, 0xA8, 0xF9⟩, ⟨0xFF, 0xAB, 0xB3⟩, ⟨0xFF, 0xD2, 0xB0⟩, ⟨0xFF, 0xEF, 0xA6⟩,
    ⟨0xFF, 0xF7, 0x9C⟩, ⟨0xD7, 0xE8, 0x95⟩, ⟨0xA6, 0xED, 0xAF⟩, ⟨0xA2, 0xF2, 0xDA⟩,
    ⟨0x99, 0xFF, 0xFC⟩, ⟨0xDD, 0xDD, 0xDD⟩, ⟨0x11, 0x11, 0x11⟩, ⟨0x11, 0x11, 0x11⟩ ]

/-- The colour of a number; only the low six bits count. -/
def colour (index : UInt8) : Rgb :=
  have := Nat.mod_lt index.toNat (show 0 < 64 by decide)
  systemColours[index.toNat % 64]

/-- Palette memory after power-on. -/
def powerUp : Vector UInt8 32 :=
  #v[
    0x09, 0x01, 0x00, 0x01, 0x00, 0x02, 0x02, 0x0D,
    0x08, 0x10, 0x08, 0x24, 0x00, 0x00, 0x04, 0x2C,
    0x09, 0x01, 0x34, 0x03, 0x00, 0x04, 0x00, 0x14,
    0x08, 0x3A, 0x00, 0x02, 0x00, 0x20, 0x2C, 0x08 ]

/-- The palette cell behind an address; the range repeats every 32 cells. -/
def cell (address : Nat) : Nat :=
  let index := address % 0x20
  if 0x10 ≤ index ∧ index % 4 = 0 then index - 0x10 else index

theorem cell_lt (address : Nat) : cell address < 0x20 := by
  simp only [cell]
  split <;> omega

end Palette

end Famicom
