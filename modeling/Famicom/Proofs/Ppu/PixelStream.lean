import Famicom.Ppu.PixelShifter

/-!
# The shift registers as a stream of pixels

Four registers side by side hold sixteen pixels in the order in which they are drawn. Shifting
brings every pixel one place forward, and a tile that is loaded takes the eight places at the
end, its leftmost pixel first.
-/

namespace Famicom

/-- A two-bit number. -/
def twoBits (high low : Bool) : UInt8 := (if high then 1 else 0) * 2 + if low then 1 else 0

/-- The pixel of a fetched tile in one of its eight columns. -/
def FetchedTile.pixelAt (tile : FetchedTile) (column : Nat) : LayerPixel :=
  { palette := twoBits (tile.palette / 2 % 2 == 1) (tile.palette % 2 == 1)
    pixel := twoBits (tile.high.toNat.testBit (7 - column)) (tile.low.toNat.testBit (7 - column)) }

namespace PixelShifter

/-- The bit that a register holds `place` places behind the next one. -/
def bitAt (register : UInt16) (place : Nat) : Bool := register.toNat.testBit (15 - place)

/-- The pixel that lies `place` places behind the next one. -/
def pixelAt (shifter : PixelShifter) (place : Nat) : LayerPixel :=
  { palette := twoBits (bitAt shifter.paletteHigh place) (bitAt shifter.paletteLow place)
    pixel := twoBits (bitAt shifter.high place) (bitAt shifter.low place) }

/-- How far a register is shifted to put out a bit. -/
theorem toNat_bitAmount (column : UInt8) :
    (15 - column % 8).toUInt16.toNat = 15 - column.toNat % 8 := by
  have hle : column % 8 ≤ 15 := by
    rw [UInt8.le_iff_toNat_le, UInt8.toNat_mod]
    exact Nat.le_of_lt (Nat.lt_trans (Nat.mod_lt _ (by decide)) (by decide))
  rw [UInt8.toNat_toUInt16, UInt8.toNat_sub_of_le _ _ hle, UInt8.toNat_mod]
  rfl

/-- The bit put out is the one in its place. -/
theorem bit_eq (register : UInt16) (column : UInt8) :
    bit register column = if bitAt register (column.toNat % 8) then 1 else 0 := by
  have hbit : (bit register column).toNat =
      register.toNat / 2 ^ (15 - column.toNat % 8) % 2 := by
    have hsmall : (15 - column.toNat % 8) % 16 = 15 - column.toNat % 8 :=
      Nat.mod_eq_of_lt (by omega)
    rw [bit, UInt8.toNat_mod, UInt16.toNat_toUInt8, UInt16.toNat_shiftRight, toNat_bitAmount, hsmall,
      Nat.shiftRight_eq_div_pow]
    exact Nat.mod_mod_of_dvd _ (by decide)
  rw [bitAt, Nat.testBit_eq_decide_div_mod_eq, ← UInt8.toNat_inj, hbit]
  split
  · next h => exact of_decide_eq_true h
  · next h =>
    rw [decide_eq_true_eq] at h
    change _ = 0
    omega

/-- The pixel put out is the one in the place that fine scrolling names. -/
theorem pixel_eq (shifter : PixelShifter) (column : UInt8) :
    shifter.pixel column = shifter.pixelAt (column.toNat % 8) := by
  simp only [pixel, pixelAt, twoBits, bit_eq]

/-- Shifting a register brings its bits one place forward. -/
theorem bitAt_moved (register : UInt16) (feed : Bool) {place : Nat} (h : place + 1 < 16) :
    bitAt (moved register feed) place = bitAt register (place + 1) := by
  have hmoved : (moved register feed).toNat / 2 = register.toNat % 2 ^ 15 := by
    rw [moved, UInt16.toNat_add, UInt16.toNat_shiftLeft, Nat.shiftLeft_eq]
    have hfeed : (if feed then 1 else 0 : UInt16).toNat ≤ 1 := by
      cases feed <;> decide
    have hone : (1 : UInt16).toNat % 16 = 1 := by decide
    rw [hone]
    omega
  rw [bitAt, bitAt, (by omega : 15 - place = 15 - (place + 1) + 1), Nat.testBit_succ, hmoved,
    Nat.testBit_mod_two_pow, decide_eq_true (by omega), Bool.true_and]

/-- A loaded register as a number. -/
theorem toNat_loaded (register : UInt16) (byte : UInt8) :
    (loaded register byte).toNat = 0x100 * (register.toNat / 0x100) + byte.toNat := by
  have hregister := register.toNat_lt
  have hbyte := byte.toNat_lt
  rw [loaded, UInt16.toNat_add, UInt16.toNat_mul, UInt16.toNat_div, UInt8.toNat_toUInt16]
  have hpage : (0x100 : UInt16).toNat = 0x100 := by decide
  rw [hpage]
  omega

/-- Loading leaves the first eight bits of a register alone. -/
theorem bitAt_loaded_of_lt (register : UInt16) (byte : UInt8) {place : Nat} (h : place < 8) :
    bitAt (loaded register byte) place = bitAt register place := by
  rw [bitAt, bitAt, toNat_loaded, Nat.testBit_two_pow_mul_add _ byte.toNat_lt, if_neg (by omega)]
  change (register.toNat / 2 ^ 8).testBit (15 - place - 8) = _
  rw [Nat.testBit_div_two_pow, Nat.sub_add_cancel (by omega)]

/-- Loading places the bits of a byte in the second half of a register. -/
theorem bitAt_loaded_of_ge (register : UInt16) (byte : UInt8) {place : Nat} (h : 8 ≤ place)
    (hlast : place < 16) :
    bitAt (loaded register byte) place = byte.toNat.testBit (15 - place) := by
  rw [bitAt, toNat_loaded, Nat.testBit_two_pow_mul_add _ byte.toNat_lt, if_pos (by omega)]

/-- Shifting brings every pixel one place forward. -/
theorem pixelAt_shift (shifter : PixelShifter) {place : Nat} (h : place + 1 < 16) :
    shifter.shift.pixelAt place = shifter.pixelAt (place + 1) := by
  simp only [shift, pixelAt, bitAt_moved _ _ h]

/-- Loading leaves the first eight pixels alone. -/
theorem pixelAt_load_of_lt (shifter : PixelShifter) (next : FetchedTile) {place : Nat}
    (h : place < 8) : (shifter.load next).pixelAt place = shifter.pixelAt place := by
  simp only [load, pixelAt, bitAt_loaded_of_lt _ _ h]

/-- Loading appends the pixels of a tile. -/
theorem pixelAt_load_of_ge (shifter : PixelShifter) (next : FetchedTile) {place : Nat}
    (h : 8 ≤ place) (hlast : place < 16) :
    (shifter.load next).pixelAt place = next.pixelAt (place - 8) := by
  have hspread (level : Bool) : (spread level).toNat.testBit (15 - place) = level := by
    cases level with
    | false => exact Nat.zero_testBit _
    | true =>
      rw [(by decide : (spread true).toNat = 2 ^ 8 - 1), Nat.testBit_two_pow_sub_one]
      exact decide_eq_true (by omega)
  have hcolumn : 7 - (place - 8) = 15 - place := by omega
  simp only [load, pixelAt, FetchedTile.pixelAt, bitAt_loaded_of_ge _ _ h hlast, hspread, hcolumn]

end PixelShifter

end Famicom
