import Famicom.Proofs.Console.PageCopy
import Famicom.Proofs.Ppu.PictureCells
import Famicom.Proofs.Safety.Bus

/-!
# What the processor finds at an address

Working memory repeats every 2 KB and the picture unit's registers every eight bytes. Registers
that can only be written, and places where nothing answers, give a byte that was on the lines
before. A tool that shows a program looks at the bus without touching it: it finds the byte that
the processor would read there, at every address and in every state of the bus, although a read may
fetch, clear a flag or move an address before it answers.
-/

namespace Famicom

namespace Ppu

/-- The byte at a register: the flags above five bits of the byte seen last, the byte of object
memory without the bits that an attribute does not have, the byte fetched ahead or a palette entry
below two bits of the byte seen last, and elsewhere the byte seen last. -/
def found (ppu : Ppu) (register : Nat) : UInt8 :=
  if register = 2 then (ppu.status.toByte &&& 0xE0) ||| (ppu.lines &&& 0x1F)
  else if register = 4 then
    let byte := ppu.oam.get ppu.oamAddress.toNat
    if ppu.oamAddress.toNat % 4 = 2 then byte &&& 0xE3 else byte
  else if register = 7 then
    let place := ppu.scroll.v.toNat % 0x4000
    if place < 0x3F00 then ppu.readBuffer
    else ppu.palette.get (PictureCell.entry place) ||| (ppu.lines &&& 0xC0)
  else ppu.lines

/-- The three flags as a number. -/
theorem toNat_flagBits (status : PpuStatus) :
    status.flagBits.toNat =
      0x20 * (4 * status.vblank.toNat + 2 * status.spriteZeroHit.toNat +
        status.spriteOverflow.toNat) := by
  obtain ⟨vblank, hit, overflow, idle⟩ := status
  cases vblank <;> cases hit <;> cases overflow <;> rfl

/-- The three highest bits of a byte. -/
theorem and_flags (value : UInt8) : value &&& 0xE0 = value / 0x20 * 0x20 := by
  obtain ⟨bits⟩ := value
  revert bits
  decide +kernel

/-- The two highest bits of a byte. -/
theorem and_highBits (value : UInt8) : value &&& 0xC0 = value / 0x40 * 0x40 := by
  obtain ⟨bits⟩ := value
  revert bits
  decide +kernel

/-- A read of the status gives the flags above the five bits of the byte seen last. -/
theorem statusByte_eq (ppu : Ppu) :
    ppu.statusByte = (ppu.status.toByte &&& 0xE0) ||| (ppu.lines &&& 0x1F) := by
  have hflags : ppu.status.flagBits.toNat = 2 ^ 5 * _ := toNat_flagBits ppu.status
  have hvblank := Bool.toNat_le ppu.status.vblank
  have hhit := Bool.toNat_le ppu.status.spriteZeroHit
  have hoverflow := Bool.toNat_le ppu.status.spriteOverflow
  have hstatus : ppu.status.toByte &&& 0xE0 = ppu.status.flagBits := by
    rw [and_flags]
    apply UInt8.toNat_inj.mp
    simp only [PpuStatus.toByte, UInt8.toNat_mul, UInt8.toNat_div, UInt8.toNat_add,
      UInt8.toNat_mod, UInt8.reduceToNat]
    omega
  have hlines : (ppu.lines &&& 0x1F).toNat = ppu.lines.toNat % 2 ^ 5 :=
    Nat.and_two_pow_sub_one_eq_mod ppu.lines.toNat 5
  apply UInt8.toNat_inj.mp
  rw [hstatus, UInt8.toNat_or, hlines, hflags,
    ← Nat.two_pow_add_eq_or_of_lt (Nat.mod_lt _ (Nat.two_pow_pos 5))]
  simp only [statusByte, UInt8.toNat_add, UInt8.toNat_mod, UInt8.reduceToNat, hflags]
  omega

/-- A read in palette memory gives the entry below two bits of the byte seen last. -/
theorem paletteByte_eq (ppu : Ppu) :
    ppu.paletteByte = ppu.palette.get (PictureCell.entry ppu.scroll.address.toNat) |||
      (ppu.lines &&& 0xC0) := by
  rw [and_highBits, ← PictureCell.palette_cell]
  rfl

/-- A look at a register finds its byte. -/
theorem look_eq_found (ppu : Ppu) (address : UInt16) :
    ppu.look address = ppu.found (address.toNat % 8) := by
  have hregister : (address % 8).toNat = address.toNat % 8 := UInt16.toNat_mod address 8
  unfold look
  rw [hregister]
  split
  · next h =>
    rw [h, statusByte_eq]
    rfl
  · next h =>
    have hattribute : ppu.oamAddress % 4 = 2 ↔ ppu.oamAddress.toNat % 4 = 2 := by
      rw [← UInt8.toNat_inj, UInt8.toNat_mod]
      rfl
    rw [h, oamByte, attribute_eq]
    simp only [hattribute]
    rfl
  · next h =>
    have hplace : ppu.scroll.address.toNat = ppu.scroll.v.toNat % 0x4000 :=
      UInt16.toNat_mod ppu.scroll.v 0x4000
    have hpalette : 0x3F00 ≤ ppu.scroll.address ↔ ¬ ppu.scroll.v.toNat % 0x4000 < 0x3F00 := by
      rw [← hplace, Nat.not_lt, UInt16.le_iff_toNat_le]
      rfl
    rw [h, paletteByte_eq, hplace]
    simp only [hpalette, ite_not]
    rfl
  · next htwo hfour hseven =>
    exact ((if_neg htwo).trans ((if_neg hfour).trans (if_neg hseven))).symm

variable {Bus : Type} [PatternBus Bus]

/-- A look at a register finds what a read of it gives. -/
theorem look_eq_readRegister (ppu : Ppu) (address : UInt16) (bus : Bus) :
    ppu.look address = (ppu.readRegister address bus).1 := by
  have hregister := register_cases address
  unfold look readRegister
  generalize (address % 8).toNat = register at hregister
  obtain rfl | rfl | rfl | rfl | rfl | rfl | rfl | rfl := hregister
  -- neither the fetch for the next read nor the move of the address reaches the answer
  case inr.inr.inr.inr.inr.inr.inr => exact (congrArg Prod.fst (ppu.readData_eq bus)).symm
  all_goals rfl

end Ppu

namespace ConsoleBus

/-- The byte at an address, where the picture unit's registers, the latches and the cartridge
follow working memory. -/
def found (bus : ConsoleBus) (address : UInt16) : UInt8 :=
  let place := address.toNat
  if place < 0x2000 then bus.ram.get (place % 0x800)
  else if place < 0x4000 then bus.ppu.found (place % 8)
  else if place < 0x4020 then bus.openBus
  else (bus.board.read address).getD bus.openBus

/-- A look finds the byte at the address. -/
theorem look_eq_found (bus : ConsoleBus) (address : UInt16) :
    bus.look address = bus.found address := by
  simp only [look, Region.of, found, UInt16.lt_iff_toNat_lt, UInt16.reduceToNat]
  by_cases hram : address.toNat < 0x2000
  · simp only [hram, if_true]
    exact bus.ram.get_congr (Nat.mod_mod _ _).symm
  · by_cases hppu : address.toNat < 0x4000
    · simp only [hram, hppu, if_true, if_false]
      exact bus.ppu.look_eq_found address
    · by_cases hlatches : address.toNat < 0x4020 <;>
        simp only [hram, hppu, hlatches, if_true, if_false]

/-- A look finds the byte that a read gives. -/
theorem look_eq_read (bus : ConsoleBus) (address : UInt16) :
    bus.look address = (bus.read address).1 := by
  unfold look read
  cases Region.of address with
  | ram => rfl
  | ppu => exact bus.ppu.look_eq_readRegister address bus.board
  | latches => rfl
  | cartridge => rfl

/-- **Looks foretell reads.** At every address and in every state, a look finds the byte that a
read would give, which is the one at the address. -/
theorem look_foretells_read (bus : ConsoleBus) (address : UInt16) :
    bus.look address = (bus.read address).1 ∧ (bus.read address).1 = bus.found address := by
  have hread := bus.look_eq_read address
  exact ⟨hread, hread.symm.trans (bus.look_eq_found address)⟩

end ConsoleBus

end Famicom
