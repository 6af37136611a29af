import Famicom.Console.Bus
import Famicom.Cpu.Step

/-!
# Regions of the console's bus

Who answers at an address decides what an access can change. The stack lies in working memory,
the upper half of the address space belongs to the cartridge, and every board drives it.
-/

namespace Famicom

namespace Board

/-- Every board drives the upper half of the address space. -/
theorem read_upper (board : Board) {address : UInt16} (h : 0x8000 ≤ address) :
    ∃ value, board.read address = some value := by
  have hupper : 0x8000 ≤ address.toNat := UInt16.le_iff_toNat_le.mp h
  unfold read
  dsimp only
  cases board.latch with
  | nrom programRam => exact ⟨_, if_pos hupper⟩
  | uxrom bank =>
    dsimp only
    split <;> exact ⟨_, rfl⟩
  | cnrom bank => exact ⟨_, if_pos hupper⟩

end Board

namespace ConsoleBus

/-- A stack address lies in working memory. -/
theorem Region.of_stackAddress (sp : UInt8) : Region.of (Cpu.stackAddress sp) = .ram := by
  have hsp := sp.toNat_lt
  have haddress : Cpu.stackAddress sp < 0x2000 := by
    rw [Cpu.stackAddress, UInt16.lt_iff_toNat_lt, UInt16.toNat_add, UInt8.toNat_toUInt16]
    change (0x100 + sp.toNat) % 2 ^ 16 < 0x2000
    omega
  rw [Region.of, if_pos haddress]

/-- Working memory lies at the lowest addresses. -/
theorem Region.of_eq_ram_iff (address : UInt16) :
    Region.of address = .ram ↔ address.toNat < 0x2000 := by
  have hlower : address < 0x2000 ↔ address.toNat < 0x2000 := UInt16.lt_iff_toNat_lt
  rw [Region.of]
  split
  · next h => exact iff_of_true rfl (hlower.mp h)
  · next h =>
    refine iff_of_false ?_ (mt hlower.mpr h)
    split
    · decide
    · split <;> decide

/-- A read makes no request. -/
theorem read_dmaPage (bus : ConsoleBus) (address : UInt16) :
    (bus.read address).2.dmaPage = bus.dmaPage := by
  unfold read
  split <;> rfl

/-- The upper half of the address space belongs to the cartridge. -/
theorem Region.of_upper {address : UInt16} (h : 0x8000 ≤ address) :
    Region.of address = .cartridge := by
  have hupper : 0x8000 ≤ address.toNat := UInt16.le_iff_toNat_le.mp h
  have hnot {bound : UInt16} (hbound : bound.toNat ≤ 0x8000) : ¬address < bound := by
    rw [UInt16.lt_iff_toNat_lt]
    omega
  rw [Region.of, if_neg (hnot (by decide)), if_neg (hnot (by decide)), if_neg (hnot (by decide))]

/-- A read in the upper half of the address space gives the board's byte. -/
theorem read_upper (bus : ConsoleBus) {address : UInt16} (h : 0x8000 ≤ address) {value : UInt8}
    (hvalue : bus.board.read address = some value) :
    bus.read address = (value, { bus with openBus := value }) := by
  simp only [read, Region.of_upper h, hvalue, Option.getD_some]

/-- A look in the upper half of the address space gives the board's byte. -/
theorem look_upper (bus : ConsoleBus) {address : UInt16} (h : 0x8000 ≤ address) {value : UInt8}
    (hvalue : bus.board.read address = some value) : bus.look address = value := by
  simp only [look, Region.of_upper h, hvalue, Option.getD_some]

/-- A word in the upper half of the address space is two bytes of the board. -/
theorem readWord_upper (bus : ConsoleBus) {low high : UInt16} (hlow : 0x8000 ≤ low)
    (hhigh : 0x8000 ≤ high) {lowByte highByte : UInt8}
    (hlowByte : bus.board.read low = some lowByte)
    (hhighByte : bus.board.read high = some highByte) :
    CpuBus.readWord bus low high =
      (highByte.toUInt16 * 0x100 + lowByte.toUInt16, { bus with openBus := highByte }) := by
  unfold CpuBus.readWord
  change (((bus.read low).2.read high).1.toUInt16 * _ + (bus.read low).1.toUInt16,
    ((bus.read low).2.read high).2) = _
  rw [read_upper bus hlow hlowByte]
  dsimp only
  rw [read_upper { bus with openBus := lowByte } hhigh hhighByte]

/-- A word in the upper half of the address space depends on the board alone. -/
theorem readWord_eq_lookWord {bus other : ConsoleBus} (hboard : other.board = bus.board)
    {low high : UInt16} (hlow : 0x8000 ≤ low) (hhigh : 0x8000 ≤ high) :
    (CpuBus.readWord other low high).1 = CpuBus.lookWord bus low high := by
  obtain ⟨lowByte, hlowByte⟩ := bus.board.read_upper hlow
  obtain ⟨highByte, hhighByte⟩ := bus.board.read_upper hhigh
  have hread := other.readWord_upper hlow hhigh (hboard ▸ hlowByte) (hboard ▸ hhighByte)
  rw [hread]
  unfold CpuBus.lookWord
  change _ = (bus.look high).toUInt16 * _ + (bus.look low).toUInt16
  rw [bus.look_upper hlow hlowByte, bus.look_upper hhigh hhighByte]

end ConsoleBus

end Famicom
