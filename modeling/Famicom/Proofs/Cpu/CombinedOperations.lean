import Famicom.Cpu.Step

/-!
# Two operations in one

Most undocumented operations do the work of documented ones in turn: a change in memory and then a
computation from the new byte, a load of one register and then of another, a masking and then a
shift. The flags that the first half leaves reach the second one, which may set them anew.

The second half reads the operand again. So the combined operation and its halves agree on any bus
with memory behind the operand, which gives back the byte that was written last.
-/

namespace Famicom

variable {Bus : Type} [CpuBus Bus]

/-- There is memory behind the bus: a read changes no byte, and a byte that has been written is read
back. A write may show at more than one address. -/
structure CpuBus.RamLike (Bus : Type) [CpuBus Bus] : Prop where
  read_after_read : ∀ (bus : Bus) (address other : UInt16),
    (CpuBus.read (CpuBus.read bus address).2 other).1 = (CpuBus.read bus other).1
  read_after_write : ∀ (bus : Bus) (address : UInt16) (value : UInt8),
    (CpuBus.read (CpuBus.write bus address value) address).1 = value

/-- Flat memory gives back what was written last. -/
theorem FlatBus.ramLike : CpuBus.RamLike FlatBus where
  read_after_read _ _ _ := rfl
  read_after_write bus address value := bus.memory.get_set_self address.toNat value

/-- Two outcomes on a bus with the same processor, and with the same byte at every address. -/
structure SameOutcome (left right : Cpu × Bus) : Prop where
  cpu : left.1 = right.1
  byte : ∀ address, (CpuBus.read left.2 address).1 = (CpuBus.read right.2 address).1

/-- Equal outcomes are the same in this sense. -/
theorem SameOutcome.of_eq {left right : Cpu × Bus} (h : left = right) : SameOutcome left right := by
  subst h
  exact ⟨rfl, fun _ => rfl⟩

/-- The accumulator with only the bits that it shares with the first index register. -/
def Registers.masked (registers : Registers) : Registers :=
  { registers with a := registers.a &&& registers.x }

/-- The registers with a difference in the first index register, and with the flags of it. -/
def Registers.withDifference (registers : Registers) (x : UInt8) (status : Status) : Registers :=
  { registers with x, status }

/-- The carry as the sign of the last result. -/
def Registers.carryFromSign (registers : Registers) : Registers :=
  registers.withCarry registers.status.negative

/-- The carry as bit 6 of the accumulator, and the overflow as the difference of its bits 6 and
5. -/
def Registers.carryFromBits (registers : Registers) : Registers :=
  let bit6 := Byte.bit registers.a 0x40
  let bit5 := Byte.bit registers.a 0x20
  { registers with
    status := { registers.status with carry := bit6, overflow := xor bit6 bit5 } }

/-- What a combined operation stands for: documented operations in turn, and a last change of
flags. -/
structure Spelling where
  operations : List Operation
  flags : Registers → Registers := id

namespace Operation

/-- Carry out operations in turn on the same operand. -/
def executeAll (operand : Operand) : List Operation → Cpu → Bus → Cpu × Bus
  | [], cpu, bus => (cpu, bus)
  | operation :: rest, cpu, bus =>
    let (cpu, bus) := operation.execute operand cpu bus
    executeAll operand rest cpu bus

/-- How the combined operations are spelled out. -/
def spelling : Operation → Option Spelling
  | .modify .slo => some { operations := [.modify .asl, .read .ora] }
  | .modify .rla => some { operations := [.modify .rol, .read .and] }
  | .modify .sre => some { operations := [.modify .lsr, .read .eor] }
  | .modify .rra => some { operations := [.modify .ror, .read .adc] }
  | .modify .dcp => some { operations := [.modify .dec, .read .cmp] }
  | .modify .isc => some { operations := [.modify .inc, .read .sbc] }
  | .read .lax => some { operations := [.read .lda, .read .ldx] }
  | .read .alr => some { operations := [.read .and, .register (.shift .lsr)] }
  | .read .anc => some { operations := [.read .and], flags := Registers.carryFromSign }
  | .read .arr =>
    some { operations := [.read .and, .register (.shift .ror)], flags := Registers.carryFromBits }
  | _ => none

end Operation

/-- Carry out what a combined operation stands for. -/
def Spelling.run (spelling : Spelling) (operand : Operand) (cpu : Cpu) (bus : Bus) : Cpu × Bus :=
  let (cpu, bus) := Operation.executeAll operand spelling.operations cpu bus
  (cpu.mapRegisters spelling.flags, bus)

/-- Without a last change of flags the operations are all that is carried out. -/
theorem Spelling.run_plain (operations : List Operation) (operand : Operand) (cpu : Cpu)
    (bus : Bus) :
    Spelling.run { operations } operand cpu bus =
      Operation.executeAll operand operations cpu bus :=
  rfl

namespace Operation

/-- A change in memory that goes on with the new byte does what the change and then the computation
do, when the computation finds the new byte. -/
theorem modify_sameOutcome (h : CpuBus.RamLike Bus) {operation change : ModifyOperation}
    {followUp : ReadOperation} (hchange : change.change = operation.change)
    (hplain : change.followUp = none) (hfollowUp : operation.followUp = some followUp)
    (operand : Operand) (cpu : Cpu) (bus : Bus) :
    SameOutcome ((Operation.modify operation).execute operand cpu bus)
      (executeAll operand [.modify change, .read followUp] cpu bus) := by
  let address := operand.address
  let changed := operation.change.apply (CpuBus.read bus address).1 cpu.registers
  let written := CpuBus.write (CpuBus.read bus address).2 address changed.1
  have hcombined : (Operation.modify operation).execute operand cpu bus =
      ({ cpu with registers := followUp.apply changed.1 changed.2 }, written) := by
    simp only [execute, ModifyOperation.apply, hfollowUp]
    rfl
  have hhalves : executeAll operand [.modify change, .read followUp] cpu bus =
      ({ cpu with registers := followUp.apply (CpuBus.read written address).1 changed.2 },
        (CpuBus.read written address).2) := by
    simp only [executeAll, execute, ModifyOperation.apply, hchange, hplain]
    rfl
  rw [hcombined, hhalves, h.read_after_write]
  exact ⟨rfl, fun other => (h.read_after_read written address other).symm⟩

/-- Loading two registers is loading one and then the other, when both loads find the same byte. -/
theorem lax_sameOutcome (h : CpuBus.RamLike Bus) (operand : Operand) (cpu : Cpu) (bus : Bus) :
    SameOutcome ((Operation.read .lax).execute operand cpu bus)
      (executeAll operand [.read .lda, .read .ldx] cpu bus) := by
  let address := operand.address
  let loaded := (CpuBus.read bus address).2
  have hagain : (CpuBus.read loaded address).1 = (CpuBus.read bus address).1 :=
    h.read_after_read bus address address
  constructor
  · change cpu.mapRegisters (ReadOperation.lax.apply (CpuBus.read bus address).1) =
      (cpu.mapRegisters (ReadOperation.lda.apply (CpuBus.read bus address).1)).mapRegisters
        (ReadOperation.ldx.apply (CpuBus.read loaded address).1)
    rw [hagain]
    rfl
  · exact fun other => (h.read_after_read loaded address other).symm

/-- A combined operation does what it stands for. -/
theorem sameOutcome_of_spelling (h : CpuBus.RamLike Bus) {operation : Operation}
    {spelling : Spelling} (hspelling : operation.spelling = some spelling) (operand : Operand)
    (cpu : Cpu) (bus : Bus) :
    SameOutcome (operation.execute operand cpu bus) (spelling.run operand cpu bus) := by
  cases operation with
  | modify operation =>
    cases operation with
    | slo | rla | sre | rra | dcp | isc =>
      obtain rfl := Option.some.inj hspelling
      rw [Spelling.run_plain]
      apply modify_sameOutcome h <;> rfl
    | _ => cases hspelling
  | read operation =>
    cases operation with
    | lax =>
      obtain rfl := Option.some.inj hspelling
      rw [Spelling.run_plain]
      exact lax_sameOutcome h operand cpu bus
    -- these read the operand once, as their halves do
    | alr | anc | arr =>
      obtain rfl := Option.some.inj hspelling
      exact .of_eq rfl
    | _ => cases hspelling
  | _ => cases hspelling

end Operation

namespace Cpu

/-- The documented opcode of a subtraction. -/
theorem decode_sbc : decode 0xE9 = Opcode.Catalogue.official 0xE9 (.read .sbc) .immediate 2 := by
  rw [decode_eq_find]
  rfl

/-- The undocumented opcode of a subtraction. -/
theorem decode_usbc :
    decode 0xEB = Opcode.Catalogue.unofficial 0xEB (.read .sbc) .immediate 2 := by
  rw [decode_eq_find]
  rfl

/-- **Two operations in one.** On any operand, and on any bus with memory behind it, a combined
operation leaves the registers, the flags and memory as the operations that it stands for. The
joint store writes the bits that the accumulator and the first index register share, and changes no
register and no flag. The undocumented subtraction is the documented one. And the subtraction from
the shared bits goes to the first index register, with the flags of a comparison of these bits. -/
theorem combined_like_halves (h : CpuBus.RamLike Bus) (operand : Operand) (cpu : Cpu) (bus : Bus) :
    (∀ (operation : Operation) (spelling : Spelling), operation.spelling = some spelling →
      SameOutcome (operation.execute operand cpu bus) (spelling.run operand cpu bus)) ∧
    (let both := cpu.registers.a &&& cpu.registers.x
    let stored := (Operation.store .sax).execute operand cpu bus
    stored = (cpu, CpuBus.write bus operand.address both) ∧
      (CpuBus.read stored.2 operand.address).1 = both) ∧
    (decode 0xEB).operation.execute operand cpu bus =
      (decode 0xE9).operation.execute operand cpu bus ∧
    (let value := (CpuBus.read bus operand.address).1
    let compared :=
      (Operation.read .cmp).execute operand (cpu.mapRegisters Registers.masked) bus
    (Operation.read .sbx).execute operand cpu bus =
      (cpu.mapRegisters fun registers =>
        registers.withDifference (registers.masked.a - value) compared.1.registers.status,
        compared.2)) := by
  refine ⟨?_, ⟨rfl, h.read_after_write _ _ _⟩, ?_, rfl⟩
  · intro operation spelling hspelling
    exact Operation.sameOutcome_of_spelling h hspelling operand cpu bus
  · rw [decode_usbc, decode_sbc]
    rfl

/-- A processor whose carry is set, about to rotate a byte and to add it. -/
def beforeRotatedSum : Cpu :=
  { registers := { a := 1, status := { Status.initial with carry := true } } }

/-- Memory that holds the same odd byte everywhere. -/
def threesEverywhere : FlatBus := { memory := Memory.filled 16 3 }

/-- The carry goes into the rotation, and the bit that falls out goes into the sum. -/
theorem combined_like_halves_rotated :
    let halves := Operation.executeAll (.direct 0x10) [.modify .ror, .read .adc] beforeRotatedSum
      threesEverywhere
    CpuBus.RamLike FlatBus ∧ halves.1.registers.a = 0x83 ∧
      halves.1.registers.status.carry = false := by
  intro halves
  have hsame := (combined_like_halves FlatBus.ramLike (.direct 0x10) beforeRotatedSum
    threesEverywhere).1 (.modify .rra) { operations := [.modify .ror, .read .adc] } rfl
  have hcombined : halves.1 = beforeRotatedSum.mapRegisters fun registers =>
      (ModifyOperation.rra.apply (threesEverywhere.memory.get 0x10) registers).2 :=
    hsame.cpu.symm
  have hbyte : threesEverywhere.memory.get 0x10 = 3 := Memory.get_filled _ _
  rw [hcombined, hbyte]
  exact ⟨FlatBus.ramLike, rfl, rfl⟩

end Cpu

end Famicom
