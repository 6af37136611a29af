import Famicom.Proofs.Cpu.Cycles
import Famicom.Proofs.Safety.Checked

/-!
# Checked instructions

A step of the processor with its table access and its sums checked. Counters, addresses and the
stack pointer wrap by design; what is left are the sum of an addition, which has room for a carry,
and the cycles of an instruction, which the catalogue bounds. The processor needs nothing of its
state or of what it is connected to.
-/

namespace Famicom

open Checked

/-- Add a byte and the carry to the accumulator, with the sum checked. -/
def Registers.addChecked (registers : Registers) (value : UInt8) : Checked Registers := do
  let sum ← wordSum registers.a.toNat value.toNat
  let sum ← wordSum sum registers.status.carry.toNat
  let result := UInt8.ofNat sum
  let overflow :=
    Byte.isNegative registers.a == Byte.isNegative value &&
      Byte.isNegative registers.a != Byte.isNegative result
  let status := { registers.status with carry := decide (0x100 ≤ sum), overflow }
  .ok { registers with a := result, status := status.withResult result }

theorem Registers.addChecked_eq (registers : Registers) (value : UInt8) :
    registers.addChecked value = .ok (registers.add value) := by
  have ha := registers.a.toNat_lt
  have hvalue := value.toNat_lt
  have hcarry := Bool.toNat_le registers.status.carry
  rw [addChecked, wordSum_eq (by omega), ok_bind, wordSum_eq (by omega)]
  rfl

/-- The registers after computing from `value`, checked. -/
def ReadOperation.applyChecked (operation : ReadOperation) (value : UInt8)
    (registers : Registers) : Checked Registers :=
  match operation with
  | .adc => registers.addChecked value
  | .sbc => registers.addChecked (~~~value)
  | _ => .ok (operation.apply value registers)

theorem ReadOperation.applyChecked_eq (operation : ReadOperation) (value : UInt8)
    (registers : Registers) :
    operation.applyChecked value registers = .ok (operation.apply value registers) := by
  cases operation with
  | adc => exact registers.addChecked_eq value
  | sbc => exact registers.addChecked_eq (~~~value)
  | _ => rfl

/-- The byte to write back and the registers afterwards, checked. -/
def ModifyOperation.applyChecked (operation : ModifyOperation) (value : UInt8)
    (registers : Registers) : Checked (UInt8 × Registers) :=
  let (result, registers) := operation.change.apply value registers
  match operation.followUp with
  | none => .ok (result, registers)
  | some followUp => do
    let registers ← followUp.applyChecked result registers
    .ok (result, registers)

theorem ModifyOperation.applyChecked_eq (operation : ModifyOperation) (value : UInt8)
    (registers : Registers) :
    operation.applyChecked value registers = .ok (operation.apply value registers) := by
  rw [applyChecked, apply]
  dsimp only
  cases operation.followUp with
  | none => rfl
  | some followUp => simp only [ReadOperation.applyChecked_eq, ok_bind]

/-- The instruction that a byte selects, looked up in the table. -/
def decodeChecked (code : UInt8) : Checked Opcode := element Opcode.table.toArray code.toNat

theorem decodeChecked_eq (code : UInt8) : decodeChecked code = .ok (decode code) :=
  element_toArray Opcode.table code.toNat_lt

/-- Cycles on top of the base count, checked. -/
def Opcode.extraCyclesChecked (opcode : Opcode) (operand : Operand) (status : Status) :
    Checked Nat :=
  match opcode.operation with
  | .branch flag level =>
    if status.test flag = level then byteSum 1 operand.crossed.toNat else .ok 0
  | _ => .ok (opcode.extraCycles operand status)

theorem Opcode.extraCyclesChecked_eq (opcode : Opcode) (operand : Operand) (status : Status) :
    opcode.extraCyclesChecked operand status = .ok (opcode.extraCycles operand status) := by
  have hcrossed := Bool.toNat_le operand.crossed
  unfold extraCyclesChecked
  split
  · next flag level hbranch =>
    simp only [extraCycles, hbranch]
    split
    · exact byteSum_eq (by omega)
    · rfl
  · rfl

variable {Bus : Type} [CpuBus Bus]

/-- Carry out an operation on its operand, checked. -/
def Operation.executeChecked (operation : Operation) (operand : Operand) (cpu : Cpu)
    (bus : Bus) : Checked (Cpu × Bus) :=
  match operation with
  | .read operation => do
    let (value, bus) := CpuBus.read bus operand.address
    let registers ← operation.applyChecked value cpu.registers
    .ok ({ cpu with registers }, bus)
  | .modify operation => do
    let (value, bus) := CpuBus.read bus operand.address
    let (result, registers) ← operation.applyChecked value cpu.registers
    .ok ({ cpu with registers }, CpuBus.write bus operand.address result)
  | _ => .ok (operation.execute operand cpu bus)

theorem Operation.executeChecked_eq (operation : Operation) (operand : Operand) (cpu : Cpu)
    (bus : Bus) :
    operation.executeChecked operand cpu bus = .ok (operation.execute operand cpu bus) := by
  cases operation with
  | read operation =>
    simp only [executeChecked, ReadOperation.applyChecked_eq, ok_bind]
    rfl
  | modify operation =>
    simp only [executeChecked, ModifyOperation.applyChecked_eq, ok_bind]
    rfl
  | _ => rfl

namespace Cpu

/-- Run the instruction at the program counter, checked. -/
def runInstructionChecked (cpu : Cpu) (bus : Bus) : Checked (Nat × Cpu × Bus) := do
  let (code, bus) := CpuBus.read bus cpu.pc
  let opcode ← decodeChecked code
  let (operand, bus) := opcode.mode.resolve cpu.registers (cpu.pc + 1) bus
  let extra ← opcode.extraCyclesChecked operand cpu.registers.status
  let cycles ← byteSum opcode.baseCycles extra
  let next := cpu.pc + 1 + UInt16.ofNat opcode.mode.operandLength
  let (cpu, bus) ← opcode.operation.executeChecked operand
    { cpu with pc := next, cycles := cpu.cycles + cycles, lastCode := some code } bus
  .ok (cycles, cpu, bus)

theorem runInstructionChecked_eq (cpu : Cpu) (bus : Bus) :
    cpu.runInstructionChecked bus = .ok (cpu.runInstruction bus) := by
  have hbounds := (runInstruction_cycles_bounds cpu bus).2
  rw [runInstructionChecked, runInstruction] at *
  dsimp only at *
  rw [decodeChecked_eq, ok_bind]
  generalize decode (CpuBus.read bus cpu.pc).1 = opcode at hbounds ⊢
  rw [Opcode.extraCyclesChecked_eq, ok_bind, byteSum_eq (by omega), ok_bind,
    Operation.executeChecked_eq, ok_bind]

/-- Run one instruction or enter one handler, checked; the cycles it took come first. -/
def stepChecked (cpu : Cpu) (bus : Bus) : Checked (Nat × Cpu × Bus) :=
  if cpu.jammed then .ok (jamCycles, { cpu with cycles := cpu.cycles + jamCycles }, bus)
  else
    match cpu.poll (CpuBus.nmiLine bus) (CpuBus.irqLine bus) with
    | (some interrupt, cpu) =>
      let (cpu, bus) := cpu.enter interrupt bus
      .ok (interrupt.cycles, { cpu with cycles := cpu.cycles + interrupt.cycles }, bus)
    | (none, cpu) => cpu.runInstructionChecked bus

/-- No step of the processor leads to a fault. -/
theorem stepChecked_eq (cpu : Cpu) (bus : Bus) :
    cpu.stepChecked bus = .ok (cpu.step bus) := by
  rw [stepChecked, step]
  split
  · rfl
  · obtain ⟨interrupt, polled⟩ := cpu.poll (CpuBus.nmiLine bus) (CpuBus.irqLine bus)
    cases interrupt with
    | none => exact polled.runInstructionChecked_eq bus
    | some interrupt => rfl

end Cpu

end Famicom
