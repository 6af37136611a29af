import Famicom.Cpu.Interrupt
import Famicom.Cpu.Opcode
import Famicom.Cpu.Operand
import Famicom.Text.Digits

/-!
# The processor

One step runs one instruction or enters one interrupt handler. The interrupt lines are looked
at once, at the start of a step: the non-maskable line by its rising edge, the shared line by
its level. A step reports the cycles it took, and the total grows by just that number.
-/

namespace Famicom

/-- The state of the processor. -/
structure Cpu where
  /-- Registers that instructions compute with. -/
  registers : Registers := {}
  /-- Program counter. -/
  pc : UInt16 := 0
  /-- Cycles since the last reset. -/
  cycles : Nat := 0
  /-- Stopped by a jam opcode; only a reset goes on. -/
  jammed : Bool := false
  /-- Level of the non-maskable line at the last look. -/
  nmiLevel : Bool := false
  /-- An edge of the non-maskable line that waits for its handler. -/
  nmiPending : Bool := false
  /-- The opcode executed last, none since power-on or reset. -/
  lastCode : Option UInt8 := none
deriving DecidableEq, Repr

namespace Cpu

variable {Bus : Type} [CpuBus Bus]

/-- Where the first program counter is stored. -/
def resetVector : UInt16 := 0xFFFC

/-- Cycles of the reset sequence. -/
def resetCycles : Nat := 7

/-- Cycles that pass in each step of a stopped processor. -/
def jamCycles : Nat := 2

/-- Start from the reset vector with cleared registers. -/
def reset (bus : Bus) : Cpu × Bus :=
  let (pc, bus) := CpuBus.readWord bus resetVector (resetVector + 1)
  ({ pc, cycles := resetCycles, nmiLevel := CpuBus.nmiLine bus }, bus)

/-- Change the working registers only. -/
def mapRegisters (cpu : Cpu) (f : Registers → Registers) : Cpu :=
  { cpu with registers := f cpu.registers }

/-- The stack occupies page one. -/
def stackAddress (sp : UInt8) : UInt16 := 0x100 + sp.toUInt16

/-- Store a byte on the stack, which grows downwards and wraps within its page. -/
def push (cpu : Cpu) (value : UInt8) (bus : Bus) : Cpu × Bus :=
  let bus := CpuBus.write bus (stackAddress cpu.registers.sp) value
  (cpu.mapRegisters fun registers => { registers with sp := registers.sp - 1 }, bus)

/-- Take the last byte from the stack. -/
def pull (cpu : Cpu) (bus : Bus) : UInt8 × Cpu × Bus :=
  let cpu := cpu.mapRegisters fun registers => { registers with sp := registers.sp + 1 }
  let (value, bus) := CpuBus.read bus (stackAddress cpu.registers.sp)
  (value, cpu, bus)

/-- Store a word on the stack, high byte first. -/
def pushWord (cpu : Cpu) (word : UInt16) (bus : Bus) : Cpu × Bus :=
  let (cpu, bus) := cpu.push (word / 0x100).toUInt8 bus
  cpu.push word.toUInt8 bus

/-- Take a word from the stack. -/
def pullWord (cpu : Cpu) (bus : Bus) : UInt16 × Cpu × Bus :=
  let (low, cpu, bus) := cpu.pull bus
  let (high, cpu, bus) := cpu.pull bus
  (high.toUInt16 * 0x100 + low.toUInt16, cpu, bus)

/-- Save the program counter and the status, mask the shared line and go to the handler. -/
def enter (cpu : Cpu) (interrupt : Interrupt) (bus : Bus) : Cpu × Bus :=
  let pushed := interrupt.pushedStatus cpu.registers.status
  let (cpu, bus) := cpu.pushWord cpu.pc bus
  let (cpu, bus) := cpu.push pushed.toByte bus
  let cpu := cpu.mapRegisters fun registers =>
    { registers with status := { registers.status with interruptDisable := true } }
  let (pc, bus) := CpuBus.readWord bus interrupt.vector (interrupt.vector + 1)
  ({ cpu with pc }, bus)

end Cpu

namespace GatedStore

/-- The byte passed by the gate, which is one more than the high byte of the base address. -/
def gated (operation : GatedStore) (operand : Operand) (registers : Registers) : UInt8 :=
  operation.value registers &&& ((page operand.base).toUInt8 + 1)

/-- The address stored to; when indexing left the page, the byte itself names the page. -/
def target (operation : GatedStore) (operand : Operand) (registers : Registers) : UInt16 :=
  if operand.crossed then
    (operation.gated operand registers).toUInt16 * 0x100 + operand.address % 0x100
  else operand.address

end GatedStore

namespace Operation

variable {Bus : Type} [CpuBus Bus]

/-- Carry out an operation on its operand; `cpu.pc` is already at the next instruction. -/
def execute (operation : Operation) (operand : Operand) (cpu : Cpu) (bus : Bus) : Cpu × Bus :=
  match operation with
  | .read operation =>
    let (value, bus) := CpuBus.read bus operand.address
    (cpu.mapRegisters (operation.apply value), bus)
  | .store operation =>
    (cpu, CpuBus.write bus operand.address (operation.value cpu.registers))
  | .gatedStore operation =>
    let bus := CpuBus.write bus (operation.target operand cpu.registers)
      (operation.gated operand cpu.registers)
    (cpu.mapRegisters operation.apply, bus)
  | .modify operation =>
    let (value, bus) := CpuBus.read bus operand.address
    let (result, registers) := operation.apply value cpu.registers
    ({ cpu with registers }, CpuBus.write bus operand.address result)
  | .register operation => (cpu.mapRegisters operation.apply, bus)
  | .branch flag level =>
    if cpu.registers.status.test flag = level then ({ cpu with pc := operand.address }, bus)
    else (cpu, bus)
  | .pha => cpu.push cpu.registers.a bus
  | .php => cpu.push cpu.registers.status.pushed.toByte bus
  | .pla =>
    let (value, cpu, bus) := cpu.pull bus
    (cpu.mapRegisters fun registers => registers.loadA value, bus)
  | .plp =>
    let (value, cpu, bus) := cpu.pull bus
    (cpu.mapRegisters fun registers => { registers with status := .ofPulled value }, bus)
  | .jmp => ({ cpu with pc := operand.address }, bus)
  | .jsr =>
    let (cpu, bus) := cpu.pushWord (cpu.pc - 1) bus
    ({ cpu with pc := operand.address }, bus)
  | .rts =>
    let (word, cpu, bus) := cpu.pullWord bus
    ({ cpu with pc := word + 1 }, bus)
  | .rti =>
    let (value, cpu, bus) := cpu.pull bus
    let cpu := cpu.mapRegisters fun registers => { registers with status := .ofPulled value }
    let (pc, cpu, bus) := cpu.pullWord bus
    ({ cpu with pc }, bus)
  | .brk => { cpu with pc := cpu.pc + 1 }.enter .brk bus
  | .nop => (cpu, bus)
  | .jam => ({ cpu with pc := cpu.pc - 1, jammed := true }, bus)

end Operation

namespace Opcode

/-- Cycles on top of the base count: reads pay for leaving a page, and branches pay for being
taken and once more for leaving the page. -/
def extraCycles (opcode : Opcode) (operand : Operand) (status : Status) : Nat :=
  match opcode.operation with
  | .branch flag level =>
    if status.test flag = level then 1 + operand.crossed.toNat else 0
  | operation =>
    if operation.access = .read ∧ opcode.mode.paysForCrossing then operand.crossed.toNat else 0

end Opcode

namespace Cpu

variable {Bus : Type} [CpuBus Bus]

/-- Run the instruction at the program counter. -/
def runInstruction (cpu : Cpu) (bus : Bus) : Nat × Cpu × Bus :=
  let (code, bus) := CpuBus.read bus cpu.pc
  let opcode := decode code
  let (operand, bus) := opcode.mode.resolve cpu.registers (cpu.pc + 1) bus
  let cycles := opcode.baseCycles + opcode.extraCycles operand cpu.registers.status
  let next := cpu.pc + 1 + UInt16.ofNat opcode.mode.operandLength
  let (cpu, bus) := opcode.operation.execute operand
    { cpu with pc := next, cycles := cpu.cycles + cycles, lastCode := some code } bus
  (cycles, cpu, bus)

/-- Look at the interrupt lines. A rising edge is remembered until it is served, and goes
before the shared line. -/
def poll (cpu : Cpu) (nmi irq : Bool) : Option Interrupt × Cpu :=
  let pending := cpu.nmiPending || (nmi && !cpu.nmiLevel)
  let cpu := { cpu with nmiLevel := nmi, nmiPending := false }
  if pending then (some .nmi, cpu)
  else if irq && !cpu.registers.status.interruptDisable then (some .irq, cpu)
  else (none, cpu)

/-- Run one instruction or enter one handler; the cycles it took come first. -/
def step (cpu : Cpu) (bus : Bus) : Nat × Cpu × Bus :=
  if cpu.jammed then (jamCycles, { cpu with cycles := cpu.cycles + jamCycles }, bus)
  else
    match cpu.poll (CpuBus.nmiLine bus) (CpuBus.irqLine bus) with
    | (some interrupt, cpu) =>
      let (cpu, bus) := cpu.enter interrupt bus
      (interrupt.cycles, { cpu with cycles := cpu.cycles + interrupt.cycles }, bus)
    | (none, cpu) => cpu.runInstruction bus

/-- The mnemonic of the opcode executed last, empty when there is none. -/
def lastName (cpu : Cpu) : String :=
  match cpu.lastCode with
  | none => ""
  | some code => (decode code).name

/-- The state as one line of text. -/
def state (cpu : Cpu) : String :=
  "PC=" ++ Text.hexWord cpu.pc ++ " A=" ++ Text.hexByte cpu.registers.a ++
    " X=" ++ Text.hexByte cpu.registers.x ++ " Y=" ++ Text.hexByte cpu.registers.y ++
    " P=" ++ Text.hexByte cpu.registers.status.toByte ++
    " SP=" ++ Text.hexByte cpu.registers.sp ++ " CYC=" ++ toString cpu.cycles ++
    " [" ++ cpu.lastName ++ "]" ++ if cpu.jammed then " JAMMED" else ""

end Cpu

end Famicom
