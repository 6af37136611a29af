import Famicom.Cpu.Step

/-!
# Counting processor cycles

A step adds to the cycle count just the cycles it reports, and reports at most eight. The rows
of the catalogue decide the bound: the instructions that may pay for a crossed page or a taken
branch have base counts low enough for it.
-/

namespace Famicom

/-- The most that an instruction can pay on top of its base count. -/
def Opcode.mostExtraCycles (opcode : Opcode) : Nat :=
  match opcode.operation with
  | .branch _ _ => 2
  | operation => if operation.access = .read ∧ opcode.mode.paysForCrossing then 1 else 0

/-- The extra cycles stay below their bound. -/
theorem Opcode.extraCycles_le (opcode : Opcode) (operand : Operand) (status : Status) :
    opcode.extraCycles operand status ≤ opcode.mostExtraCycles := by
  have hcrossed : operand.crossed.toNat ≤ 1 := Bool.toNat_le _
  unfold extraCycles mostExtraCycles
  cases opcode.operation with
  | branch flag level =>
    dsimp only
    split <;> omega
  | _ =>
    dsimp only
    split <;> omega

/-- Decoding leads to a row of the catalogue. -/
theorem decode_mem_catalogue (code : UInt8) : decode code ∈ Opcode.catalogue := by
  rw [decode_eq_find]
  cases hfind : Opcode.catalogue.find? fun opcode => opcode.code.toNat == code.toNat with
  | none => exact List.mem_cons_self
  | some opcode => exact List.mem_of_find?_eq_some hfind

/-- Every row of the catalogue takes two to eight cycles, the extra ones included. -/
theorem catalogue_cycles_bounds : ∀ opcode ∈ Opcode.catalogue,
    2 ≤ opcode.baseCycles ∧ opcode.baseCycles + opcode.mostExtraCycles ≤ 8 := by
  decide +kernel

namespace Cpu

theorem decode_nop : decode 0xEA = Opcode.Catalogue.official 0xEA .nop .implied 2 := by
  rw [decode_eq_find]
  rfl

theorem decode_rti : decode 0x40 = Opcode.Catalogue.official 0x40 .rti .implied 6 := by
  rw [decode_eq_find]
  rfl

variable {Bus : Type} [CpuBus Bus]

/-- An instruction by its parts: the opcode read, the row it selects and the operand found. -/
theorem runInstruction_eq {cpu : Cpu} {bus coded resolved : Bus} {code : UInt8}
    {opcode : Opcode} {operand : Operand} (hcode : CpuBus.read bus cpu.pc = (code, coded))
    (hopcode : decode code = opcode)
    (hoperand : opcode.mode.resolve cpu.registers (cpu.pc + 1) coded = (operand, resolved)) :
    cpu.runInstruction bus =
      (opcode.baseCycles + opcode.extraCycles operand cpu.registers.status,
        opcode.operation.execute operand
          { cpu with
            pc := cpu.pc + 1 + UInt16.ofNat opcode.mode.operandLength
            cycles := cpu.cycles +
              (opcode.baseCycles + opcode.extraCycles operand cpu.registers.status)
            lastCode := some code } resolved) := by
  unfold runInstruction
  rw [hcode]
  dsimp only
  rw [hopcode, hoperand]

/-- Carrying out an operation does not count its own cycles. -/
theorem execute_cycles (operation : Operation) (operand : Operand) (cpu : Cpu) (bus : Bus) :
    (operation.execute operand cpu bus).1.cycles = cpu.cycles := by
  cases operation with
  | branch flag level =>
    simp only [Operation.execute]
    split <;> rfl
  | _ => rfl

/-- Looking at the interrupt lines takes no time. -/
theorem poll_cycles (cpu : Cpu) (nmi irq : Bool) : (cpu.poll nmi irq).2.cycles = cpu.cycles := by
  unfold poll
  dsimp only
  split
  · rfl
  · split <;> rfl

/-- An instruction adds the cycles it reports to the count. -/
theorem runInstruction_cycles (cpu : Cpu) (bus : Bus) :
    (cpu.runInstruction bus).2.1.cycles = cpu.cycles + (cpu.runInstruction bus).1 := by
  unfold runInstruction
  dsimp only
  exact execute_cycles _ _ _ _

/-- A step adds the cycles it reports to the count. -/
theorem step_cycles (cpu : Cpu) (bus : Bus) :
    (cpu.step bus).2.1.cycles = cpu.cycles + (cpu.step bus).1 := by
  unfold step
  split
  · rfl
  · have hpoll := cpu.poll_cycles (CpuBus.nmiLine bus) (CpuBus.irqLine bus)
    split
    · next interrupt polled heq =>
      rw [heq] at hpoll
      exact congrArg (· + interrupt.cycles) hpoll
    · next polled heq =>
      rw [heq] at hpoll
      exact (runInstruction_cycles polled bus).trans (congrArg (· + _) hpoll)

/-- An instruction takes two to eight cycles. -/
theorem runInstruction_cycles_bounds (cpu : Cpu) (bus : Bus) :
    2 ≤ (cpu.runInstruction bus).1 ∧ (cpu.runInstruction bus).1 ≤ 8 := by
  unfold runInstruction
  dsimp only
  have hbounds := catalogue_cycles_bounds _ (decode_mem_catalogue (CpuBus.read bus cpu.pc).1)
  have hextra := (decode (CpuBus.read bus cpu.pc).1).extraCycles_le
    ((decode (CpuBus.read bus cpu.pc).1).mode.resolve cpu.registers (cpu.pc + 1)
      (CpuBus.read bus cpu.pc).2).1 cpu.registers.status
  omega

/-- A step takes two to eight cycles. -/
theorem step_cycles_bounds (cpu : Cpu) (bus : Bus) :
    2 ≤ (cpu.step bus).1 ∧ (cpu.step bus).1 ≤ 8 := by
  unfold step
  split
  · exact (by decide : 2 ≤ jamCycles ∧ jamCycles ≤ 8)
  · split
    · exact (by decide : 2 ≤ Interrupt.nmi.cycles ∧ Interrupt.nmi.cycles ≤ 8)
    · exact runInstruction_cycles_bounds _ bus

end Cpu

end Famicom
