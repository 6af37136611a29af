import Famicom.Cpu.Step

/-!
# The look at the interrupt lines

A processor that runs looks at the lines once a step, and runs its next instruction when no
interrupt is due. What it keeps from the look is the level of the non-maskable line alone: an
edge that it sees is served in the same step, so none is ever left waiting.
-/

namespace Famicom.Cpu

variable {Bus : Type} [CpuBus Bus]

/-- The next step enters the handler of the non-maskable line, whose level is `line`. -/
def takesNmi (cpu : Cpu) (line : Bool) : Bool :=
  !cpu.jammed && (cpu.nmiPending || (line && !cpu.nmiLevel))

/-- The level and the waiting edge of the non-maskable line are the same. -/
structure SameNmi (before after : Cpu) : Prop where
  nmiLevel : after.nmiLevel = before.nmiLevel
  nmiPending : after.nmiPending = before.nmiPending

/-- The way into a handler does not look at the line. -/
theorem enter_sameNmi (cpu : Cpu) (interrupt : Interrupt) (bus : Bus) :
    SameNmi cpu (cpu.enter interrupt bus).1 :=
  ⟨rfl, rfl⟩

/-- No operation looks at the line. -/
theorem execute_sameNmi (operation : Operation) (operand : Operand) (cpu : Cpu) (bus : Bus) :
    SameNmi cpu (operation.execute operand cpu bus).1 := by
  cases operation with
  | branch flag level =>
    simp only [Operation.execute]
    split <;> exact ⟨rfl, rfl⟩
  | _ => exact ⟨rfl, rfl⟩

/-- An instruction does not look at the line. -/
theorem runInstruction_sameNmi (cpu : Cpu) (bus : Bus) :
    SameNmi cpu (cpu.runInstruction bus).2.1 := by
  unfold runInstruction
  dsimp only
  exact ⟨(execute_sameNmi _ _ _ _).nmiLevel, (execute_sameNmi _ _ _ _).nmiPending⟩

/-- A look at the lines finds an interrupt to enter. -/
def interruptDue (cpu : Cpu) (nmi irq : Bool) : Bool :=
  cpu.nmiPending || (nmi && !cpu.nmiLevel) || (irq && !cpu.registers.status.interruptDisable)

/-- A look at the lines remembers the level and leaves no edge waiting. -/
theorem poll_snd (cpu : Cpu) (nmi irq : Bool) :
    (cpu.poll nmi irq).2 = { cpu with nmiLevel := nmi, nmiPending := false } := by
  unfold poll
  dsimp only
  split
  · rfl
  · split <;> rfl

/-- A look finds an interrupt exactly when one is due. -/
theorem poll_isSome (cpu : Cpu) (nmi irq : Bool) :
    (cpu.poll nmi irq).1.isSome = cpu.interruptDue nmi irq := by
  unfold poll interruptDue
  dsimp only
  cases cpu.nmiPending || (nmi && !cpu.nmiLevel) with
  | true => rfl
  | false => cases irq && !cpu.registers.status.interruptDisable <;> rfl

/-- After a look the level is known, and no edge waits. -/
theorem poll_settles (cpu : Cpu) (nmi irq : Bool) :
    (cpu.poll nmi irq).2.nmiLevel = nmi ∧ (cpu.poll nmi irq).2.nmiPending = false ∧
      (cpu.poll nmi irq).2.jammed = cpu.jammed := by
  rw [poll_snd]
  exact ⟨rfl, rfl, rfl⟩

/-- The look finds the non-maskable line exactly when its edge is new or waits. -/
theorem poll_nmi_iff (cpu : Cpu) (nmi irq : Bool) :
    (cpu.poll nmi irq).1 = some .nmi ↔ (cpu.nmiPending || (nmi && !cpu.nmiLevel)) = true := by
  unfold poll
  dsimp only
  split
  · next h => exact iff_of_true rfl h
  · next h =>
    refine iff_of_false ?_ h
    split <;> nofun

/-- A stopped processor stays stopped. -/
theorem step_jammed {cpu : Cpu} (h : cpu.jammed = true) (bus : Bus) :
    (cpu.step bus).2.1.jammed = true := by
  unfold step
  rw [if_pos h]
  exact h

/-- After a step of a running processor the level is the one at the start of the step, and no
edge waits. -/
theorem step_nmi {cpu : Cpu} (h : cpu.jammed = false) (bus : Bus) :
    (cpu.step bus).2.1.nmiLevel = CpuBus.nmiLine bus ∧
      (cpu.step bus).2.1.nmiPending = false := by
  obtain ⟨hlevel, hpending, -⟩ := cpu.poll_settles (CpuBus.nmiLine bus) (CpuBus.irqLine bus)
  unfold step
  rw [if_neg (Bool.eq_false_iff.mp h)]
  split
  · next interrupt polled heq =>
    rw [heq] at hlevel hpending
    have hsame := enter_sameNmi polled interrupt bus
    exact ⟨hsame.nmiLevel.trans hlevel, hsame.nmiPending.trans hpending⟩
  · next polled heq =>
    rw [heq] at hlevel hpending
    have hsame := runInstruction_sameNmi polled bus
    exact ⟨hsame.nmiLevel.trans hlevel, hsame.nmiPending.trans hpending⟩

/-- The step into the handler of the non-maskable line. -/
theorem step_of_takesNmi {cpu : Cpu} {bus : Bus} (h : cpu.takesNmi (CpuBus.nmiLine bus) = true) :
    ∃ polled : Cpu, cpu.step bus =
      (Interrupt.nmi.cycles,
        { (polled.enter .nmi bus).1 with
          cycles := (polled.enter .nmi bus).1.cycles + Interrupt.nmi.cycles },
        (polled.enter .nmi bus).2) := by
  rw [takesNmi, Bool.and_eq_true, Bool.not_eq_true', ← poll_nmi_iff cpu _ (CpuBus.irqLine bus)] at h
  obtain ⟨hjammed, hnmi⟩ := h
  have hpoll : cpu.poll (CpuBus.nmiLine bus) (CpuBus.irqLine bus) =
      (some .nmi, (cpu.poll (CpuBus.nmiLine bus) (CpuBus.irqLine bus)).2) := by
    rw [← hnmi]
  refine ⟨(cpu.poll (CpuBus.nmiLine bus) (CpuBus.irqLine bus)).2, ?_⟩
  unfold step
  rw [if_neg (Bool.eq_false_iff.mp hjammed), hpoll]

/-- A step with an interrupt due takes the time of the way into the handler. -/
theorem step_of_due {cpu : Cpu} {bus : Bus} (hruns : cpu.jammed = false)
    (hdue : cpu.interruptDue (CpuBus.nmiLine bus) (CpuBus.irqLine bus) = true) :
    (cpu.step bus).1 = 7 := by
  rw [← poll_isSome] at hdue
  unfold step
  rw [if_neg (Bool.eq_false_iff.mp hruns)]
  split
  · rfl
  · next heq => rw [heq] at hdue; cases hdue

/-- A step without an interrupt due runs the instruction at the program counter. -/
theorem step_of_not_due {cpu : Cpu} {bus : Bus} (hruns : cpu.jammed = false)
    (hdue : cpu.interruptDue (CpuBus.nmiLine bus) (CpuBus.irqLine bus) = false) :
    cpu.step bus =
      { cpu with nmiLevel := CpuBus.nmiLine bus, nmiPending := false }.runInstruction bus := by
  have hpolled := cpu.poll_snd (CpuBus.nmiLine bus) (CpuBus.irqLine bus)
  rw [← poll_isSome] at hdue
  unfold step
  rw [if_neg (Bool.eq_false_iff.mp hruns)]
  split
  · next heq => rw [heq] at hdue; cases hdue
  · next heq => rw [heq] at hpolled; rw [← hpolled]

end Famicom.Cpu
