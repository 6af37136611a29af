import Famicom.Proofs.Cpu.PushedStatus
import Famicom.Proofs.Cpu.Subroutines

/-!
# Into a handler and back

The way into a handler saves three bytes, and the return from it takes them back: the status first,
then the program counter. What one of them does to the registers the other one undoes, so a handler
that only returns leaves the processor as the interrupt found it. The break bit goes into the pushed
byte alone, and the shared line is masked in between, so that it cannot come again while it stays
high.
-/

namespace Famicom

/-- The bytes saved on the way into a handler, newest first. -/
def Interrupt.savedBytes (interrupt : Interrupt) (status : Status) (wayBack : UInt16) :
    List UInt8 :=
  [(interrupt.pushedStatus status).toByte, wayBack.toUInt8, (wayBack / 0x100).toUInt8]

/-- The registers at the start of a handler. -/
def Registers.inHandler (registers : Registers) : Registers :=
  { registers with
    sp := registers.sp - 3
    status := { registers.status with interruptDisable := true } }

/-- The same memory, with the lines moved. -/
def FlatBus.withLines (bus : FlatBus) (nmi irq : Bool) : FlatBus := { bus with nmi, irq }

namespace Cpu

variable {cpu : Cpu} {bus : FlatBus} {interrupt : Interrupt}

/-- The next step goes the way into a handler: for the edge of the non-maskable line, for the level
of the shared line when there is no such edge, or for the instruction when no line asks. -/
def Meets (cpu : Cpu) (bus : FlatBus) (interrupt : Interrupt) : Prop :=
  cpu.jammed = false ∧
    match interrupt with
    | .nmi => cpu.takesNmi bus.nmi = true
    | .irq =>
      cpu.takesNmi bus.nmi = false ∧ bus.irq = true ∧
        cpu.registers.status.interruptDisable = false
    | .brk => cpu.interruptDue bus.nmi bus.irq = false ∧ bus.memory.get cpu.pc.toNat = 0x00

/-- Where the handler comes back to. The instruction has a byte behind it that is left out. -/
def wayBack (cpu : Cpu) : Interrupt → UInt16
  | .nmi | .irq => cpu.pc
  | .brk => cpu.pc + 2

/-- The way into a handler on memory. -/
theorem enter_flat (cpu : Cpu) (interrupt : Interrupt) (bus : FlatBus) :
    (cpu.enter interrupt bus).1.registers = cpu.registers.inHandler ∧
      (cpu.enter interrupt bus).2 =
        bus.pushAll cpu.registers.sp (interrupt.savedBytes cpu.registers.status cpu.pc) ∧
      (cpu.enter interrupt bus).1.pc =
        (CpuBus.readWord (cpu.enter interrupt bus).2 interrupt.vector (interrupt.vector + 1)).1 := by
  have hthree : cpu.registers.sp - 1 - 1 - 1 = cpu.registers.sp - 3 := by grind
  have htwo : cpu.registers.sp - UInt8.ofNat 2 = cpu.registers.sp - 1 - 1 := by
    change cpu.registers.sp - 2 = _
    grind
  refine ⟨?_, ?_, rfl⟩
  · rw [Registers.inHandler, ← hthree]
    rfl
  · rw [Interrupt.savedBytes, FlatBus.pushAll, FlatBus.pushAll_word]
    change _ = FlatBus.store _ (stackAddress (cpu.registers.sp - UInt8.ofNat 2)) _
    rw [htwo]
    rfl

/-- What a step into a handler leaves. -/
structure StepsInto (cpu : Cpu) (bus : FlatBus) (interrupt : Interrupt) : Prop where
  cycles : (cpu.step bus).1 = 7
  runs : (cpu.step bus).2.1.jammed = false
  registers : (cpu.step bus).2.1.registers = cpu.registers.inHandler
  memory : (cpu.step bus).2.2 = bus.pushAll cpu.registers.sp
    (interrupt.savedBytes cpu.registers.status (cpu.wayBack interrupt))
  pc : (cpu.step bus).2.1.pc =
    (CpuBus.readWord (cpu.step bus).2.2 interrupt.vector (interrupt.vector + 1)).1

/-- A look at the lines finds what the processor meets. -/
theorem Meets.poll (h : cpu.Meets bus interrupt) (hline : interrupt ≠ .brk) :
    cpu.poll bus.nmi bus.irq = (some interrupt, cpu.lookedAt bus.nmi) := by
  obtain ⟨hruns, hmeets⟩ := h
  have htakes : cpu.takesNmi bus.nmi = (cpu.nmiPending || (bus.nmi && !cpu.nmiLevel)) := by
    rw [takesNmi, hruns]
    rfl
  cases interrupt with
  | brk => contradiction
  | nmi =>
    obtain ⟨-, hpoll⟩ | ⟨hedge, -⟩ | ⟨hedge, -⟩ := cpu.poll_cases bus.nmi bus.irq
    · exact hpoll
    · exact absurd (hedge.symm.trans (htakes.symm.trans hmeets)) Bool.false_ne_true
    · exact absurd (hedge.symm.trans (htakes.symm.trans hmeets)) Bool.false_ne_true
  | irq =>
    obtain ⟨hnmi, hirq, hunmasked⟩ := hmeets
    obtain ⟨hedge, -⟩ | ⟨-, -, hpoll⟩ | ⟨-, hnone, -⟩ := cpu.poll_cases bus.nmi bus.irq
    · exact absurd (hnmi.symm.trans (htakes.trans hedge)) Bool.false_ne_true
    · exact hpoll
    · rw [hirq, hunmasked] at hnone
      cases hnone

/-- A step into a handler for one of the lines. -/
theorem Meets.stepsInto_line (h : cpu.Meets bus interrupt) (hline : interrupt ≠ .brk) :
    cpu.StepsInto bus interrupt := by
  -- both lines go the same way into a handler, from a look that finds them
  let boundary : Boundary FlatBus := { cpu, bus }
  have hpoll : boundary.cpu.poll boundary.nmi boundary.irq =
      (some interrupt, boundary.cpu.lookedAt boundary.nmi) := h.poll hline
  have hstep : cpu.step bus = (cpu.lookedAt bus.nmi).entered interrupt bus :=
    (Boundary.step_of_poll_some h.1 hpoll).2
  obtain ⟨hregisters, hmemory, hpc⟩ := (cpu.lookedAt bus.nmi).enter_flat interrupt bus
  have hback : cpu.wayBack interrupt = cpu.pc := by
    cases interrupt with
    | brk => contradiction
    | nmi | irq => rfl
  constructor
  · rw [hstep]
    rfl
  · rw [hstep]
    exact h.1
  · rw [hstep]
    exact hregisters
  · rw [hstep, hback]
    exact hmemory
  · rw [hstep]
    exact hpc

/-- The opcode of the instruction that goes into a handler. -/
theorem decode_brk : decode 0x00 = Opcode.Catalogue.official 0x00 .brk .implied 7 := by
  rw [decode_eq_find]
  rfl

/-- Carrying out that instruction leaves out the byte behind it. -/
theorem execute_brk (operand : Operand) (cpu : Cpu) (bus : FlatBus) :
    Operation.brk.execute operand cpu bus = { cpu with pc := cpu.pc + 1 }.enter .brk bus :=
  rfl

/-- A step into a handler by the instruction. -/
theorem Meets.stepsInto_brk (h : cpu.Meets bus .brk) : cpu.StepsInto bus .brk := by
  obtain ⟨hruns, hdue, hcode⟩ := h
  have hnext : cpu.runsNext bus = true := by
    rw [runsNext, hruns, hdue]
    rfl
  obtain ⟨hfetched, -⟩ := stackStep_of_decode hnext hcode decode_brk
  obtain ⟨hcycles, hstep⟩ := step_of_runsNext hnext
  have hbrk : (cpu.fetched bus).operation = .brk := by rw [hfetched]; rfl
  have hlength : (cpu.fetched bus).mode.operandLength = 0 := by rw [hfetched]; rfl
  have hregisters : (cpu.ready bus).registers = cpu.registers := cpu.ready_registers bus
  have hback : (cpu.ready bus).pc + 1 = cpu.wayBack .brk := by
    rw [ready, hlength]
    change cpu.pc + 1 + 0 + 1 = cpu.pc + 2
    grind
  have hjammed : (cpu.ready bus).jammed = false := by
    rw [ready]
    exact hruns
  rw [hbrk, execute_brk, hback] at hstep
  rw [hfetched] at hcycles
  -- from here on only what is known of the processor counts, not how it got ready
  generalize cpu.ready bus = ready at *
  obtain ⟨hinside, hmemory, hpc⟩ := { ready with pc := cpu.wayBack .brk }.enter_flat .brk bus
  rw [← hstep] at hinside hmemory hpc
  refine ⟨hcycles, ?_, ?_, ?_, hpc⟩
  · rw [hstep]
    exact hjammed
  · rw [hinside, ← hregisters]
  · rw [hmemory, ← hregisters]

/-- A step into a handler, whatever sends the processor there. -/
theorem Meets.stepsInto (h : cpu.Meets bus interrupt) : cpu.StepsInto bus interrupt := by
  cases interrupt with
  | brk => exact h.stepsInto_brk
  | nmi | irq => exact h.stepsInto_line (by decide)

/-- A return from a handler takes six cycles and takes three bytes from the stack. -/
theorem step_rti (hnext : cpu.runsNext bus = true) (hcode : bus.memory.get cpu.pc.toNat = 0x40) :
    (cpu.step bus).1 = 6 ∧
      (cpu.step bus).2.1.registers =
        { cpu.registers with
          sp := cpu.registers.sp + 1 + 1 + 1
          status := .ofPulled (bus.stacked (cpu.registers.sp + 1)) } ∧
      (cpu.step bus).2.1.pc =
        (bus.stacked (cpu.registers.sp + 1 + 1 + 1)).toUInt16 * 0x100 +
          (bus.stacked (cpu.registers.sp + 1 + 1)).toUInt16 ∧
      (cpu.step bus).2.2 = bus := by
  obtain ⟨hfetched, -⟩ := stackStep_of_decode hnext hcode decode_rti
  obtain ⟨hcycles, hstep⟩ := step_of_runsNext hnext
  have hrti : (cpu.fetched bus).operation = .rti := by rw [hfetched]; rfl
  rw [hrti] at hstep
  rw [hfetched] at hcycles
  rw [hstep, ← cpu.ready_registers bus]
  exact ⟨hcycles, rfl, rfl, rfl⟩

/-- A return from a handler finds what the way into it has saved. -/
theorem step_rti_of_holds {status : Status} {wayBack : UInt16} (hidle : status.Idle)
    (hnext : cpu.runsNext bus = true) (hcode : bus.memory.get cpu.pc.toNat = 0x40)
    (hholds : bus.Holds cpu.registers.sp (interrupt.savedBytes status wayBack)) :
    (cpu.step bus).2.1.registers =
        { cpu.registers with sp := cpu.registers.sp + 3, status } ∧
      (cpu.step bus).2.1.pc = wayBack := by
  obtain ⟨hstatus, hlow, hhigh, -⟩ := hholds
  obtain ⟨-, hregisters, hpc, -⟩ := step_rti hnext hcode
  have hthree : cpu.registers.sp + 1 + 1 + 1 = cpu.registers.sp + 3 := by grind
  rw [hregisters, hpc, hstatus, hlow, hhigh, word_of_bytes, hthree, Interrupt.pushedStatus,
    Status.ofPulled_toByte hidle]
  exact ⟨rfl, rfl⟩

/-- Nothing is due at the start of a handler, however high the shared line is. -/
theorem StepsInto.nothing_due (h : cpu.StepsInto bus interrupt) (hruns : cpu.jammed = false)
    {nmi : Bool} (hedge : nmi = true → bus.nmi = true) (irq : Bool) :
    (cpu.step bus).2.1.interruptDue nmi irq = false := by
  obtain ⟨hlevel, hpending⟩ := step_nmi hruns bus
  have hrise : (nmi && !bus.nmi) = false := by
    cases nmi with
    | false => rfl
    | true =>
      rw [hedge rfl]
      rfl
  rw [interruptDue, hlevel, hpending, h.registers]
  change (false || (nmi && !bus.nmi) || (irq && false)) = false
  rw [hrise, Bool.and_false]
  rfl

/-- The handler's address is the word at the vector. -/
theorem StepsInto.pc_eq (h : cpu.StepsInto bus interrupt) :
    (cpu.step bus).2.1.pc.toNat =
      bus.wordAt interrupt.vector.toNat (interrupt.vector.toNat + 1) := by
  have hbyte (address : UInt16) (houtside : address.toNat / 0x100 ≠ 1) :
      (cpu.step bus).2.2.byteAt address.toNat = bus.byteAt address.toNat := by
    rw [FlatBus.byteAt, h.memory, FlatBus.get_pushAll _ _ _ houtside]
    rfl
  have hnext : (interrupt.vector + 1).toNat = interrupt.vector.toNat + 1 := by
    cases interrupt <;> rfl
  rw [h.pc, FlatBus.toNat_readWord, FlatBus.wordAt, hbyte, hbyte, hnext]
  · rfl
  · cases interrupt <;> decide
  · cases interrupt <;> decide

/-- A byte of memory at the start of a handler. -/
theorem StepsInto.get_memory (h : cpu.StepsInto bus interrupt) (address : UInt16) :
    (cpu.step bus).2.2.memory.get address.toNat =
      if address = stackAddress (cpu.registers.sp - 2) then
        (interrupt.pushedStatus cpu.registers.status).toByte
      else if address = stackAddress (cpu.registers.sp - 1) then (cpu.wayBack interrupt).toUInt8
      else if address = stackAddress cpu.registers.sp then
        (cpu.wayBack interrupt / 0x100).toUInt8
      else bus.memory.get address.toNat := by
  rw [h.memory, Interrupt.savedBytes, FlatBus.pushAll, FlatBus.pushAll_word, FlatBus.get_store,
    FlatBus.get_store, FlatBus.get_store]
  rfl

/-- The saved bytes lie on top of the stack at the start of a handler, wherever the lines move. -/
theorem StepsInto.holds (h : cpu.StepsInto bus interrupt) (nmi irq : Bool) :
    ((cpu.step bus).2.2.withLines nmi irq).Holds (cpu.step bus).2.1.registers.sp
      (interrupt.savedBytes cpu.registers.status (cpu.wayBack interrupt)) := by
  have hnothing : bus.Holds cpu.registers.sp [] := trivial
  have hpushed : (cpu.step bus).2.2.Holds (cpu.registers.sp - 3)
      (interrupt.savedBytes cpu.registers.status (cpu.wayBack interrupt) ++ []) := by
    rw [h.memory]
    exact hnothing.pushAll (by decide : 3 + 0 ≤ 256)
  rw [h.registers]
  exact hpushed.congr fun _ _ => rfl

/-- A handler that begins with a return, with nothing due, goes back at once. -/
theorem StepsInto.returns (h : cpu.StepsInto bus interrupt) (hidle : cpu.Idle) {nmi irq : Bool}
    (hdue : (cpu.step bus).2.1.interruptDue nmi irq = false)
    (hcode : (cpu.step bus).2.2.memory.get (cpu.step bus).2.1.pc.toNat = 0x40) :
    let returned := (cpu.step bus).2.1.step ((cpu.step bus).2.2.withLines nmi irq)
    returned.1 = 6 ∧ returned.2.1.registers = cpu.registers ∧
      returned.2.1.pc = cpu.wayBack interrupt ∧
      returned.2.2.memory = (cpu.step bus).2.2.memory := by
  intro returned
  let handler : Cpu := (cpu.step bus).2.1
  let inside : FlatBus := (cpu.step bus).2.2.withLines nmi irq
  have hnext : handler.runsNext inside = true := by
    have hdueInside : handler.interruptDue inside.nmi inside.irq = false := hdue
    rw [runsNext, h.runs, hdueInside]
    rfl
  obtain ⟨hcycles, -, -, hmemory⟩ := step_rti hnext hcode
  obtain ⟨hregisters, hpc⟩ := step_rti_of_holds hidle hnext hcode (h.holds nmi irq)
  have hkept : returned.2.2.memory = inside.memory := congrArg FlatBus.memory hmemory
  refine ⟨hcycles, ?_, hpc, hkept⟩
  have hsp : cpu.registers.sp - 3 + 3 = cpu.registers.sp := UInt8.sub_add_cancel _ _
  rw [hregisters, h.registers, Registers.inHandler]
  exact congrArg (fun sp => { cpu.registers with sp }) hsp

/-- **Into a handler and back.** Whichever interrupt a running processor meets, wherever its program
counter and its stack pointer stand, the way into the handler takes seven cycles, masks the shared
line, changes no other flag and no register but the stack pointer, goes to the word at the vector,
and changes memory only in the three highest places of the stack that are free: they hold the way
back, high byte first, and the status, with the break bit as the instruction has it. As long as
no new edge of the non-maskable line is seen, nothing is due then, however high the shared line is.
So when the handler begins with a return, that is the next step. It takes six cycles more, leaves
memory alone and gives back the program counter, all registers and all flags. -/
theorem handler_returns (hidle : cpu.Idle) (hmeets : cpu.Meets bus interrupt) :
    let entered := cpu.step bus
    let handler := entered.2.1
    let sp := cpu.registers.sp
    let status := cpu.registers.status
    (entered.1 = 7 ∧
      handler.registers =
        { cpu.registers with sp := sp - 3, status := { status with interruptDisable := true } } ∧
      handler.pc.toNat = bus.wordAt interrupt.vector.toNat (interrupt.vector.toNat + 1) ∧
      ∀ address : UInt16, entered.2.2.memory.get address.toNat =
        if address = stackAddress (sp - 2) then
          { status with brk := interrupt == Interrupt.brk, reserved := true }.toByte
        else if address = stackAddress (sp - 1) then (cpu.wayBack interrupt).toUInt8
        else if address = stackAddress sp then (cpu.wayBack interrupt / 0x100).toUInt8
        else bus.memory.get address.toNat) ∧
    ∀ nmi irq, (nmi = true → bus.nmi = true) →
      handler.interruptDue nmi irq = false ∧
      (entered.2.2.memory.get handler.pc.toNat = 0x40 →
        let returned := handler.step (entered.2.2.withLines nmi irq)
        entered.1 + returned.1 = 13 ∧ returned.2.1.cycles = cpu.cycles + 13 ∧
          returned.2.1.registers = cpu.registers ∧ returned.2.1.pc = cpu.wayBack interrupt ∧
          returned.2.2.memory = entered.2.2.memory) := by
  intro entered handler sp status
  have hinto : cpu.StepsInto bus interrupt := hmeets.stepsInto
  refine ⟨⟨hinto.cycles, hinto.registers, hinto.pc_eq, hinto.get_memory⟩, ?_⟩
  intro nmi irq hedge
  have hdue : handler.interruptDue nmi irq = false := hinto.nothing_due hmeets.1 hedge irq
  refine ⟨hdue, fun hcode => ?_⟩
  obtain ⟨hcycles, hregisters, hpc, hmemory⟩ := hinto.returns hidle hdue hcode
  refine ⟨?_, ?_, hregisters, hpc, hmemory⟩
  · rw [hinto.cycles, hcycles]
  · rw [step_cycles, hcycles]
    change entered.2.1.cycles + 6 = _
    rw [step_cycles, hinto.cycles]

/-- A processor that runs unmasked at the end of the address space, with a stack that goes round. -/
def beforeHandler : Cpu :=
  { pc := 0xFFFF
    registers := { sp := 1, status := { Status.initial with interruptDisable := false } } }

/-- Memory that holds the opcode of a return from a handler everywhere. The shared line is high. -/
def handlersEverywhere : FlatBus := { memory := Memory.filled 16 0x40, irq := true }

/-- The shared line stays high through the handler, which returns. -/
theorem handler_returns_under_high_line :
    let entered := beforeHandler.step handlersEverywhere
    let returned := entered.2.1.step (entered.2.2.withLines false true)
    entered.2.1.pc = 0x4040 ∧ entered.2.2.memory.get 0x01FF = 0x20 ∧
      entered.1 + returned.1 = 13 ∧ returned.2.1.registers = beforeHandler.registers ∧
      returned.2.1.pc = 0xFFFF := by
  have hmeets : beforeHandler.Meets handlersEverywhere .irq := ⟨rfl, rfl, rfl, rfl⟩
  obtain ⟨⟨-, -, hpc, hmemory⟩, hback⟩ := handler_returns ⟨rfl, rfl⟩ hmeets
  have hfilled (address : Nat) : handlersEverywhere.memory.get address = 0x40 :=
    Memory.get_filled _ _
  have hvector : (beforeHandler.step handlersEverywhere).2.1.pc = 0x4040 := by
    refine UInt16.toNat_inj.mp (hpc.trans ?_)
    rw [FlatBus.wordAt, FlatBus.byteAt, FlatBus.byteAt, hfilled, hfilled]
    rfl
  have hcode : (beforeHandler.step handlersEverywhere).2.2.memory.get
      (beforeHandler.step handlersEverywhere).2.1.pc.toNat = 0x40 := by
    rw [hvector, hmemory]
    exact hfilled 0x4040
  obtain ⟨-, hreturns⟩ := hback false true Bool.noConfusion
  obtain ⟨hcycles, -, hregisters, hend, -⟩ := hreturns hcode
  exact ⟨hvector, hmemory 0x01FF, hcycles, hregisters, hend⟩

end Cpu

end Famicom
