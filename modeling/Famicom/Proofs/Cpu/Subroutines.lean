import Famicom.Proofs.Cpu.Stack

/-!
# Saving and coming back

A call saves its way back on the stack, and a return goes there. In between the subroutine may call
others and save bytes of its own, as long as it takes back what it has saved and leaves the rest of
what is saved alone. Then every return finds the way back of the call that it ends, and every pull
the byte of the push that it undoes, for as many of them as fit in the page.
-/

namespace Famicom

/-- Something that an instruction has saved on the stack. -/
inductive Saved where
  | byte (value : UInt8)
  /-- The way back from a subroutine, as the address at which the caller goes on. -/
  | wayBack (address : UInt16)
deriving DecidableEq, Repr

/-- The bytes of something saved, newest first. A way back is saved one short of its address. -/
def Saved.bytes : Saved → List UInt8
  | byte value => [value]
  | wayBack address => [(address - 1).toUInt8, ((address - 1) / 0x100).toUInt8]

/-- Where a byte that is pulled goes. -/
inductive PullTarget where
  | accumulator
  | status
deriving DecidableEq, Repr

/-- The registers with a byte that has been pulled. -/
def PullTarget.put (value : UInt8) (registers : Registers) : PullTarget → Registers
  | accumulator => registers.loadA value
  | status => { registers with status := .ofPulled value }

/-- A byte that is pulled does not go to the stack pointer. -/
theorem PullTarget.put_sp (target : PullTarget) (value : UInt8) (registers : Registers) :
    (target.put value registers).sp = registers.sp := by
  cases target <;> rfl

/-- What a step does with the stack. -/
inductive StackStep where
  | save (item : Saved)
  /-- A byte is pulled. -/
  | load (target : PullTarget)
  /-- A subroutine ends. -/
  | goBack
  | other
deriving DecidableEq, Repr

/-- What the instruction at `pc` does with the stack. A call comes back behind its three bytes. -/
def Operation.stackStep (operation : Operation) (registers : Registers) (pc : UInt16) : StackStep :=
  match operation with
  | .pha => .save (.byte registers.a)
  | .php => .save (.byte registers.status.pushed.toByte)
  | .jsr => .save (.wayBack (pc + 3))
  | .pla => .load .accumulator
  | .plp => .load .status
  | .rts => .goBack
  | _ => .other

/-- A word by its two bytes. -/
theorem word_of_bytes (word : UInt16) :
    (word / 0x100).toUInt8.toUInt16 * 0x100 + word.toUInt8.toUInt16 = word := by
  have hword : word.toNat < 0x10000 := word.toNat_lt
  rw [← UInt16.toNat_inj, UInt16.toNat_add, UInt16.toNat_mul, UInt8.toNat_toUInt16,
    UInt8.toNat_toUInt16, UInt16.toNat_toUInt8, UInt16.toNat_toUInt8, UInt16.toNat_div]
  change (word.toNat / 0x100 % 0x100 * 0x100 % 0x10000 + word.toNat % 0x100) % 0x10000 = _
  omega

namespace Cpu

/-- The next step runs the instruction at the program counter. -/
def runsNext (cpu : Cpu) (bus : FlatBus) : Bool :=
  !cpu.jammed && !cpu.interruptDue bus.nmi bus.irq

/-- The operand of the instruction at the program counter. -/
def operand (cpu : Cpu) (bus : FlatBus) : Operand :=
  ((cpu.fetched bus).mode.resolve cpu.registers (cpu.pc + 1) bus).1

/-- The processor about to carry out the instruction at the program counter: it has looked at the
lines, and it stands at the next instruction. -/
def ready (cpu : Cpu) (bus : FlatBus) : Cpu :=
  { cpu with
    pc := cpu.pc + 1 + UInt16.ofNat (cpu.fetched bus).mode.operandLength
    cycles := cpu.cycles + (cpu.step bus).1
    nmiLevel := bus.nmi
    nmiPending := false
    lastCode := some (bus.memory.get cpu.pc.toNat) }

/-- Getting ready does not touch the working registers. -/
theorem ready_registers (cpu : Cpu) (bus : FlatBus) :
    (cpu.ready bus).registers = cpu.registers := by
  simp only [ready]

variable {cpu : Cpu} {bus : FlatBus} {item : Saved}

/-- An instruction runs next unless the processor is stopped or an interrupt is due. -/
theorem runsNext_iff :
    cpu.runsNext bus = true ↔ cpu.jammed = false ∧ cpu.interruptDue bus.nmi bus.irq = false := by
  rw [runsNext, Bool.and_eq_true, Bool.not_eq_true', Bool.not_eq_true']

/-- Finding an operand does not change memory. -/
theorem resolve_flat (mode : AddressingMode) (registers : Registers) (pc : UInt16)
    (bus : FlatBus) : (mode.resolve registers pc bus).2 = bus :=
  keeps_resolve (P := (· = bus)) (fun _ _ h => h) rfl mode registers pc

/-- A step that runs an instruction on memory. -/
theorem step_of_runsNext (h : cpu.runsNext bus = true) :
    (cpu.step bus).1 = (cpu.fetched bus).baseCycles +
        (cpu.fetched bus).extraCycles (cpu.operand bus) cpu.registers.status ∧
      (cpu.step bus).2 =
        (cpu.fetched bus).operation.execute (cpu.operand bus) (cpu.ready bus) bus := by
  rw [runsNext_iff] at h
  -- the parts of the instruction are named before it is opened: nothing may unfold the decoder
  let looked : Cpu := { cpu with nmiLevel := bus.nmi, nmiPending := false }
  have hcode : CpuBus.read bus looked.pc = (bus.memory.get cpu.pc.toNat, bus) := rfl
  have hopcode : decode (bus.memory.get cpu.pc.toNat) = cpu.fetched bus := rfl
  have hoperand : (cpu.fetched bus).mode.resolve cpu.registers (cpu.pc + 1) bus =
      (cpu.operand bus, bus) := by
    refine Prod.ext ?_ (resolve_flat _ _ _ _)
    rw [operand]
  have hstep : cpu.step bus = looked.runInstruction bus := step_of_not_due h.1 h.2
  rw [runInstruction_eq hcode hopcode hoperand] at hstep
  have hcycles : (cpu.step bus).1 = _ := congrArg Prod.fst hstep
  refine ⟨hcycles, ?_⟩
  rw [ready, hcycles, hstep]

/-- What the next step does with the stack. -/
def stackStep (cpu : Cpu) (bus : FlatBus) : StackStep :=
  if cpu.runsNext bus then (cpu.fetched bus).operation.stackStep cpu.registers cpu.pc else .other

/-- Carrying out an instruction that saves something pushes its bytes. -/
theorem execute_save {operation : Operation} {mode : AddressingMode}
    (htakes : operation.takes mode = true) {pc : UInt16}
    (hpc : cpu.pc = pc + 1 + UInt16.ofNat mode.operandLength)
    (h : operation.stackStep cpu.registers pc = .save item) (operand : Operand) (bus : FlatBus) :
    (operation.execute operand cpu bus).1.registers =
        { cpu.registers with sp := cpu.registers.sp - UInt8.ofNat item.bytes.length } ∧
      (operation.execute operand cpu bus).2 = bus.pushAll cpu.registers.sp item.bytes := by
  cases operation with
  | pha | php =>
    obtain rfl := StackStep.save.inj h
    exact ⟨rfl, (bus.pushAll_byte _ _).symm⟩
  | jsr =>
    obtain rfl := StackStep.save.inj h
    obtain rfl : mode = .absolute := by simpa [Operation.takes] using htakes
    have hword : pc + 3 - 1 = cpu.pc - 1 := by
      rw [hpc]
      change _ = pc + 1 + 2 - 1
      grind
    have hsp : cpu.registers.sp - 1 - 1 = cpu.registers.sp - UInt8.ofNat 2 := by
      change _ = cpu.registers.sp - 2
      grind
    refine ⟨congrArg (fun sp => { cpu.registers with sp }) hsp, ?_⟩
    rw [Saved.bytes, hword, FlatBus.pushAll_word]
    rfl
  | _ => cases h

/-- A step that saves something pushes its bytes and changes no other register. -/
theorem step_save (h : cpu.stackStep bus = .save item) :
    (cpu.step bus).2.1.registers =
        { cpu.registers with sp := cpu.registers.sp - UInt8.ofNat item.bytes.length } ∧
      (cpu.step bus).2.2 = bus.pushAll cpu.registers.sp item.bytes := by
  unfold stackStep at h
  split at h
  · next hruns =>
    have htakes : (cpu.fetched bus).operation.takes (cpu.fetched bus).mode = true :=
      decode_takes _
    have hpc : (cpu.ready bus).pc =
        cpu.pc + 1 + UInt16.ofNat (cpu.fetched bus).mode.operandLength := rfl
    rw [← cpu.ready_registers bus] at h ⊢
    rw [(step_of_runsNext hruns).2]
    exact execute_save htakes hpc h _ bus
  · cases h

/-- A step that pulls a byte. -/
theorem step_load {target : PullTarget} (h : cpu.stackStep bus = .load target) :
    (cpu.step bus).2.1.registers =
        target.put (bus.stacked (cpu.registers.sp + 1))
          { cpu.registers with sp := cpu.registers.sp + 1 } ∧
      (cpu.step bus).2.2 = bus := by
  unfold stackStep at h
  split at h
  · next hruns =>
    rw [(step_of_runsNext hruns).2]
    generalize (cpu.fetched bus).operation = operation at h
    cases operation with
    | pla | plp =>
      obtain rfl := StackStep.load.inj h
      exact ⟨rfl, rfl⟩
    | _ => cases h
  · cases h

/-- A step that goes back to where the top of the stack says. -/
theorem step_goBack (h : cpu.stackStep bus = .goBack) :
    (cpu.step bus).2.1.pc =
        (bus.stacked (cpu.registers.sp + 1 + 1)).toUInt16 * 0x100 +
          (bus.stacked (cpu.registers.sp + 1)).toUInt16 + 1 ∧
      (cpu.step bus).2.1.registers = { cpu.registers with sp := cpu.registers.sp + 1 + 1 } ∧
      (cpu.step bus).2.2 = bus := by
  unfold stackStep at h
  split at h
  · next hruns =>
    rw [(step_of_runsNext hruns).2]
    generalize (cpu.fetched bus).operation = operation at h
    cases operation with
    | rts => exact ⟨rfl, rfl, rfl⟩
    | _ => cases h
  · cases h

/-- The opcode of a call. -/
theorem decode_jsr : decode 0x20 = Opcode.Catalogue.official 0x20 .jsr .absolute 6 := by
  rw [decode_eq_find]
  rfl

/-- The opcode of a return. -/
theorem decode_rts : decode 0x60 = Opcode.Catalogue.official 0x60 .rts .implied 6 := by
  rw [decode_eq_find]
  rfl

/-- What a step does with the stack, by its opcode. -/
theorem stackStep_of_decode {code : UInt8} {opcode : Opcode} (hruns : cpu.runsNext bus = true)
    (hcode : bus.memory.get cpu.pc.toNat = code) (hopcode : decode code = opcode) :
    cpu.fetched bus = opcode ∧
      cpu.stackStep bus = opcode.operation.stackStep cpu.registers cpu.pc := by
  have hfetched : cpu.fetched bus = opcode := fetched_of_decode hcode hopcode
  refine ⟨hfetched, ?_⟩
  rw [stackStep, if_pos hruns, hfetched]

/-- Carrying out a call goes to the operand. -/
theorem execute_jsr (operand : Operand) (cpu : Cpu) (bus : FlatBus) :
    (Operation.jsr.execute operand cpu bus).1.pc = operand.address ∧
      (Operation.jsr.execute operand cpu bus).1.jammed = cpu.jammed :=
  ⟨rfl, rfl⟩

/-- A call takes six cycles and goes to the word behind its opcode. -/
theorem step_call (hruns : cpu.runsNext bus = true)
    (hcall : bus.memory.get cpu.pc.toNat = 0x20) :
    cpu.stackStep bus = .save (.wayBack (cpu.pc + 3)) ∧ (cpu.step bus).1 = 6 ∧
      (cpu.step bus).2.1.pc.toNat = bus.wordAt (cpu.pc.toNat + 1) (cpu.pc.toNat + 2) ∧
      (cpu.step bus).2.1.jammed = cpu.jammed := by
  obtain ⟨hfetched, hstep⟩ := stackStep_of_decode hruns hcall decode_jsr
  obtain ⟨hcycles, hrest⟩ := step_of_runsNext hruns
  obtain ⟨hpc, hjammed⟩ := execute_jsr (cpu.operand bus) (cpu.ready bus) bus
  rw [hfetched] at hcycles hrest
  rw [hrest]
  refine ⟨hstep, hcycles, ?_, ?_⟩
  · refine (congrArg UInt16.toNat hpc).trans ?_
    rw [operand, hfetched]
    exact AddressingMode.toNat_operandWord bus cpu.pc
  · refine hjammed.trans ?_
    simp only [ready]

/-- A return takes six cycles. -/
theorem step_return (hruns : cpu.runsNext bus = true)
    (hreturn : bus.memory.get cpu.pc.toNat = 0x60) :
    cpu.stackStep bus = .goBack ∧ (cpu.step bus).1 = 6 := by
  obtain ⟨hfetched, hstep⟩ := stackStep_of_decode hruns hreturn decode_rts
  obtain ⟨hcycles, -⟩ := step_of_runsNext hruns
  rw [hfetched] at hcycles
  exact ⟨hstep, hcycles⟩

/-- Pushes do not move the lines. -/
theorem pushAll_lines (bus : FlatBus) (sp : UInt8) (bytes : List UInt8) :
    (bus.pushAll sp bytes).nmi = bus.nmi ∧ (bus.pushAll sp bytes).irq = bus.irq := by
  induction bytes with
  | nil => exact ⟨rfl, rfl⟩
  | cons byte older ih => exact ih

/-- A step that saves something, and does not stop the processor, leaves no interrupt due. -/
theorem runsNext_of_save (hruns : cpu.runsNext bus = true)
    (hjammed : (cpu.step bus).2.1.jammed = cpu.jammed) (h : cpu.stackStep bus = .save item) :
    (cpu.step bus).2.1.runsNext (cpu.step bus).2.2 = true := by
  rw [runsNext_iff] at hruns ⊢
  obtain ⟨hregisters, hbus⟩ := step_save h
  obtain ⟨hlevel, hpending⟩ := step_nmi hruns.1 bus
  obtain ⟨hnmi, hirq⟩ := pushAll_lines bus cpu.registers.sp item.bytes
  refine ⟨hjammed.trans hruns.1, ?_⟩
  -- the level is the one just seen, so there is no rise, and the mask is as before
  have hirqDue : (bus.irq && !cpu.registers.status.interruptDisable) = false :=
    (Bool.or_eq_false_iff.mp hruns.2).2
  have hrise : (bus.nmi && !bus.nmi) = false := Bool.and_not_self bus.nmi
  rw [interruptDue, hlevel, hpending, hregisters, hbus, hnmi, hirq]
  change (false || (bus.nmi && !bus.nmi) || (bus.irq && !cpu.registers.status.interruptDisable)) =
    false
  rw [hrise, hirqDue]
  rfl

/-- What a step saves lies on top of what was saved before it. -/
theorem holds_of_save {older : List UInt8} (h : cpu.stackStep bus = .save item)
    (hholds : bus.Holds cpu.registers.sp older)
    (hroom : item.bytes.length + older.length ≤ 256) :
    (cpu.step bus).2.2.Holds (cpu.step bus).2.1.registers.sp (item.bytes ++ older) := by
  obtain ⟨hregisters, hbus⟩ := step_save h
  rw [hregisters, hbus]
  exact hholds.pushAll hroom

/-- A return finds the way back that lies on top of the stack. -/
theorem goBack_of_holds {address : UInt16} {older : List UInt8}
    (h : cpu.stackStep bus = .goBack)
    (hholds : bus.Holds cpu.registers.sp ((Saved.wayBack address).bytes ++ older)) :
    (cpu.step bus).2.1.pc = address ∧
      bus.Holds (cpu.step bus).2.1.registers.sp older := by
  obtain ⟨hlow, hhigh, hbelow⟩ := hholds
  obtain ⟨hpc, hregisters, -⟩ := step_goBack h
  rw [hpc, hregisters, hlow, hhigh, word_of_bytes]
  exact ⟨UInt16.sub_add_cancel address 1, hbelow⟩

/-- The next step calls a subroutine that begins with a return, once the way back is saved. -/
structure CallsReturn (cpu : Cpu) (bus : FlatBus) : Prop where
  runs : cpu.runsNext bus = true
  call : bus.memory.get cpu.pc.toNat = 0x20
  back : (bus.pushAll cpu.registers.sp (Saved.wayBack (cpu.pc + 3)).bytes).memory.get
    (bus.wordAt (cpu.pc.toNat + 1) (cpu.pc.toNat + 2)) = 0x60

/-- The step after such a call is the return. -/
theorem CallsReturn.step_back (h : cpu.CallsReturn bus) :
    (cpu.step bus).2.1.stackStep (cpu.step bus).2.2 = .goBack ∧
      ((cpu.step bus).2.1.step (cpu.step bus).2.2).1 = 6 := by
  obtain ⟨hsave, -, hpc, hjammed⟩ := step_call h.runs h.call
  have hcode : (cpu.step bus).2.2.memory.get (cpu.step bus).2.1.pc.toNat = 0x60 := by
    rw [hpc, (step_save hsave).2]
    exact h.back
  exact step_return (runsNext_of_save h.runs hjammed hsave) hcode

/-- A subroutine that does nothing but return comes back behind the call. -/
theorem CallsReturn.returns (h : cpu.CallsReturn bus) :
    let called := cpu.step bus
    let returned := called.2.1.step called.2.2
    called.1 + returned.1 = 12 ∧ returned.2.1.pc = cpu.pc + 3 ∧
      returned.2.1.registers = cpu.registers := by
  intro called returned
  obtain ⟨hsave, hcycles, -⟩ := step_call h.runs h.call
  obtain ⟨hback, hcyclesBack⟩ := h.step_back
  have hholds : called.2.2.Holds called.2.1.registers.sp
      ((Saved.wayBack (cpu.pc + 3)).bytes ++ []) := by
    refine holds_of_save hsave trivial ?_
    change 2 + 0 ≤ 256
    omega
  refine ⟨?_, (goBack_of_holds hback hholds).1, ?_⟩
  · rw [hcycles, hcyclesBack]
  · rw [(step_goBack hback).2.1, (step_save hsave).1]
    have hround : cpu.registers.sp - 2 + 1 + 1 = cpu.registers.sp := by grind
    exact congrArg (fun sp => { cpu.registers with sp }) hround

/-- A pull finds the byte that lies on top of the stack. -/
theorem load_of_holds {target : PullTarget} {value : UInt8} {older : List UInt8}
    (h : cpu.stackStep bus = .load target)
    (hholds : bus.Holds cpu.registers.sp (value :: older)) :
    (cpu.step bus).2.1.registers =
        target.put value { cpu.registers with sp := cpu.registers.sp + 1 } ∧
      bus.Holds (cpu.step bus).2.1.registers.sp older := by
  obtain ⟨hvalue, hbelow⟩ := hholds
  obtain ⟨hregisters, -⟩ := step_load h
  rw [hregisters, hvalue, target.put_sp]
  exact ⟨rfl, hbelow⟩

end Cpu

/-- What is saved after a step that uses the stack like this, newest first. -/
def StackStep.savedAfter (saved : List Saved) : StackStep → List Saved
  | save item => item :: saved
  | load _ | goBack => saved.tail
  | other => saved

/-- A moment of a run on memory, with what has been saved since the run began, newest first. -/
structure StackMoment where
  saved : List Saved := []
  cpu : Cpu
  bus : FlatBus

namespace StackMoment

/-- What the next step does with the stack. -/
def use (moment : StackMoment) : StackStep := moment.cpu.stackStep moment.bus

/-- The moment after the next step. -/
def next (moment : StackMoment) : StackMoment where
  saved := moment.use.savedAfter moment.saved
  cpu := (moment.cpu.step moment.bus).2.1
  bus := (moment.cpu.step moment.bus).2.2

/-- The moment after a number of steps. -/
def after (moment : StackMoment) : (steps : Nat) → StackMoment
  | 0 => moment
  | steps + 1 => (moment.after steps).next

/-- The stack pointer. -/
def sp (moment : StackMoment) : UInt8 := moment.cpu.registers.sp

/-- The bytes that are saved, newest first. -/
def bytes (moment : StackMoment) : List UInt8 := moment.saved.flatMap Saved.bytes

/-- The next step keeps the nesting: it saves something for which the page has room, or it takes
back the newest of what is saved in the way in which it was saved, or it leaves the stack pointer
and what is saved alone. A call takes two bytes, so calls alone have room to be 128 deep. -/
def Nests (moment : StackMoment) : Prop :=
  match moment.use with
  | .save item => item.bytes.length + moment.bytes.length ≤ 256
  | .load _ => ∃ value older, moment.saved = .byte value :: older
  | .goBack => ∃ address older, moment.saved = .wayBack address :: older
  | .other =>
    moment.next.sp = moment.sp ∧
      ∀ depth < moment.bytes.length,
        moment.next.bus.stacked (moment.sp + 1 + UInt8.ofNat depth) =
          moment.bus.stacked (moment.sp + 1 + UInt8.ofNat depth)

/-- The registers after the next step, when it leaves them alone but for the stack pointer. -/
def registersWith (moment : StackMoment) (sp : UInt8) : Registers :=
  { moment.cpu.registers with sp }

/-- The next step gives back what the step that it matches has saved. Nothing else changes through
saving and giving back, apart from the stack itself and the flags of a byte that is loaded. -/
def Restores (moment : StackMoment) : Prop :=
  let after := moment.next
  match moment.use with
  | .save item =>
    after.cpu.registers = moment.registersWith (moment.sp - UInt8.ofNat item.bytes.length) ∧
      ∀ address : UInt16, address.toNat / 0x100 ≠ 1 →
        after.bus.memory.get address.toNat = moment.bus.memory.get address.toNat
  | .load target =>
    ∃ value older, moment.saved = .byte value :: older ∧
      after.cpu.registers = target.put value (moment.registersWith (moment.sp + 1)) ∧
      after.bus = moment.bus
  | .goBack =>
    ∃ address older, moment.saved = .wayBack address :: older ∧ after.cpu.pc = address ∧
      after.cpu.registers = moment.registersWith (moment.sp + 2) ∧ after.bus = moment.bus
  | .other => True

/-- What is saved lies on top of the stack, and the stack pointer is as far below its start. -/
structure Keeps (start : UInt8) (moment : StackMoment) : Prop where
  holds : moment.bus.Holds moment.sp moment.bytes
  sp_eq : moment.sp + UInt8.ofNat moment.bytes.length = start

variable {start : UInt8} {moment : StackMoment}

/-- What is saved after a step, by what the step does with the stack. -/
theorem bytes_next {use : StackStep} (huse : moment.use = use) :
    moment.next.bytes = (use.savedAfter moment.saved).flatMap Saved.bytes := by
  rw [bytes, next, huse]

/-- The stack pointer comes down by what is saved. -/
theorem sp_save (sp : UInt8) (item older : List UInt8) :
    sp - UInt8.ofNat item.length + UInt8.ofNat (item ++ older).length =
      sp + UInt8.ofNat older.length := by
  rw [List.length_append, UInt8.ofNat_add]
  grind

/-- The stack pointer goes up by what is given back. -/
theorem sp_giveBack (sp : UInt8) (item older : List UInt8) :
    sp + UInt8.ofNat item.length + UInt8.ofNat older.length =
      sp + UInt8.ofNat (item ++ older).length := by
  rw [List.length_append, UInt8.ofNat_add, UInt8.add_assoc]

/-- A step that saves something for which there is room. -/
theorem Keeps.next_save (h : moment.Keeps start) {item : Saved} (huse : moment.use = .save item)
    (hroom : item.bytes.length + moment.bytes.length ≤ 256) : moment.next.Keeps start := by
  have hbytes : moment.next.bytes = item.bytes ++ moment.bytes := bytes_next huse
  have hsp : moment.next.sp = moment.sp - UInt8.ofNat item.bytes.length :=
    congrArg Registers.sp (Cpu.step_save huse).1
  constructor
  · rw [hbytes]
    exact Cpu.holds_of_save huse h.holds hroom
  · rw [hbytes, hsp, sp_save]
    exact h.sp_eq

/-- A step that gives back what was saved last, and leaves memory alone. -/
theorem Keeps.next_giveBack (h : moment.Keeps start) {item : Saved} {older : List Saved}
    (hsaved : moment.saved = item :: older)
    (htail : moment.use.savedAfter moment.saved = moment.saved.tail)
    (hsp : moment.next.sp = moment.sp + UInt8.ofNat item.bytes.length)
    (hbus : moment.next.bus = moment.bus)
    (hbelow : moment.bus.Holds moment.next.sp (older.flatMap Saved.bytes)) :
    moment.next.Keeps start := by
  have hbytes : moment.next.bytes = older.flatMap Saved.bytes := by
    rw [bytes_next rfl, htail, hsaved, List.tail_cons]
  have hstart := h.sp_eq
  rw [bytes, hsaved, List.flatMap_cons] at hstart
  constructor
  · rw [hbus, hbytes]
    exact hbelow
  · rw [hbytes, hsp, sp_giveBack]
    exact hstart

/-- A step that keeps the nesting restores what it should. -/
theorem Keeps.next (h : moment.Keeps start) (hnests : moment.Nests) :
    moment.Restores ∧ moment.next.Keeps start := by
  have hholds := h.holds
  unfold Nests at hnests
  unfold Restores
  cases huse : moment.use with
  | save item =>
    rw [huse] at hnests
    obtain ⟨hregisters, hbus⟩ := Cpu.step_save huse
    refine ⟨⟨hregisters, fun address haddress => ?_⟩, h.next_save huse hnests⟩
    exact (congrArg (fun bus => bus.memory.get address.toNat) hbus).trans
      (moment.bus.get_pushAll _ _ haddress)
  | load target =>
    rw [huse] at hnests
    obtain ⟨value, older, hsaved⟩ := hnests
    rw [bytes, hsaved] at hholds
    obtain ⟨hregisters, hbelow⟩ := Cpu.load_of_holds huse hholds
    have hbus : moment.next.bus = moment.bus := (Cpu.step_load huse).2
    have hsp : moment.next.sp = moment.sp + 1 :=
      (congrArg Registers.sp hregisters).trans (target.put_sp _ _)
    refine ⟨⟨value, older, hsaved, hregisters, hbus⟩, ?_⟩
    exact h.next_giveBack hsaved (by rw [huse]; rfl) hsp hbus hbelow
  | goBack =>
    rw [huse] at hnests
    obtain ⟨address, older, hsaved⟩ := hnests
    rw [bytes, hsaved] at hholds
    obtain ⟨hpc, hbelow⟩ := Cpu.goBack_of_holds huse hholds
    obtain ⟨-, hstep, hbus⟩ := Cpu.step_goBack huse
    have htwo : moment.sp + 1 + 1 = moment.sp + 2 := UInt8.add_assoc _ _ _
    have hregisters : moment.next.cpu.registers = moment.registersWith (moment.sp + 2) :=
      hstep.trans (congrArg moment.registersWith htwo)
    refine ⟨⟨address, older, hsaved, hpc, hregisters, hbus⟩, ?_⟩
    exact h.next_giveBack hsaved (by rw [huse]; rfl) (congrArg Registers.sp hregisters) hbus hbelow
  | other =>
    rw [huse] at hnests
    obtain ⟨hsp, hstack⟩ := hnests
    have hbytes : moment.next.bytes = moment.bytes := bytes_next huse
    constructor
    · trivial
    · constructor
      · rw [hsp, hbytes]
        exact h.holds.congr hstack
      · rw [hsp, hbytes]
        exact h.sp_eq

/-- A run that keeps the nesting at every step restores what it should at every step. -/
theorem Keeps.after (h : moment.Keeps start) {steps : Nat}
    (hnests : ∀ earlier < steps, (moment.after earlier).Nests) :
    (∀ earlier < steps, (moment.after earlier).Restores) ∧ (moment.after steps).Keeps start := by
  induction steps with
  | zero => exact ⟨fun _ hlt => absurd hlt (Nat.not_lt_zero _), h⟩
  | succ steps ih =>
    obtain ⟨hrestores, hkeeps⟩ := ih fun earlier hlt => hnests earlier (Nat.lt_succ_of_lt hlt)
    obtain ⟨hlast, hnext⟩ := hkeeps.next (hnests steps (Nat.lt_succ_self steps))
    refine ⟨fun earlier hlt => ?_, hnext⟩
    rcases Nat.lt_succ_iff_lt_or_eq.mp hlt with hlt | rfl
    · exact hrestores earlier hlt
    · exact hlast

/-- A call of a subroutine that only returns keeps the nesting. -/
theorem nests_of_callsReturn {cpu : Cpu} {bus : FlatBus} (h : cpu.CallsReturn bus) :
    (after { cpu, bus } 1).saved = [.wayBack (cpu.pc + 3)] ∧
      ∀ earlier < 2, (after { cpu, bus } earlier).Nests := by
  have hcall : use { cpu, bus } = .save (.wayBack (cpu.pc + 3)) := (Cpu.step_call h.runs h.call).1
  have hback : (after { cpu, bus } 1).use = .goBack := h.step_back.1
  have hsaved : (after { cpu, bus } 1).saved = [.wayBack (cpu.pc + 3)] := by
    rw [after, after, StackMoment.next, hcall]
    rfl
  refine ⟨hsaved, fun earlier hlt => ?_⟩
  match earlier with
  | 0 =>
    rw [after, Nests, hcall]
    change 2 + 0 ≤ 256
    omega
  | 1 =>
    rw [Nests, hback]
    exact ⟨_, [], hsaved⟩

end StackMoment

namespace Cpu

/-- **The discipline of the stack.** However pushes and pulls of bytes are nested, up to the size of
the page and wherever the stack pointer starts, every pull gives the byte of its push, the stack
pointer is below its start by what is left, and all accesses and changes lie in the stack page. A
call of a subroutine that only returns takes two steps and twelve cycles, ends behind the call and
changes no register. And in a run whose calls, returns and single bytes are nested, as deep as the
page has room, every return goes back behind its own call, every pull gets its own byte, and the
stack pointer comes back to its start. -/
theorem stack_discipline (cpu : Cpu) (bus : FlatBus) :
    (∀ uses, StackUse.Nested 0 uses →
      let run := useStack uses cpu ({ bus } : Recorded FlatBus)
      run.1 = StackUse.matching [] uses ∧
        run.2.1 =
          cpu.withSp (cpu.registers.sp - UInt8.ofNat (StackUse.savedAfter [] uses).length) ∧
        (∀ access ∈ run.2.2.traffic, access.address.toNat / 0x100 = 1) ∧
        ∀ address : UInt16, address.toNat / 0x100 ≠ 1 →
          run.2.2.bus.memory.get address.toNat = bus.memory.get address.toNat) ∧
    (cpu.CallsReturn bus →
      let called := cpu.step bus
      let returned := called.2.1.step called.2.2
      called.1 + returned.1 = 12 ∧ returned.2.1.pc = cpu.pc + 3 ∧
        returned.2.1.registers = cpu.registers) ∧
    (∀ steps, (∀ earlier < steps, (StackMoment.after { cpu, bus } earlier).Nests) →
      (∀ earlier < steps, (StackMoment.after { cpu, bus } earlier).Restores) ∧
        (StackMoment.after { cpu, bus } steps).sp +
          UInt8.ofNat (StackMoment.after { cpu, bus } steps).bytes.length = cpu.registers.sp) := by
  refine ⟨fun uses hnested => ?_, CallsReturn.returns, fun steps hnests => ?_⟩
  · have hholds : bus.Holds cpu.registers.sp [] := trivial
    obtain ⟨hpulled, ⟨sp, hcpu, hsp⟩, ⟨accesses, htraffic, hpage⟩, houtside⟩ :=
      @usedStack uses [] hnested cpu { bus } hholds
    refine ⟨hpulled, ?_, ?_, houtside⟩
    · have hstart : sp + UInt8.ofNat (StackUse.savedAfter [] uses).length = cpu.registers.sp :=
        hsp.trans (UInt8.add_zero _)
      rw [hcpu, ← hstart, UInt8.add_sub_cancel]
    · intro access hmem
      rw [htraffic] at hmem
      exact hpage access (by simpa using hmem)
  · have hkeeps : StackMoment.Keeps cpu.registers.sp { cpu, bus } :=
      ⟨trivial, UInt8.add_zero _⟩
    obtain ⟨hrestores, hlast⟩ := hkeeps.after hnests
    exact ⟨hrestores, hlast.sp_eq⟩

/-- A processor about to call, at the end of the address space and of the stack page. -/
def beforeCall : Cpu := { pc := 0xFFFE, registers := { sp := 0 } }

/-- Memory that holds the opcode of a return everywhere but at one place, which calls. -/
def returnsEverywhere : FlatBus := { memory := (Memory.filled 16 0x60).set 0xFFFE 0x20 }

/-- What lies in that memory outside of its one call. -/
theorem get_returnsEverywhere {address : Nat} (h : address % 0x10000 ≠ 0xFFFE) :
    returnsEverywhere.memory.get address = 0x60 := by
  have hother : ¬0xFFFE % chipSize 16 = address % chipSize 16 := Ne.symm h
  rw [returnsEverywhere, Memory.get_set, if_neg hother, Memory.get_filled]

/-- The subroutine that is called begins with a return. -/
theorem beforeCall_callsReturn : beforeCall.CallsReturn returnsEverywhere where
  runs := rfl
  call := by
    change returnsEverywhere.memory.get 0xFFFE = 0x20
    rw [returnsEverywhere, Memory.get_set_self]
  back := by
    have hpc : beforeCall.pc.toNat = 0xFFFE := rfl
    have htarget : returnsEverywhere.wordAt (beforeCall.pc.toNat + 1) (beforeCall.pc.toNat + 2) =
        (0x6060 : UInt16).toNat := by
      rw [hpc, FlatBus.wordAt, FlatBus.byteAt, FlatBus.byteAt, get_returnsEverywhere (by decide),
        get_returnsEverywhere (by decide)]
      rfl
    rw [htarget, FlatBus.get_pushAll]
    · exact get_returnsEverywhere (by decide)
    · decide

/-- Pushes and pulls that are nested two deep, and a call at the end of the address space, which
comes back to its start. -/
theorem stack_discipline_around_the_end :
    let run := useStack [.push 3, .push 5, .pull, .pull] beforeCall
      ({ bus := returnsEverywhere } : Recorded FlatBus)
    run.1 = [5, 3] ∧ run.2.1 = beforeCall ∧
      (let called := beforeCall.step returnsEverywhere
      let returned := called.2.1.step called.2.2
      called.1 + returned.1 = 12 ∧ returned.2.1.pc = 1 ∧
        returned.2.1.registers = beforeCall.registers) ∧
      (StackMoment.after { cpu := beforeCall, bus := returnsEverywhere } 1).saved =
        [.wayBack 1] ∧
      ∀ earlier < 2,
        (StackMoment.after { cpu := beforeCall, bus := returnsEverywhere } earlier).Restores := by
  obtain ⟨huses, hcall, hrun⟩ := stack_discipline beforeCall returnsEverywhere
  obtain ⟨hpulled, hcpu, -⟩ := huses [.push 3, .push 5, .pull, .pull] (by decide)
  obtain ⟨hsaved, hnests⟩ := StackMoment.nests_of_callsReturn beforeCall_callsReturn
  obtain ⟨hrestores, -⟩ := hrun 2 hnests
  refine ⟨hpulled, ?_, hcall beforeCall_callsReturn, ?_, hrestores⟩
  · rw [hcpu]
    rfl
  · rw [hsaved]
    rfl

end Cpu

end Famicom
