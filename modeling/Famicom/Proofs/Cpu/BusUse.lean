import Famicom.Cpu.Step

/-!
# How a step of the processor uses the bus

A step reaches the bus by reads, by pushes to the stack page and by at most one further write,
which comes last. Whatever reads and pushes keep is therefore kept up to that write, and
whatever all accesses keep is kept by the whole step.

The accesses of a step are those that a recorder around the bus notes. Answering them in turn
leads to the same bus as the step, so statements about single accesses carry over to it.
-/

namespace Famicom

variable {Bus : Type} [CpuBus Bus]

/-- Reads keep the property `P` of the bus. -/
def CpuBus.KeptByReads (P : Bus → Prop) : Prop :=
  ∀ bus address, P bus → P (CpuBus.read bus address).2

/-- Pushes to the stack page keep the property `P` of the bus. -/
def CpuBus.KeptByPushes (P : Bus → Prop) : Prop :=
  ∀ bus sp value, P bus → P (CpuBus.write bus (Cpu.stackAddress sp) value)

/-- The bus `after` is `before`, or `before` after one more write. -/
def CpuBus.OneWriteOn (before after : Bus) : Prop :=
  after = before ∨ ∃ address value, after = CpuBus.write before address value

namespace Cpu

open CpuBus

variable {P : Bus → Prop}

/-- Reading a word is two reads. -/
theorem keeps_readWord (reads : KeptByReads P) {bus : Bus} (h : P bus) (low high : UInt16) :
    P (readWord bus low high).2 :=
  reads _ high (reads _ low h)

/-- Finding an operand reads only. -/
theorem keeps_resolve (reads : KeptByReads P) {bus : Bus} (h : P bus) (mode : AddressingMode)
    (registers : Registers) (pc : UInt16) : P (mode.resolve registers pc bus).2 := by
  cases mode with
  | implied | accumulator | immediate => exact h
  | zeroPage | zeroPageX | zeroPageY | relative => exact reads _ _ h
  | absolute | absoluteX | absoluteY => exact keeps_readWord reads h _ _
  | indirect => exact keeps_readWord reads (keeps_readWord reads h _ _) _ _
  | indirectX | indirectY => exact keeps_readWord reads (reads _ _ h) _ _

/-- A word is pushed by two pushes. -/
theorem keeps_pushWord (pushes : KeptByPushes P) {bus : Bus} (h : P bus) (cpu : Cpu)
    (word : UInt16) : P (cpu.pushWord word bus).2 :=
  pushes _ _ _ (pushes _ _ _ h)

/-- A word is pulled by two reads. -/
theorem keeps_pullWord (reads : KeptByReads P) {bus : Bus} (h : P bus) (cpu : Cpu) :
    P (cpu.pullWord bus).2.2 :=
  reads _ _ (reads _ _ h)

/-- The way into a handler is three pushes and two reads. -/
theorem keeps_enter (reads : KeptByReads P) (pushes : KeptByPushes P) {bus : Bus} (h : P bus)
    (cpu : Cpu) (interrupt : Interrupt) : P (cpu.enter interrupt bus).2 :=
  keeps_readWord reads (pushes _ _ _ (keeps_pushWord pushes h _ _)) _ _

/-- A handler's address is read after the pushes. -/
theorem enter_pc (pushes : KeptByPushes P) {bus : Bus} (h : P bus) (cpu : Cpu)
    (interrupt : Interrupt) :
    ∃ pushed, P pushed ∧ (cpu.enter interrupt bus).1.pc =
      (readWord pushed interrupt.vector (interrupt.vector + 1)).1 :=
  ⟨_, pushes _ _ _ (keeps_pushWord pushes h _ _), rfl⟩

/-- An operation reads and pushes, and stores its result last. -/
theorem execute_oneWriteOn (reads : KeptByReads P) (pushes : KeptByPushes P) {bus : Bus}
    (h : P bus) (operation : Operation) (operand : Operand) (cpu : Cpu) :
    ∃ before, P before ∧ OneWriteOn before (operation.execute operand cpu bus).2 := by
  cases operation with
  | store _ | gatedStore _ => exact ⟨bus, h, .inr ⟨_, _, rfl⟩⟩
  | modify _ => exact ⟨_, reads _ _ h, .inr ⟨_, _, rfl⟩⟩
  | read _ | pla | plp => exact ⟨_, reads _ _ h, .inl rfl⟩
  | pha | php => exact ⟨_, pushes _ _ _ h, .inl rfl⟩
  | jsr => exact ⟨_, keeps_pushWord pushes h _ _, .inl rfl⟩
  | rts => exact ⟨_, keeps_pullWord reads h cpu, .inl rfl⟩
  | rti => exact ⟨_, keeps_pullWord reads (reads _ _ h) _, .inl rfl⟩
  | brk => exact ⟨_, keeps_enter reads pushes h _ .brk, .inl rfl⟩
  | register _ | jmp | nop | jam => exact ⟨bus, h, .inl rfl⟩
  | branch flag level =>
    refine ⟨bus, h, .inl ?_⟩
    simp only [Operation.execute]
    split <;> rfl

/-- An instruction reads its opcode and its operand before it is carried out. -/
theorem runInstruction_oneWriteOn (reads : KeptByReads P) (pushes : KeptByPushes P) {bus : Bus}
    (h : P bus) (cpu : Cpu) :
    ∃ before, P before ∧ OneWriteOn before (cpu.runInstruction bus).2.2 := by
  unfold runInstruction
  dsimp only
  generalize decode (CpuBus.read bus cpu.pc).1 = opcode
  exact execute_oneWriteOn reads pushes (keeps_resolve reads (reads _ _ h) _ _ _) _ _ _

/-- A step reads and pushes, and makes at most one other write, which is its last access. -/
theorem step_oneWriteOn (reads : KeptByReads P) (pushes : KeptByPushes P) {bus : Bus}
    (h : P bus) (cpu : Cpu) :
    ∃ before, P before ∧ OneWriteOn before (cpu.step bus).2.2 := by
  unfold step
  split
  · exact ⟨bus, h, .inl rfl⟩
  · split
    · exact ⟨_, keeps_enter reads pushes h _ _, .inl rfl⟩
    · exact runInstruction_oneWriteOn reads pushes h _

/-- What every access keeps is kept by a step. -/
theorem step_keeps (reads : KeptByReads P)
    (writes : ∀ bus address value, P bus → P (CpuBus.write bus address value)) {bus : Bus}
    (h : P bus) (cpu : Cpu) : P (cpu.step bus).2.2 := by
  obtain ⟨before, hbefore, hlast⟩ := cpu.step_oneWriteOn reads (fun _ _ _ => writes _ _ _) h
  rcases hlast with heq | ⟨address, value, heq⟩
  · exact heq ▸ hbefore
  · exact heq ▸ writes _ _ _ hbefore

end Cpu

/-- `forget` takes a bus to another one that answers alike. -/
structure CpuBus.Forgets {Full Bus : Type} [CpuBus Full] [CpuBus Bus] (forget : Full → Bus) :
    Prop where
  read : ∀ full address, CpuBus.read (forget full) address =
    ((CpuBus.read full address).1, forget (CpuBus.read full address).2)
  write : ∀ full address value, CpuBus.write (forget full) address value =
    forget (CpuBus.write full address value)
  nmiLine : ∀ full, CpuBus.nmiLine (forget full) = CpuBus.nmiLine full
  irqLine : ∀ full, CpuBus.irqLine (forget full) = CpuBus.irqLine full

/-- A recorded bus answers as the bus inside it. -/
theorem Recorded.bus_forgets : CpuBus.Forgets (Recorded.bus : Recorded Bus → Bus) where
  read _ _ := rfl
  write _ _ _ := rfl
  nmiLine _ := rfl
  irqLine _ := rfl

/-- A recorder around the bus behind answers and notes the same. -/
theorem Recorded.inside_forgets {Full : Type} [CpuBus Full] {forget : Full → Bus}
    (hf : CpuBus.Forgets forget) :
    CpuBus.Forgets fun recorded : Recorded Full =>
      ({ bus := forget recorded.bus, traffic := recorded.traffic } : Recorded Bus) where
  read recorded address := by
    change Recorded.read _ CpuBus.read address = _
    simp only [Recorded.read, hf.read]
    rfl
  write recorded address value := by
    change Recorded.write _ CpuBus.write address value = _
    simp only [Recorded.write, hf.write]
    rfl
  nmiLine recorded := hf.nmiLine recorded.bus
  irqLine recorded := hf.irqLine recorded.bus

namespace Cpu

open CpuBus

section Forget

variable {Full : Type} [CpuBus Full] {forget : Full → Bus}

/-- A word reads the same from the bus behind. -/
theorem readWord_forget (hf : Forgets forget) (full : Full) (low high : UInt16) :
    readWord (forget full) low high =
      ((readWord full low high).1, forget (readWord full low high).2) := by
  simp only [readWord, hf.read]

/-- The operand is the same on the bus behind. -/
theorem resolve_forget (hf : Forgets forget) (full : Full) (mode : AddressingMode)
    (registers : Registers) (pc : UInt16) :
    mode.resolve registers pc (forget full) =
      ((mode.resolve registers pc full).1, forget (mode.resolve registers pc full).2) := by
  cases mode <;>
    simp only [AddressingMode.resolve, AddressingMode.readPointer, readWord_forget hf, hf.read]

/-- The way into a handler is the same on the bus behind. -/
theorem enter_forget (hf : Forgets forget) (full : Full) (cpu : Cpu) (interrupt : Interrupt) :
    cpu.enter interrupt (forget full) =
      ((cpu.enter interrupt full).1, forget (cpu.enter interrupt full).2) := by
  simp only [enter, pushWord, push, hf.write, readWord_forget hf]

/-- An operation does the same on the bus behind. -/
theorem execute_forget (hf : Forgets forget) (full : Full) (operation : Operation)
    (operand : Operand) (cpu : Cpu) :
    operation.execute operand cpu (forget full) =
      ((operation.execute operand cpu full).1, forget (operation.execute operand cpu full).2) := by
  cases operation <;>
    simp only [Operation.execute, push, pull, pushWord, pullWord, enter_forget hf, hf.read,
      hf.write]
  -- a branch is left over: it never reaches the bus
  split <;> rfl

/-- A step does the same on the bus behind. -/
theorem step_forget (hf : Forgets forget) (full : Full) (cpu : Cpu) :
    cpu.step (forget full) =
      ((cpu.step full).1, (cpu.step full).2.1, forget (cpu.step full).2.2) := by
  unfold step
  split
  · rfl
  · rw [hf.nmiLine, hf.irqLine]
    split
    · simp only [enter_forget hf]
    · simp only [runInstruction, hf.read, resolve_forget hf, execute_forget hf]

/-- The reset sequence is the same on the bus behind. -/
theorem reset_forget (hf : Forgets forget) (full : Full) :
    reset (forget full) = ((reset full).1, forget (reset full).2) := by
  simp only [reset, readWord_forget hf, hf.nmiLine]

end Forget

/-- The accesses that the next step makes, oldest first. -/
def accesses (cpu : Cpu) (bus : Bus) : List Access :=
  (cpu.step ({ bus } : Recorded Bus)).2.2.traffic.toList

/-- A step makes the same accesses on the bus behind. -/
theorem accesses_forget {Full : Type} [CpuBus Full] {forget : Full → Bus} (hf : Forgets forget)
    (full : Full) (cpu : Cpu) : cpu.accesses (forget full) = cpu.accesses full := by
  have hstep := step_forget (Recorded.inside_forgets hf) { bus := full } cpu
  rw [accesses, accesses]
  exact congrArg (·.2.2.traffic.toList) hstep

end Cpu

/-- The access is a read, or a push to the stack page. -/
def Access.IsReadOrPush : Access → Prop
  | .read _ => True
  | .write address _ => ∃ sp, address = Cpu.stackAddress sp

/-- The bus after it has answered an access. -/
def CpuBus.respond (bus : Bus) : Access → Bus
  | .read address => (CpuBus.read bus address).2
  | .write address value => CpuBus.write bus address value

namespace Cpu

open CpuBus

/-- Answering the accesses of a step in turn leads to the bus after the step. -/
theorem foldl_accesses (cpu : Cpu) (bus : Bus) :
    (cpu.accesses bus).foldl respond bus = (cpu.step bus).2.2 := by
  let Replayed (recorded : Recorded Bus) : Prop :=
    recorded.traffic.toList.foldl respond bus = recorded.bus
  have hreplayed : Replayed (cpu.step ({ bus } : Recorded Bus)).2.2 := by
    refine cpu.step_keeps (P := Replayed) ?_ ?_ rfl
    · intro recorded address h
      change (recorded.traffic.push _).toList.foldl respond bus = _
      rw [Array.toList_push, List.foldl_append, h]
      rfl
    · intro recorded address value h
      change (recorded.traffic.push _).toList.foldl respond bus = _
      rw [Array.toList_push, List.foldl_append, h]
      rfl
  have hforget := step_forget Recorded.bus_forgets ({ bus } : Recorded Bus) cpu
  change cpu.step bus = _ at hforget
  rw [hforget]
  exact hreplayed

/-- The accesses of a step are reads and pushes, and at most one write after them. -/
theorem accesses_eq (cpu : Cpu) (bus : Bus) :
    ∃ quiet : List Access, (∀ access ∈ quiet, access.IsReadOrPush) ∧
      (cpu.accesses bus = quiet ∨
        ∃ address value, cpu.accesses bus = quiet ++ [.write address value]) := by
  let Quiet (recorded : Recorded Bus) : Prop :=
    ∀ access ∈ recorded.traffic.toList, access.IsReadOrPush
  have hpush (recorded : Recorded Bus) (access : Access) (hquiet : Quiet recorded)
      (haccess : access.IsReadOrPush) :
      ∀ a ∈ (recorded.traffic.push access).toList, a.IsReadOrPush := by
    intro a ha
    rw [Array.toList_push, List.mem_append, List.mem_singleton] at ha
    rcases ha with ha | rfl
    · exact hquiet a ha
    · exact haccess
  have hreads : KeptByReads Quiet := fun recorded address h => hpush recorded _ h trivial
  have hpushes : KeptByPushes Quiet := fun recorded sp value h =>
    hpush recorded _ h ⟨sp, rfl⟩
  have hstart : Quiet { bus } := by simp [Quiet]
  obtain ⟨before, hbefore, hlast⟩ := cpu.step_oneWriteOn hreads hpushes hstart
  refine ⟨before.traffic.toList, hbefore, ?_⟩
  rcases hlast with heq | ⟨address, value, heq⟩
  · exact .inl (by rw [accesses, heq])
  · refine .inr ⟨address, value, ?_⟩
    rw [accesses, heq]
    change (before.traffic.push _).toList = _
    rw [Array.toList_push]

end Cpu

end Famicom
