import Famicom.Proofs.Cpu.Interruptions

/-!
# The bits without storage

Two bits of the status byte have no storage in the chip. In the processor they stay at their idle
levels: the reserved bit is set and the break bit is clear, whatever is run, and also when a whole
status is taken from memory. In a pushed byte the reserved bit is set as well, and the break bit
names the reason: it is set when an instruction pushes the status, and clear when one of the
interrupt lines does. A handler that looks at the byte can therefore tell the two ways into it
apart, although they share a vector.
-/

namespace Famicom

namespace Status

/-- The bits without storage are at their idle levels. -/
structure Idle (status : Status) : Prop where
  reserved : status.reserved = true
  brk : status.brk = false

/-- The reserved bit of a status byte. -/
theorem bit_reserved (status : Status) : Byte.bit status.toByte 0x20 = status.reserved :=
  congrArg reserved status.ofByte_toByte

/-- The break bit of a status byte. -/
theorem bit_brk (status : Status) : Byte.bit status.toByte 0x10 = status.brk :=
  congrArg brk status.ofByte_toByte

/-- Taken back from memory, a status is the one that was pushed, whatever went with it in the bits
without storage. -/
theorem ofPulled_toByte {status : Status} (h : status.Idle) (reserved brk : Bool) :
    ofPulled { status with reserved, brk }.toByte = status := by
  rw [ofPulled, ofByte_toByte, ← h.reserved, ← h.brk]

/-- A status taken from memory has its bits without storage at their idle levels, whatever the
byte. -/
theorem idle_ofPulled (byte : UInt8) : (ofPulled byte).Idle := ⟨rfl, rfl⟩

end Status

/-- The bits without storage of the second status are those of the first one. -/
structure Status.SameIdle (before after : Status) : Prop where
  reserved : after.reserved = before.reserved
  brk : after.brk = before.brk

/-- Equal bits without storage are at their idle levels together. -/
theorem Status.Idle.of_same {before after : Status} (h : before.Idle)
    (hsame : before.SameIdle after) : after.Idle :=
  ⟨hsame.reserved.trans h.reserved, hsame.brk.trans h.brk⟩

/-- No computation from a byte reaches the bits without storage. -/
theorem ReadOperation.apply_sameIdle (operation : ReadOperation) (value : UInt8)
    (registers : Registers) :
    registers.status.SameIdle (operation.apply value registers).status := by
  cases operation <;> exact ⟨rfl, rfl⟩

/-- No change of a byte reaches the bits without storage. -/
theorem ModifyOperation.apply_sameIdle (operation : ModifyOperation) (value : UInt8)
    (registers : Registers) :
    registers.status.SameIdle (operation.apply value registers).2.status := by
  cases operation <;> exact ⟨rfl, rfl⟩

/-- No operation on registers reaches the bits without storage. -/
theorem RegisterOperation.apply_sameIdle (operation : RegisterOperation) (registers : Registers) :
    registers.status.SameIdle (operation.apply registers).status := by
  cases operation <;> exact ⟨rfl, rfl⟩

/-- No gated store reaches the status. -/
theorem GatedStore.apply_sameIdle (operation : GatedStore) (registers : Registers) :
    registers.status.SameIdle (operation.apply registers).status := by
  cases operation <;> exact ⟨rfl, rfl⟩

namespace Cpu

variable {Bus : Type} [CpuBus Bus] {cpu : Cpu}

/-- The bits without storage of the processor are at their idle levels. -/
def Idle (cpu : Cpu) : Prop := cpu.registers.status.Idle

/-- The way into a handler keeps the bits without storage idle. -/
theorem enter_idle (h : cpu.Idle) (interrupt : Interrupt) (bus : Bus) :
    (cpu.enter interrupt bus).1.Idle :=
  ⟨h.reserved, h.brk⟩

/-- Every operation keeps the bits without storage idle. -/
theorem execute_idle (h : cpu.Idle) (operation : Operation) (operand : Operand) (bus : Bus) :
    (operation.execute operand cpu bus).1.Idle := by
  cases operation with
  | read operation => exact h.of_same (operation.apply_sameIdle _ _)
  | gatedStore operation => exact h.of_same (operation.apply_sameIdle _)
  | modify operation => exact h.of_same (operation.apply_sameIdle _ _)
  | register operation => exact h.of_same (operation.apply_sameIdle _)
  | branch flag level =>
    simp only [Operation.execute]
    split <;> exact h
  -- these two take the whole status from memory
  | plp | rti => exact Status.idle_ofPulled (cpu.pull bus).1
  | brk =>
    refine enter_idle ?_ .brk bus
    exact ⟨h.reserved, h.brk⟩
  | _ => exact ⟨h.reserved, h.brk⟩

/-- A step keeps the bits without storage idle. -/
theorem step_idle (h : cpu.Idle) (bus : Bus) : (cpu.step bus).2.1.Idle := by
  have hpolled : (cpu.poll (CpuBus.nmiLine bus) (CpuBus.irqLine bus)).2.Idle := by
    rw [poll_snd]
    exact h
  unfold step
  split
  · exact h
  · split
    · next interrupt polled heq =>
      rw [heq] at hpolled
      exact enter_idle hpolled interrupt bus
    · next polled heq =>
      rw [heq] at hpolled
      unfold runInstruction
      dsimp only
      refine execute_idle ?_ _ _ _
      exact ⟨hpolled.reserved, hpolled.brk⟩

end Cpu

/-- One thing that happens to a processor, with the bus that it finds. Between two of them the
surroundings may have done anything. -/
inductive CpuUse (Bus : Type) where
  | step (bus : Bus)
  | reset (bus : Bus)

namespace Cpu

variable {Bus : Type} [CpuBus Bus]

/-- The processor after a use. -/
def after (cpu : Cpu) : CpuUse Bus → Cpu
  | .step bus => (cpu.step bus).2.1
  | .reset bus => (reset bus).1

/-- The processor after a history. -/
def afterAll (cpu : Cpu) (uses : List (CpuUse Bus)) : Cpu := uses.foldl after cpu

/-- Every use keeps the bits without storage idle. -/
theorem after_idle {cpu : Cpu} (h : cpu.Idle) (use : CpuUse Bus) : (cpu.after use).Idle := by
  cases use with
  | step bus => exact step_idle h bus
  | reset bus => exact ⟨rfl, rfl⟩

/-- A history keeps the bits without storage idle. -/
theorem afterAll_idle {cpu : Cpu} (h : cpu.Idle) (uses : List (CpuUse Bus)) :
    (cpu.afterAll uses).Idle := by
  induction uses generalizing cpu with
  | nil => exact h
  | cons use rest ih => exact ih (after_idle h use)

end Cpu

/-- What has the processor push its status. -/
inductive StatusPush where
  /-- The instruction that does nothing else. -/
  | php
  /-- The way into a handler. -/
  | handler (interrupt : Interrupt)
deriving DecidableEq, Repr

namespace StatusPush

/-- An instruction pushes the status, and not one of the interrupt lines. -/
def byInstruction : StatusPush → Bool
  | php | handler .brk => true
  | handler .nmi | handler .irq => false

/-- Two instructions push the status. -/
theorem byInstruction_iff (push : StatusPush) :
    push.byInstruction = true ↔ push = php ∨ push = handler .brk := by
  rcases push with _ | (_ | _ | _) <;> decide

/-- How many bytes are pushed before the status: a handler's return address lies above it. -/
def depth : StatusPush → UInt8
  | php => 0
  | handler _ => 2

end StatusPush

/-- What an operation pushes the status for, if it does. -/
def Operation.statusPush : Operation → Option StatusPush
  | .php => some .php
  | .brk => some (.handler .brk)
  | _ => none

/-- The address and the value of an access that writes. -/
def Access.written : Access → Option (UInt16 × UInt8)
  | .read _ => none
  | .write address value => some (address, value)

namespace Cpu

variable {Bus : Type} [CpuBus Bus]

/-- What the next step pushes the status for, if it does: an interrupt that is due, or else the
instruction at the program counter. -/
def nextPush (cpu : Cpu) (bus : Bus) : Option StatusPush :=
  if cpu.jammed then none
  else
    match (cpu.poll (CpuBus.nmiLine bus) (CpuBus.irqLine bus)).1 with
    | some interrupt => some (.handler interrupt)
    | none => (decode (CpuBus.read bus cpu.pc).1).operation.statusPush

/-- What the next step writes, with the addresses, oldest first. -/
def writes (cpu : Cpu) (bus : Bus) : List (UInt16 × UInt8) :=
  (cpu.accesses bus).filterMap Access.written

/-- The status as it is pushed: the break bit tells who does it. -/
def pushedFor (cpu : Cpu) (push : StatusPush) : UInt8 :=
  { cpu.registers.status with reserved := true, brk := push.byInstruction }.toByte

/-- The place in the stack of a pushed status. -/
def pushedAt (cpu : Cpu) (push : StatusPush) : UInt16 :=
  stackAddress (cpu.registers.sp - push.depth)

/-- The accesses on the way into a handler come after those before it. -/
theorem enter_traffic (cpu : Cpu) (interrupt : Interrupt) (recorded : Recorded Bus) :
    (cpu.enter interrupt recorded).2.traffic.toList =
      recorded.traffic.toList ++ cpu.entryAccesses interrupt := by
  change (((((recorded.traffic.push _).push _).push _).push _).push _).toList = _
  simp only [Array.toList_push, List.append_assoc]
  rfl

/-- The status is the last byte that is written on the way into a handler. -/
theorem getLast_written_entry (cpu : Cpu) (interrupt : Interrupt) (earlier : List Access) :
    ((earlier ++ cpu.entryAccesses interrupt).filterMap Access.written).getLast? =
      some (cpu.pushedAt (.handler interrupt), cpu.pushedFor (.handler interrupt)) := by
  have hplace : cpu.registers.sp - 1 - 1 = cpu.registers.sp - 2 := by
    rw [UInt8.sub_eq_add_neg, UInt8.sub_eq_add_neg, UInt8.sub_eq_add_neg, UInt8.add_assoc]
    rfl
  have hbyte : (interrupt.pushedStatus cpu.registers.status).toByte =
      cpu.pushedFor (.handler interrupt) := by
    cases interrupt <;> rfl
  rw [List.filterMap_append, List.getLast?_append, entryAccesses, hbyte, hplace]
  rfl

/-- An instruction that pushes the status writes it last. -/
theorem getLast_written_instruction {cpu : Cpu} {recorded : Recorded Bus} {push : StatusPush}
    (h : (decode (CpuBus.read recorded cpu.pc).1).operation.statusPush = some push) :
    ((cpu.runInstruction recorded).2.2.traffic.toList.filterMap Access.written).getLast? =
      some (cpu.pushedAt push, cpu.pushedFor push) := by
  unfold runInstruction
  dsimp only
  generalize decode (CpuBus.read recorded cpu.pc).1 = opcode at h ⊢
  unfold Operation.statusPush at h
  split at h
  · next hphp =>
    obtain rfl := Option.some.inj h
    rw [hphp]
    change (List.filterMap Access.written (Array.push _ _).toList).getLast? = _
    rw [Array.toList_push, List.filterMap_append, List.getLast?_append, pushedAt, StatusPush.depth,
      UInt8.sub_zero]
    rfl
  · next hbrk =>
    obtain rfl := Option.some.inj h
    rw [hbrk]
    unfold Operation.execute
    dsimp only
    rw [enter_traffic]
    exact getLast_written_entry _ _ _
  · cases h

/-- A look at the lines finds an interrupt or none, and remembers the level. -/
theorem poll_eq (cpu : Cpu) (nmi irq : Bool) :
    (∃ interrupt, cpu.poll nmi irq = (some interrupt, cpu.lookedAt nmi)) ∨
      cpu.poll nmi irq = (none, cpu.lookedAt nmi) := by
  obtain ⟨-, hpoll⟩ | ⟨-, -, hpoll⟩ | ⟨-, -, hpoll⟩ := cpu.poll_cases nmi irq
  · exact .inl ⟨_, hpoll⟩
  · exact .inl ⟨_, hpoll⟩
  · exact .inr hpoll

/-- A step that pushes the status writes it last. -/
theorem getLast_writes {cpu : Cpu} {bus : Bus} {push : StatusPush}
    (h : cpu.nextPush bus = some push) :
    (cpu.writes bus).getLast? = some (cpu.pushedAt push, cpu.pushedFor push) := by
  unfold nextPush at h
  split at h
  · cases h
  next hruns =>
  rw [Bool.not_eq_true] at hruns
  rcases cpu.poll_eq (CpuBus.nmiLine bus) (CpuBus.irqLine bus) with ⟨interrupt, hpoll⟩ | hpoll
  · rw [hpoll] at h
    obtain rfl := Option.some.inj h
    have henters : ({ cpu, bus } : Boundary Bus).Enters interrupt :=
      (Boundary.step_of_poll_some hruns hpoll).1
    rw [writes, henters]
    exact cpu.getLast_written_entry interrupt []
  · rw [hpoll] at h
    -- a recorder around the bus shows the same lines and the same opcode
    have hruns' : ({ cpu, bus := { bus } } : Boundary (Recorded Bus)).RunsInstruction :=
      Boundary.step_of_poll_none hruns hpoll
    rw [writes, accesses, hruns'.2]
    exact getLast_written_instruction h

/-- **The bits without storage.** Whatever has been run since power-on, on whatever bus, the
reserved bit of the status is set and its break bit is clear. When the next step pushes the status,
the last byte that it writes goes to the status's place in the stack, and pulling it would give the
status back. Its reserved bit is set, and its break bit is set exactly when one of the two
instructions pushes it. -/
theorem status_tells_reason (uses : List (CpuUse Bus)) :
    let cpu := ({} : Cpu).afterAll uses
    let status := cpu.registers.status
    Byte.bit status.toByte 0x20 = true ∧ Byte.bit status.toByte 0x10 = false ∧
      ∀ (bus : Bus) (push : StatusPush), cpu.nextPush bus = some push →
        ∃ byte, (cpu.writes bus).getLast? = some (cpu.pushedAt push, byte) ∧
          Status.ofPulled byte = status ∧ Byte.bit byte 0x20 = true ∧
          (Byte.bit byte 0x10 = true ↔ push = .php ∨ push = .handler .brk) := by
  intro cpu status
  have hidle : cpu.Idle := afterAll_idle ⟨rfl, rfl⟩ uses
  refine ⟨status.bit_reserved.trans hidle.reserved, status.bit_brk.trans hidle.brk, ?_⟩
  intro bus push hpush
  refine ⟨cpu.pushedFor push, getLast_writes hpush, Status.ofPulled_toByte hidle _ _,
    Status.bit_reserved _, ?_⟩
  rw [pushedFor, Status.bit_brk]
  exact push.byInstruction_iff

/-- A processor that has just been switched on and finds the non-maskable line high pushes a byte
that no instruction would push. -/
theorem status_tells_line :
    let bus : FlatBus := { nmi := true }
    ({} : Cpu).nextPush bus = some (.handler .nmi) ∧
      ∃ byte, (({} : Cpu).writes bus).getLast? = some (0x01FB, byte) ∧
        Byte.bit byte 0x10 = false := by
  intro bus
  have hpush : ({} : Cpu).nextPush bus = some (.handler .nmi) := rfl
  obtain ⟨byte, hlast, -, -, hbrk⟩ :=
    (status_tells_reason ([] : List (CpuUse FlatBus))).2.2 bus _ hpush
  refine ⟨hpush, byte, hlast, Bool.eq_false_iff.mpr fun hset => ?_⟩
  exact absurd (hbrk.mp hset) (by decide)

end Cpu

end Famicom
