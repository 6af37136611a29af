import Famicom.Proofs.Cpu.PushedStatus
import Famicom.Proofs.Cpu.StepTime

/-!
# What an instruction leaves alone

Every operation has a list of the flags and a list of the registers that it may change, and a
distance by which it moves the stack pointer. Whatever is not on the lists is the same after the
step, on any bus and whatever the operand is. The bits of the status without storage are on no list:
a status that is taken from memory leaves them at their idle levels. The bus is written to at
places that follow from the operand and the stack pointer, and nowhere else.
-/

namespace Famicom

/-- The bits of the status. -/
inductive StatusBit where
  | negative
  | overflow
  | reserved
  | brk
  | decimal
  | interruptDisable
  | zero
  | carry
deriving DecidableEq, Repr

/-- The level of one bit of the status. -/
def Status.level (status : Status) : StatusBit → Bool
  | .negative => status.negative
  | .overflow => status.overflow
  | .reserved => status.reserved
  | .brk => status.brk
  | .decimal => status.decimal
  | .interruptDisable => status.interruptDisable
  | .zero => status.zero
  | .carry => status.carry

/-- The registers that hold a byte each. -/
inductive RegisterName where
  | a
  | x
  | y
  | sp
deriving DecidableEq, Repr

/-- The byte in one of the registers. -/
def Registers.value (registers : Registers) : RegisterName → UInt8
  | .a => registers.a
  | .x => registers.x
  | .y => registers.y
  | .sp => registers.sp

namespace StatusBit

/-- The flags that tell of a result. -/
def ofResult : List StatusBit := [.negative, .zero]

/-- The flags that tell of a comparison or of a shift. -/
def ofShift : List StatusBit := [.negative, .zero, .carry]

/-- The flags that tell of a sum. -/
def ofSum : List StatusBit := [.negative, .overflow, .zero, .carry]

/-- The bits with storage. -/
def stored : List StatusBit :=
  [.negative, .overflow, .decimal, .interruptDisable, .zero, .carry]

end StatusBit

/-- What an operation may change of the working registers. -/
structure Effect where
  flags : List StatusBit := []
  targets : List RegisterName := []
  /-- How far the stack pointer goes, round its page, when it is no target. -/
  move : UInt8 := 0

/-- No more has changed than the effect says. -/
structure Effect.Allows (effect : Effect) (before after : Registers) : Prop where
  flags : ∀ bit ∉ effect.flags, after.status.level bit = before.status.level bit
  targets : ∀ name ∉ effect.targets, name ≠ .sp → after.value name = before.value name
  sp : .sp ∉ effect.targets → after.sp = before.sp + effect.move

open StatusBit RegisterName

/-- What a computation from a byte may change. -/
def ReadOperation.effect : ReadOperation → Effect
  | .lda | .and | .ora | .eor | .ane => { flags := ofResult, targets := [.a] }
  | .ldx => { flags := ofResult, targets := [.x] }
  | .ldy => { flags := ofResult, targets := [.y] }
  | .lax | .lxa => { flags := ofResult, targets := [.a, .x] }
  | .las => { flags := ofResult, targets := [.a, .x, .sp] }
  | .anc | .alr => { flags := ofShift, targets := [.a] }
  | .sbx => { flags := ofShift, targets := [.x] }
  | .cmp | .cpx | .cpy => { flags := ofShift }
  | .adc | .sbc | .arr => { flags := ofSum, targets := [.a] }
  | .bit => { flags := [.negative, .overflow, .zero] }
  | .nop => {}

/-- What a change in memory may change of the registers. -/
def ModifyOperation.effect : ModifyOperation → Effect
  | .inc | .dec => { flags := ofResult }
  | .asl | .lsr | .rol | .ror | .dcp => { flags := ofShift }
  | .slo | .rla | .sre => { flags := ofShift, targets := [.a] }
  | .rra | .isc => { flags := ofSum, targets := [.a] }

/-- What an operation on registers may change. -/
def RegisterOperation.effect : RegisterOperation → Effect
  | .txa | .tya => { flags := ofResult, targets := [.a] }
  | .tax | .tsx | .inx | .dex => { flags := ofResult, targets := [.x] }
  | .tay | .iny | .dey => { flags := ofResult, targets := [.y] }
  | .txs => { targets := [.sp] }
  | .shift _ => { flags := ofShift, targets := [.a] }
  | .clc | .sec => { flags := [.carry] }
  | .cli | .sei => { flags := [.interruptDisable] }
  | .cld | .sed => { flags := [.decimal] }
  | .clv => { flags := [.overflow] }

/-- What a gated store may change of the registers. -/
def GatedStore.effect : GatedStore → Effect
  | .sha | .shx | .shy => {}
  | .tas => { targets := [.sp] }

namespace Operation

/-- What an operation may change of the registers. -/
def effect : Operation → Effect
  | .read operation => operation.effect
  | .gatedStore operation => operation.effect
  | .modify operation => operation.effect
  | .register operation => operation.effect
  | .pha | .php => { move := -1 }
  | .pla => { flags := ofResult, targets := [.a], move := 1 }
  | .plp => { flags := stored, move := 1 }
  | .jsr => { move := -2 }
  | .rts => { move := 2 }
  | .rti => { flags := stored, move := 3 }
  | .brk => { flags := [.interruptDisable], move := -3 }
  | .store _ | .branch _ _ | .jmp | .nop | .jam => {}

/-- The addresses that an operation writes to, in turn. -/
def writePlaces (operation : Operation) (operand : Operand) (registers : Registers) :
    List UInt16 :=
  let stack := Cpu.stackAddress
  let sp := registers.sp
  match operation with
  | .store _ | .modify _ => [operand.address]
  | .gatedStore operation => [operation.target operand registers]
  | .pha | .php => [stack sp]
  | .jsr => [stack sp, stack (sp - 1)]
  | .brk => [stack sp, stack (sp - 1), stack (sp - 1 - 1)]
  | .read _ | .register _ | .branch _ _ | .pla | .plp | .jmp | .rts | .rti | .nop | .jam => []

end Operation

/-- What stays the same is allowed by any effect that does not move the stack pointer. -/
theorem Effect.Allows.refl {effect : Effect} (h : effect.move = 0) (registers : Registers) :
    effect.Allows registers registers where
  flags _ _ := rfl
  targets _ _ _ := rfl
  sp _ := by rw [h, UInt8.add_zero]

/-- Work on the stack alone changes no register but the stack pointer. -/
theorem Effect.Allows.of_moved {effect : Effect} {before : Registers} {sp : UInt8} {status : Status}
    (hflags : ∀ bit ∉ effect.flags, status.level bit = before.status.level bit)
    (hsp : sp = before.sp + effect.move) : effect.Allows before { before with sp, status } where
  flags := hflags
  targets name _ hname := by cases name <;> first | rfl | contradiction
  sp _ := hsp

/-- A computation from a byte changes no more than it may. -/
theorem ReadOperation.effect_allows (operation : ReadOperation) (value : UInt8)
    (registers : Registers) :
    operation.effect.Allows registers (operation.apply value registers) := by
  constructor
  · intro bit hbit
    cases operation <;> cases bit <;> first | rfl | exact absurd (by decide) hbit
  · intro name hname hsp
    cases operation <;> cases name <;> first | rfl | exact absurd (by decide) hname
  · intro hsp
    cases operation <;> first | exact (UInt8.add_zero _).symm | exact absurd (by decide) hsp

/-- A change in memory changes no more of the registers than it may. -/
theorem ModifyOperation.effect_allows (operation : ModifyOperation) (value : UInt8)
    (registers : Registers) :
    operation.effect.Allows registers (operation.apply value registers).2 := by
  constructor
  · intro bit hbit
    cases operation <;> cases bit <;> first | rfl | exact absurd (by decide) hbit
  · intro name hname hsp
    cases operation <;> cases name <;> first | rfl | exact absurd (by decide) hname
  · intro hsp
    cases operation <;> exact (UInt8.add_zero _).symm

/-- An operation on registers changes no more than it may. -/
theorem RegisterOperation.effect_allows (operation : RegisterOperation) (registers : Registers) :
    operation.effect.Allows registers (operation.apply registers) := by
  constructor
  · intro bit hbit
    cases operation with
    | shift kind => cases kind <;> cases bit <;> first | rfl | exact absurd (by decide) hbit
    | _ => cases bit <;> first | rfl | exact absurd (by decide) hbit
  · intro name hname hsp
    cases operation with
    | shift kind => cases kind <;> cases name <;> first | rfl | exact absurd (by decide) hname
    | _ => cases name <;> first | rfl | exact absurd (by decide) hname
  · intro hsp
    cases operation <;> first | exact (UInt8.add_zero _).symm | exact absurd (by decide) hsp

/-- A gated store changes no more of the registers than it may. -/
theorem GatedStore.effect_allows (operation : GatedStore) (registers : Registers) :
    operation.effect.Allows registers (operation.apply registers) := by
  cases operation with
  | sha | shx | shy => exact .refl rfl registers
  | tas =>
    refine ⟨fun _ _ => rfl, fun name _ hsp => ?_, fun hsp => absurd (by decide) hsp⟩
    cases name <;> first | rfl | contradiction

/-- A whole status from memory changes no more than the bits with storage, when the others are at
their idle levels before. -/
theorem Status.ofPulled_level {status : Status} (h : status.Idle) (byte : UInt8)
    {bit : StatusBit} (hbit : bit ∉ stored) : (ofPulled byte).level bit = status.level bit := by
  cases bit with
  | reserved => exact h.reserved.symm
  | brk => exact h.brk.symm
  | _ => exact absurd (by decide) hbit

namespace Operation

variable {Bus : Type} [CpuBus Bus]

/-- Carrying out an operation changes no more than it may. -/
theorem effect_allows (operation : Operation) {cpu : Cpu} {registers : Registers}
    (hbefore : cpu.registers = registers) (h : registers.status.Idle) (operand : Operand)
    (bus : Bus) :
    operation.effect.Allows registers (operation.execute operand cpu bus).1.registers := by
  obtain rfl := hbefore
  cases operation with
  | read operation => exact operation.effect_allows _ _
  | gatedStore operation => exact operation.effect_allows _
  | modify operation => exact operation.effect_allows _ _
  | register operation => exact operation.effect_allows _
  | store operation => exact .refl rfl _
  | jmp | nop | jam => exact .refl rfl _
  | branch flag level =>
    simp only [execute]
    split <;> exact .refl rfl _
  | pha | php => exact .of_moved (fun _ _ => rfl) (UInt8.sub_eq_add_neg _ _)
  | pla =>
    refine ⟨fun bit hbit => ?_, fun name hname hsp => ?_, fun _ => rfl⟩
    · cases bit <;> first | rfl | exact absurd (by decide) hbit
    · cases name <;> first | rfl | exact absurd (by decide) hname | contradiction
  | plp => exact .of_moved (fun _ hbit => Status.ofPulled_level h _ hbit) rfl
  | jsr =>
    refine .of_moved (fun _ _ => rfl) ?_
    change cpu.registers.sp - 1 - 1 = cpu.registers.sp + -2
    grind
  | rts =>
    refine .of_moved (fun _ _ => rfl) ?_
    change cpu.registers.sp + 1 + 1 = cpu.registers.sp + 2
    grind
  | rti =>
    refine .of_moved (fun _ hbit => Status.ofPulled_level h _ hbit) ?_
    change cpu.registers.sp + 1 + 1 + 1 = cpu.registers.sp + 3
    grind
  | brk =>
    refine .of_moved (fun bit hbit => ?_) ?_
    · cases bit <;> first | rfl | exact absurd (by decide) hbit
    · change cpu.registers.sp - 1 - 1 - 1 = cpu.registers.sp + -3
      grind

end Operation

namespace Recorded

variable {Bus : Type} [CpuBus Bus]

/-- The addresses that have been written to, oldest first. -/
def places (recorded : Recorded Bus) : List UInt16 :=
  recorded.traffic.toList.filterMap fun access => access.written.map Prod.fst

/-- A read writes nowhere. -/
theorem places_read (recorded : Recorded Bus) (address : UInt16) :
    (CpuBus.read recorded address).2.places = recorded.places := by
  change (recorded.traffic.push (.read address)).toList.filterMap _ = _
  rw [Array.toList_push, List.filterMap_append]
  exact List.append_nil _

/-- A write adds its address. -/
theorem places_write (recorded : Recorded Bus) (address : UInt16) (value : UInt8) :
    (CpuBus.write recorded address value).places = recorded.places ++ [address] := by
  change (recorded.traffic.push (.write address value)).toList.filterMap _ = _
  rw [Array.toList_push, List.filterMap_append]
  rfl

/-- Finding an operand writes nowhere. -/
theorem places_resolve (mode : AddressingMode) (registers : Registers) (pc : UInt16)
    (recorded : Recorded Bus) :
    (mode.resolve registers pc recorded).2.places = recorded.places := by
  apply Cpu.keeps_resolve (P := fun after : Recorded Bus => after.places = recorded.places)
  · exact fun after address h => (places_read after address).trans h
  · rfl

end Recorded

/-- Carrying out an operation writes to its places. -/
theorem Operation.places_execute {Bus : Type} [CpuBus Bus] (operation : Operation)
    (operand : Operand) (cpu : Cpu) (recorded : Recorded Bus) :
    (operation.execute operand cpu recorded).2.places =
      recorded.places ++ operation.writePlaces operand cpu.registers := by
  unfold execute writePlaces
  cases operation with
  | branch flag level =>
    dsimp only
    split <;> exact (List.append_nil _).symm
  | register _ | jmp | nop | jam => exact (List.append_nil _).symm
  | _ =>
    simp only [Cpu.push, Cpu.pull, Cpu.pushWord, Cpu.pullWord, Cpu.enter, Cpu.mapRegisters,
      CpuBus.readWord, Recorded.places_read, Recorded.places_write, List.append_assoc,
      List.append_nil, List.cons_append, List.nil_append]

namespace Cpu

variable {Bus : Type} [CpuBus Bus] {cpu : Cpu} {bus : Bus}

/-- An instruction changes no more than its operation may. -/
theorem runInstruction_effect_allows (h : cpu.Idle) (bus : Bus) :
    (cpu.fetched bus).operation.effect.Allows cpu.registers
      (cpu.runInstruction bus).2.1.registers := by
  unfold runInstruction fetched
  dsimp only
  generalize decode (CpuBus.read bus cpu.pc).1 = opcode
  refine opcode.operation.effect_allows ?_ h _ (_ : Bus)
  rfl

/-- What the instruction at the program counter works on. -/
def found (cpu : Cpu) (bus : Bus) : Operand :=
  ((cpu.fetched bus).mode.resolve cpu.registers (cpu.pc + 1) (CpuBus.read bus cpu.pc).2).1

/-- An instruction writes to the places of its operation. -/
theorem places_runInstruction (cpu : Cpu) (recorded : Recorded Bus) :
    (cpu.runInstruction recorded).2.2.places = recorded.places ++
      (cpu.fetched recorded).operation.writePlaces (cpu.found recorded) cpu.registers := by
  unfold runInstruction found fetched
  dsimp only
  generalize decode (CpuBus.read recorded cpu.pc).1 = opcode
  rw [Operation.places_execute, Recorded.places_resolve, Recorded.places_read]

/-- A recorder around the bus shows the same operand. -/
theorem found_recorded (cpu : Cpu) (recorded : Recorded Bus) :
    cpu.found recorded = cpu.found recorded.bus := by
  unfold found fetched
  rw [Recorded.bus_forgets.read recorded cpu.pc]
  dsimp only
  rw [resolve_forget Recorded.bus_forgets]

/-- **What an instruction leaves alone.** When an instruction runs, on any bus, no flag and no
register changes but those that its operation names, and the stack pointer moves by a fixed
distance round its page if it is not named. The bits of the status without storage stay as they
are. The bus is written to at the places of the operation, in turn, and nowhere else. -/
theorem step_changes_only (hidle : cpu.Idle) (hruns : cpu.jammed = false)
    (hdue : cpu.interruptDue (CpuBus.nmiLine bus) (CpuBus.irqLine bus) = false) :
    let operation := (cpu.fetched bus).operation
    operation.effect.Allows cpu.registers (cpu.step bus).2.1.registers ∧
      (cpu.writes bus).map Prod.fst = operation.writePlaces (cpu.found bus) cpu.registers := by
  intro operation
  let looked : Cpu := { cpu with nmiLevel := CpuBus.nmiLine bus, nmiPending := false }
  constructor
  · have hlooked : looked.Idle := hidle
    have hfetched : looked.fetched bus = cpu.fetched bus := rfl
    have hstep : cpu.step bus = looked.runInstruction bus := step_of_not_due hruns hdue
    have hallows := runInstruction_effect_allows hlooked bus
    rw [hfetched, ← hstep] at hallows
    exact hallows
  · -- a recorder around the bus shows the same lines, the same opcode and the same operand
    have hfetched : looked.fetched ({ bus } : Recorded Bus) = cpu.fetched bus := rfl
    have hfound : looked.found ({ bus } : Recorded Bus) = cpu.found bus := looked.found_recorded _
    have hstep : cpu.step ({ bus } : Recorded Bus) = looked.runInstruction { bus } :=
      step_of_not_due hruns hdue
    have hplaces := looked.places_runInstruction ({ bus } : Recorded Bus)
    have hstart : ({ bus } : Recorded Bus).places = [] := rfl
    rw [hfetched, hfound, ← hstep, hstart, List.nil_append] at hplaces
    rw [writes, List.map_filterMap, accesses, ← Recorded.places, hplaces]

/-- A return from a handler that finds its bytes round the end of the stack's page. -/
def beforeHandlerReturn : Cpu :=
  { pc := 0x8000, registers := { a := 0x12, sp := 0xFE, status := .initial } }

/-- Memory that holds the opcode of such a return everywhere. -/
def handlerReturnsEverywhere : FlatBus := { memory := Memory.filled 16 0x40 }

/-- The byte that is taken as the status has its fifth bit clear, and yet that bit stays set. -/
theorem step_changes_only_in_return :
    let after := (beforeHandlerReturn.step handlerReturnsEverywhere).2.1.registers
    beforeHandlerReturn.Idle ∧ beforeHandlerReturn.jammed = false ∧
      beforeHandlerReturn.interruptDue handlerReturnsEverywhere.nmi
        handlerReturnsEverywhere.irq = false ∧
      (beforeHandlerReturn.writes handlerReturnsEverywhere).map Prod.fst = [] ∧
      Byte.bit 0x40 0x20 = false ∧
      after.status.reserved = true ∧ after.a = 0x12 ∧ after.sp = 0x01 := by
  intro after
  have hidle : beforeHandlerReturn.Idle := ⟨rfl, rfl⟩
  have hoperation :
      (beforeHandlerReturn.fetched handlerReturnsEverywhere).operation = .rti := by
    rw [fetched_of_decode (Memory.get_filled _ _) decode_rti]
    rfl
  -- any registers that are allowed will do: nothing may run the step
  have hkept {registers : Registers}
      (h : (Operation.rti.effect).Allows beforeHandlerReturn.registers registers) :
      registers.status.reserved = true ∧ registers.a = 0x12 ∧ registers.sp = 0x01 :=
    ⟨h.flags .reserved (by decide), h.targets .a (by decide) (by decide), h.sp (by decide)⟩
  have hdue : beforeHandlerReturn.interruptDue (CpuBus.nmiLine handlerReturnsEverywhere)
      (CpuBus.irqLine handlerReturnsEverywhere) = false := rfl
  have honly := step_changes_only hidle rfl hdue
  rw [hoperation] at honly
  exact ⟨hidle, rfl, rfl, honly.2, by decide, hkept honly.1⟩

end Cpu

end Famicom
