import Famicom.Proofs.Cpu.Cycles
import Famicom.Proofs.Cpu.Polling

/-!
# The time of a step

How long a step takes, from the state before it: a stopped processor and the way into a handler
have fixed times, and an instruction takes the base count of its row with two additions. A read
pays for indexing that leaves the page of the base address, and a branch that is taken pays for
itself and once more for leaving the page of the next instruction. Pages are counted in numbers
here, with addresses going round at the end of the space.
-/

namespace Famicom

/-- A byte as a signed number. -/
def signedByte (byte : UInt8) : Int :=
  if byte.toNat < 0x80 then byte.toNat else byte.toNat - 0x100

/-- Going a distance from an address, round the address space, leads to another page. -/
def LeavesPage (base : Nat) (distance : Int) : Prop :=
  (base + distance) % 0x10000 / 0x100 ≠ base / 0x100

instance (base : Nat) (distance : Int) : Decidable (LeavesPage base distance) :=
  inferInstanceAs (Decidable (_ ≠ _))

theorem toNat_page (address : UInt16) : (page address).toNat = address.toNat / 0x100 :=
  UInt16.toNat_div _ _

/-- A displaced operand has crossed exactly when the distance leads to another page. -/
theorem Operand.displaced_crossed {base distance : UInt16} {steps : Int}
    (h : ((base + distance).toNat : Int) = (base.toNat + steps) % 0x10000) :
    (Operand.displaced base distance).crossed = decide (LeavesPage base.toNat steps) := by
  have hpages : page base = page (base + distance) ↔
      base.toNat / 0x100 = (base + distance).toNat / 0x100 := by
    rw [← UInt16.toNat_inj, toNat_page, toNat_page]
  change (page base != page (base + distance)) = _
  rw [Bool.eq_iff_iff, bne_iff_ne, ne_eq, hpages, decide_eq_true_eq, LeavesPage, ← h]
  omega

/-- An index is a distance upwards. -/
theorem toNat_add_index (base : UInt16) (index : UInt8) :
    ((base + index.toUInt16).toNat : Int) = (base.toNat + (index.toNat : Int)) % 0x10000 := by
  rw [UInt16.toNat_add, UInt8.toNat_toUInt16]
  omega

/-- A signed byte is a distance in both directions. -/
theorem toNat_add_signedDistance (base : UInt16) (byte : UInt8) :
    ((base + signedDistance byte).toNat : Int) = (base.toNat + signedByte byte) % 0x10000 := by
  have hbyte : byte.toNat < 256 := byte.toNat_lt
  rw [UInt16.toNat_add, signedDistance, signedByte, Byte.isNegative_eq_decide]
  by_cases hsign : 0x80 ≤ byte.toNat
  · rw [decide_eq_true hsign, if_pos rfl, if_neg (by omega), UInt16.toNat_add,
      UInt8.toNat_toUInt16]
    change ((_ + (_ + 0xFF00) % _) % _ : Nat) = (_ : Int)
    omega
  · rw [decide_eq_false hsign, if_neg (by decide), if_pos (by omega), UInt8.toNat_toUInt16]
    omega

namespace AddressingMode

variable {Bus : Type} [CpuBus Bus]

/-- The word read at two addresses in turn, low byte first, as a number. -/
def numberRead (bus : Bus) (low high : UInt16) : Nat :=
  (CpuBus.read bus low).1.toNat + 0x100 * (CpuBus.read (CpuBus.read bus low).2 high).1.toNat

/-- The base address and the index, for the modes that index a whole address. -/
def indexing (mode : AddressingMode) (registers : Registers) (pc : UInt16) (bus : Bus) :
    Option (Nat × Nat) :=
  match mode with
  | absoluteX => some (numberRead bus pc (pc + 1), registers.x.toNat)
  | absoluteY => some (numberRead bus pc (pc + 1), registers.y.toNat)
  | indirectY =>
    let pointer := (CpuBus.read bus pc).1
    some (numberRead (CpuBus.read bus pc).2 pointer.toUInt16 (pointer + 1).toUInt16,
      registers.y.toNat)
  | _ => none

theorem toNat_readWord (bus : Bus) (low high : UInt16) :
    (CpuBus.readWord bus low high).1.toNat = numberRead bus low high := by
  have hlow : (CpuBus.read bus low).1.toNat < 256 := UInt8.toNat_lt _
  have hhigh : (CpuBus.read (CpuBus.read bus low).2 high).1.toNat < 256 := UInt8.toNat_lt _
  unfold CpuBus.readWord numberRead
  dsimp only
  rw [UInt16.toNat_add, UInt16.toNat_mul, UInt8.toNat_toUInt16, UInt8.toNat_toUInt16]
  change (_ * 0x100 % _ + _) % _ = _
  omega

/-- The operand of an indexing mode has crossed exactly when the index leads to another page. -/
theorem resolve_crossed_of_indexing {mode : AddressingMode} {registers : Registers}
    {pc : UInt16} {bus : Bus} {base index : Nat}
    (h : mode.indexing registers pc bus = some (base, index)) :
    (mode.resolve registers pc bus).1.crossed = decide (LeavesPage base index) := by
  have hword (after : Bus) (low high : UInt16) (register : UInt8) :
      (Operand.displaced (CpuBus.readWord after low high).1 register.toUInt16).crossed =
        decide (LeavesPage (numberRead after low high) register.toNat) := by
    rw [Operand.displaced_crossed (toNat_add_index _ _), toNat_readWord]
  cases mode with
  | absoluteX | absoluteY | indirectY =>
    obtain ⟨rfl, rfl⟩ := Prod.mk.inj (Option.some.inj h)
    exact hword _ _ _ _
  | _ => cases h

/-- The operand of a branch has crossed exactly when it lies on another page than the next
instruction. -/
theorem resolve_relative_crossed (registers : Registers) (pc : UInt16) (bus : Bus) :
    (relative.resolve registers pc bus).1.crossed =
      decide (LeavesPage (pc + 1).toNat (signedByte (CpuBus.read bus pc).1)) :=
  Operand.displaced_crossed (toNat_add_signedDistance _ _)

/-- The modes that pay for a crossing are those that index a whole address. -/
theorem paysForCrossing_eq (mode : AddressingMode) (registers : Registers) (pc : UInt16)
    (bus : Bus) : mode.paysForCrossing = (mode.indexing registers pc bus).isSome := by
  cases mode <;> rfl

end AddressingMode

/-- The modes that name a place in memory by its address. -/
def AddressingMode.namesMemory : AddressingMode → Bool
  | zeroPage | zeroPageX | zeroPageY | absolute | absoluteX | absoluteY => true
  | indirectX | indirectY => true
  | _ => false

/-- The ways in which an operation can name its operand. -/
def Operation.takes (operation : Operation) (mode : AddressingMode) : Bool :=
  match operation with
  | .read _ => mode = .immediate ∨ mode.namesMemory
  | .store _ | .gatedStore _ | .modify _ => mode.namesMemory
  | .register _ => mode = .implied ∨ mode = .accumulator
  | .branch _ _ => mode = .relative
  | .jmp => mode = .absolute ∨ mode = .indirect
  | .jsr => mode = .absolute
  | .pha | .php | .pla | .plp | .rts | .rti | .brk | .nop | .jam => mode = .implied

/-- Every row of the catalogue names its operand in a way that suits its operation. -/
theorem catalogue_takes : ∀ opcode ∈ Opcode.catalogue,
    opcode.operation.takes opcode.mode = true := by
  decide +kernel

theorem decode_takes (code : UInt8) : (decode code).operation.takes (decode code).mode = true :=
  catalogue_takes _ (decode_mem_catalogue code)

namespace Opcode

variable {Bus : Type} [CpuBus Bus]

/-- The cycle that a read pays when the index leads to another page than the base address;
`pc` is the address of the operand bytes. -/
def crossingPenalty (opcode : Opcode) (registers : Registers) (pc : UInt16) (bus : Bus) : Nat :=
  match opcode.mode.indexing registers pc bus with
  | some (base, index) =>
    if opcode.operation.access = .read ∧ LeavesPage base index then 1 else 0
  | none => 0

/-- The cycles that a branch pays when its condition holds. -/
def branchCycles (opcode : Opcode) (registers : Registers) (pc : UInt16) (bus : Bus) : Nat :=
  match opcode.operation with
  | .branch flag level =>
    if registers.status.test flag = level then
      if LeavesPage (pc + 1).toNat (signedByte (CpuBus.read bus pc).1) then 2 else 1
    else 0
  | _ => 0

/-- An operation that is no read never pays for indexing. -/
theorem crossingPenalty_of_not_read {opcode : Opcode} (h : opcode.operation.access ≠ .read)
    (registers : Registers) (pc : UInt16) (bus : Bus) :
    opcode.crossingPenalty registers pc bus = 0 := by
  unfold crossingPenalty
  split
  · exact if_neg fun hread => h hread.1
  · rfl

/-- An operation that is no branch never pays for being taken. -/
theorem branchCycles_of_not_branch {opcode : Opcode}
    (h : ∀ flag level, opcode.operation ≠ .branch flag level) (registers : Registers)
    (pc : UInt16) (bus : Bus) : opcode.branchCycles registers pc bus = 0 := by
  unfold branchCycles
  split
  · next flag level heq => exact absurd heq (h flag level)
  · rfl

/-- The extra cycles of a branch. -/
theorem extraCycles_of_branch {opcode : Opcode} {flag : Flag} {level : Bool}
    (h : opcode.operation = .branch flag level) (hmode : opcode.mode = .relative)
    (registers : Registers) (pc : UInt16) (bus : Bus) :
    opcode.extraCycles (opcode.mode.resolve registers pc bus).1 registers.status =
      opcode.branchCycles registers pc bus := by
  unfold branchCycles extraCycles
  rw [h, hmode, AddressingMode.resolve_relative_crossed]
  dsimp only
  split
  · by_cases hleaves : LeavesPage (pc + 1).toNat (signedByte (CpuBus.read bus pc).1)
    · rw [if_pos hleaves, decide_eq_true hleaves]
      rfl
    · rw [if_neg hleaves, decide_eq_false hleaves]
      rfl
  · rfl

/-- The extra cycles of an operation that is no branch. -/
theorem extraCycles_of_not_branch {opcode : Opcode}
    (h : ∀ flag level, opcode.operation ≠ .branch flag level) (registers : Registers)
    (pc : UInt16) (bus : Bus) :
    opcode.extraCycles (opcode.mode.resolve registers pc bus).1 registers.status =
      opcode.crossingPenalty registers pc bus := by
  have hextra (operand : Operand) : opcode.extraCycles operand registers.status =
      if opcode.operation.access = .read ∧ opcode.mode.paysForCrossing then
        operand.crossed.toNat else 0 := by
    unfold extraCycles
    split
    · next flag level heq => exact absurd heq (h flag level)
    · rfl
  rw [hextra, crossingPenalty, AddressingMode.paysForCrossing_eq _ registers pc bus]
  cases hindexing : opcode.mode.indexing registers pc bus with
  | none => simp
  | some indexing =>
    rw [AddressingMode.resolve_crossed_of_indexing hindexing]
    by_cases hread : opcode.operation.access = .read
    · by_cases hleaves : LeavesPage indexing.1 indexing.2 <;> simp [hread, hleaves]
    · simp [hread]

/-- The extra cycles of a row whose mode suits its operation. -/
theorem extraCycles_eq {opcode : Opcode} (h : opcode.operation.takes opcode.mode = true)
    (registers : Registers) (pc : UInt16) (bus : Bus) :
    opcode.extraCycles (opcode.mode.resolve registers pc bus).1 registers.status =
      opcode.crossingPenalty registers pc bus + opcode.branchCycles registers pc bus := by
  by_cases hbranch : ∃ flag level, opcode.operation = .branch flag level
  · obtain ⟨flag, level, hoperation⟩ := hbranch
    have hmode : opcode.mode = .relative := by
      rw [hoperation] at h
      simpa [Operation.takes] using h
    have haccess : opcode.operation.access ≠ .read := by
      rw [hoperation]
      nofun
    rw [extraCycles_of_branch hoperation hmode, crossingPenalty_of_not_read haccess,
      Nat.zero_add]
  · have hnot : ∀ flag level, opcode.operation ≠ .branch flag level :=
      fun flag level heq => hbranch ⟨flag, level, heq⟩
    rw [extraCycles_of_not_branch hnot, branchCycles_of_not_branch hnot, Nat.add_zero]

end Opcode

namespace Cpu

variable {Bus : Type} [CpuBus Bus]

/-- The row of the opcode at the program counter. -/
def fetched (cpu : Cpu) (bus : Bus) : Opcode := decode (CpuBus.read bus cpu.pc).1

/-- The row of a known byte at the program counter. -/
theorem fetched_of_decode {cpu : Cpu} {bus : Bus} {code : UInt8} {opcode : Opcode}
    (hcode : (CpuBus.read bus cpu.pc).1 = code) (hopcode : decode code = opcode) :
    cpu.fetched bus = opcode := by
  rw [fetched, hcode, hopcode]

/-- The penalty of the instruction at the program counter. -/
def crossingPenalty (cpu : Cpu) (bus : Bus) : Nat :=
  (cpu.fetched bus).crossingPenalty cpu.registers (cpu.pc + 1) (CpuBus.read bus cpu.pc).2

/-- The cycles for a branch taken by the instruction at the program counter. -/
def branchCycles (cpu : Cpu) (bus : Bus) : Nat :=
  (cpu.fetched bus).branchCycles cpu.registers (cpu.pc + 1) (CpuBus.read bus cpu.pc).2

/-- The time of the instruction at the program counter. -/
theorem runInstruction_time (cpu : Cpu) (bus : Bus) :
    (cpu.runInstruction bus).1 =
      (cpu.fetched bus).baseCycles + cpu.crossingPenalty bus + cpu.branchCycles bus := by
  unfold runInstruction crossingPenalty branchCycles fetched
  dsimp only
  rw [Opcode.extraCycles_eq (decode_takes _), Nat.add_assoc]

/-- **The time of a step.** A stopped processor takes two cycles and the way into a handler
seven. An instruction takes the base count of its row, one more when it is a read whose index
leads to another page, and for a branch whose condition holds one more, or two when the target
lies on another page than the next instruction. Writes and replacements take their base count.
The total grows by just the time of the step, which is between two and eight. -/
theorem step_time (cpu : Cpu) (bus : Bus) :
    (cpu.step bus).1 =
        (if cpu.jammed then 2
        else if cpu.interruptDue (CpuBus.nmiLine bus) (CpuBus.irqLine bus) then 7
        else (cpu.fetched bus).baseCycles + cpu.crossingPenalty bus + cpu.branchCycles bus) ∧
      ((cpu.fetched bus).operation.access ∈ [AccessType.write, .readModifyWrite] →
        cpu.crossingPenalty bus + cpu.branchCycles bus = 0) ∧
      (cpu.step bus).2.1.cycles = cpu.cycles + (cpu.step bus).1 ∧
      2 ≤ (cpu.step bus).1 ∧ (cpu.step bus).1 ≤ 8 := by
  refine ⟨?_, ?_, cpu.step_cycles bus, cpu.step_cycles_bounds bus⟩
  · cases hjammed : cpu.jammed with
    | true =>
      unfold step
      rw [if_pos hjammed, if_pos rfl]
      rfl
    | false =>
      rw [if_neg Bool.false_ne_true]
      cases hdue : cpu.interruptDue (CpuBus.nmiLine bus) (CpuBus.irqLine bus) with
      | true =>
        rw [if_pos rfl]
        exact step_of_due hjammed hdue
      | false =>
        rw [if_neg Bool.false_ne_true, step_of_not_due hjammed hdue]
        exact runInstruction_time _ bus
  · intro haccess
    have hread : (cpu.fetched bus).operation.access ≠ .read := by
      intro hread
      rw [hread] at haccess
      simp at haccess
    have hbranch (flag : Flag) (level : Bool) :
        (cpu.fetched bus).operation ≠ .branch flag level := by
      intro hbranch
      rw [hbranch] at haccess
      simp [Operation.access] at haccess
    rw [crossingPenalty, branchCycles, Opcode.crossingPenalty_of_not_read hread,
      Opcode.branchCycles_of_not_branch hbranch]

end Cpu

end Famicom
