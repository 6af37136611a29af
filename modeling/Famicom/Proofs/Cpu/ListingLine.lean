import Famicom.Cpu.Listing
import Famicom.Proofs.Cpu.InstructionTraffic
import Famicom.Proofs.Cpu.Subroutines
import Famicom.Proofs.Text.Numbers

/-!
# What a listing line shows

The parts of a listing line stand in fixed columns: no instruction is too long for its columns, and
neither is its name nor its operand. The numbers in the columns of the operand end with the place
that the operand leads to. It is found from memory and the registers a second time, without the
processor's own way to it, and yet it is the place that the next step works on or goes to.
-/

namespace Famicom

theorem Operation.mnemonic_length (operation : Operation) : operation.mnemonic.length = 3 := by
  cases operation with
  | read operation => cases operation <;> rfl
  | store operation => cases operation <;> rfl
  | gatedStore operation => cases operation <;> rfl
  | modify operation => cases operation <;> rfl
  | register operation =>
    cases operation with
    | shift kind => cases kind <;> rfl
    | _ => rfl
  | branch flag level => cases flag <;> cases level <;> rfl
  | _ => rfl

namespace Opcode

/-- The star of an undocumented instruction makes room for four letters. -/
theorem name_length_le (opcode : Opcode) : opcode.name.length ≤ 4 := by
  unfold name
  split
  · rw [Operation.mnemonic_length]
    decide
  · rw [String.length_append, Operation.mnemonic_length]
    decide

/-- An instruction is one to three bytes long. -/
theorem size_le (opcode : Opcode) : opcode.size ≤ 3 := by
  unfold size
  split
  · decide
  · cases opcode.mode <;> decide

end Opcode

namespace Cpu

open Text

section Columns

variable {Bus : Type} [CpuBus Bus] (cpu : Cpu) (bus : Bus)

/-- The columns of the bytes of an instruction. -/
def dumpPart (line : String) : String := columns 6 8 line

/-- The columns of the operand. -/
def operandPart (line : String) : String := columns 20 27 line

/-- The row of the instruction that a listing shows. -/
def listed : Opcode := decode (CpuBus.look bus cpu.pc)

/-- The bytes of an instruction fit into their columns. -/
theorem bytesText_length_le (pc : UInt16) (opcode : Opcode) (bus : Bus) :
    (bytesText pc opcode bus).length ≤ 8 := by
  have hlength := length_intercalate
    ((List.range opcode.size).map fun offset => CpuBus.look bus (pc + UInt16.ofNat offset))
  rw [List.map_map, List.length_map, List.length_range] at hlength
  have hsize := opcode.size_le
  exact Nat.le_trans (Nat.le_of_eq hlength) (by omega)

/-- An operand fits into its columns. -/
theorem operandText_length_le (opcode : Opcode) : (cpu.operandText opcode bus).length ≤ 27 := by
  unfold operandText
  cases opcode.mode with
  | absolute =>
    dsimp only
    split <;> simp only [String.length_append, hexWord_length, hexByte_length] <;> decide
  | implied | accumulator =>
    dsimp only
    decide
  | _ =>
    simp only [String.length_append, hexWord_length, hexByte_length]
    decide

/-- The part of a line before the operand. -/
def heading : String :=
  hexWord cpu.pc ++ "  " ++ alignLeft 8 (bytesText cpu.pc (cpu.listed bus) bus) ++ " " ++
    alignRight 4 (cpu.listed bus).name ++ " "

theorem length_dump : (alignLeft 8 (bytesText cpu.pc (cpu.listed bus) bus)).length = 8 :=
  (alignLeft_length _ _).trans (Nat.max_eq_left (bytesText_length_le _ _ _))

theorem length_name : (alignRight 4 (cpu.listed bus).name).length = 4 :=
  (alignRight_length _ _).trans (Nat.max_eq_left (Opcode.name_length_le _))

theorem length_operand : (alignLeft 27 (cpu.operandText (cpu.listed bus) bus)).length = 27 :=
  (alignLeft_length _ _).trans (Nat.max_eq_left (cpu.operandText_length_le _ _))

theorem length_heading : (cpu.heading bus).length = 20 := by
  simp only [heading, String.length_append, hexWord_length, length_dump, length_name]
  rfl

/-- A line by its parts, each of which fills its columns. -/
theorem listing_eq :
    cpu.listing bus = cpu.heading bus ++
      (alignLeft 27 (cpu.operandText (cpu.listed bus) bus) ++ registersText cpu.registers) := by
  have hlisting : cpu.listing bus =
      alignLeft (20 + 27) (cpu.heading bus ++ cpu.operandText (cpu.listed bus) bus) ++
        registersText cpu.registers := rfl
  rw [hlisting, alignLeft_append (cpu.length_heading bus), String.append_assoc]

/-- What stands in the columns of the bytes. -/
theorem dumpPart_listing :
    dumpPart (cpu.listing bus) = alignLeft 8 (bytesText cpu.pc (cpu.listed bus) bus) := by
  have hpc : (hexWord cpu.pc ++ "  ").length = 6 := by
    rw [String.length_append, hexWord_length]
    rfl
  rw [listing_eq, heading]
  simp only [String.append_assoc]
  rw [← @String.append_assoc (hexWord cpu.pc)]
  exact columns_append hpc (cpu.length_dump bus) _

/-- What stands in the columns of the operand. -/
theorem operandPart_listing :
    operandPart (cpu.listing bus) = alignLeft 27 (cpu.operandText (cpu.listed bus) bus) := by
  rw [listing_eq]
  exact columns_append (cpu.length_heading bus) (cpu.length_operand bus) _

/-- The numbers that the listing of an operand shows: those that name the operand, and then the
place that they lead to, with the byte there if it is not the target of a jump. -/
def shownNumbers (opcode : Opcode) : List Nat :=
  let byte := CpuBus.look bus (cpu.pc + 1)
  let word := CpuBus.lookWord bus (cpu.pc + 1) (cpu.pc + 2)
  let place (address : UInt16) : List Nat := [address.toNat, (CpuBus.look bus address).toNat]
  match opcode.mode with
  | .implied => []
  -- the letter of the accumulator is a digit as well
  | .accumulator => [0xA]
  | .immediate => [byte.toNat]
  | .zeroPage => place byte.toUInt16
  | .zeroPageX => byte.toNat :: place (byte + cpu.registers.x).toUInt16
  | .zeroPageY => byte.toNat :: place (byte + cpu.registers.y).toUInt16
  | .absolute =>
    if opcode.operation = .jmp ∨ opcode.operation = .jsr then [word.toNat] else place word
  | .absoluteX => word.toNat :: place (word + cpu.registers.x.toUInt16)
  | .absoluteY => word.toNat :: place (word + cpu.registers.y.toUInt16)
  | .indirect => [word.toNat, (CpuBus.lookWord bus word (nextInPage word)).toNat]
  | .indirectX =>
    let pointer := byte + cpu.registers.x
    byte.toNat :: pointer.toNat :: place (lookPointer bus pointer)
  | .indirectY =>
    let base := lookPointer bus byte
    byte.toNat :: base.toNat :: place (base + cpu.registers.y.toUInt16)
  | .relative => [(cpu.pc + 2 + signedDistance byte).toNat]

/-- The numbers in the text of an operand. -/
theorem numbersFrom_operandText (opcode : Opcode) (count : Nat) :
    numbersFrom none ((cpu.operandText opcode bus).toList ++ (blanks count).toList) =
      cpu.shownNumbers bus opcode := by
  unfold operandText shownNumbers
  cases opcode.mode with
  | implied => exact numbersFrom_blanks none count
  | accumulator =>
    have hletter : "A".toList = ['A'] := rfl
    dsimp only
    rw [hletter]
    exact numbersFrom_blanks (some 0xA) count
  | absolute =>
    dsimp only
    split <;>
      simp (disch := decide) only [String.toList_append, List.append_assoc, numbersFrom_hexByte,
        numbersFrom_hexWord, numbersFrom_separator, numbersFrom_blanks] <;> rfl
  | zeroPage | zeroPageX | zeroPageY =>
    simp (disch := decide) only [String.toList_append, List.append_assoc, numbersFrom_hexByte,
      numbersFrom_separator, numbersFrom_blanks, UInt8.toNat_toUInt16]
    rfl
  | _ =>
    simp (disch := decide) only [String.toList_append, List.append_assoc, numbersFrom_hexByte,
      numbersFrom_hexWord, numbersFrom_separator, numbersFrom_blanks]
    rfl

/-- The numbers in the columns of the operand. -/
theorem numbers_operandPart :
    numbers (operandPart (cpu.listing bus)) = cpu.shownNumbers bus (cpu.listed bus) := by
  rw [operandPart_listing, alignLeft, numbers, String.toList_append, numbersFrom_operandText]

/-- The numbers in the columns of the bytes. -/
theorem numbers_dumpPart :
    numbers (dumpPart (cpu.listing bus)) =
      (List.range (cpu.listed bus).size).map fun offset =>
        (CpuBus.look bus (cpu.pc + UInt16.ofNat offset)).toNat := by
  have hbytes := numbers_intercalate ((List.range (cpu.listed bus).size).map fun offset =>
    CpuBus.look bus (cpu.pc + UInt16.ofNat offset))
  simp only [List.map_map] at hbytes
  rw [dumpPart_listing]
  exact hbytes _

end Columns

section Flat

variable {cpu : Cpu} {bus : FlatBus} {opcode : Opcode} {operand : Operand}

/-- The place behind a first operand byte, as the listing and as the processor come to it. -/
theorem pc_add_two (pc : UInt16) : pc + 2 = pc + 1 + 1 := (UInt16.add_assoc pc 1 1).symm

/-- A listing shows a place in memory last, with the byte there. -/
theorem shownNumbers_of_namesMemory
    (hoperand : (opcode.mode.resolve cpu.registers (cpu.pc + 1) bus).1 = operand)
    (hmode : opcode.mode.namesMemory = true) (hjmp : opcode.operation ≠ .jmp)
    (hjsr : opcode.operation ≠ .jsr) :
    ∃ named, cpu.shownNumbers bus opcode =
      named ++ [operand.address.toNat, bus.byteAt operand.address.toNat] := by
  obtain rfl := hoperand
  have hplace : ¬(opcode.operation = .jmp ∨ opcode.operation = .jsr) := fun h => h.elim hjmp hjsr
  unfold shownNumbers
  obtain ⟨code, operation, mode, cycles, documented⟩ := opcode
  cases mode with
  | implied | accumulator | immediate | indirect | relative => cases hmode
  | zeroPage => exact ⟨[], rfl⟩
  | zeroPageX | zeroPageY => exact ⟨[_], rfl⟩
  | absolute =>
    rw [pc_add_two]
    exact ⟨[], if_neg hplace⟩
  | absoluteX | absoluteY =>
    rw [pc_add_two]
    exact ⟨[_], rfl⟩
  | indirectX | indirectY => exact ⟨[_, _], rfl⟩

/-- A listing shows the target of a jump last. -/
theorem getLast_shownNumbers
    (hoperand : (opcode.mode.resolve cpu.registers (cpu.pc + 1) bus).1 = operand)
    (htakes : opcode.operation.takes opcode.mode = true)
    (hjumps : opcode.operation = .jmp ∨ opcode.operation = .jsr) :
    (cpu.shownNumbers bus opcode).getLast? = some operand.address.toNat := by
  obtain rfl := hoperand
  have hmode : opcode.mode = .absolute ∨ opcode.mode = .indirect := by
    rcases hjumps with hjmp | hjsr
    · rw [hjmp] at htakes
      simpa [Operation.takes] using htakes
    · rw [hjsr] at htakes
      exact .inl (by simpa [Operation.takes] using htakes)
  unfold shownNumbers
  rw [pc_add_two]
  rcases hmode with hmode | hmode
  · rw [hmode]
    dsimp only
    rw [if_pos hjumps]
    rfl
  · rw [hmode]
    rfl

/-- A listing shows the target of a branch. -/
theorem shownNumbers_of_branch
    (hoperand : (opcode.mode.resolve cpu.registers (cpu.pc + 1) bus).1 = operand)
    (hmode : opcode.mode = .relative) :
    cpu.shownNumbers bus opcode = [operand.address.toNat] := by
  obtain rfl := hoperand
  unfold shownNumbers
  rw [hmode, pc_add_two]
  rfl

/-- A listing shows an immediate operand. -/
theorem shownNumbers_of_immediate
    (hoperand : (opcode.mode.resolve cpu.registers (cpu.pc + 1) bus).1 = operand)
    (hmode : opcode.mode = .immediate) :
    cpu.shownNumbers bus opcode = [bus.byteAt operand.address.toNat] := by
  obtain rfl := hoperand
  unfold shownNumbers
  rw [hmode]
  rfl

/-- The bytes in a line that lists the instruction about to run. -/
theorem numbers_dumpPart_flat :
    numbers (dumpPart (cpu.listing bus)) =
      (List.range (cpu.fetched bus).size).map fun offset =>
        bus.byteAt ((cpu.pc.toNat + offset) % 0x10000) := by
  refine (numbers_dumpPart cpu bus).trans ?_
  apply List.map_congr_left
  intro offset _
  have hplace : (cpu.pc + UInt16.ofNat offset).toNat = (cpu.pc.toNat + offset) % 0x10000 := by
    rw [UInt16.toNat_add, UInt16.toNat_ofNat']
    change (_ + offset % 0x10000) % 0x10000 = _
    omega
  exact congrArg bus.byteAt hplace

/-- A jump leads to its operand. -/
theorem execute_jump {operation : Operation} (h : operation = .jmp ∨ operation = .jsr)
    (operand : Operand) (cpu : Cpu) (bus : FlatBus) :
    (operation.execute operand cpu bus).1.pc = operand.address := by
  rcases h with rfl | rfl <;> rfl

/-- A branch whose condition holds leads to its operand. -/
theorem execute_branch {flag : Flag} {level : Bool} {cpu : Cpu}
    (h : cpu.registers.status.test flag = level) (operand : Operand) (bus : FlatBus) :
    ((Operation.branch flag level).execute operand cpu bus).1.pc = operand.address := by
  rw [Operation.execute, if_pos h]

/-- The accesses of a step that runs an instruction on memory. -/
theorem accesses_of_runsNext (hruns : cpu.runsNext bus = true) :
    cpu.accesses bus = cpu.instructionAccesses bus := by
  rw [runsNext_iff] at hruns
  have hstep : cpu.step ({ bus } : Recorded FlatBus) = _ := step_of_not_due hruns.1 hruns.2
  rw [accesses, hstep]
  exact runInstruction_traffic _ bus

/-- An instruction with an immediate operand reads it last. -/
theorem getLast_accesses_immediate (hruns : cpu.runsNext bus = true)
    (hmode : (cpu.fetched bus).mode = .immediate) :
    (cpu.accesses bus).getLast? = some (.read (cpu.operand bus).address) := by
  have hplace := (cpu.fetched bus).mode.resolve_liesAt cpu.registers cpu.pc bus
  have haddress := AddressingMode.eq_ofNat hplace.toNat_address
  have htakes : (cpu.fetched bus).operation.takes (cpu.fetched bus).mode = true := decode_takes _
  rw [accesses_of_runsNext hruns, operand, haddress]
  unfold instructionAccesses
  dsimp only
  generalize cpu.fetched bus = opcode at hmode htakes ⊢
  rw [hmode] at htakes
  cases hoperation : opcode.operation with
  | read operation => exact List.getLast?_concat
  | _ =>
    rw [hoperation] at htakes
    cases htakes

/-- **A listing tells the truth about the next step.** When the next step runs an instruction, the
line that lists it shows its bytes, as many as it is long. A place in memory is shown last, as the
address that the step works on with the byte there; a jump and a branch that is taken go where the
line says; an immediate operand is the byte that the step reads last. -/
theorem listing_foretells_step (hruns : cpu.runsNext bus = true) :
    let opcode := cpu.fetched bus
    let operand := cpu.operand bus
    let shown := numbers (operandPart (cpu.listing bus))
    (cpu.step bus).2 = opcode.operation.execute operand (cpu.ready bus) bus ∧
      numbers (dumpPart (cpu.listing bus)) =
        (List.range opcode.size).map (fun offset =>
          bus.byteAt ((cpu.pc.toNat + offset) % 0x10000)) ∧
      (opcode.mode.namesMemory = true →
        opcode.operation ≠ .jmp → opcode.operation ≠ .jsr →
        ∃ named, shown = named ++ [operand.address.toNat, bus.byteAt operand.address.toNat]) ∧
      (opcode.operation = .jmp ∨ opcode.operation = .jsr →
        shown.getLast? = some (cpu.step bus).2.1.pc.toNat) ∧
      (∀ flag level, opcode.operation = .branch flag level →
        cpu.registers.status.test flag = level → shown = [(cpu.step bus).2.1.pc.toNat]) ∧
      (opcode.mode = .immediate →
        shown = [bus.byteAt operand.address.toNat] ∧
          (cpu.accesses bus).getLast? = some (.read operand.address)) := by
  intro opcode operand shown
  have hstep := (step_of_runsNext hruns).2
  have hshown : shown = cpu.shownNumbers bus opcode := numbers_operandPart cpu bus
  have htakes : opcode.operation.takes opcode.mode = true := decode_takes _
  have hoperand : (opcode.mode.resolve cpu.registers (cpu.pc + 1) bus).1 = cpu.operand bus := by
    rw [Cpu.operand]
  refine ⟨hstep, numbers_dumpPart_flat, fun hmode hjmp hjsr => ?_, fun hjumps => ?_,
    fun flag level hbranch htaken => ?_, fun hmode => ?_⟩
  · rw [hshown]
    exact shownNumbers_of_namesMemory hoperand hmode hjmp hjsr
  · rw [hshown, hstep, execute_jump hjumps]
    exact getLast_shownNumbers hoperand htakes hjumps
  · have hmode : opcode.mode = .relative := by
      rw [hbranch] at htakes
      simpa [Operation.takes] using htakes
    rw [← ready_registers cpu bus] at htaken
    rw [hshown, hstep, hbranch, execute_branch htaken]
    exact shownNumbers_of_branch hoperand hmode
  · rw [hshown]
    exact ⟨shownNumbers_of_immediate hoperand hmode, getLast_accesses_immediate hruns hmode⟩

end Flat

/-- A processor about to jump through a pointer. -/
def beforePointedJump : Cpu := { pc := 0x8000 }

/-- Memory with the opcode of such a jump everywhere but at the end of the jump and at the start of
the page in which the pointer has its first byte last. -/
def pointerOverPageEnd : FlatBus :=
  { memory := ((Memory.filled 16 0x6C).set 0x8001 0xFF).set 0x6C00 0x12 }

/-- The listing knows that the pointer does not leave its page. -/
theorem listing_foretells_pointed_jump :
    let line := beforePointedJump.listing pointerOverPageEnd
    beforePointedJump.runsNext pointerOverPageEnd = true ∧
      (numbers (operandPart line)).getLast? = some 0x126C ∧
      (beforePointedJump.step pointerOverPageEnd).2.1.pc = 0x126C := by
  intro line
  have hruns : beforePointedJump.runsNext pointerOverPageEnd = true := rfl
  have hbyte (address : Nat) : pointerOverPageEnd.memory.get address =
      if 0x6C00 % 0x10000 = address % 0x10000 then 0x12
      else if 0x8001 % 0x10000 = address % 0x10000 then 0xFF else 0x6C := by
    rw [pointerOverPageEnd, Memory.get_set, Memory.get_set, Memory.get_filled]
    rfl
  have hrow : beforePointedJump.fetched pointerOverPageEnd =
      Opcode.Catalogue.official 0x6C .jmp .indirect 5 := by
    refine fetched_of_decode (hbyte 0x8000) ?_
    rw [decode_eq_find]
    rfl
  have hpointer : (CpuBus.readWord pointerOverPageEnd 0x8001 0x8002).1 = 0x6CFF := by
    change (pointerOverPageEnd.memory.get 0x8002).toUInt16 * 0x100 +
      (pointerOverPageEnd.memory.get 0x8001).toUInt16 = 0x6CFF
    rw [hbyte, hbyte]
    rfl
  have htarget : (CpuBus.readWord pointerOverPageEnd 0x6CFF 0x6C00).1 = 0x126C := by
    change (pointerOverPageEnd.memory.get 0x6C00).toUInt16 * 0x100 +
      (pointerOverPageEnd.memory.get 0x6CFF).toUInt16 = 0x126C
    rw [hbyte, hbyte]
    rfl
  have hoperand : beforePointedJump.operand pointerOverPageEnd = .direct 0x126C := by
    let pointer := (CpuBus.readWord pointerOverPageEnd 0x8001 0x8002).1
    rw [operand, hrow]
    change Operand.direct (CpuBus.readWord pointerOverPageEnd pointer (nextInPage pointer)).1 = _
    rw [show pointer = 0x6CFF from hpointer]
    exact congrArg Operand.direct htarget
  have hjumps : (beforePointedJump.fetched pointerOverPageEnd).operation = .jmp := by
    rw [hrow]
    rfl
  have hpc : (beforePointedJump.step pointerOverPageEnd).2.1.pc = 0x126C := by
    rw [(step_of_runsNext hruns).2, execute_jump (.inl hjumps), hoperand]
    rfl
  have hlast := (listing_foretells_step hruns).2.2.2.1 (.inl hjumps)
  rw [hpc] at hlast
  exact ⟨hruns, hlast, hpc⟩

end Cpu

end Famicom
