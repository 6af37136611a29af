import Famicom.Proofs.Cpu.BusUse
import Famicom.Proofs.Cpu.StepTime

/-!
# The traffic of an instruction

On memory without side effects the accesses of an instruction are known from its row: the
opcode, the operand bytes, the pointer if there is one, and then what the operation does with
its data. Addresses are numbers here, and go round at the end of the page or of the space.
-/

namespace Famicom

namespace FlatBus

/-- The byte at an address, as a number. -/
def byteAt (bus : FlatBus) (address : Nat) : Nat := (bus.memory.get address).toNat

/-- The word at two addresses, low byte first. -/
def wordAt (bus : FlatBus) (low high : Nat) : Nat := bus.byteAt low + 0x100 * bus.byteAt high

theorem byteAt_lt (bus : FlatBus) (address : Nat) : bus.byteAt address < 0x100 :=
  UInt8.toNat_lt _

theorem byteAt_congr (bus : FlatBus) {a b : Nat} (h : a % 0x10000 = b % 0x10000) :
    bus.byteAt a = bus.byteAt b :=
  congrArg UInt8.toNat (bus.memory.get_congr h)

theorem toNat_readWord (bus : FlatBus) (low high : UInt16) :
    (CpuBus.readWord bus low high).1.toNat = bus.wordAt low.toNat high.toNat :=
  AddressingMode.toNat_readWord bus low high

end FlatBus

namespace AddressingMode

variable (mode : AddressingMode) (registers : Registers) (pc : Nat) (bus : FlatBus)

/-- Where the operand bytes of an opcode at `pc` are read. An immediate operand is no address:
it is read as the data. -/
def operandReads : List Nat :=
  if mode = immediate then [] else (List.range mode.operandLength).map (pc + 1 + ·)

/-- Where the two bytes of the pointer lie that an indirect mode follows. -/
def pointer : Option (Nat × Nat) :=
  match mode with
  | indirect =>
    let low := bus.wordAt (pc + 1) (pc + 2)
    some (low, low / 0x100 * 0x100 + (low + 1) % 0x100)
  | indirectX =>
    let low := (bus.byteAt (pc + 1) + registers.x.toNat) % 0x100
    some (low, (low + 1) % 0x100)
  | indirectY =>
    let low := bus.byteAt (pc + 1)
    some (low, (low + 1) % 0x100)
  | _ => none

/-- Where the pointer is read. -/
def pointerReads : List Nat :=
  match mode.pointer registers pc bus with
  | some (low, high) => [low, high]
  | none => []

/-- The address that an index or a distance is added to. -/
def baseAddress : Nat :=
  match mode.pointer registers pc bus with
  | some (low, high) => bus.wordAt low high
  | none =>
    match mode with
    | immediate => (pc + 1) % 0x10000
    | zeroPage => bus.byteAt (pc + 1)
    | zeroPageX => (bus.byteAt (pc + 1) + registers.x.toNat) % 0x100
    | zeroPageY => (bus.byteAt (pc + 1) + registers.y.toNat) % 0x100
    | absolute | absoluteX | absoluteY => bus.wordAt (pc + 1) (pc + 2)
    | relative => (pc + 2) % 0x10000
    | _ => 0

/-- What is added to the base address. -/
def distance : Int :=
  match mode with
  | absoluteX => registers.x.toNat
  | absoluteY | indirectY => registers.y.toNat
  | relative => signedByte (bus.memory.get (pc + 1))
  | _ => 0

/-- The pointer of an indirect mode lies in one page, and for the indexed ones in page zero. -/
theorem pointer_page {low high : Nat} (h : mode.pointer registers pc bus = some (low, high)) :
    high / 0x100 = low / 0x100 ∧ (mode ≠ indirect → low < 0x100) := by
  have hbyte := bus.byteAt_lt (pc + 1)
  cases mode with
  | indirect =>
    obtain ⟨rfl, rfl⟩ := Prod.mk.inj (Option.some.inj h)
    exact ⟨by omega, fun hmode => absurd rfl hmode⟩
  | indirectX | indirectY =>
    obtain ⟨rfl, rfl⟩ := Prod.mk.inj (Option.some.inj h)
    exact ⟨by omega, fun _ => by omega⟩
  | _ => cases h

end AddressingMode

/-- An operand lies some distance from a base address, and knows whether that is another page. -/
structure Operand.LiesAt (operand : Operand) (base : Nat) (distance : Int) : Prop where
  base_eq : operand.base.toNat = base
  address_eq : (operand.address.toNat : Int) = (base + distance) % 0x10000
  crossed_eq : operand.crossed = decide (LeavesPage base distance)

namespace Operand.LiesAt

theorem direct {address : UInt16} {base : Nat} (h : address.toNat = base) :
    (Operand.direct address).LiesAt base 0 := by
  subst h
  have hlt : address.toNat < 0x10000 := address.toNat_lt
  refine ⟨rfl, ?_, ?_⟩
  · change (address.toNat : Int) = _
    omega
  · refine (decide_eq_false fun hleaves => hleaves ?_).symm
    omega

theorem displaced {start steps : UInt16} {base : Nat} {distance : Int}
    (hbase : start.toNat = base)
    (h : ((start + steps).toNat : Int) = (start.toNat + distance) % 0x10000) :
    (Operand.displaced start steps).LiesAt base distance := by
  subst hbase
  exact ⟨rfl, h, Operand.displaced_crossed h⟩

end Operand.LiesAt

namespace AddressingMode

/-- The byte after an opcode. -/
theorem byteAt_operand (bus : FlatBus) (pc : UInt16) :
    bus.byteAt (pc + 1).toNat = bus.byteAt (pc.toNat + 1) := by
  refine bus.byteAt_congr ?_
  rw [UInt16.toNat_add]
  exact Nat.mod_mod _ _

/-- The second byte after an opcode. -/
theorem byteAt_operand_succ (bus : FlatBus) (pc : UInt16) :
    bus.byteAt (pc + 1 + 1).toNat = bus.byteAt (pc.toNat + 2) := by
  refine bus.byteAt_congr ?_
  rw [UInt16.toNat_add, UInt16.toNat_add]
  change ((pc.toNat + 1) % 0x10000 + 1) % 0x10000 % 0x10000 = _
  omega

/-- The word after an opcode. -/
theorem toNat_operandWord (bus : FlatBus) (pc : UInt16) :
    (CpuBus.readWord bus (pc + 1) (pc + 1 + 1)).1.toNat =
      bus.wordAt (pc.toNat + 1) (pc.toNat + 2) := by
  rw [FlatBus.toNat_readWord, FlatBus.wordAt, byteAt_operand, byteAt_operand_succ]
  rfl

/-- A byte indexed within page zero. -/
theorem toNat_zeroPage (byte index : UInt8) :
    (byte + index).toUInt16.toNat = (byte.toNat + index.toNat) % 0x100 := by
  rw [UInt8.toNat_toUInt16, UInt8.toNat_add]

theorem toNat_nextInPage (address : UInt16) :
    (nextInPage address).toNat = address.toNat / 0x100 * 0x100 + (address.toNat + 1) % 0x100 := by
  have hlt : address.toNat < 0x10000 := address.toNat_lt
  rw [nextInPage, UInt16.toNat_add, UInt16.toNat_mul, UInt16.toNat_mod, UInt16.toNat_add, toNat_page]
  change (_ * 0x100 % 0x10000 + (_ + 1) % 0x10000 % 0x100) % 0x10000 = _
  omega

/-- The pointer in page zero. -/
theorem toNat_readPointer (bus : FlatBus) (pointer : UInt8) :
    (readPointer bus pointer).1.toNat =
      bus.wordAt pointer.toNat ((pointer.toNat + 1) % 0x100) := by
  rw [readPointer, FlatBus.toNat_readWord, UInt8.toNat_toUInt16, toNat_zeroPage]
  rfl

/-- Every mode finds its operand where its base address and its distance say. -/
theorem resolve_liesAt (mode : AddressingMode) (registers : Registers) (pc : UInt16)
    (bus : FlatBus) :
    (mode.resolve registers (pc + 1) bus).1.LiesAt
      (mode.baseAddress registers pc.toNat bus) (mode.distance registers pc.toNat bus) := by
  have hbyte : (CpuBus.read bus (pc + 1)).1.toNat = bus.byteAt (pc.toNat + 1) :=
    byteAt_operand bus pc
  have hword := toNat_operandWord bus pc
  have hindexed (index : UInt8) : ((CpuBus.read bus (pc + 1)).1 + index).toUInt16.toNat =
      (bus.byteAt (pc.toNat + 1) + index.toNat) % 0x100 := by
    rw [toNat_zeroPage, hbyte]
  cases mode with
  | implied | accumulator => exact .direct rfl
  | immediate => exact .direct (UInt16.toNat_add _ _)
  | zeroPage => exact .direct hbyte
  | zeroPageX | zeroPageY => exact .direct (hindexed _)
  | absolute => exact .direct hword
  | absoluteX | absoluteY => exact .displaced hword (toNat_add_index _ _)
  | indirect =>
    let pointer := (CpuBus.readWord bus (pc + 1) (pc + 1 + 1)).1
    have hpointer : (CpuBus.readWord bus pointer (nextInPage pointer)).1.toNat =
        indirect.baseAddress registers pc.toNat bus := by
      rw [FlatBus.toNat_readWord, toNat_nextInPage, hword]
      rfl
    exact .direct hpointer
  | indirectX =>
    have hpointer : (readPointer bus ((CpuBus.read bus (pc + 1)).1 + registers.x)).1.toNat =
        indirectX.baseAddress registers pc.toNat bus := by
      rw [toNat_readPointer, UInt8.toNat_add, hbyte]
      rfl
    exact .direct hpointer
  | indirectY =>
    have hpointer : (readPointer bus (CpuBus.read bus (pc + 1)).1).1.toNat =
        indirectY.baseAddress registers pc.toNat bus := by
      rw [toNat_readPointer, hbyte]
      rfl
    exact .displaced hpointer (toNat_add_index _ _)
  | relative =>
    have hnext : (pc + 1 + 1).toNat = (pc.toNat + 2) % 0x10000 := by
      rw [UInt16.add_assoc]
      exact UInt16.toNat_add _ _
    have hdistance : signedByte (CpuBus.read bus (pc + 1)).1 =
        relative.distance registers pc.toNat bus := by
      unfold signedByte distance
      rw [hbyte]
      rfl
    exact .displaced hnext (hdistance ▸ toNat_add_signedDistance _ _)

end AddressingMode

namespace Recorded

/-- Recorded memory is read without a change but the note. -/
theorem read_flat (recorded : Recorded FlatBus) (address : UInt16) :
    CpuBus.read recorded address =
      ((CpuBus.read recorded.bus address).1, recorded.noting [.read address]) := rfl

end Recorded

namespace AddressingMode

/-- An address by its number. -/
theorem eq_ofNat {address : UInt16} {number : Nat} (h : address.toNat = number) :
    address = UInt16.ofNat number :=
  h ▸ UInt16.ofNat_toNat.symm

theorem operand_eq (pc : UInt16) : pc + 1 = UInt16.ofNat (pc.toNat + 1) := by
  rw [UInt16.ofNat_add, UInt16.ofNat_toNat]
  rfl

theorem operand_succ_eq (pc : UInt16) : pc + 1 + 1 = UInt16.ofNat (pc.toNat + 2) := by
  rw [UInt16.ofNat_add, UInt16.ofNat_toNat, UInt16.add_assoc]
  rfl

/-- Finding an operand reads the operand bytes and then the pointer. -/
theorem resolve_recorded (mode : AddressingMode) (registers : Registers) (pc : UInt16)
    (recorded : Recorded FlatBus) :
    mode.resolve registers (pc + 1) recorded =
      ((mode.resolve registers (pc + 1) recorded.bus).1,
        recorded.noting ((mode.operandReads pc.toNat ++
          mode.pointerReads registers pc.toNat recorded.bus).map
            fun address => .read (UInt16.ofNat address))) := by
  have hbyte : (CpuBus.read recorded.bus (pc + 1)).1.toNat =
      recorded.bus.byteAt (pc.toNat + 1) := byteAt_operand recorded.bus pc
  have hone : recorded.noting [.read (pc + 1)] =
      recorded.noting [.read (UInt16.ofNat (pc.toNat + 1))] := by rw [operand_eq]
  have htwo : recorded.noting [.read (pc + 1), .read (pc + 1 + 1)] =
      recorded.noting [.read (UInt16.ofNat (pc.toNat + 1)),
        .read (UInt16.ofNat (pc.toNat + 2))] := by rw [operand_succ_eq, operand_eq]
  -- a pointer in page zero is read after one operand byte
  have hzeroPage {pointer : UInt8} {low : Nat} (h : pointer.toNat = low) :
      (recorded.noting [.read (pc + 1)]).noting
          [.read pointer.toUInt16, .read (pointer + 1).toUInt16] =
        recorded.noting [.read (UInt16.ofNat (pc.toNat + 1)), .read (UInt16.ofNat low),
          .read (UInt16.ofNat ((low + 1) % 0x100))] := by
    subst h
    rw [hone, Recorded.noting_noting, eq_ofNat (UInt8.toNat_toUInt16 pointer),
      eq_ofNat (toNat_zeroPage pointer 1)]
    rfl
  -- the pointer of a jump is read after two
  have hpage {pointer : UInt16} {low : Nat} (h : pointer.toNat = low) :
      (recorded.noting [.read (pc + 1), .read (pc + 1 + 1)]).noting
          [.read pointer, .read (nextInPage pointer)] =
        recorded.noting [.read (UInt16.ofNat (pc.toNat + 1)),
          .read (UInt16.ofNat (pc.toNat + 2)), .read (UInt16.ofNat low),
          .read (UInt16.ofNat (low / 0x100 * 0x100 + (low + 1) % 0x100))] := by
    subst h
    rw [htwo, Recorded.noting_noting, eq_ofNat (toNat_nextInPage pointer), UInt16.ofNat_toNat]
    rfl
  cases mode with
  | implied | accumulator | immediate => rfl
  | zeroPage | zeroPageX | zeroPageY | relative => exact congrArg (Prod.mk _) hone
  | absolute | absoluteX | absoluteY => exact congrArg (Prod.mk _) htwo
  | indirect => exact congrArg (Prod.mk _) (hpage (toNat_operandWord recorded.bus pc))
  | indirectX =>
    have hpointer : ((CpuBus.read recorded.bus (pc + 1)).1 + registers.x).toNat =
        (recorded.bus.byteAt (pc.toNat + 1) + registers.x.toNat) % 0x100 := by
      rw [UInt8.toNat_add, hbyte]
    exact congrArg (Prod.mk _) (hzeroPage hpointer)
  | indirectY => exact congrArg (Prod.mk _) (hzeroPage hbyte)

end AddressingMode

/-- The address some distance from a base address, round the address space. -/
def reached (base : Nat) (distance : Int) : Nat := ((base + distance) % 0x10000).toNat

/-- A place in page one, counted upwards from the stack pointer and round the page. -/
def stackPlace (sp : UInt8) (offset : Int) : UInt16 :=
  UInt16.ofNat (0x100 + ((sp.toNat + offset) % 0x100).toNat)

/-- The byte of a gated store, which passes the high byte of the base address plus one. -/
def GatedStore.passed (operation : GatedStore) (base : Nat) (registers : Registers) : UInt8 :=
  operation.value registers &&& UInt8.ofNat (base / 0x100 + 1)

/-- What an operation does on the bus when its opcode is at `pc` and its operand at a distance
from a base address. -/
def Operation.dataAccesses (operation : Operation) (base : Nat) (distance : Int) (pc : Nat)
    (registers : Registers) (bus : FlatBus) : List Access :=
  let address := UInt16.ofNat (reached base distance)
  let stack := stackPlace registers.sp
  match operation with
  | .read _ => [.read address]
  | .store operation => [.write address (operation.value registers)]
  | .gatedStore operation =>
    let value := operation.passed base registers
    if LeavesPage base distance then
      [.write (UInt16.ofNat (value.toNat * 0x100 + reached base distance % 0x100)) value]
    else [.write address value]
  | .modify operation =>
    [.read address,
      .write address (operation.apply (bus.memory.get (reached base distance)) registers).1]
  | .pha => [.write (stack 0) registers.a]
  | .php => [.write (stack 0) registers.status.pushed.toByte]
  | .pla | .plp => [.read (stack 1)]
  | .jsr =>
    [.write (stack 0) (UInt8.ofNat ((pc + 2) / 0x100)), .write (stack (-1)) (UInt8.ofNat (pc + 2))]
  | .rts => [.read (stack 1), .read (stack 2)]
  | .rti => [.read (stack 1), .read (stack 2), .read (stack 3)]
  | .brk =>
    [.write (stack 0) (UInt8.ofNat ((pc + 2) / 0x100)), .write (stack (-1)) (UInt8.ofNat (pc + 2)),
      .write (stack (-2)) registers.status.pushed.toByte, .read 0xFFFE, .read 0xFFFF]
  | .register _ | .branch _ _ | .jmp | .nop | .jam => []

namespace Operand.LiesAt

variable {operand : Operand} {base : Nat} {distance : Int}

theorem toNat_address (h : operand.LiesAt base distance) :
    operand.address.toNat = reached base distance := by
  have haddress := h.address_eq
  unfold reached
  omega

/-- The byte of a gated store depends on the base address only. -/
theorem gated (h : operand.LiesAt base distance) (operation : GatedStore)
    (registers : Registers) :
    operation.gated operand registers = operation.passed base registers := by
  have hgate : (page operand.base).toUInt8 + 1 = UInt8.ofNat (base / 0x100 + 1) := by
    rw [UInt8.ofNat_add, ← h.base_eq, ← toNat_page]
    rfl
  rw [GatedStore.gated, GatedStore.passed, hgate]

/-- The target of a gated store that stays in the page. -/
theorem target_of_stays (h : operand.LiesAt base distance) (hstays : ¬ LeavesPage base distance)
    (operation : GatedStore) (registers : Registers) :
    operation.target operand registers = UInt16.ofNat (reached base distance) := by
  rw [GatedStore.target, h.crossed_eq, decide_eq_false hstays, if_neg Bool.false_ne_true,
    AddressingMode.eq_ofNat h.toNat_address]

/-- The target of a gated store that leaves the page. -/
theorem target_of_leaves (h : operand.LiesAt base distance) (hleaves : LeavesPage base distance)
    (operation : GatedStore) (registers : Registers) :
    operation.target operand registers =
      UInt16.ofNat ((operation.passed base registers).toNat * 0x100 +
        reached base distance % 0x100) := by
  have hvalue : (operation.passed base registers).toNat < 256 := UInt8.toNat_lt _
  rw [GatedStore.target, h.crossed_eq, decide_eq_true hleaves, if_pos rfl, h.gated]
  refine AddressingMode.eq_ofNat ?_
  rw [UInt16.toNat_add, UInt16.toNat_mul, UInt16.toNat_mod, UInt8.toNat_toUInt16, h.toNat_address]
  change (_ * 0x100 % 0x10000 + _ % 0x100) % 0x10000 = _
  omega

end Operand.LiesAt

/-- The address of the stack pointer. -/
theorem stackAddress_eq (sp : UInt8) : Cpu.stackAddress sp = stackPlace sp 0 := by
  have hlt : sp.toNat < 256 := sp.toNat_lt
  refine AddressingMode.eq_ofNat ?_
  rw [Cpu.stackAddress, UInt16.toNat_add, UInt8.toNat_toUInt16]
  change (0x100 + _) % 0x10000 = _
  omega

/-- Places counted from one place higher. -/
theorem stackPlace_up (sp : UInt8) (offset : Int) :
    stackPlace (sp + 1) offset = stackPlace sp (offset + 1) := by
  have hmoved : (sp + 1).toNat = (sp.toNat + 1) % 256 := UInt8.toNat_add _ _
  have hoffset : ((sp + 1).toNat + offset) % 0x100 = (sp.toNat + (offset + 1)) % 0x100 := by omega
  rw [stackPlace, stackPlace, hoffset]

/-- Places counted from one place lower. -/
theorem stackPlace_down (sp : UInt8) (offset : Int) :
    stackPlace (sp - 1) offset = stackPlace sp (offset - 1) := by
  have hmoved : (sp - 1).toNat = (256 - 1 + sp.toNat) % 256 := UInt8.toNat_sub _ _
  have hoffset : ((sp - 1).toNat + offset) % 0x100 = (sp.toNat + (offset - 1)) % 0x100 := by omega
  rw [stackPlace, stackPlace, hoffset]

/-- The stack lies in page one. -/
theorem stackPlace_page (sp : UInt8) (offset : Int) : (stackPlace sp offset).toNat / 0x100 = 1 := by
  have hplace : (stackPlace sp offset).toNat = 0x100 + ((sp.toNat + offset) % 0x100).toNat :=
    UInt16.toNat_ofNat_of_lt' (by simp only [UInt16.size]; omega)
  omega

/-- The address of an access. -/
def Access.address : Access → UInt16
  | read address | write address _ => address

namespace Operation

/-- The operations that save something on the stack or take it back, and do nothing else on the
bus. -/
def movesStack : Operation → Bool
  | pha | php | pla | plp | jsr | rts | rti => true
  | _ => false

/-- The operation goes on with the next instruction. -/
def goesOn (operation : Operation) (status : Status) : Bool :=
  match operation with
  | branch flag level => status.test flag != level
  | jmp | jsr | rts | rti | brk | jam => false
  | _ => true

/-- Stack operations stay in page one. -/
theorem dataAccesses_page {operation : Operation} (h : operation.movesStack = true) (base : Nat)
    (distance : Int) (pc : Nat) (registers : Registers) (bus : FlatBus) :
    ∀ access ∈ operation.dataAccesses base distance pc registers bus,
      access.address.toNat / 0x100 = 1 := by
  intro access hmem
  cases operation with
  | pha | php | pla | plp | jsr | rts | rti =>
    simp only [dataAccesses, List.mem_cons, List.not_mem_nil, or_false] at hmem
    rcases hmem with rfl | rfl | rfl <;> exact stackPlace_page _ _
  | _ => cases h

/-- An operation that goes on leaves the program counter alone. -/
theorem execute_pc {Bus : Type} [CpuBus Bus] {operation : Operation} {cpu : Cpu}
    (h : operation.goesOn cpu.registers.status = true) (operand : Operand) (bus : Bus) :
    (operation.execute operand cpu bus).1.pc = cpu.pc := by
  cases operation with
  | branch flag level =>
    have hfails : cpu.registers.status.test flag ≠ level := bne_iff_ne.mp h
    simp only [execute, if_neg hfails]
  | jmp | jsr | rts | rti | brk | jam => cases h
  | _ => rfl

end Operation

namespace Cpu

/-- The word after an instruction's operand, as the two bytes that go to the stack. -/
theorem pushed_bytes {word : UInt16} {number : Nat} (h : word.toNat = number % 0x10000) :
    (word / 0x100).toUInt8 = UInt8.ofNat (number / 0x100) ∧
      word.toUInt8 = UInt8.ofNat number := by
  refine ⟨UInt8.toNat_inj.mp ?_, UInt8.toNat_inj.mp ?_⟩
  · rw [UInt16.toNat_toUInt8, UInt16.toNat_div, h, UInt8.toNat_ofNat']
    change number % 0x10000 / 0x100 % 0x100 = number / 0x100 % 0x100
    omega
  · rw [UInt16.toNat_toUInt8, h, UInt8.toNat_ofNat']
    change number % 0x10000 % 0x100 = number % 0x100
    omega

/-- What a row does on recorded memory after its operand has been found. -/
theorem execute_traffic {operation : Operation} {mode : AddressingMode}
    (htakes : operation.takes mode = true) {operand : Operand} {base : Nat} {distance : Int}
    (h : operand.LiesAt base distance) (cpu : Cpu) {pc : UInt16}
    (hpc : cpu.pc = pc + 1 + UInt16.ofNat mode.operandLength) (recorded : Recorded FlatBus) :
    (operation.execute operand cpu recorded).2.traffic =
      recorded.traffic ++
        operation.dataAccesses base distance pc.toNat cpu.registers recorded.bus := by
  have haddress := AddressingMode.eq_ofNat h.toNat_address
  cases operation with
  | read operation =>
    change recorded.traffic ++ [Access.read operand.address] = _
    rw [haddress]
    rfl
  | store operation =>
    change recorded.traffic ++ [Access.write operand.address _] = _
    rw [haddress]
    rfl
  | gatedStore operation =>
    change recorded.traffic ++ [Access.write (operation.target operand cpu.registers)
      (operation.gated operand cpu.registers)] = _
    unfold Operation.dataAccesses
    dsimp only
    by_cases hleaves : LeavesPage base distance
    · rw [if_pos hleaves, h.gated, h.target_of_leaves hleaves]
    · rw [if_neg hleaves, h.gated, h.target_of_stays hleaves]
  | modify operation =>
    change recorded.traffic ++ [Access.read operand.address, Access.write operand.address
      (operation.apply (recorded.bus.memory.get operand.address.toNat) cpu.registers).1] = _
    rw [h.toNat_address, haddress]
    rfl
  | pha | php =>
    change recorded.traffic ++ [Access.write (stackAddress cpu.registers.sp) _] = _
    rw [stackAddress_eq]
    rfl
  | pla | plp =>
    change recorded.traffic ++ [Access.read (stackAddress (cpu.registers.sp + 1))] = _
    rw [stackAddress_eq, stackPlace_up]
    rfl
  | jsr =>
    obtain rfl : mode = .absolute := by simpa [Operation.takes] using htakes
    have hword : (cpu.pc - 1).toNat = (pc.toNat + 2) % 0x10000 := by
      have hnext : cpu.pc = pc + 2 + 1 := by
        rw [hpc, UInt16.add_assoc, UInt16.add_assoc]
        rfl
      rw [hnext, UInt16.add_sub_cancel]
      exact UInt16.toNat_add _ _
    obtain ⟨hhigh, hlow⟩ := pushed_bytes hword
    change recorded.traffic ++ [Access.write (stackAddress cpu.registers.sp)
        ((cpu.pc - 1) / 0x100).toUInt8,
      Access.write (stackAddress (cpu.registers.sp - 1)) (cpu.pc - 1).toUInt8] = _
    rw [hhigh, hlow, stackAddress_eq, stackAddress_eq, stackPlace_down]
    rfl
  | rts =>
    change recorded.traffic ++ [Access.read (stackAddress (cpu.registers.sp + 1)),
      Access.read (stackAddress (cpu.registers.sp + 1 + 1))] = _
    simp only [stackAddress_eq, stackPlace_up]
    rfl
  | rti =>
    change recorded.traffic ++ [Access.read (stackAddress (cpu.registers.sp + 1)),
      Access.read (stackAddress (cpu.registers.sp + 1 + 1)),
      Access.read (stackAddress (cpu.registers.sp + 1 + 1 + 1))] = _
    simp only [stackAddress_eq, stackPlace_up]
    rfl
  | brk =>
    obtain rfl : mode = .implied := by simpa [Operation.takes] using htakes
    have hword : (cpu.pc + 1).toNat = (pc.toNat + 2) % 0x10000 := by
      have hnext : cpu.pc + 1 = pc + 2 := by
        rw [hpc, UInt16.add_assoc, UInt16.add_assoc]
        rfl
      rw [hnext]
      exact UInt16.toNat_add _ _
    obtain ⟨hhigh, hlow⟩ := pushed_bytes hword
    change recorded.traffic ++ [Access.write (stackAddress cpu.registers.sp)
        ((cpu.pc + 1) / 0x100).toUInt8,
      Access.write (stackAddress (cpu.registers.sp - 1)) (cpu.pc + 1).toUInt8,
      Access.write (stackAddress (cpu.registers.sp - 1 - 1)) cpu.registers.status.pushed.toByte,
      Access.read 0xFFFE, Access.read 0xFFFF] = _
    rw [hhigh, hlow]
    simp only [stackAddress_eq, stackPlace_down]
    rfl
  | register _ | jmp | nop | jam => rfl
  | branch flag level =>
    simp only [Operation.execute]
    split <;> rfl

/-- The accesses of the instruction at the program counter: the opcode, the bytes that name the
operand, and what the operation does. -/
def instructionAccesses (cpu : Cpu) (bus : FlatBus) : List Access :=
  let opcode := cpu.fetched bus
  let pc := cpu.pc.toNat
  .read cpu.pc ::
    (opcode.mode.operandReads pc ++ opcode.mode.pointerReads cpu.registers pc bus).map
      (fun address => .read (UInt16.ofNat address)) ++
    opcode.operation.dataAccesses (opcode.mode.baseAddress cpu.registers pc bus)
      (opcode.mode.distance cpu.registers pc bus) pc cpu.registers bus

/-- The traffic of an instruction on recorded memory. -/
theorem runInstruction_traffic (cpu : Cpu) (bus : FlatBus) :
    (cpu.runInstruction ({ bus } : Recorded FlatBus)).2.2.traffic.toList =
      cpu.instructionAccesses bus := by
  have hcode : CpuBus.read ({ bus } : Recorded FlatBus) cpu.pc =
      ((CpuBus.read bus cpu.pc).1, Recorded.noting { bus } [.read cpu.pc]) :=
    Recorded.read_flat _ _
  unfold runInstruction
  rw [hcode]
  dsimp only
  rw [AddressingMode.resolve_recorded]
  unfold instructionAccesses fetched
  have htakes := decode_takes (CpuBus.read bus cpu.pc).1
  generalize decode (CpuBus.read bus cpu.pc).1 = opcode at htakes ⊢
  have hplace := opcode.mode.resolve_liesAt cpu.registers cpu.pc bus
  simp only [Recorded.noting_bus]
  rw [execute_traffic htakes hplace _ rfl]
  simp

/-- What a look at the lines changes does not matter for the opcode. -/
theorem fetched_polled (cpu : Cpu) (bus : FlatBus) (nmi : Bool) :
    { cpu with nmiLevel := nmi, nmiPending := false }.fetched bus = cpu.fetched bus := rfl

/-- An instruction that goes on ends behind its bytes, and one that stops the processor stays. -/
theorem runInstruction_pc (cpu : Cpu) (bus : FlatBus) :
    ((cpu.fetched bus).operation.goesOn cpu.registers.status = true →
      (cpu.runInstruction bus).2.1.pc.toNat =
        (cpu.pc.toNat + (cpu.fetched bus).size) % 0x10000) ∧
      ((cpu.fetched bus).operation = .jam → (cpu.runInstruction bus).2.1.pc = cpu.pc) := by
  unfold runInstruction fetched
  dsimp only
  have htakes := decode_takes (CpuBus.read bus cpu.pc).1
  generalize decode (CpuBus.read bus cpu.pc).1 = opcode at htakes ⊢
  constructor
  · intro hgoes
    have hsize : opcode.size = 1 + opcode.mode.operandLength := by
      refine if_neg fun hbrk => ?_
      rw [hbrk] at hgoes
      cases hgoes
    have hpc (operand : Operand) (moved : Cpu) (after : FlatBus)
        (h : moved.registers = cpu.registers) :
        (opcode.operation.execute operand moved after).1.pc = moved.pc :=
      Operation.execute_pc (h ▸ hgoes) _ _
    refine (congrArg UInt16.toNat (hpc _ _ _ ?_)).trans ?_
    · rfl
    rw [hsize, UInt16.toNat_add, UInt16.toNat_add, UInt16.toNat_ofNat']
    change ((_ + 1) % 0x10000 + _ % 0x10000) % 0x10000 = _
    omega
  · intro hjam
    rw [hjam] at htakes
    have hmode : opcode.mode = .implied := by simpa [Operation.takes] using htakes
    rw [hjam, hmode]
    exact (congrArg (· - 1) (UInt16.add_zero (cpu.pc + 1))).trans (UInt16.add_sub_cancel _ _)

/-- **The traffic of an instruction.** A processor that runs and has no interrupt to enter reads
its opcode, the operand bytes and the pointer in turn, and then makes the accesses of its
operation and no others. The pointer of an indirect mode lies in one page, and in page zero
unless a jump follows it; stack operations stay in page one. The program counter ends behind
the instruction unless it leads elsewhere, and stays when the processor stops. -/
theorem accesses_flat (cpu : Cpu) (bus : FlatBus) (hruns : cpu.jammed = false)
    (hdue : cpu.interruptDue bus.nmi bus.irq = false) :
    cpu.accesses bus = cpu.instructionAccesses bus ∧
      (∀ low high, (cpu.fetched bus).mode.pointer cpu.registers cpu.pc.toNat bus =
          some (low, high) →
        high / 0x100 = low / 0x100 ∧ ((cpu.fetched bus).mode ≠ .indirect → low / 0x100 = 0)) ∧
      ((cpu.fetched bus).operation.movesStack = true →
        ∀ base distance,
          ∀ access ∈ (cpu.fetched bus).operation.dataAccesses base distance cpu.pc.toNat
            cpu.registers bus, access.address.toNat / 0x100 = 1) ∧
      ((cpu.fetched bus).operation.goesOn cpu.registers.status = true →
        (cpu.step bus).2.1.pc.toNat =
          (cpu.pc.toNat + (cpu.fetched bus).size) % 0x10000) ∧
      ((cpu.fetched bus).operation = .jam → (cpu.step bus).2.1.pc = cpu.pc) := by
  have hstep : cpu.step bus = _ := step_of_not_due hruns hdue
  have htraffic : cpu.accesses bus = cpu.instructionAccesses bus := by
    have hrecorded : cpu.step ({ bus } : Recorded FlatBus) = _ := step_of_not_due hruns hdue
    rw [accesses, hrecorded]
    exact runInstruction_traffic _ bus
  refine ⟨htraffic, ?_, ?_, ?_⟩
  · intro low high hpointer
    have hpage := AddressingMode.pointer_page _ _ _ _ hpointer
    exact ⟨hpage.1, fun hmode => Nat.div_eq_of_lt (hpage.2 hmode)⟩
  · intro hstack base distance
    exact Operation.dataAccesses_page hstack _ _ _ _ _
  · have hpc := runInstruction_pc
      { cpu with nmiLevel := CpuBus.nmiLine bus, nmiPending := false } bus
    rw [fetched_polled] at hpc
    rw [hstep]
    dsimp only at hpc ⊢
    exact hpc

/-- A gated store about to run, with an index that leaves the page. -/
def beforeSha : Cpu := { pc := 0x8000, registers := { a := 0x0F, x := 0xFF, y := 0x80 } }

/-- Memory that holds the opcode of a gated store everywhere. -/
def shaEverywhere : FlatBus := { memory := Memory.filled 16 0x93 }

/-- The byte that passes the gate names the page stored to. -/
theorem accesses_sha :
    beforeSha.jammed = false ∧
      beforeSha.interruptDue shaEverywhere.nmi shaEverywhere.irq = false ∧
      beforeSha.accesses shaEverywhere =
        [.read 0x8000, .read 0x8001, .read 0x93, .read 0x94, .write 0x0413 0x04] := by
  have hbyte (address : Nat) : shaEverywhere.memory.get address = 0x93 := Memory.get_filled _ _
  have hrow : beforeSha.fetched shaEverywhere =
      Opcode.Catalogue.unofficial 0x93 (.gatedStore .sha) .indirectY 6 := by
    change decode (shaEverywhere.memory.get _) = _
    rw [hbyte, decode_eq_find]
    rfl
  refine ⟨rfl, rfl, (accesses_flat beforeSha shaEverywhere rfl rfl).1.trans ?_⟩
  rw [instructionAccesses, hrow]
  simp only [AddressingMode.operandReads, AddressingMode.pointerReads, AddressingMode.pointer,
    AddressingMode.baseAddress, AddressingMode.distance, Opcode.Catalogue.unofficial,
    FlatBus.wordAt, FlatBus.byteAt, hbyte]
  decide +kernel

end Cpu

end Famicom
