import Famicom.Proofs.Cpu.Subroutines

/-!
# Sums, differences and comparisons

A byte stands for two numbers, with and without a sign, and the flags tell how far a sum of bytes
is a sum of these numbers: the carry tells whether the unsigned sum has left the byte, and the
overflow whether the signed one has. A difference is a sum with the complement, so that its carry
is the borrow upside down, and a comparison is a difference without a borrow whose result is thrown
away.

What is stated of the registers here is told in numbers, whichever instruction has put it there.
-/

namespace Famicom

/-- The number fits in a signed byte. -/
def FitsSigned (number : Int) : Prop := -0x80 ≤ number ∧ number < 0x80

instance (number : Int) : Decidable (FitsSigned number) :=
  inferInstanceAs (Decidable (_ ∧ _))

/-- The zero and the negative flag tell of this byte. -/
structure Status.Reflects (status : Status) (result : UInt8) : Prop where
  zero : status.zero = true ↔ result.toNat = 0
  negative : status.negative = true ↔ 0x80 ≤ result.toNat

/-- The registers hold the sum of two bytes and a carry. -/
structure Registers.HoldsSum (registers : Registers) (left byte : UInt8) (carry : Bool) :
    Prop where
  a_eq : registers.a.toNat = (left.toNat + byte.toNat + carry.toNat) % 0x100
  carry_iff : registers.status.carry = true ↔ 0x100 ≤ left.toNat + byte.toNat + carry.toNat
  overflow_iff : registers.status.overflow = true ↔
    ¬FitsSigned (signedByte left + signedByte byte + carry.toNat)
  reflects : registers.status.Reflects registers.a

/-- The registers hold the difference of two bytes, from which a clear carry takes one more. -/
structure Registers.HoldsDifference (registers : Registers) (left byte : UInt8) (carry : Bool) :
    Prop where
  a_eq : (registers.a.toNat : Int) = (left.toNat - byte.toNat - (1 - carry.toNat)) % 0x100
  carry_iff : registers.status.carry = true ↔ byte.toNat + (1 - carry.toNat) ≤ left.toNat
  overflow_iff : registers.status.overflow = true ↔
    ¬FitsSigned (signedByte left - signedByte byte - (1 - carry.toNat))
  reflects : registers.status.Reflects registers.a

/-- The flags tell of the comparison of two bytes. -/
structure Status.TellsComparison (status : Status) (left byte : UInt8) : Prop where
  carry_iff : status.carry = true ↔ byte.toNat ≤ left.toNat
  reflects : status.Reflects (left - byte)

/-- The flags of a result tell of it. -/
theorem Status.withResult_reflects (status : Status) (result : UInt8) :
    (status.withResult result).Reflects result := by
  constructor
  · rw [withResult, beq_iff_eq, ← UInt8.toNat_inj]
    rfl
  · rw [withResult, Byte.isNegative_eq_decide, decide_eq_true_iff]

namespace Registers

/-- An addition leaves the sum. -/
theorem add_holdsSum (registers : Registers) (value : UInt8) :
    (registers.add value).HoldsSum registers.a value registers.status.carry := by
  let total := registers.a.toNat + value.toNat + registers.status.carry.toNat
  have hresult : (UInt8.ofNat total).toNat = total % 0x100 := UInt8.toNat_ofNat'
  have ha : registers.a.toNat < 256 := registers.a.toNat_lt
  have hvalue : value.toNat < 256 := value.toNat_lt
  have hcarry : registers.status.carry.toNat ≤ 1 := Bool.toNat_le _
  refine ⟨hresult, ?_, ?_, Status.withResult_reflects _ _⟩
  · exact decide_eq_true_iff
  · change (Byte.isNegative registers.a == Byte.isNegative value &&
      Byte.isNegative registers.a != Byte.isNegative (UInt8.ofNat total)) = true ↔ _
    rw [Bool.and_eq_true, beq_iff_eq, bne_iff_ne, ne_eq]
    simp only [Byte.isNegative_eq_decide, decide_eq_decide, hresult]
    unfold signedByte FitsSigned
    split <;> split <;> omega

/-- The complement of a byte. -/
theorem toNat_complement (value : UInt8) : (~~~value).toNat = 0xFF - value.toNat :=
  UInt8.toNat_not value

/-- A complement is one below the negative. -/
theorem signedByte_complement (value : UInt8) : signedByte (~~~value) = -1 - signedByte value := by
  have hvalue : value.toNat < 256 := value.toNat_lt
  unfold signedByte
  rw [toNat_complement]
  split <;> split <;> omega

/-- A subtraction leaves the difference. -/
theorem subtract_holdsDifference (registers : Registers) (value : UInt8) :
    (registers.subtract value).HoldsDifference registers.a value registers.status.carry := by
  have hvalue : value.toNat < 256 := value.toNat_lt
  have hcarry : registers.status.carry.toNat ≤ 1 := Bool.toNat_le _
  have hsum : (registers.subtract value).HoldsSum registers.a (~~~value)
      registers.status.carry := registers.add_holdsSum (~~~value)
  refine ⟨?_, ?_, ?_, hsum.reflects⟩
  · rw [hsum.a_eq, toNat_complement]
    omega
  · rw [hsum.carry_iff, toNat_complement]
    omega
  · have hborrow : signedByte registers.a + signedByte (~~~value) + registers.status.carry.toNat =
        signedByte registers.a - signedByte value - (1 - registers.status.carry.toNat) := by
      rw [signedByte_complement]
      omega
    rw [hsum.overflow_iff, hborrow]

/-- A comparison leaves its flags. -/
theorem compare_tells (registers : Registers) (left value : UInt8) :
    (registers.compare left value).status.TellsComparison left value := by
  refine ⟨?_, Status.withResult_reflects _ _⟩
  change decide (value ≤ left) = true ↔ _
  rw [decide_eq_true_iff, UInt8.le_iff_toNat_le]

/-- The registers about to subtract from `left` without a borrow. -/
def borrowless (registers : Registers) (left : UInt8) : Registers :=
  { registers with a := left }.withCarry true

end Registers

/-- Flags that tell of the same byte are the same. -/
theorem Status.Reflects.unique {status other : Status} {result : UInt8}
    (h : status.Reflects result) (hother : other.Reflects result) :
    status.zero = other.zero ∧ status.negative = other.negative := by
  constructor
  · rw [Bool.eq_iff_iff, h.zero, hother.zero]
  · rw [Bool.eq_iff_iff, h.negative, hother.negative]

/-- A comparison has the flags of a subtraction without a borrow. -/
theorem Status.TellsComparison.like_subtract {status : Status} {left byte : UInt8}
    (h : status.TellsComparison left byte) (registers : Registers) :
    let subtracted := ReadOperation.sbc.apply byte (registers.borrowless left)
    status.carry = subtracted.status.carry ∧ status.zero = subtracted.status.zero ∧
      status.negative = subtracted.status.negative := by
  intro subtracted
  have hdifference : subtracted.HoldsDifference left byte true :=
    (registers.borrowless left).subtract_holdsDifference byte
  have hresult : subtracted.a = left - byte := by
    have hbyte : byte.toNat < 256 := byte.toNat_lt
    have ha : (subtracted.a.toNat : Int) = (left.toNat - byte.toNat - (1 - 1)) % 0x100 :=
      hdifference.a_eq
    have hsub : (left - byte).toNat = (256 - byte.toNat + left.toNat) % 256 := UInt8.toNat_sub _ _
    rw [← UInt8.toNat_inj]
    omega
  have hcarry : status.carry = subtracted.status.carry := by
    rw [Bool.eq_iff_iff, h.carry_iff, hdifference.carry_iff]
    rfl
  exact ⟨hcarry, h.reflects.unique (hresult ▸ hdifference.reflects)⟩

namespace Operation

variable {Bus : Type} [CpuBus Bus]

/-- The operation adds to the accumulator. -/
def adds : Operation → Bool
  | .read .adc | .modify .rra => true
  | _ => false

/-- The operation subtracts from the accumulator. -/
def subtracts : Operation → Bool
  | .read .sbc | .modify .isc => true
  | _ => false

/-- The byte that the operation compares with another one. -/
def compared (registers : Registers) : Operation → Option UInt8
  | .read .cmp | .modify .dcp => some registers.a
  | .read .cpx => some registers.x
  | .read .cpy => some registers.y
  | .read .sbx => some (registers.a &&& registers.x)
  | _ => none

/-- The byte finally operated on when the operand is `value`, and the carry at that moment: some
operations rotate their operand first, or move it by one. -/
def operated (operation : Operation) (value : UInt8) (carry : Bool) : UInt8 × Bool :=
  match operation with
  | .modify .rra =>
    (UInt8.ofNat (value.toNat / 2 + 0x80 * carry.toNat), decide (value.toNat % 2 = 1))
  | .modify .isc => (value + 1, carry)
  | .modify .dcp => (value - 1, carry)
  | _ => (value, carry)

/-- A rotation to the right, in numbers. -/
theorem ror_apply (value : UInt8) (carry : Bool) :
    Shift.ror.apply value carry = (Operation.modify .rra).operated value carry := by
  have hvalue : value.toNat < 256 := value.toNat_lt
  refine Prod.ext ?_ ?_
  · have hbit : (Byte.ofBit 0x80 carry).toNat = 0x80 * carry.toNat := Byte.toNat_ofBit _ _
    have hshift : (value >>> 1).toNat = value.toNat / 2 := by
      rw [UInt8.toNat_shiftRight]
      exact Nat.shiftRight_eq_div_pow _ 1
    change value >>> 1 + Byte.ofBit 0x80 carry = UInt8.ofNat _
    rw [← UInt8.toNat_inj, UInt8.toNat_add, hshift, hbit, UInt8.toNat_ofNat']
  · refine (Byte.bit_eq_decide value 0x01).trans ?_
    change decide (value.toNat / 1 % 2 = 1) = decide (value.toNat % 2 = 1)
    rw [Nat.div_one]

/-- An operation that adds leaves the sum of the byte and the carry that it has come to. -/
theorem execute_holdsSum {operation : Operation} (h : operation.adds = true) (operand : Operand)
    (cpu : Cpu) (bus : Bus) :
    let final := operation.operated (CpuBus.read bus operand.address).1 cpu.registers.status.carry
    (operation.execute operand cpu bus).1.registers.HoldsSum cpu.registers.a final.1 final.2 := by
  cases operation with
  | read operation =>
    cases operation with
    | adc => exact cpu.registers.add_holdsSum _
    | _ => cases h
  | modify operation =>
    cases operation with
    | rra =>
      rw [← ror_apply]
      let changed := (Change.shift .ror).apply (CpuBus.read bus operand.address).1 cpu.registers
      exact changed.2.add_holdsSum changed.1
    | _ => cases h
  | _ => cases h

/-- An operation that subtracts leaves the difference. -/
theorem execute_holdsDifference {operation : Operation} (h : operation.subtracts = true)
    (operand : Operand) (cpu : Cpu) (bus : Bus) :
    let final := operation.operated (CpuBus.read bus operand.address).1 cpu.registers.status.carry
    (operation.execute operand cpu bus).1.registers.HoldsDifference cpu.registers.a final.1
      final.2 := by
  cases operation with
  | read operation =>
    cases operation with
    | sbc => exact cpu.registers.subtract_holdsDifference _
    | _ => cases h
  | modify operation =>
    cases operation with
    | isc =>
      let changed := Change.inc.apply (CpuBus.read bus operand.address).1 cpu.registers
      exact changed.2.subtract_holdsDifference changed.1
    | _ => cases h
  | _ => cases h

/-- An operation that compares leaves the flags of the comparison. -/
theorem execute_tellsComparison {operation : Operation} {cpu : Cpu} {left : UInt8}
    (h : operation.compared cpu.registers = some left) (operand : Operand) (bus : Bus) :
    let final := operation.operated (CpuBus.read bus operand.address).1 cpu.registers.status.carry
    (operation.execute operand cpu bus).1.registers.status.TellsComparison left final.1 := by
  cases operation with
  | read operation =>
    cases operation with
    | cmp | cpx | cpy | sbx =>
      obtain rfl := Option.some.inj h
      exact cpu.registers.compare_tells _ _
    | _ => cases h
  | modify operation =>
    cases operation with
    | dcp =>
      obtain rfl := Option.some.inj h
      let changed := Change.dec.apply (CpuBus.read bus operand.address).1 cpu.registers
      exact changed.2.compare_tells cpu.registers.a changed.1
    | _ => cases h
  | _ => cases h

/-- One comparison keeps the difference. -/
theorem execute_keeps_difference {operation : Operation} (hkeeps : operation = .read .sbx)
    {cpu : Cpu} {left : UInt8} (h : operation.compared cpu.registers = some left)
    (operand : Operand) (bus : Bus) :
    let final := operation.operated (CpuBus.read bus operand.address).1 cpu.registers.status.carry
    (operation.execute operand cpu bus).1.registers.x = left - final.1 := by
  subst hkeeps
  obtain rfl := Option.some.inj h
  rfl

/-- The operation adds, subtracts or compares. -/
def calculates (operation : Operation) (registers : Registers) : Bool :=
  operation.adds || operation.subtracts || (operation.compared registers).isSome

/-- A calculation leaves the byte that it has come to in memory. -/
theorem execute_operated {operation : Operation} {cpu : Cpu}
    (h : operation.calculates cpu.registers = true) (operand : Operand) (bus : FlatBus) :
    let value := bus.memory.get operand.address.toNat
    (operation.execute operand cpu bus).2.memory.get operand.address.toNat =
      (operation.operated value cpu.registers.status.carry).1 := by
  intro value
  cases operation with
  | read operation => rfl
  | modify operation =>
    cases operation with
    | rra =>
      rw [← ror_apply]
      exact bus.memory.get_set_self _ _
    | isc | dcp => exact bus.memory.get_set_self _ _
    | _ => cases h
  | _ => cases h

end Operation

/-- The registers with another level of the decimal flag. -/
def Registers.withDecimal (registers : Registers) (level : Bool) : Registers :=
  { registers with status := { registers.status with decimal := level } }

/-- No computation from a byte asks for the decimal flag. -/
theorem ReadOperation.apply_withDecimal (operation : ReadOperation) (value : UInt8)
    (registers : Registers) (level : Bool) :
    operation.apply value (registers.withDecimal level) =
      (operation.apply value registers).withDecimal level := by
  cases operation <;> rfl

/-- No change of a byte asks for the decimal flag. -/
theorem ModifyOperation.apply_withDecimal (operation : ModifyOperation) (value : UInt8)
    (registers : Registers) (level : Bool) :
    operation.apply value (registers.withDecimal level) =
      ((operation.apply value registers).1,
        (operation.apply value registers).2.withDecimal level) := by
  cases operation <;> rfl

/-- No operand is found through the decimal flag. -/
theorem AddressingMode.resolve_withDecimal (mode : AddressingMode) (registers : Registers)
    (level : Bool) (pc : UInt16) (bus : FlatBus) :
    mode.resolve (registers.withDecimal level) pc bus = mode.resolve registers pc bus := by
  cases mode <;> rfl

/-- No instruction takes its time from the decimal flag. -/
theorem Opcode.extraCycles_withDecimal (opcode : Opcode) (operand : Operand)
    (registers : Registers) (level : Bool) :
    opcode.extraCycles operand (registers.withDecimal level).status =
      opcode.extraCycles operand registers.status := by
  unfold extraCycles
  cases opcode.operation with
  | branch flag tested => cases flag <;> rfl
  | _ => rfl

namespace Cpu

variable {cpu : Cpu} {bus : FlatBus}

/-- The processor with another level of the decimal flag. -/
def withDecimal (cpu : Cpu) (level : Bool) : Cpu :=
  cpu.mapRegisters fun registers => registers.withDecimal level

/-- Carrying out a calculation does not ask for the decimal flag. -/
theorem execute_withDecimal {operation : Operation}
    (h : operation.calculates cpu.registers = true) (operand : Operand) (bus : FlatBus)
    (level : Bool) :
    operation.execute operand (cpu.withDecimal level) bus =
      ((operation.execute operand cpu bus).1.withDecimal level,
        (operation.execute operand cpu bus).2) := by
  cases operation with
  | read operation =>
    have happly := operation.apply_withDecimal (bus.memory.get operand.address.toNat)
      cpu.registers level
    exact congrArg (fun registers => ({ cpu with registers }, bus)) happly
  | modify operation =>
    have happly := operation.apply_withDecimal (bus.memory.get operand.address.toNat)
      cpu.registers level
    exact congrArg (fun applied => ({ cpu with registers := applied.2 },
      bus.store operand.address applied.1)) happly
  | _ => cases h

/-- The byte on which the instruction at the program counter finally operates, and the carry at that
moment. -/
def operated (cpu : Cpu) (bus : FlatBus) : UInt8 × Bool :=
  (cpu.fetched bus).operation.operated (bus.memory.get (cpu.operand bus).address.toNat)
    cpu.registers.status.carry

/-- A step that calculates does not ask for the decimal flag. -/
theorem step_withDecimal (hruns : cpu.runsNext bus = true)
    (h : (cpu.fetched bus).operation.calculates cpu.registers = true) (level : Bool) :
    (cpu.withDecimal level).step bus =
      ((cpu.step bus).1, (cpu.step bus).2.1.withDecimal level, (cpu.step bus).2.2) := by
  have hrunsToo : (cpu.withDecimal level).runsNext bus = true := hruns
  have hfetched : (cpu.withDecimal level).fetched bus = cpu.fetched bus := rfl
  have hoperand : (cpu.withDecimal level).operand bus = cpu.operand bus :=
    congrArg Prod.fst (AddressingMode.resolve_withDecimal _ _ _ _ _)
  obtain ⟨hcycles, hstep⟩ := step_of_runsNext hruns
  obtain ⟨hcyclesToo, hstepToo⟩ := step_of_runsNext hrunsToo
  have hsame : ((cpu.withDecimal level).step bus).1 = (cpu.step bus).1 := by
    rw [hcyclesToo, hcycles, hfetched, hoperand]
    exact congrArg _ (Opcode.extraCycles_withDecimal _ _ _ _)
  have hready : (cpu.withDecimal level).ready bus = (cpu.ready bus).withDecimal level := by
    simp only [ready, hsame]
    rfl
  have hcalculates : (cpu.fetched bus).operation.calculates (cpu.ready bus).registers = true := by
    rw [ready_registers]
    exact h
  refine Prod.ext hsame ?_
  rw [hstepToo, hready, hfetched, hoperand, execute_withDecimal hcalculates, ← hstep]

/-- **Arithmetic in numbers.** Whichever instruction runs next, with whichever mode it names its
operand: a sum is the sum of the accumulator, the byte finally operated on and the carry at that
moment, a difference is what is left of the accumulator, and both set the carry and the overflow
exactly when the unsigned and the signed number leave their range, and the zero and the negative
flag as the result has them. A comparison sets the carry exactly when nothing is borrowed, and its
flags are those of a subtraction without a borrow. The byte operated on is what memory holds
afterwards, and the decimal flag changes nothing at all. -/
theorem arithmetic_exact (hruns : cpu.runsNext bus = true) :
    let operation := (cpu.fetched bus).operation
    let before := cpu.registers
    let after := (cpu.step bus).2.1.registers
    let byte := (cpu.operated bus).1
    let carry := (cpu.operated bus).2
    (operation.adds = true → after.HoldsSum before.a byte carry) ∧
    (operation.subtracts = true → after.HoldsDifference before.a byte carry) ∧
    (∀ left, operation.compared before = some left →
      let subtracted := ReadOperation.sbc.apply byte (before.borrowless left)
      after.status.TellsComparison left byte ∧
        after.status.carry = subtracted.status.carry ∧
        after.status.zero = subtracted.status.zero ∧
        after.status.negative = subtracted.status.negative ∧
        (operation = .read .sbx → after.x = left - byte)) ∧
    (operation.calculates before = true →
      (cpu.step bus).2.2.memory.get (cpu.operand bus).address.toNat = byte ∧
        ∀ level, (cpu.withDecimal level).step bus =
          ((cpu.step bus).1, (cpu.step bus).2.1.withDecimal level, (cpu.step bus).2.2)) := by
  intro operation before after byte carry
  have hstep := (step_of_runsNext hruns).2
  have hregisters : (cpu.ready bus).registers = before := cpu.ready_registers bus
  have hafter : after = (operation.execute (cpu.operand bus) (cpu.ready bus) bus).1.registers := by
    rw [← hstep]
  refine ⟨fun hadds => ?_, fun hsubtracts => ?_, fun left hleft => ?_, fun hcalculates => ?_⟩
  · have hsum := Operation.execute_holdsSum hadds (cpu.operand bus) (cpu.ready bus) bus
    rw [hregisters, ← hafter] at hsum
    exact hsum
  · have hdifference :=
      Operation.execute_holdsDifference hsubtracts (cpu.operand bus) (cpu.ready bus) bus
    rw [hregisters, ← hafter] at hdifference
    exact hdifference
  · rw [← hregisters] at hleft
    have htells := Operation.execute_tellsComparison hleft (cpu.operand bus) bus
    rw [hregisters, ← hafter] at htells
    obtain ⟨hcarry, hzero, hnegative⟩ := htells.like_subtract before
    refine ⟨htells, hcarry, hzero, hnegative, fun hkeeps => ?_⟩
    have hdifference := Operation.execute_keeps_difference hkeeps hleft (cpu.operand bus) bus
    rw [hregisters, ← hafter] at hdifference
    exact hdifference
  · refine ⟨?_, step_withDecimal hruns hcalculates⟩
    rw [← hregisters] at hcalculates
    have hbyte := Operation.execute_operated hcalculates (cpu.operand bus) bus
    rw [hregisters] at hbyte
    rw [hstep, hbyte]
    rfl

/-- A processor with its decimal flag and its carry set, about to rotate a byte and to add it. -/
def beforeDecimalSum : Cpu :=
  { pc := 0xFFFE
    registers :=
      { a := 0x42, y := 0xFF, status := { Status.initial with decimal := true, carry := true } } }

/-- Memory that holds the opcode of a rotation with an addition everywhere. -/
def rotatedSumsEverywhere : FlatBus := { memory := Memory.filled 16 0x7B }

/-- The sum leaves the byte without a sign and comes out at zero, but stays in range with one. -/
theorem arithmetic_exact_rotated :
    let after := (beforeDecimalSum.step rotatedSumsEverywhere).2.1.registers
    beforeDecimalSum.runsNext rotatedSumsEverywhere = true ∧ after.a = 0 ∧
      after.status.carry = true ∧ after.status.zero = true ∧ after.status.overflow = false := by
  intro after
  have hruns : beforeDecimalSum.runsNext rotatedSumsEverywhere = true := rfl
  have hbyte (address : Nat) : rotatedSumsEverywhere.memory.get address = 0x7B :=
    Memory.get_filled _ _
  have hrow : beforeDecimalSum.fetched rotatedSumsEverywhere =
      Opcode.Catalogue.unofficial 0x7B (.modify .rra) .absoluteY 7 := by
    refine fetched_of_decode (hbyte _) ?_
    rw [decode_eq_find]
    rfl
  have hfinal : beforeDecimalSum.operated rotatedSumsEverywhere = (0xBD, true) := by
    rw [operated, hrow, hbyte]
    rfl
  have hadds : (beforeDecimalSum.fetched rotatedSumsEverywhere).operation.adds = true := by
    rw [hrow]
    rfl
  -- any registers with this sum will do: nothing may run the step
  have hnumbers {registers : Registers} (h : registers.HoldsSum 0x42 0xBD true) :
      registers.a = 0 ∧ registers.status.carry = true ∧ registers.status.zero = true ∧
        registers.status.overflow = false := by
    have ha : registers.a.toNat = 0 := h.a_eq
    refine ⟨UInt8.toNat_inj.mp ha, h.carry_iff.mpr (by decide), h.reflects.zero.mpr ha, ?_⟩
    refine Bool.eq_false_iff.mpr fun hset => ?_
    exact absurd (h.overflow_iff.mp hset) (by decide)
  have hsum := (arithmetic_exact hruns).1 hadds
  rw [hfinal] at hsum
  exact ⟨hruns, hnumbers hsum⟩

end Cpu

end Famicom
