import Famicom.Cpu.Step

/-!
# Program listing

One line for the instruction about to run: address, bytes, mnemonic, operand and registers in
fixed columns. Memory is only looked at, so a listing never changes what it shows.
-/

namespace Famicom

namespace Cpu

variable {Bus : Type} [CpuBus Bus]

/-- A word looked at in page zero. -/
def lookPointer (bus : Bus) (pointer : UInt8) : UInt16 :=
  CpuBus.lookWord bus pointer.toUInt16 (pointer + 1).toUInt16

/-- The operand of the instruction at `cpu.pc`, with the addresses and the byte behind it.
Jump targets are shown bare. -/
def operandText (cpu : Cpu) (opcode : Opcode) (bus : Bus) : String :=
  let registers := cpu.registers
  let byte := CpuBus.look bus (cpu.pc + 1)
  let word := CpuBus.lookWord bus (cpu.pc + 1) (cpu.pc + 2)
  let at8 (address : UInt8) : String :=
    Text.hexByte address ++ " = " ++ Text.hexByte (CpuBus.look bus address.toUInt16)
  let at16 (address : UInt16) : String :=
    Text.hexWord address ++ " = " ++ Text.hexByte (CpuBus.look bus address)
  match opcode.mode with
  | .implied => ""
  | .accumulator => "A"
  | .immediate => "#$" ++ Text.hexByte byte
  | .zeroPage => "$" ++ at8 byte
  | .zeroPageX => "$" ++ Text.hexByte byte ++ ",X @ " ++ at8 (byte + registers.x)
  | .zeroPageY => "$" ++ Text.hexByte byte ++ ",Y @ " ++ at8 (byte + registers.y)
  | .absolute =>
    if opcode.operation = .jmp ∨ opcode.operation = .jsr then "$" ++ Text.hexWord word
    else "$" ++ at16 word
  | .absoluteX => "$" ++ Text.hexWord word ++ ",X @ " ++ at16 (word + registers.x.toUInt16)
  | .absoluteY => "$" ++ Text.hexWord word ++ ",Y @ " ++ at16 (word + registers.y.toUInt16)
  | .indirect =>
    "($" ++ Text.hexWord word ++ ") = " ++
      Text.hexWord (CpuBus.lookWord bus word (nextInPage word))
  | .indirectX =>
    let pointer := byte + registers.x
    "($" ++ Text.hexByte byte ++ ",X) @ " ++ Text.hexByte pointer ++ " = " ++
      at16 (lookPointer bus pointer)
  | .indirectY =>
    let base := lookPointer bus byte
    "($" ++ Text.hexByte byte ++ "),Y = " ++ Text.hexWord base ++ " @ " ++
      at16 (base + registers.y.toUInt16)
  | .relative => "$" ++ Text.hexWord (cpu.pc + 2 + signedDistance byte)

/-- The bytes of the instruction at `pc`, separated by blanks. -/
def bytesText (pc : UInt16) (opcode : Opcode) (bus : Bus) : String :=
  String.intercalate " " <| (List.range opcode.size).map fun offset =>
    Text.hexByte (CpuBus.look bus (pc + UInt16.ofNat offset))

/-- The registers at the end of a line. -/
def registersText (registers : Registers) : String :=
  " A:" ++ Text.hexByte registers.a ++ " X:" ++ Text.hexByte registers.x ++
    " Y:" ++ Text.hexByte registers.y ++ " P:" ++ Text.hexByte registers.status.toByte ++
    " SP:" ++ Text.hexByte registers.sp

/-- The listing line of the instruction about to run. -/
def listing (cpu : Cpu) (bus : Bus) : String :=
  let opcode := decode (CpuBus.look bus cpu.pc)
  let instruction :=
    Text.hexWord cpu.pc ++ "  " ++ Text.alignLeft 8 (bytesText cpu.pc opcode bus) ++ " " ++
      Text.alignRight 4 opcode.name ++ " " ++ cpu.operandText opcode bus
  Text.alignLeft 47 instruction ++ registersText cpu.registers

end Cpu

end Famicom
