import Famicom.Cpu.AddressingMode
import Famicom.Cpu.Bus
import Famicom.Cpu.Registers

/-!
# Operand addresses

Finding the address an instruction works on. Pointers in page zero stay in page zero, and the
pointer of an indirect jump stays in its page; indexed addresses go on into the next page and
remember that they did.
-/

namespace Famicom

/-- The number of the 256-byte page that holds an address. -/
def page (address : UInt16) : UInt16 := address / 0x100

/-- A signed byte as a distance between addresses. -/
def signedDistance (byte : UInt8) : UInt16 :=
  if Byte.isNegative byte then byte.toUInt16 + 0xFF00 else byte.toUInt16

/-- The address after `address`, without leaving its page. -/
def nextInPage (address : UInt16) : UInt16 :=
  page address * 0x100 + (address + 1) % 0x100

/-- Where an instruction finds its operand. -/
structure Operand where
  /-- The effective address. -/
  address : UInt16 := 0
  /-- The address before indexing. -/
  base : UInt16 := 0
  /-- Whether indexing led to another page. -/
  crossed : Bool := false
deriving DecidableEq, Repr

namespace Operand

/-- An operand at a fixed address. -/
def direct (address : UInt16) : Operand :=
  { address, base := address }

/-- An operand at some distance from a base address. -/
def displaced (base distance : UInt16) : Operand :=
  { address := base + distance, base, crossed := page base != page (base + distance) }

end Operand

namespace AddressingMode

variable {Bus : Type} [CpuBus Bus]

/-- A word whose two bytes both lie in page zero. -/
def readPointer (bus : Bus) (pointer : UInt8) : UInt16 × Bus :=
  CpuBus.readWord bus pointer.toUInt16 (pointer + 1).toUInt16

/-- Read the operand bytes from `pc` on, and the pointer where there is one. -/
def resolve (mode : AddressingMode) (registers : Registers) (pc : UInt16) (bus : Bus) :
    Operand × Bus :=
  match mode with
  | implied | accumulator => ({}, bus)
  | immediate => (.direct pc, bus)
  | zeroPage =>
    let (byte, bus) := CpuBus.read bus pc
    (.direct byte.toUInt16, bus)
  | zeroPageX =>
    let (byte, bus) := CpuBus.read bus pc
    (.direct (byte + registers.x).toUInt16, bus)
  | zeroPageY =>
    let (byte, bus) := CpuBus.read bus pc
    (.direct (byte + registers.y).toUInt16, bus)
  | absolute =>
    let (word, bus) := CpuBus.readWord bus pc (pc + 1)
    (.direct word, bus)
  | absoluteX =>
    let (word, bus) := CpuBus.readWord bus pc (pc + 1)
    (.displaced word registers.x.toUInt16, bus)
  | absoluteY =>
    let (word, bus) := CpuBus.readWord bus pc (pc + 1)
    (.displaced word registers.y.toUInt16, bus)
  | indirect =>
    let (pointer, bus) := CpuBus.readWord bus pc (pc + 1)
    let (word, bus) := CpuBus.readWord bus pointer (nextInPage pointer)
    (.direct word, bus)
  | indirectX =>
    let (byte, bus) := CpuBus.read bus pc
    let (word, bus) := readPointer bus (byte + registers.x)
    (.direct word, bus)
  | indirectY =>
    let (byte, bus) := CpuBus.read bus pc
    let (word, bus) := readPointer bus byte
    (.displaced word registers.y.toUInt16, bus)
  | relative =>
    let (byte, bus) := CpuBus.read bus pc
    (.displaced (pc + 1) (signedDistance byte), bus)

end AddressingMode

end Famicom
