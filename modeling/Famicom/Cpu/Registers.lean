import Famicom.Cpu.Status

/-!
# Working registers

The registers that instructions compute with. The program counter is kept apart, so that a
function on these registers alone can move neither the program nor the clock.
-/

namespace Famicom

/-- Accumulator, index registers, stack pointer and status. -/
structure Registers where
  /-- Accumulator. -/
  a : UInt8 := 0
  /-- First index register. -/
  x : UInt8 := 0
  /-- Second index register. -/
  y : UInt8 := 0
  /-- Stack pointer, an offset in page one. -/
  sp : UInt8 := 0xFD
  /-- Processor status. -/
  status : Status := Status.initial
deriving DecidableEq, Repr

namespace Registers

/-- Load the accumulator and reflect the value in the status. -/
def loadA (registers : Registers) (value : UInt8) : Registers :=
  { registers with a := value, status := registers.status.withResult value }

/-- Load the first index register and reflect the value in the status. -/
def loadX (registers : Registers) (value : UInt8) : Registers :=
  { registers with x := value, status := registers.status.withResult value }

/-- Load the second index register and reflect the value in the status. -/
def loadY (registers : Registers) (value : UInt8) : Registers :=
  { registers with y := value, status := registers.status.withResult value }

/-- Set the carry flag. -/
def withCarry (registers : Registers) (carry : Bool) : Registers :=
  { registers with status := { registers.status with carry } }

/-- Reflect a result in the status without storing it. -/
def withResult (registers : Registers) (result : UInt8) : Registers :=
  { registers with status := registers.status.withResult result }

/-- Add a byte and the carry to the accumulator. The sum overflows when both terms share a
sign that the result has not. -/
def add (registers : Registers) (value : UInt8) : Registers :=
  let sum := registers.a.toNat + value.toNat + registers.status.carry.toNat
  let result := UInt8.ofNat sum
  let overflow :=
    Byte.isNegative registers.a == Byte.isNegative value &&
      Byte.isNegative registers.a != Byte.isNegative result
  let status := { registers.status with carry := decide (0x100 ≤ sum), overflow }
  { registers with a := result, status := status.withResult result }

/-- Subtract a byte and the missing carry from the accumulator, by adding the complement. -/
def subtract (registers : Registers) (value : UInt8) : Registers :=
  registers.add (~~~value)

/-- Compare a register with a byte: carry when no borrow is needed, zero when equal. -/
def compare (registers : Registers) (register value : UInt8) : Registers :=
  (registers.withCarry (decide (value ≤ register))).withResult (register - value)

end Registers

end Famicom
