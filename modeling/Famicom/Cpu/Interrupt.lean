import Famicom.Cpu.Status

/-!
# Interrupts

The three ways to enter a handler. They differ in the vector and in one bit of the pushed
status byte, by which a handler tells an instruction from a line.
-/

namespace Famicom

/-- What sends the processor into a handler. -/
inductive Interrupt where
  /-- The edge of the non-maskable line. -/
  | nmi
  /-- The instruction. -/
  | brk
  /-- The level of the shared line. -/
  | irq
deriving DecidableEq, Repr

namespace Interrupt

/-- Where the handler's address is stored. -/
def vector : Interrupt → UInt16
  | nmi => 0xFFFA
  | brk | irq => 0xFFFE

/-- Cycles spent on the way into the handler. -/
def cycles (_ : Interrupt) : Nat := 7

/-- The status as pushed by this interrupt. -/
def pushedStatus (interrupt : Interrupt) (status : Status) : Status :=
  { status with brk := interrupt == brk, reserved := true }

/-- The bits without storage as this interrupt pushes them. -/
def storagelessBits (interrupt : Interrupt) : UInt8 :=
  (interrupt.pushedStatus (Status.ofByte 0)).toByte

end Interrupt

end Famicom
