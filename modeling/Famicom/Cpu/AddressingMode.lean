/-!
# Addressing modes

How the bytes after an opcode name the operand. The mode alone fixes how many bytes follow.
-/

namespace Famicom

/-- The thirteen ways to name an operand. -/
inductive AddressingMode where
  | implied
  | accumulator
  | immediate
  | zeroPage
  | zeroPageX
  | zeroPageY
  | absolute
  | absoluteX
  | absoluteY
  /-- The address of the address, for jumps only. -/
  | indirect
  /-- The index selects the pointer. -/
  | indirectX
  /-- The index is added to the pointer's target. -/
  | indirectY
  /-- A signed distance, for branches only. -/
  | relative
deriving DecidableEq, Repr

/-- Operand bytes after the opcode. -/
def AddressingMode.operandLength : AddressingMode → Nat
  | implied | accumulator => 0
  | immediate | zeroPage | zeroPageX | zeroPageY | indirectX | indirectY | relative => 1
  | absolute | absoluteX | absoluteY | indirect => 2

/-- The modes that spend a cycle more when indexing leaves the page. -/
def AddressingMode.paysForCrossing : AddressingMode → Bool
  | absoluteX | absoluteY | indirectY => true
  | _ => false

end Famicom
