/-!
# Faults

What ends a step before it has a result.
-/

namespace Famicom

/-- What a step must never do. -/
inductive Fault where
  /-- Use an index that is not below the size. -/
  | index (index size : Nat)
  /-- Take more away than there is. -/
  | difference (minuend subtrahend : Nat)
  /-- Reach the limit of a register. -/
  | overflow (value limit : Nat)
  /-- Divide by zero. -/
  | division
  /-- Shift by the width of the register or more. -/
  | shift (amount width : Nat)
  /-- Come to a branch that no input leads to. -/
  | unreachable
deriving DecidableEq, Repr

/-- A result, or the fault that prevents it. -/
abbrev Checked (α : Type) := Except Fault α

/-- A result is handed on. -/
@[simp] theorem Checked.ok_bind {α β : Type} (value : α) (next : α → Checked β) :
    (Except.ok value >>= next) = next value := rfl

end Famicom
