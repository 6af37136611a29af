/-!
# Recorded bus traffic

Devices react to being accessed, so the order of accesses is part of what a program does. A
bus can be wrapped in a recorder, which answers as the bus does and notes each access.
-/

namespace Famicom

/-- One access to a bus. -/
inductive Access where
  | read (address : UInt16)
  | write (address : UInt16) (value : UInt8)
deriving DecidableEq, Repr

/-- A bus together with the accesses made so far, oldest first. -/
structure Recorded (Bus : Type) where
  /-- The bus that answers. -/
  bus : Bus
  /-- What it was asked. -/
  traffic : Array Access := #[]
deriving DecidableEq

namespace Recorded

variable {Bus : Type}

/-- Ask the bus for a byte and note the access. -/
@[inline] def read (recorded : Recorded Bus) (answer : Bus → UInt16 → UInt8 × Bus)
    (address : UInt16) : UInt8 × Recorded Bus :=
  let { bus, traffic } := recorded
  let (value, bus) := answer bus address
  (value, { bus, traffic := traffic.push (.read address) })

/-- Hand the bus a byte and note the access. -/
@[inline] def write (recorded : Recorded Bus) (accept : Bus → UInt16 → UInt8 → Bus)
    (address : UInt16) (value : UInt8) : Recorded Bus :=
  let { bus, traffic } := recorded
  { bus := accept bus address value, traffic := traffic.push (.write address value) }

/-- The recorder with further accesses noted. -/
def noting (recorded : Recorded Bus) (accesses : List Access) : Recorded Bus :=
  { recorded with traffic := recorded.traffic ++ accesses }

@[simp] theorem noting_bus (recorded : Recorded Bus) (accesses : List Access) :
    (recorded.noting accesses).bus = recorded.bus := rfl

@[simp] theorem noting_traffic (recorded : Recorded Bus) (accesses : List Access) :
    (recorded.noting accesses).traffic = recorded.traffic ++ accesses := rfl

theorem noting_noting (recorded : Recorded Bus) (first second : List Access) :
    (recorded.noting first).noting second = recorded.noting (first ++ second) := by
  refine congrArg (Recorded.mk recorded.bus) (Array.toList_inj.mp ?_)
  simp

end Recorded

end Famicom
