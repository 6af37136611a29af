import Famicom.Memory
import Famicom.Traffic

/-!
# The processor's view of its surroundings

A 16-bit address space and two interrupt inputs. A read may change what is behind the bus, so
it returns the bus as well; a look is a read without that effect, for listings only.
-/

namespace Famicom

/-- What a processor can be connected to. -/
class CpuBus (Bus : Type) where
  /-- The byte at an address, and the bus after answering. -/
  read : Bus → UInt16 → UInt8 × Bus
  /-- The bus after a write. -/
  write : Bus → UInt16 → UInt8 → Bus
  /-- The byte a read would give, without its effects. -/
  look : Bus → UInt16 → UInt8
  /-- Level of the non-maskable interrupt input. -/
  nmiLine : Bus → Bool
  /-- Level of the shared interrupt input. -/
  irqLine : Bus → Bool

namespace CpuBus

/-- A word, low byte first. -/
@[specialize] def readWord {Bus : Type} [CpuBus Bus] (bus : Bus) (low high : UInt16) :
    UInt16 × Bus :=
  let (lowByte, bus) := read bus low
  let (highByte, bus) := read bus high
  (highByte.toUInt16 * 0x100 + lowByte.toUInt16, bus)

/-- A word looked at, low byte first. -/
@[specialize] def lookWord {Bus : Type} [CpuBus Bus] (bus : Bus) (low high : UInt16) : UInt16 :=
  (look bus high).toUInt16 * 0x100 + (look bus low).toUInt16

end CpuBus

/-- 64 KB of memory with interrupt lines driven by hand. -/
structure FlatBus where
  /-- The whole address space. -/
  memory : Memory 16 := Memory.filled 16 0
  /-- Level of the non-maskable interrupt line. -/
  nmi : Bool := false
  /-- Level of the shared interrupt line. -/
  irq : Bool := false
deriving DecidableEq

namespace FlatBus

/-- Replace one byte. -/
def store (bus : FlatBus) (address : UInt16) (value : UInt8) : FlatBus :=
  { bus with memory := bus.memory.set address.toNat value }

/-- Replace two bytes, the low one first. -/
def storeWord (bus : FlatBus) (address value : UInt16) : FlatBus :=
  (bus.store address value.toUInt8).store (address + 1) (value / 0x100).toUInt8

/-- Place bytes from an address on, wrapping at the end of the space. -/
def load (bus : FlatBus) (start : UInt16) (bytes : List UInt8) : FlatBus :=
  { bus with memory := bus.memory.load start.toNat bytes }

instance : CpuBus FlatBus where
  read bus address := (bus.memory.get address.toNat, bus)
  write bus address value := bus.store address value
  look bus address := bus.memory.get address.toNat
  nmiLine bus := bus.nmi
  irqLine bus := bus.irq

end FlatBus

instance {Bus : Type} [CpuBus Bus] : CpuBus (Recorded Bus) where
  read recorded address := recorded.read CpuBus.read address
  write recorded address value := recorded.write CpuBus.write address value
  look recorded address := CpuBus.look recorded.bus address
  nmiLine recorded := CpuBus.nmiLine recorded.bus
  irqLine recorded := CpuBus.irqLine recorded.bus

end Famicom
