import Famicom.Cartridge.Board
import Famicom.Traffic

/-!
# The picture unit's view of the cartridge

The cartridge holds the patterns and connects the nametables. Fetching a pattern may be
noticed by what is connected, so it returns the bus as well.
-/

namespace Famicom

/-- What a picture unit can be connected to. -/
class PatternBus (Bus : Type) where
  /-- The pattern byte at an address, and the bus after answering. -/
  read : Bus → UInt16 → UInt8 × Bus
  /-- The bus after a write to the patterns. -/
  write : Bus → UInt16 → UInt8 → Bus
  /-- Connection of the nametables. -/
  wiring : Bus → Wiring

instance : PatternBus Board where
  read board address := (board.readPattern address, board)
  write board address value := board.writePattern address value
  wiring board := board.wiring

instance {Bus : Type} [PatternBus Bus] : PatternBus (Recorded Bus) where
  read recorded address := recorded.read PatternBus.read address
  write recorded address value := recorded.write PatternBus.write address value
  wiring recorded := PatternBus.wiring recorded.bus

end Famicom
