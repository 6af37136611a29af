import Famicom.Memory
import Famicom.Wiring

/-!
# Cartridge boards

A cartridge answers the upper part of the processor's address range and the whole pattern
range of the picture unit. Three discrete-logic boards are described, which differ in what
they put at each address and in the one latch that writes to the program area may set. Reads
never change a board, so a read is a plain function of it.
-/

namespace Famicom

/-- Pattern storage: data from the image, or 8 KB of writable memory where it has none. -/
inductive Chr where
  | rom (bytes : Array UInt8)
  | ram (memory : Memory 13)
deriving DecidableEq

namespace Chr

/-- The storage for an image's pattern data. -/
def ofBytes (bytes : Array UInt8) : Chr :=
  if bytes.isEmpty then ram (Memory.filled 13 0) else rom bytes

/-- Whether the patterns are writable. -/
def isRam : Chr → Bool
  | rom _ => false
  | ram _ => true

/-- The number of whole 8 KB banks, at least one. -/
def bankCount : Chr → Nat
  | rom bytes => max (bytes.size / 0x2000) 1
  | ram _ => 1

/-- The byte at `address` of the 8 KB window that shows bank `bank`. -/
def read (chr : Chr) (bank address : Nat) : UInt8 :=
  match chr with
  | rom bytes =>
    bytes.getD ((bank % chr.bankCount * 0x2000 + address % 0x2000) % bytes.size) 0
  | ram memory => memory.get address

/-- Writes reach writable patterns only. -/
def write (chr : Chr) (address : Nat) (value : UInt8) : Chr :=
  match chr with
  | rom bytes => rom bytes
  | ram memory => ram (memory.set address value)

end Chr

/-- The board types. -/
inductive BoardKind where
  /-- Fixed program area and 8 KB of program memory at `$6000`. -/
  | nrom
  /-- Switchable 16 KB of program at `$8000`, the last 16 KB fixed at `$C000`. -/
  | uxrom
  /-- Fixed program area and switchable patterns. -/
  | cnrom
deriving DecidableEq, Repr

/-- What a board keeps besides its image. -/
inductive BoardLatch where
  | nrom (programRam : Memory 13)
  | uxrom (programBank : Nat)
  | cnrom (patternBank : Nat)
deriving DecidableEq

/-- A cartridge in the console. -/
structure Board where
  /-- Program data. -/
  prg : Array UInt8
  /-- Pattern storage. -/
  chr : Chr
  /-- Connection of the nametables. -/
  wiring : Wiring
  /-- Board logic with its current state. -/
  latch : BoardLatch
deriving DecidableEq

namespace Board

/-- A freshly powered board: bank 0 selected, memory cleared. -/
def ofBytes (kind : BoardKind) (prg chr : Array UInt8) (wiring : Wiring) : Board :=
  { prg, wiring
    chr := Chr.ofBytes chr
    latch := match kind with
      | .nrom => .nrom (Memory.filled 13 0)
      | .uxrom => .uxrom 0
      | .cnrom => .cnrom 0 }

/-- The number of whole 16 KB program banks, at least one. -/
def prgBankCount (board : Board) : Nat :=
  max (board.prg.size / 0x4000) 1

/-- A program byte, the image repeating through the 32 KB program area. -/
def prgByte (board : Board) (offset : Nat) : UInt8 :=
  board.prg.getD (offset % board.prg.size) 0

/-- What the board drives onto the processor's data bus; nothing where it is not wired. -/
def read (board : Board) (address : UInt16) : Option UInt8 :=
  let address := address.toNat
  match board.latch with
  | .nrom programRam =>
    if 0x8000 ≤ address then some (board.prgByte (address - 0x8000))
    else if 0x6000 ≤ address then some (programRam.get (address - 0x6000))
    else none
  | .uxrom bank =>
    if 0xC000 ≤ address then
      some (board.prg.getD ((board.prgBankCount - 1) * 0x4000 + (address - 0xC000)) 0)
    else if 0x8000 ≤ address then
      some (board.prg.getD (bank % board.prgBankCount * 0x4000 + (address - 0x8000)) 0)
    else none
  | .cnrom _ =>
    if 0x8000 ≤ address then some (board.prgByte (address - 0x8000)) else none

/-- A processor write: program memory on one board, the bank latch on the others. -/
def write (board : Board) (address : UInt16) (value : UInt8) : Board :=
  match board with
  | { prg, chr, wiring, latch := .nrom programRam } =>
    if 0x6000 ≤ address ∧ address < 0x8000 then
      { prg, chr, wiring, latch := .nrom (programRam.set (address.toNat - 0x6000) value) }
    else { prg, chr, wiring, latch := .nrom programRam }
  | { prg, chr, wiring, latch := .uxrom bank } =>
    { prg, chr, wiring, latch := .uxrom (if 0x8000 ≤ address then value.toNat % 16 else bank) }
  | { prg, chr, wiring, latch := .cnrom bank } =>
    { prg, chr, wiring, latch := .cnrom (if 0x8000 ≤ address then value.toNat % 16 else bank) }

/-- The pattern bank in the 8 KB pattern window. -/
def patternBank (board : Board) : Nat :=
  match board.latch with
  | .cnrom bank => bank
  | _ => 0

/-- A pattern byte. -/
def readPattern (board : Board) (address : UInt16) : UInt8 :=
  board.chr.read board.patternBank address.toNat

/-- Write a pattern byte, where patterns are writable. -/
def writePattern (board : Board) (address : UInt16) (value : UInt8) : Board :=
  { board with chr := board.chr.write address.toNat value }

/-- Level of the board's interrupt output, which none of these boards connects. -/
def irqLine (_ : Board) : Bool := false

end Board

end Famicom
