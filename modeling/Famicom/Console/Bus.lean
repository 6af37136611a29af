import Famicom.Cpu.Bus
import Famicom.History
import Famicom.Ppu.Access
import Famicom.Ppu.Dot

/-!
# The console's bus

What the processor finds behind its address lines: 2 KB of memory, the registers of the picture
unit, a block of latches and the cartridge. Where nothing answers, a read gives the byte that
was read last.
-/

namespace Famicom

/-- Everything behind the processor's bus. -/
structure ConsoleBus where
  /-- The inserted cartridge. -/
  board : Board
  /-- Working memory. -/
  ram : Memory 11 := Memory.filled 11 0
  /-- The picture unit. -/
  ppu : Ppu := {}
  /-- Bytes written to the sound and controller block, which has no other effect. -/
  latches : Memory 5 := Memory.filled 5 0
  /-- The page of a transfer to object memory that has been asked for. -/
  dmaPage : Option UInt8 := none
  /-- The byte read last. -/
  openBus : UInt8 := 0
deriving DecidableEq

namespace ConsoleBus

/-- What answers at an address. -/
inductive Region where
  | ram
  | ppu
  /-- Sound, controllers and the transfer register. -/
  | latches
  | cartridge
deriving DecidableEq, Repr

/-- The region of an address. -/
def Region.of (address : UInt16) : Region :=
  if address < 0x2000 then .ram
  else if address < 0x4000 then .ppu
  else if address < 0x4020 then .latches
  else .cartridge

/-- Writing a page number here asks for a transfer to object memory. -/
def dmaRegister : UInt16 := 0x4014

/-- A read by the processor, which every read leaves on the data lines. -/
def read (bus : ConsoleBus) (address : UInt16) : UInt8 × ConsoleBus :=
  match Region.of address with
  | .ram =>
    let value := bus.ram.get address.toNat
    (value, { bus with openBus := value })
  | .ppu =>
    let { board, ram, ppu, latches, dmaPage, .. } := bus
    let (value, ppu, board) := ppu.readRegister address board
    (value, { board, ram, ppu, latches, dmaPage, openBus := value })
  | .latches => (bus.openBus, bus)
  | .cartridge =>
    let value := (bus.board.read address).getD bus.openBus
    (value, { bus with openBus := value })

/-- A write by the processor. -/
def write (bus : ConsoleBus) (address : UInt16) (value : UInt8) : ConsoleBus :=
  match Region.of address with
  | .ram => { bus with ram := bus.ram.set address.toNat value }
  | .ppu =>
    let { board, ram, ppu, latches, dmaPage, openBus } := bus
    let (ppu, board) := ppu.writeRegister address value board
    { board, ram, ppu, latches, dmaPage, openBus }
  | .latches =>
    { bus with
      latches := bus.latches.set address.toNat value
      dmaPage := if address = dmaRegister then some value else bus.dmaPage }
  | .cartridge => { bus with board := bus.board.write address value }

/-- The byte that a read would give, without its effects. -/
def look (bus : ConsoleBus) (address : UInt16) : UInt8 :=
  match Region.of address with
  | .ram => bus.ram.get address.toNat
  | .ppu => bus.ppu.look address
  | .latches => bus.openBus
  | .cartridge => (bus.board.read address).getD bus.openBus

instance : CpuBus ConsoleBus where
  read := read
  write := write
  look := look
  nmiLine bus := bus.ppu.nmiLine
  irqLine bus := bus.board.irqLine

/-- Everything but the memories back to its value at power-on. -/
def reset (bus : ConsoleBus) : ConsoleBus :=
  { board := bus.board, ram := bus.ram, ppu := bus.ppu.reset }

/-- Exchange the cartridge and clear the working memory. -/
def insert (bus : ConsoleBus) (board : Board) : ConsoleBus :=
  { bus with board, ram := Memory.filled 11 0 }.reset

/-- Let the picture unit work through a number of dots; the flag says whether a frame was
completed on the way. -/
def runPpu (bus : ConsoleBus) (dots : Nat) : Bool × ConsoleBus :=
  let { board, ram, ppu, latches, dmaPage, openBus } := bus
  let (frames, ppu, board) := ppu.run dots board
  (decide (0 < frames), { board, ram, ppu, latches, dmaPage, openBus })

/-- Store a byte of a transfer in object memory. -/
def writeOam (bus : ConsoleBus) (value : UInt8) : ConsoleBus :=
  { bus with ppu := bus.ppu.writeOam value }

/-- Take up the transfer that has been asked for. -/
def takeDmaPage (bus : ConsoleBus) : Option UInt8 × ConsoleBus :=
  (bus.dmaPage, { bus with dmaPage := none })

/-- The state as one line of text. -/
def state (bus : ConsoleBus) : String :=
  let page := match bus.dmaPage with
    | none => "None"
    | some page => "Some(" ++ toString page.toNat ++ ")"
  "open_bus=" ++ Text.hexByte bus.openBus ++ " dma=" ++ page ++ " | PPU " ++ bus.ppu.state

end ConsoleBus

end Famicom
