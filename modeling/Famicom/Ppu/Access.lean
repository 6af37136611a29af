import Famicom.Ppu.Schedule
import Famicom.Ppu.State

/-!
# Register access

The eight registers that programs reach. Reading and writing them moves addresses, toggles
and flags; a look gives the byte that a read would give and moves nothing.
-/

namespace Famicom.Ppu

variable {Bus : Type} [PatternBus Bus]

/-- The byte at object memory's position; attribute bytes have no storage for three bits. -/
def oamByte (ppu : Ppu) : UInt8 :=
  let value := ppu.oam.get ppu.oamAddress.toNat
  if ppu.oamAddress % 4 = 2 then value / 0x20 * 0x20 + value % 4 else value

/-- Store a byte in object memory and move on. -/
def writeOam (ppu : Ppu) (value : UInt8) : Ppu :=
  { ppu with
    oam := ppu.oam.set ppu.oamAddress.toNat value
    oamAddress := ppu.oamAddress + 1 }

/-- The status flags above the lowest bits of the byte last seen. -/
def statusByte (ppu : Ppu) : UInt8 := ppu.status.flagBits + ppu.lines % 0x20

/-- A palette entry below the highest bits of the byte last seen. -/
def paletteByte (ppu : Ppu) : UInt8 :=
  ppu.paletteEntry ppu.scroll.address ||| (ppu.lines / 0x40 * 0x40)

/-- The byte that a register read gives, without the effects of the read. -/
def look (ppu : Ppu) (address : UInt16) : UInt8 :=
  match (address % 8).toNat with
  | 2 => ppu.statusByte
  | 4 => ppu.oamByte
  | 7 => if 0x3F00 ≤ ppu.scroll.address then ppu.paletteByte else ppu.readBuffer
  | _ => ppu.lines

/-- The byte at a picture address below palette memory. -/
def readPicture (ppu : Ppu) (address : UInt16) (bus : Bus) : UInt8 × Bus :=
  if address < 0x2000 then PatternBus.read bus address
  else (ppu.nametableByte (PatternBus.wiring bus) address, bus)

/-- Store a byte at a picture address; palette cells are six bits wide. -/
def writePicture (ppu : Ppu) (address : UInt16) (value : UInt8) (bus : Bus) : Ppu × Bus :=
  if address < 0x2000 then (ppu, PatternBus.write bus address value)
  else if address < 0x3F00 then
    let cell := (PatternBus.wiring bus).cell address.toNat
    ({ ppu with vram := ppu.vram.set cell value }, bus)
  else
    ({ ppu with palette := ppu.palette.set (Palette.cell address.toNat) (value % 0x40) }, bus)

/-- Whether the current line fetches. -/
def onFetchingLine (ppu : Ppu) : Bool :=
  decide (ppu.scanline < 240 ∨ ppu.scanline = Schedule.prerenderScanline)

/-- Move the picture address on after a data access. While the line fetches, both scroll
counters move instead. -/
def advance (ppu : Ppu) : Ppu :=
  if ppu.onFetchingLine && ppu.mask.rendering then
    { ppu with scroll := ppu.scroll.incrementX.incrementY }
  else { ppu with scroll := ppu.scroll.advance ppu.control.addressStep }

/-- Fetch a byte for the next read of the data register. -/
def fetchAhead (ppu : Ppu) (address : UInt16) (bus : Bus) : Ppu × Bus :=
  let (fetched, bus) := ppu.readPicture address bus
  ({ ppu with readBuffer := fetched }, bus)

/-- Read the data register. Bytes arrive one access late, through a buffer. Palette entries
arrive at once, after the buffer has taken the nametable byte below them. -/
def readData (ppu : Ppu) (bus : Bus) : UInt8 × Ppu × Bus :=
  let address := ppu.scroll.address
  if 0x3F00 ≤ address then
    let (ppu, bus) := ppu.fetchAhead (address - 0x1000) bus
    (ppu.paletteByte, ppu.advance, bus)
  else
    let buffered := ppu.readBuffer
    let (ppu, bus) := ppu.fetchAhead address bus
    (buffered, ppu.advance, bus)

/-- Write the control register. A change of its top bit moves the non-maskable line. -/
def writeControl (ppu : Ppu) (value : UInt8) : Ppu :=
  let control : Control := { bits := value }
  { ppu with
    control
    scroll := ppu.scroll.selectNametable control.nametableBits
    nmi :=
      match ppu.control.nmiEnabled, control.nmiEnabled with
      | false, true => ppu.nmi.on .enableSet
      | true, false => ppu.nmi.on .enableCleared
      | _, _ => ppu.nmi }

/-- A read of the status ends vertical blank and begins a new pair of writes. -/
def acknowledge (ppu : Ppu) : Ppu :=
  { ppu with
    status := { ppu.status with vblank := false }
    scroll := ppu.scroll.resetToggle
    nmi := ppu.nmi.on .statusRead }

/-- Read a register; registers that can only be written give the byte last seen. -/
def readRegister (ppu : Ppu) (address : UInt16) (bus : Bus) : UInt8 × Ppu × Bus :=
  match (address % 8).toNat with
  | 2 =>
    let value := ppu.statusByte
    (value, { ppu.acknowledge with lines := value }, bus)
  | 4 =>
    let value := ppu.oamByte
    (value, { ppu with lines := value }, bus)
  | 7 =>
    let (value, ppu, bus) := ppu.readData bus
    (value, { ppu with lines := value }, bus)
  | _ => (ppu.lines, ppu, bus)

/-- Write a register. -/
def writeRegister (ppu : Ppu) (address : UInt16) (value : UInt8) (bus : Bus) : Ppu × Bus :=
  let ppu := { ppu with lines := value }
  match (address % 8).toNat with
  | 0 => (ppu.writeControl value, bus)
  | 1 => ({ ppu with mask := { bits := value } }, bus)
  | 3 => ({ ppu with oamAddress := value }, bus)
  | 4 => (ppu.writeOam value, bus)
  | 5 => ({ ppu with scroll := ppu.scroll.writeScroll value }, bus)
  | 6 => ({ ppu with scroll := ppu.scroll.writeAddress value }, bus)
  | 7 =>
    let (ppu, bus) := ppu.writePicture ppu.scroll.address value bus
    (ppu.advance, bus)
  | _ => (ppu, bus)

end Famicom.Ppu
