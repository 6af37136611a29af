import Famicom.Cartridge.Image
import Famicom.Console.Bus
import Famicom.Cpu.Listing
import Famicom.OamDma

/-!
# The console

Processor, picture unit and cartridge on one clock. The picture unit works through three dots
for each processor cycle: after every instruction it catches up, and while a page is copied to
object memory it goes along cycle by cycle.
-/

namespace Famicom

/-- A console with a cartridge. -/
structure Console where
  /-- The processor. -/
  cpu : Cpu := {}
  /-- All that the processor is connected to. -/
  bus : ConsoleBus
  /-- The transfer engine, idle between steps. -/
  dma : OamDma := {}
  /-- The newest listing lines, where they are recorded. -/
  history : Option History := none
deriving DecidableEq

/-- What one step of the console did. -/
structure StepOutcome where
  /-- Processor cycles, with those of a transfer. -/
  cycles : Nat
  /-- A frame was completed on the way. -/
  frameComplete : Bool
deriving DecidableEq, Repr

namespace Console

/-- Dots of the picture unit in a second. -/
def ppuFrequency : Nat := 5369318

/-- Dots for each processor cycle. -/
def dotsPerCycle : Nat := 3

/-- The reset button. Memories and the cartridge keep their contents; the picture unit goes on
during the reset sequence of the processor. -/
def reset (console : Console) : Console :=
  let (cpu, bus) := Cpu.reset console.bus.reset
  let (_, bus) := bus.runPpu (Cpu.resetCycles * dotsPerCycle)
  { cpu, bus, history := console.history }

/-- A console switched on with a cartridge. -/
def withBoard (board : Board) : Console :=
  { bus := { board } : Console }.reset

/-- A console switched on with the cartridge of a raw image. -/
def ofImage (raw : Array UInt8) : Except ImageError Console :=
  match Board.ofImage raw with
  | .error error => .error error
  | .ok board => .ok (withBoard board)

/-- Exchange the cartridge and switch the console off and on. -/
def insert (console : Console) (board : Board) : Console :=
  { console with bus := console.bus.insert board }.reset

/-- The listing line of the instruction about to run, with the position of the picture unit and
the cycle count. -/
def listing (console : Console) : String :=
  console.cpu.listing console.bus ++
    " PPU:" ++ Text.alignRight 3 (toString console.bus.ppu.scanline) ++
    "," ++ Text.alignRight 3 (toString console.bus.ppu.dot) ++
    " CYC:" ++ toString console.cpu.cycles

/-- The listing line added to the history, where one is kept. -/
def record (console : Console) : Console :=
  match console.history with
  | none => console
  | some history => { console with history := some (history.write console.listing) }

/-- Do what a cycle of a transfer asks for; a byte that is read is handed back. -/
def transferByte (action : OamDmaAction) (dma : OamDma) (bus : ConsoleBus) :
    OamDma × ConsoleBus :=
  match action with
  | .idle => (dma, bus)
  | .read address =>
    let (value, bus) := bus.read address
    (dma.latch value, bus)
  | .write value => (dma, bus.writeOam value)

/-- Go on with a transfer until it ends or `limit` cycles have passed. The cycles spent and
whether a frame was completed are added to what is given. -/
def transfer : (limit : Nat) → StepOutcome → OamDma → ConsoleBus →
    StepOutcome × OamDma × ConsoleBus
  | 0, outcome, dma, bus => (outcome, dma, bus)
  | limit + 1, outcome, dma, bus =>
    if dma.active then
      let (action, dma) := dma.step
      let (dma, bus) := transferByte action dma bus
      let (completed, bus) := bus.runPpu dotsPerCycle
      transfer limit
        { cycles := outcome.cycles + 1
          frameComplete := outcome.frameComplete || completed } dma bus
    else (outcome, dma, bus)

/-- Copy a page to object memory while the processor waits. -/
def runDma (console : Console) (page : UInt8) : StepOutcome × Console :=
  let { cpu, bus, history, .. } := console
  let dma := OamDma.start page (cpu.cycles % 2 == 1)
  let (outcome, dma, bus) :=
    transfer dma.remaining { cycles := 0, frameComplete := false } dma bus
  (outcome, { cpu := { cpu with cycles := cpu.cycles + outcome.cycles }, bus, dma, history })

/-- Run one instruction or enter one handler, let the picture unit catch up, and carry out a
transfer that was asked for. -/
def step (console : Console) : StepOutcome × Console :=
  let { cpu, bus, dma, history } := console.record
  let (cycles, cpu, bus) := cpu.step bus
  let (completed, bus) := bus.runPpu (cycles * dotsPerCycle)
  let (page, bus) := bus.takeDmaPage
  let console : Console := { cpu, bus, dma, history }
  match page with
  | none => ({ cycles, frameComplete := completed }, console)
  | some page =>
    let (outcome, console) := console.runDma page
    ({ cycles := cycles + outcome.cycles
       frameComplete := completed || outcome.frameComplete }, console)

/-- Steps that are enough for any frame: a step takes at least two cycles. -/
def frameSteps : Nat := 14891

/-- Step until a frame is completed or `limit` steps have passed, adding up the cycles. -/
def runFrameWithin : (limit cycles : Nat) → Console → Nat × Console
  | 0, cycles, console => (cycles, console)
  | limit + 1, cycles, console =>
    let (outcome, console) := console.step
    let cycles := cycles + outcome.cycles
    if outcome.frameComplete then (cycles, console)
    else runFrameWithin limit cycles console

/-- Step until a frame is completed; the cycles spent come first. -/
def runFrame (console : Console) : Nat × Console :=
  runFrameWithin frameSteps 0 console

/-- The last completed frame. -/
def frame (console : Console) : Screen := console.bus.ppu.frame

/-- Record a listing line before every step and keep the newest ones. -/
def enableHistory (console : Console) (capacity : Nat) : Console :=
  { console with history := some (History.withCapacity capacity) }

/-- Stop recording and forget the lines. -/
def disableHistory (console : Console) : Console := { console with history := none }

/-- The recorded lines, oldest first. -/
def historyLines (console : Console) : List String :=
  match console.history with
  | none => []
  | some history => history.lines

end Console

instance : Traced Cpu where
  label _ := "CPU"
  state cpu := some cpu.state

instance : Traced Ppu where
  label _ := "PPU"
  state ppu := some ppu.state

instance : Traced PpuStatus where
  label _ := "PPU_STATUS"
  state status := some ("0b" ++ Text.binaryByte status.toByte)

instance : Traced ConsoleBus where
  label _ := "BUS"
  state bus := some bus.state

instance : Traced Console where
  label _ := "NES"
  state console := some (console.cpu.state ++ " | " ++ console.bus.state)

end Famicom
