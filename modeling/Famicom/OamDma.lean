/-!
# Object memory transfer

While a page is copied to object memory the processor is halted. The transfer waits one cycle,
or two when it begins on an odd processor cycle, and then reads and writes in turn until a page
is through. Each step of the engine names what has to be done in one cycle; the byte read is
handed back and comes out with the next write.
-/

namespace Famicom

/-- What a cycle of the transfer does. -/
inductive OamDmaAction where
  /-- Wait. -/
  | idle
  /-- Read a byte of the page. -/
  | read (address : UInt16)
  /-- Store the byte in object memory. -/
  | write (value : UInt8)
deriving DecidableEq, Repr

/-- The state of the transfer. -/
structure OamDma where
  /-- A transfer is under way. -/
  active : Bool := false
  /-- The page that is copied. -/
  page : UInt8 := 0
  /-- Reads and writes done. -/
  done : Nat := 0
  /-- The byte read last. -/
  latched : UInt8 := 0
  /-- Cycles left to wait. -/
  waiting : Nat := 0
deriving DecidableEq, Repr

namespace OamDma

/-- Reads and writes in a transfer. -/
def length : Nat := 512

/-- Begin a transfer, whatever was under way. -/
def start (page : UInt8) (oddCycle : Bool) : OamDma :=
  { active := true, page, waiting := 1 + oddCycle.toNat }

/-- Hand back a byte that was read. -/
def latch (dma : OamDma) (value : UInt8) : OamDma := { dma with latched := value }

/-- What the current cycle does. -/
def action (dma : OamDma) : OamDmaAction :=
  if !dma.active || 0 < dma.waiting then .idle
  else if dma.done % 2 = 0 then
    .read (dma.page.toUInt16 * 0x100 + UInt16.ofNat (dma.done / 2))
  else .write dma.latched

/-- The state after the current cycle. -/
def next (dma : OamDma) : OamDma :=
  if !dma.active then dma
  else if 0 < dma.waiting then { dma with waiting := dma.waiting - 1 }
  else { dma with done := dma.done + 1, active := dma.done + 1 != length }

/-- Go through one cycle. -/
def step (dma : OamDma) : OamDmaAction × OamDma := (dma.action, dma.next)

/-- An upper bound of the cycles left. -/
def remaining (dma : OamDma) : Nat :=
  if dma.active then dma.waiting + (length - dma.done) else 0

end OamDma

end Famicom
