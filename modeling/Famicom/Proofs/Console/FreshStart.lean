import Famicom.Proofs.Console.Clock
import Famicom.Proofs.Ppu.Leftovers
import Famicom.Proofs.Safety.Console

/-!
# A reset starts afresh

A reset keeps the memories and the cartridge, and everything else it puts back to its value at
power-on, but for what it leaves behind in the picture unit and the listing lines that have been
recorded. These do not matter: two consoles with the same memories and cartridge go the same way
after a reset, instruction by instruction, whatever happened to them before.

The processor is run on both buses at once. What it reads is the same on both, so leaving out
either of them leads to what it does on the other one alone.
-/

namespace Famicom

namespace ConsoleBus

variable {l r : Nat} {left right : ConsoleBus}

/-- Two buses that go the same way: they differ in their picture units alone, and these go the
same way. -/
structure Alike (l r : Nat) (left right : ConsoleBus) : Prop where
  same : right = { left with ppu := right.ppu }
  ppu : left.ppu.Alike l r right.ppu

/-- Buses alike announce vertical blank alike. -/
theorem Alike.nmiLine (h : left.Alike l r right) : right.ppu.nmiLine = left.ppu.nmiLine := by
  rw [h.ppu.same]
  rfl

/-- A read gives the same byte on buses alike. -/
theorem Alike.read (h : left.Alike l r right) (address : UInt16) :
    (right.read address).1 = (left.read address).1 ∧
      (left.read address).2.Alike l r (right.read address).2 := by
  obtain ⟨ppu, rfl⟩ : ∃ ppu, right = { left with ppu } := ⟨_, h.same⟩
  unfold ConsoleBus.read
  cases Region.of address with
  | ppu =>
    obtain ⟨ppu', hread, halike⟩ := h.ppu.readRegister address left.board
    simp only [hread]
    exact ⟨trivial, rfl, halike⟩
  | ram => exact ⟨rfl, rfl, h.ppu⟩
  | latches => exact ⟨rfl, rfl, h.ppu⟩
  | cartridge => exact ⟨rfl, rfl, h.ppu⟩

/-- A write keeps buses alike. -/
theorem Alike.write (h : left.Alike l r right) (address : UInt16) (value : UInt8) :
    (left.write address value).Alike l r (right.write address value) := by
  obtain ⟨ppu, rfl⟩ : ∃ ppu, right = { left with ppu } := ⟨_, h.same⟩
  unfold ConsoleBus.write
  cases Region.of address with
  | ppu =>
    obtain ⟨ppu', hwrite, halike⟩ := h.ppu.writeRegister address value left.board
    simp only [hwrite]
    exact ⟨rfl, halike⟩
  | ram => exact ⟨rfl, h.ppu⟩
  | latches => exact ⟨rfl, h.ppu⟩
  | cartridge => exact ⟨rfl, h.ppu⟩

/-- Taking up a request keeps buses alike. -/
theorem Alike.takeDmaPage (h : left.Alike l r right) :
    right.takeDmaPage.1 = left.takeDmaPage.1 ∧
      left.takeDmaPage.2.Alike l r right.takeDmaPage.2 := by
  obtain ⟨ppu, rfl⟩ : ∃ ppu, right = { left with ppu } := ⟨_, h.same⟩
  exact ⟨rfl, rfl, h.ppu⟩

/-- Storing a byte of a transfer keeps buses alike. -/
theorem Alike.writeOam (h : left.Alike l r right) (value : UInt8) :
    (left.writeOam value).Alike l r (right.writeOam value) := by
  obtain ⟨ppu, rfl⟩ : ∃ ppu, right = { left with ppu } := ⟨_, h.same⟩
  exact ⟨rfl, h.ppu.writeOam value⟩

/-- Dots keep buses alike and complete the same frames. -/
theorem Alike.runPpu (h : left.Alike l r right) (dots : Nat) :
    (right.runPpu dots).1 = (left.runPpu dots).1 ∧
      (left.runPpu dots).2.Alike l r (right.runPpu dots).2 := by
  obtain ⟨ppu, rfl⟩ : ∃ ppu, right = { left with ppu } := ⟨_, h.same⟩
  obtain ⟨ppu', hrun, halike⟩ := h.ppu.run dots left.board
  simp only [ConsoleBus.runPpu, hrun]
  exact ⟨trivial, rfl, halike⟩

/-- A reset makes buses alike that agree on the memories and the cartridge. -/
theorem alike_reset (hboard : right.board = left.board) (hram : right.ram = left.ram)
    (hvram : right.ppu.vram = left.ppu.vram) (hpalette : right.ppu.palette = left.ppu.palette)
    (hoam : right.ppu.oam = left.ppu.oam) :
    left.reset.Alike left.ppu.frameCount right.ppu.frameCount right.reset := by
  refine ⟨?_, Ppu.alike_reset hvram hpalette hoam⟩
  rw [reset, hboard, hram]
  rfl

end ConsoleBus

/-- Two buses that go the same way, for a processor that is connected to both. -/
structure TwinBus (l r : Nat) where
  left : ConsoleBus
  right : ConsoleBus
  alike : left.Alike l r right

namespace TwinBus

variable {l r : Nat}

instance : CpuBus (TwinBus l r) where
  read twins address :=
    ((twins.left.read address).1, ⟨_, _, (twins.alike.read address).2⟩)
  write twins address value := ⟨_, _, twins.alike.write address value⟩
  look twins address := CpuBus.look twins.left address
  nmiLine twins := CpuBus.nmiLine twins.left
  irqLine twins := CpuBus.irqLine twins.left

/-- The first bus answers as both together. -/
theorem left_forgets : CpuBus.Forgets (left : TwinBus l r → ConsoleBus) where
  read _ _ := rfl
  write _ _ _ := rfl
  nmiLine _ := rfl
  irqLine _ := rfl

/-- The second bus answers as both together. -/
theorem right_forgets : CpuBus.Forgets (right : TwinBus l r → ConsoleBus) where
  read twins address := Prod.ext (twins.alike.read address).1 rfl
  write _ _ _ := rfl
  nmiLine twins := twins.alike.nmiLine
  irqLine twins := by
    change twins.right.board.irqLine = twins.left.board.irqLine
    rw [twins.alike.same]

end TwinBus

namespace Cpu

variable {l r : Nat} {left right : ConsoleBus}

/-- The reset sequence does the same on buses alike. -/
theorem reset_alike (h : left.Alike l r right) :
    (reset right).1 = (reset left).1 ∧ (reset left).2.Alike l r (reset right).2 := by
  have hleft := reset_forget TwinBus.left_forgets (⟨left, right, h⟩ : TwinBus l r)
  have hright := reset_forget TwinBus.right_forgets (⟨left, right, h⟩ : TwinBus l r)
  change reset left = _ at hleft
  change reset right = _ at hright
  rw [hleft, hright]
  exact ⟨rfl, (reset (⟨left, right, h⟩ : TwinBus l r)).2.alike⟩

/-- A step does the same on buses alike. -/
theorem step_alike (h : left.Alike l r right) (cpu : Cpu) :
    (cpu.step right).1 = (cpu.step left).1 ∧ (cpu.step right).2.1 = (cpu.step left).2.1 ∧
      (cpu.step left).2.2.Alike l r (cpu.step right).2.2 := by
  have hleft := step_forget TwinBus.left_forgets (⟨left, right, h⟩ : TwinBus l r) cpu
  have hright := step_forget TwinBus.right_forgets (⟨left, right, h⟩ : TwinBus l r) cpu
  change cpu.step left = _ at hleft
  change cpu.step right = _ at hright
  rw [hleft, hright]
  exact ⟨rfl, rfl, (cpu.step (⟨left, right, h⟩ : TwinBus l r)).2.2.alike⟩

end Cpu

namespace Console

open ConsoleBus

variable {l r : Nat} {left right : Console}

/-- Two consoles that go the same way. The lines that they record may differ. -/
structure Alike (l r : Nat) (left right : Console) : Prop where
  cpu : right.cpu = left.cpu
  dma : right.dma = left.dma
  bus : left.bus.Alike l r right.bus

/-- Consoles whose buses are alike after a reset are alike after one. -/
theorem alike_of_reset (h : left.bus.reset.Alike l r right.bus.reset) :
    left.reset.Alike l r right.reset := by
  obtain ⟨hcpu, hbus⟩ := Cpu.reset_alike h
  have hdots := (hbus.runPpu (Cpu.resetCycles * dotsPerCycle)).2
  refine ⟨?_, ?_, ?_⟩
  · simp only [reset_eq]
    exact hcpu
  · simp only [reset_eq]
  · simp only [reset_eq]
    exact hdots

/-- A reset makes consoles alike that agree on the memories and the cartridge. -/
theorem alike_reset (hboard : right.bus.board = left.bus.board)
    (hram : right.bus.ram = left.bus.ram) (hvram : right.bus.ppu.vram = left.bus.ppu.vram)
    (hpalette : right.bus.ppu.palette = left.bus.ppu.palette)
    (hoam : right.bus.ppu.oam = left.bus.ppu.oam) :
    left.reset.Alike left.bus.ppu.frameCount right.bus.ppu.frameCount right.reset :=
  alike_of_reset (ConsoleBus.alike_reset hboard hram hvram hpalette hoam)

/-- A cycle of a transfer does the same on buses alike. -/
theorem transferByte_alike {left right : ConsoleBus} (h : left.Alike l r right)
    (action : OamDmaAction) (dma : OamDma) :
    (transferByte action dma right).1 = (transferByte action dma left).1 ∧
      (transferByte action dma left).2.Alike l r (transferByte action dma right).2 := by
  cases action with
  | idle => exact ⟨rfl, h⟩
  | read address =>
    obtain ⟨hvalue, halike⟩ := h.read address
    exact ⟨congrArg dma.latch hvalue, halike⟩
  | write value => exact ⟨rfl, h.writeOam value⟩

/-- A transfer does the same on buses alike. -/
theorem transfer_alike {left right : ConsoleBus} (h : left.Alike l r right) (limit : Nat)
    (outcome : StepOutcome) (dma : OamDma) :
    (transfer limit outcome dma right).1 = (transfer limit outcome dma left).1 ∧
      (transfer limit outcome dma right).2.1 = (transfer limit outcome dma left).2.1 ∧
      (transfer limit outcome dma left).2.2.Alike l r (transfer limit outcome dma right).2.2 := by
  induction limit generalizing left right outcome dma with
  | zero => exact ⟨rfl, rfl, h⟩
  | succ limit ih =>
    cases hactive : dma.active with
    | false =>
      rw [transfer_of_idle _ _ hactive, transfer_of_idle _ _ hactive]
      exact ⟨rfl, rfl, h⟩
    | true =>
      obtain ⟨hdma, hbyte⟩ := transferByte_alike h dma.action dma.next
      obtain ⟨hcompleted, hdots⟩ := hbyte.runPpu dotsPerCycle
      rw [transfer_succ _ _ hactive, transfer_succ _ _ hactive, hdma, hcompleted]
      exact ih hdots _ _

/-- The picture units catch up alike. -/
theorem Alike.caughtUp (h : left.Alike l r right) :
    ((right.cpu.step right.bus).2.2.runPpu ((right.cpu.step right.bus).1 * dotsPerCycle)).1 =
        ((left.cpu.step left.bus).2.2.runPpu ((left.cpu.step left.bus).1 * dotsPerCycle)).1 ∧
      left.caughtUp.Alike l r right.caughtUp := by
  obtain ⟨hcycles, -, hbus⟩ := Cpu.step_alike h.bus left.cpu
  obtain ⟨hcompleted, hdots⟩ := hbus.runPpu ((left.cpu.step left.bus).1 * dotsPerCycle)
  simp only [Console.caughtUp, h.cpu, hcycles]
  exact ⟨hcompleted, hdots⟩

/-- Recording a line leaves the transfer engine alone. -/
theorem record_dma (console : Console) : console.record.dma = console.dma := by
  unfold record
  split <;> rfl

/-- The transfers for a request do the same on consoles alike. -/
theorem Alike.transferred (h : left.Alike l r right) (page : UInt8) :
    (right.transferred page).1 = (left.transferred page).1 ∧
      (right.transferred page).2.1 = (left.transferred page).2.1 ∧
      (left.transferred page).2.2.Alike l r (right.transferred page).2.2 := by
  obtain ⟨-, hcpu, -⟩ := Cpu.step_alike h.bus left.cpu
  have hdma : right.transferFor page = left.transferFor page := by
    rw [transferFor, transferFor, h.cpu, hcpu]
  simp only [Console.transferred, hdma]
  exact transfer_alike h.caughtUp.2.takeDmaPage.2 _ _ _

/-- A step does the same on consoles alike. -/
theorem Alike.step (h : left.Alike l r right) :
    right.step.1 = left.step.1 ∧ left.step.2.Alike l r right.step.2 := by
  obtain ⟨hcycles, hcpu, -⟩ := Cpu.step_alike h.bus left.cpu
  obtain ⟨hcompleted, hcaughtUp⟩ := h.caughtUp
  obtain ⟨hpage, htaken⟩ := hcaughtUp.takeDmaPage
  rw [← h.cpu] at hcycles hcpu
  cases hleft : left.caughtUp.dmaPage with
  | none =>
    have hright : right.caughtUp.dmaPage = none := hpage.trans hleft
    rw [step_of_no_request hleft, step_of_no_request hright, hcompleted]
    dsimp only
    rw [← h.cpu, hcycles]
    refine ⟨rfl, hcpu, ?_, htaken⟩
    dsimp only
    rw [record_dma, record_dma, h.dma]
  | some page =>
    have hright : right.caughtUp.dmaPage = some page := hpage.trans hleft
    obtain ⟨houtcome, hdma, hbus⟩ := h.transferred page
    rw [step_of_request hleft, step_of_request hright, houtcome, hcompleted]
    dsimp only
    rw [← h.cpu, hcycles, hcpu]
    refine ⟨rfl, rfl, ?_, ?_⟩
    · dsimp only
      exact hdma
    · dsimp only
      exact hbus

/-- A run does the same on consoles alike. -/
theorem Alike.afterSteps (h : left.Alike l r right) (steps : Nat) :
    (left.afterSteps steps).Alike l r (right.afterSteps steps) := by
  induction steps generalizing left right with
  | zero => exact h
  | succ steps ih => exact ih h.step.2

/-- The console without what a reset leaves behind in the picture unit, and without the lines that
it has recorded: processor, memories, registers, latches, lines and position are all there, and so
is the cartridge. -/
def apparent (console : Console) : Console :=
  { console with
    bus := { console.bus with
      ppu := console.bus.ppu.withLeftovers ({} : Ppu).leftovers }
    history := none }

/-- Consoles that go the same way look the same. -/
theorem Alike.apparent (h : left.Alike l r right) : left.apparent = right.apparent := by
  have hbus : right.bus =
      { left.bus with ppu := left.bus.ppu.withLeftovers right.bus.ppu.leftovers } := by
    rw [← h.bus.ppu.same]
    exact h.bus.same
  rw [Console.apparent, Console.apparent, h.cpu, h.dma, hbus]
  rfl

/-- A reset makes a console forget all but its memories and its cartridge. Take two consoles with
the same contents of the working memory, of the cartridge, and of the video, palette and object
memories, and reset both. After any number of steps they look the same, their sprite searches have
left the same where it can still be read, and the next step reports the same. As soon as a frame
has been completed since the reset, they show the same frame as well. -/
theorem reset_forgets_latches (left right : Console) (hboard : right.bus.board = left.bus.board)
    (hram : right.bus.ram = left.bus.ram) (hvram : right.bus.ppu.vram = left.bus.ppu.vram)
    (hpalette : right.bus.ppu.palette = left.bus.ppu.palette)
    (hoam : right.bus.ppu.oam = left.bus.ppu.oam) (steps : Nat) :
    let left' := left.reset.afterSteps steps
    let right' := right.reset.afterSteps steps
    left'.apparent = right'.apparent ∧
      (∀ cell < 4 * left'.bus.ppu.places,
        left'.bus.ppu.secondaryOam.get cell = right'.bus.ppu.secondaryOam.get cell) ∧
      left'.step.1 = right'.step.1 ∧
      (left.bus.ppu.frameCount < left'.bus.ppu.frameCount → left'.frame = right'.frame) := by
  intro left' right'
  have halike : left'.Alike left.bus.ppu.frameCount right.bus.ppu.frameCount right' :=
    (alike_reset hboard hram hvram hpalette hoam).afterSteps steps
  refine ⟨halike.apparent, ?_, halike.step.1.symm, ?_⟩
  · intro cell hcell
    exact (halike.bus.ppu.secondary cell hcell).symm
  · intro hshown
    exact (halike.bus.ppu.shown hshown).symm

/-- Take two consoles with a program of idle instructions. One has just been switched on, the other
is stopped in the middle of a line, with a request and an announcement pending and other sprites
picked. They are the same after a reset and enough steps for a frame. -/
theorem reset_forgets_latches_of_stopped :
    let board := Board.ofBytes .nrom (Array.replicate 0x4000 0xEA) #[] .vertical
    let left : Console := { bus := { board } }
    let right : Console :=
      { left with
        cpu := { pc := 0x8123, cycles := 1000, jammed := true, nmiPending := true }
        bus := { left.bus with
          dmaPage := some 2
          openBus := 0x40
          ppu := { left.bus.ppu with
            scanline := 100
            dot := 260
            oddFrame := true
            frameCount := 7
            lines := 0x40
            oamAddress := 0x11
            secondaryOam := Memory.filled 5 0
            pickedCount := 8 } } }
    (right.bus.board = left.bus.board ∧ right.bus.ram = left.bus.ram ∧
        right.bus.ppu.vram = left.bus.ppu.vram ∧ right.bus.ppu.palette = left.bus.ppu.palette ∧
        right.bus.ppu.oam = left.bus.ppu.oam) ∧
      let left' := left.reset.afterSteps frameSteps
      let right' := right.reset.afterSteps frameSteps
      left'.apparent = right'.apparent ∧
        (∀ cell < 4 * left'.bus.ppu.places,
          left'.bus.ppu.secondaryOam.get cell = right'.bus.ppu.secondaryOam.get cell) ∧
        left'.step.1 = right'.step.1 ∧
        (left.bus.ppu.frameCount < left'.bus.ppu.frameCount → left'.frame = right'.frame) := by
  intro board left right
  exact ⟨⟨rfl, rfl, rfl, rfl, rfl⟩,
    reset_forgets_latches left right rfl rfl rfl rfl rfl frameSteps⟩

end Console

end Famicom
