import Famicom.Proofs.Console.Events
import Famicom.Proofs.Safety.Bus
import Famicom.Proofs.Safety.Processor

/-!
# Nothing a program can do leads to a fault

The console with all its parts checked. A checked bus remembers the first fault of an access, and
the processor runs on it as on any other bus; a sound bus stays sound whatever the processor does,
so that the checked bus never has a fault to remember.

From any raw image, a host can step, reset, exchange the cartridge, use the bus by itself and let
the picture unit run ahead, in any order. Doing all of this with the checks gives what it gives
without them.
-/

namespace Famicom

open Checked

/-- A bus whose accesses are checked. After a fault it stays at the fault. -/
structure CheckedBus where
  /-- The bus, or the fault of an access. -/
  state : Checked ConsoleBus

namespace CheckedBus

/-- A read; after a fault it gives 0. -/
def read (bus : CheckedBus) (address : UInt16) : UInt8 × CheckedBus :=
  match bus.state >>= fun inner => inner.readChecked address with
  | .ok (value, inner) => (value, ⟨.ok inner⟩)
  | .error fault => (0, ⟨.error fault⟩)

/-- A write. -/
def write (bus : CheckedBus) (address : UInt16) (value : UInt8) : CheckedBus :=
  ⟨bus.state >>= fun inner => inner.writeChecked address value⟩

/-- What the bus shows without being accessed; after a fault it shows nothing. -/
def peek {α : Type} (bus : CheckedBus) (nothing : α) (show' : ConsoleBus → α) : α :=
  match bus.state with
  | .ok inner => show' inner
  | .error _ => nothing

instance : CpuBus CheckedBus where
  read := read
  write := write
  look bus address := bus.peek 0 fun inner => CpuBus.look inner address
  nmiLine bus := bus.peek false CpuBus.nmiLine
  irqLine bus := bus.peek false CpuBus.irqLine

end CheckedBus

/-- A bus together with its soundness, which accesses keep. -/
structure SoundBus where
  /-- The bus itself. -/
  bus : ConsoleBus
  sound : bus.Sound

namespace SoundBus

instance : CpuBus SoundBus where
  read full address :=
    ((full.bus.read address).1, ⟨(full.bus.read address).2, full.sound.read address⟩)
  write full address value := ⟨full.bus.write address value, full.sound.write address value⟩
  look full address := CpuBus.look full.bus address
  nmiLine full := CpuBus.nmiLine full.bus
  irqLine full := CpuBus.irqLine full.bus

/-- The bus with its accesses checked. -/
def checked (full : SoundBus) : CheckedBus := ⟨.ok full.bus⟩

/-- A sound bus answers as the bus itself. -/
theorem bus_forgets : CpuBus.Forgets bus where
  read _ _ := rfl
  write _ _ _ := rfl
  nmiLine _ := rfl
  irqLine _ := rfl

/-- A sound bus answers as with its accesses checked. -/
theorem checked_forgets : CpuBus.Forgets checked where
  read full address := by
    change CheckedBus.read (checked full) address = _
    rw [CheckedBus.read, checked, ok_bind, ConsoleBus.readChecked_eq full.sound]
    rfl
  write full address value := by
    change CheckedBus.write (checked full) address value = _
    rw [CheckedBus.write, checked, ok_bind, ConsoleBus.writeChecked_eq]
    rfl
  nmiLine _ := rfl
  irqLine _ := rfl

end SoundBus

namespace Cpu

/-- Run one instruction or enter one handler on a checked bus, handing on the fault of an
access. -/
def stepOnChecked (cpu : Cpu) (bus : ConsoleBus) : Checked (Nat × Cpu × ConsoleBus) := do
  let (cycles, cpu, bus) ← cpu.stepChecked (⟨.ok bus⟩ : CheckedBus)
  let bus ← bus.state
  .ok (cycles, cpu, bus)

/-- Start from the reset vector on a checked bus, handing on the fault of an access. -/
def resetOnChecked (bus : ConsoleBus) : Checked (Cpu × ConsoleBus) := do
  let (cpu, bus) := reset (⟨.ok bus⟩ : CheckedBus)
  let bus ← bus.state
  .ok (cpu, bus)

variable {bus : ConsoleBus}

theorem stepOnChecked_eq (h : bus.Sound) (cpu : Cpu) :
    cpu.stepOnChecked bus = .ok (cpu.step bus) := by
  have hbus := step_forget SoundBus.bus_forgets ⟨bus, h⟩ cpu
  have hchecked := step_forget SoundBus.checked_forgets ⟨bus, h⟩ cpu
  change cpu.step bus = _ at hbus
  change cpu.step (⟨.ok bus⟩ : CheckedBus) = _ at hchecked
  rw [stepOnChecked, stepChecked_eq, hchecked, ok_bind, hbus]
  rfl

/-- A step keeps a bus sound. -/
theorem step_sound (h : bus.Sound) (cpu : Cpu) : (cpu.step bus).2.2.Sound := by
  have hbus := step_forget SoundBus.bus_forgets ⟨bus, h⟩ cpu
  change cpu.step bus = _ at hbus
  rw [hbus]
  exact (cpu.step (⟨bus, h⟩ : SoundBus)).2.2.sound

theorem resetOnChecked_eq (h : bus.Sound) : resetOnChecked bus = .ok (reset bus) := by
  have hbus := reset_forget SoundBus.bus_forgets ⟨bus, h⟩
  have hchecked := reset_forget SoundBus.checked_forgets ⟨bus, h⟩
  change reset bus = _ at hbus
  change reset (⟨.ok bus⟩ : CheckedBus) = _ at hchecked
  rw [resetOnChecked, hchecked, hbus]
  rfl

/-- The reset sequence keeps a bus sound. -/
theorem reset_sound (h : bus.Sound) : (reset bus).2.Sound := by
  have hbus := reset_forget SoundBus.bus_forgets ⟨bus, h⟩
  change reset bus = _ at hbus
  rw [hbus]
  exact (reset (⟨bus, h⟩ : SoundBus)).2.sound

end Cpu

namespace ConsoleBus

/-- Every event keeps a bus sound. -/
theorem Sound.after {bus : ConsoleBus} (h : bus.Sound) (event : ConsoleEvent) :
    (bus.after event).Sound := by
  cases event with
  | access access =>
    cases access with
    | read address => exact h.read address
    | write address value => exact h.write address value
  | dot => exact h.runPpu 1
  | takeUp => exact ⟨h.ppu, h.board⟩
  | store value => exact h.writeOam value

/-- Events keep a bus sound. -/
theorem Sound.afterAll {bus : ConsoleBus} (h : bus.Sound) (events : List ConsoleEvent) :
    (bus.afterAll events).Sound :=
  afterAll_keeps Sound (fun event _ _ h => h.after event) h

end ConsoleBus

namespace OamDma

/-- Begin a transfer, with the cycles to wait checked. -/
def startChecked (page : UInt8) (oddCycle : Bool) : Checked OamDma := do
  let waiting ← byteSum 1 oddCycle.toNat
  .ok { active := true, page, waiting }

theorem startChecked_eq (page : UInt8) (oddCycle : Bool) :
    startChecked page oddCycle = .ok (start page oddCycle) := by
  have hodd := Bool.toNat_le oddCycle
  rw [startChecked, byteSum_eq (by omega)]
  rfl

/-- The state after the current cycle, checked. -/
def nextChecked (dma : OamDma) : Checked OamDma :=
  if !dma.active then .ok dma
  else if 0 < dma.waiting then do
    let waiting ← difference dma.waiting 1
    .ok { dma with waiting }
  else do
    let done ← wordSum dma.done 1
    .ok { dma with done, active := done != length }

theorem nextChecked_eq {dma : OamDma} (h : Sound dma) : dma.nextChecked = .ok dma.next := by
  unfold nextChecked next
  cases hactive : dma.active with
  | false => rfl
  | true =>
    have hdone := h hactive
    rw [length] at hdone
    simp only [Bool.not_true, Bool.false_eq_true, if_false]
    split
    · next hwaiting =>
      rw [difference_eq hwaiting]
      rfl
    · rw [wordSum_eq (by omega)]
      rfl

end OamDma

namespace Console

/-- Do what a cycle of a transfer asks for, checked. -/
def transferByteChecked (action : OamDmaAction) (dma : OamDma) (bus : ConsoleBus) :
    Checked (OamDma × ConsoleBus) :=
  match action with
  | .idle => .ok (dma, bus)
  | .read address => do
    let (value, bus) ← bus.readChecked address
    .ok (dma.latch value, bus)
  | .write value => do
    let bus ← bus.writeOamChecked value
    .ok (dma, bus)

/-- Go on with a transfer, checked. -/
def transferChecked : (limit : Nat) → StepOutcome → OamDma → ConsoleBus →
    Checked (StepOutcome × OamDma × ConsoleBus)
  | 0, outcome, dma, bus => .ok (outcome, dma, bus)
  | limit + 1, outcome, dma, bus =>
    if dma.active then do
      let next ← dma.nextChecked
      let (dma, bus) ← transferByteChecked dma.action next bus
      let (completed, bus) ← bus.runPpuChecked dotsPerCycle
      transferChecked limit
        { cycles := outcome.cycles + 1
          frameComplete := outcome.frameComplete || completed } dma bus
    else .ok (outcome, dma, bus)

/-- Copy a page to object memory while the processor waits, checked. -/
def runDmaChecked (console : Console) (page : UInt8) : Checked (StepOutcome × Console) := do
  let { cpu, bus, history, .. } := console
  let dma ← OamDma.startChecked page (cpu.cycles % 2 == 1)
  let (outcome, dma, bus) ←
    transferChecked dma.remaining { cycles := 0, frameComplete := false } dma bus
  .ok (outcome, { cpu := { cpu with cycles := cpu.cycles + outcome.cycles }, bus, dma, history })

/-- Run one instruction or enter one handler, let the picture unit catch up, and carry out a
transfer that was asked for, checked. -/
def stepChecked (console : Console) : Checked (StepOutcome × Console) := do
  let (cycles, cpu, bus) ← console.cpu.stepOnChecked console.bus
  let (completed, bus) ← bus.runPpuChecked (cycles * dotsPerCycle)
  let (page, bus) := bus.takeDmaPage
  let console : Console := { console with cpu, bus }
  match page with
  | none => .ok ({ cycles, frameComplete := completed }, console)
  | some page => do
    let (outcome, console) ← console.runDmaChecked page
    .ok ({ cycles := cycles + outcome.cycles
           frameComplete := completed || outcome.frameComplete }, console)

/-- The reset button, checked. -/
def resetChecked (console : Console) : Checked Console := do
  let (cpu, bus) ← Cpu.resetOnChecked console.bus.reset
  let (_, bus) ← bus.runPpuChecked (Cpu.resetCycles * dotsPerCycle)
  .ok { cpu, bus, history := console.history }

/-- A console switched on with the cartridge of a raw image, checked. -/
def ofImageChecked (raw : Array UInt8) : Checked (Except ImageError Console) := do
  match ← Board.ofImageChecked raw with
  | .error error => .ok (.error error)
  | .ok board => do
    let console ← { bus := { board } : Console }.resetChecked
    .ok (.ok console)

/-- Exchange the cartridge and switch the console off and on, checked. -/
def insertChecked (console : Console) (board : Board) : Checked Console :=
  { console with bus := console.bus.insert board }.resetChecked

/-- A console on a sound bus that records no listing. -/
structure Sound (console : Console) : Prop where
  bus : console.bus.Sound
  history : console.history = none

section Transfer

variable {dma : OamDma} {bus : ConsoleBus}

theorem transferByteChecked_eq (h : bus.Sound) (action : OamDmaAction) (dma : OamDma) :
    transferByteChecked action dma bus = .ok (transferByte action dma bus) := by
  cases action with
  | idle => rfl
  | read address =>
    rw [transferByteChecked, ConsoleBus.readChecked_eq h]
    rfl
  | write value =>
    rw [transferByteChecked, ConsoleBus.writeOamChecked_eq]
    rfl

theorem transferChecked_eq (hdma : OamDma.Sound dma) (h : bus.Sound) (limit : Nat)
    (outcome : StepOutcome) :
    transferChecked limit outcome dma bus = .ok (transfer limit outcome dma bus) := by
  induction limit generalizing outcome dma bus with
  | zero => rfl
  | succ limit ih =>
    rw [transferChecked]
    cases hactive : dma.active with
    | false =>
      rw [transfer_of_idle _ _ hactive]
      rfl
    | true =>
      have hbyte : (transferByte dma.action dma.next bus).2.Sound := by
        rw [transferByte_bus]
        exact h.afterAll _
      have hdma' := (transferByte_dma dma.action dma.next bus).2 hdma.next
      rw [if_pos rfl, OamDma.nextChecked_eq hdma, ok_bind, transferByteChecked_eq h, ok_bind]
      dsimp only
      rw [ConsoleBus.runPpuChecked_eq hbyte, ok_bind, transfer_succ _ _ hactive]
      exact ih hdma' (hbyte.runPpu _) _

end Transfer

variable {console : Console}

theorem runDmaChecked_eq (h : console.bus.Sound) (page : UInt8) :
    console.runDmaChecked page = .ok (console.runDma page) := by
  rw [runDmaChecked, OamDma.startChecked_eq, ok_bind,
    transferChecked_eq (OamDma.sound_start _ _) h]
  rfl

/-- A console that records no listing has nothing to record. -/
theorem Sound.record (h : console.Sound) : console.record = console := by
  rw [Console.record, h.history]

theorem stepChecked_eq (h : console.Sound) : console.stepChecked = .ok console.step := by
  have hbus := Cpu.step_sound h.bus console.cpu
  have hcaught : console.caughtUp.Sound := hbus.runPpu _
  have htaken : console.caughtUp.takeDmaPage.2.Sound := hcaught.after .takeUp
  simp only [stepChecked, Cpu.stepOnChecked_eq h.bus, ok_bind, ConsoleBus.runPpuChecked_eq hbus]
  have hcatchUp : ((console.cpu.step console.bus).2.2.runPpu
      ((console.cpu.step console.bus).1 * dotsPerCycle)).2 = console.caughtUp := rfl
  have hrequest : console.caughtUp.takeDmaPage.1 = console.caughtUp.dmaPage := rfl
  rw [hcatchUp, hrequest]
  cases hpage : console.caughtUp.dmaPage with
  | none => rw [step_of_no_request hpage, h.record]
  | some page =>
    dsimp only
    rw [step_of_request hpage, h.record, runDmaChecked_eq htaken, ok_bind]
    simp only [runDma, transferred, transferFor]

/-- A step keeps a console sound. -/
theorem Sound.step (h : console.Sound) : console.step.2.Sound := by
  refine ⟨?_, ?_⟩
  · rw [← afterAll_events]
    exact h.bus.afterAll _
  · cases hpage : console.caughtUp.dmaPage with
    | none =>
      rw [step_of_no_request hpage, h.record]
      exact h.history
    | some page =>
      rw [step_of_request hpage, h.record]
      exact h.history

/-- A reset is the reset sequence of the processor, with the dots that go with it. -/
theorem reset_eq (console : Console) :
    console.reset =
      { cpu := (Cpu.reset console.bus.reset).1
        bus := ((Cpu.reset console.bus.reset).2.runPpu (Cpu.resetCycles * dotsPerCycle)).2
        history := console.history } := by
  simp only [reset]

theorem resetChecked_eq (h : console.bus.board.Sound) :
    console.resetChecked = .ok console.reset := by
  have hreset := ConsoleBus.sound_reset h
  rw [resetChecked, Cpu.resetOnChecked_eq hreset, ok_bind]
  dsimp only
  rw [ConsoleBus.runPpuChecked_eq (Cpu.reset_sound hreset), ok_bind, reset_eq]

/-- A reset keeps a console sound. -/
theorem reset_sound (h : console.bus.board.Sound) (hhistory : console.history = none) :
    console.reset.Sound := by
  have hreset := Cpu.reset_sound (ConsoleBus.sound_reset h)
  refine ⟨?_, ?_⟩
  · simp only [reset_eq]
    exact hreset.runPpu _
  · simp only [reset_eq]
    exact hhistory

/-- A console that has been switched on is sound. -/
theorem sound_withBoard {board : Board} (h : board.Sound) : (withBoard board).Sound :=
  reset_sound h rfl

theorem ofImageChecked_eq (raw : Array UInt8) : ofImageChecked raw = .ok (ofImage raw) := by
  rw [ofImageChecked, Board.ofImageChecked_eq, ok_bind, ofImage]
  cases hboard : Board.ofImage raw with
  | error error => rfl
  | ok board =>
    have hsound : board.Sound := Board.sound_ofImage hboard
    dsimp only
    rw [resetChecked_eq hsound]
    rfl

theorem insertChecked_eq (console : Console) {board : Board} (h : board.Sound) :
    console.insertChecked board = .ok (console.insert board) :=
  resetChecked_eq h

/-- A console with another cartridge is sound. -/
theorem Sound.insert (h : console.Sound) {board : Board} (hboard : board.Sound) :
    (console.insert board).Sound :=
  reset_sound hboard h.history

end Console

/-- What a host does with a console. -/
inductive HostAction where
  /-- Run one instruction or enter one handler. -/
  | step
  /-- Press the reset button. -/
  | reset
  /-- Exchange the cartridge for the one of a raw image, if the loader accepts it. -/
  | insert (raw : Array UInt8)
  /-- Read from the bus. -/
  | read (address : UInt16)
  /-- Write to the bus. -/
  | write (address : UInt16) (value : UInt8)
  /-- Let the picture unit work through a number of dots. -/
  | tick (dots : Nat)
deriving DecidableEq, Repr

namespace Console

/-- The console after an action of the host. -/
def act (console : Console) : HostAction → Console
  | .step => console.step.2
  | .reset => console.reset
  | .insert raw =>
    match Board.ofImage raw with
    | .error _ => console
    | .ok board => console.insert board
  | .read address => { console with bus := (console.bus.read address).2 }
  | .write address value => { console with bus := console.bus.write address value }
  | .tick dots => { console with bus := (console.bus.runPpu dots).2 }

/-- The console after an action of the host, checked. -/
def actChecked (console : Console) : HostAction → Checked Console
  | .step => do
    let (_, console) ← console.stepChecked
    .ok console
  | .reset => console.resetChecked
  | .insert raw => do
    match ← Board.ofImageChecked raw with
    | .error _ => .ok console
    | .ok board => console.insertChecked board
  | .read address => do
    let (_, bus) ← console.bus.readChecked address
    .ok { console with bus }
  | .write address value => do
    let bus ← console.bus.writeChecked address value
    .ok { console with bus }
  | .tick dots => do
    let (_, bus) ← console.bus.runPpuChecked dots
    .ok { console with bus }

/-- Switch on a console with the cartridge of a raw image, if the loader accepts it, and do what
the host wants. -/
def play (raw : Array UInt8) (actions : List HostAction) : Except ImageError Console :=
  (ofImage raw).map fun console => actions.foldl act console

/-- Switch on a console and do what the host wants, checked. -/
def playChecked (raw : Array UInt8) (actions : List HostAction) :
    Checked (Except ImageError Console) := do
  match ← ofImageChecked raw with
  | .error error => .ok (.error error)
  | .ok console => do
    let console ← actions.foldlM actChecked console
    .ok (.ok console)

variable {console : Console}

theorem actChecked_eq (h : console.Sound) (action : HostAction) :
    console.actChecked action = .ok (console.act action) := by
  cases action with
  | step =>
    simp only [actChecked, stepChecked_eq h, ok_bind, act]
  | reset => exact resetChecked_eq h.bus.board
  | insert raw =>
    rw [actChecked, Board.ofImageChecked_eq, ok_bind, act]
    cases hboard : Board.ofImage raw with
    | error error => rfl
    | ok board => exact console.insertChecked_eq (Board.sound_ofImage hboard)
  | read address =>
    simp only [actChecked, ConsoleBus.readChecked_eq h.bus, ok_bind, act]
  | write address value =>
    simp only [actChecked, ConsoleBus.writeChecked_eq, ok_bind, act]
  | tick dots =>
    simp only [actChecked, ConsoleBus.runPpuChecked_eq h.bus, ok_bind, act]

/-- Every action of the host keeps a console sound. -/
theorem Sound.act (h : console.Sound) (action : HostAction) : (console.act action).Sound := by
  cases action with
  | step => exact h.step
  | reset =>
    change console.reset.Sound
    exact reset_sound h.bus.board h.history
  | insert raw =>
    rw [Console.act]
    cases hboard : Board.ofImage raw with
    | error error => exact h
    | ok board => exact h.insert (Board.sound_ofImage hboard)
  | read address => exact ⟨h.bus.read address, h.history⟩
  | write address value => exact ⟨h.bus.write address value, h.history⟩
  | tick dots => exact ⟨h.bus.runPpu dots, h.history⟩

theorem foldlM_actChecked (h : console.Sound) (actions : List HostAction) :
    actions.foldlM actChecked console = .ok (actions.foldl act console) := by
  induction actions generalizing console with
  | nil => rfl
  | cons action rest ih =>
    rw [List.foldlM_cons, actChecked_eq h, ok_bind, ih (h.act action)]
    rfl

/-- Whatever bytes are loaded and whatever the host does, no index leaves its table, no
difference goes below zero, no sum leaves its register and no impossible branch is reached: with
all of this checked, the console does what it does without. -/
theorem play_never_faults (raw : Array UInt8) (actions : List HostAction) :
    playChecked raw actions = .ok (play raw actions) := by
  rw [playChecked, ofImageChecked_eq, ok_bind, play, ofImage]
  cases hboard : Board.ofImage raw with
  | error error => rfl
  | ok board =>
    have hsound := sound_withBoard (Board.sound_ofImage hboard)
    dsimp only
    rw [foldlM_actChecked hsound, ok_bind]
    rfl

end Console

end Famicom
