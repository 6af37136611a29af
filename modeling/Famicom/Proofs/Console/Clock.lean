import Famicom.Proofs.Console.Events
import Famicom.Proofs.Ppu.AccessFrame

/-!
# One clock for processor and picture unit

Only the dots among the events of a step move the position in the frame, and a step has three
of them for each of its cycles. Summed up over a run this ties the cycle count to the frames
completed, the dots left out and the position, whatever the program does.
-/

namespace Famicom

namespace ConsoleBus

/-- Events other than dots leave the picture alone. -/
theorem after_samePicture (bus : ConsoleBus) {event : ConsoleEvent} (h : event ≠ .dot) :
    bus.ppu.SamePicture (bus.after event).ppu := by
  cases event with
  | dot => contradiction
  | takeUp => exact .refl bus.ppu
  | store value => exact bus.writeOam_samePicture value
  | access access =>
    cases access with
    | read address => exact bus.read_samePicture address
    | write address value => exact bus.write_samePicture address value

/-- The balance of an event: the position, with the dots of a completed frame, grows by the dot
worked through and by the one left out. -/
theorem after_balance (bus : ConsoleBus) (event : ConsoleEvent) :
    (bus.after event).ppu.position + Ppu.frameDots * (completesFrame bus event).toNat =
      bus.ppu.position + [event].count .dot + (skipsDot bus event).toNat := by
  by_cases h : event = .dot
  · subst h
    exact bus.ppu.tick_balance bus.board
  · have hsame := bus.after_samePicture h
    rw [completesFrame_of_ne_dot bus event h, skipsDot_of_ne_dot bus event h,
      List.count_singleton, beq_eq_false_iff_ne.mpr h, Ppu.position, hsame.scanline, hsame.dot]
    rfl

/-- The balance of a list of events. -/
theorem afterAll_balance (bus : ConsoleBus) (events : List ConsoleEvent) :
    (bus.afterAll events).ppu.position + Ppu.frameDots * tally completesFrame events bus =
      bus.ppu.position + events.count .dot + tally skipsDot events bus := by
  induction events generalizing bus with
  | nil => rfl
  | cons event rest ih =>
    have hfirst := bus.after_balance event
    have hrest := ih (bus.after event)
    have hcount : (event :: rest).count .dot = [event].count .dot + rest.count .dot := by
      rw [← List.count_append]
      rfl
    rw [hcount]
    simp only [tally, Nat.mul_add]
    change ((bus.after event).afterAll rest).ppu.position + _ = _
    omega

/-- The frame count grows by the frames completed. -/
theorem afterAll_frameCount (bus : ConsoleBus) (events : List ConsoleEvent) :
    (bus.afterAll events).ppu.frameCount =
      bus.ppu.frameCount + tally completesFrame events bus := by
  induction events generalizing bus with
  | nil => rfl
  | cons event rest ih =>
    have hfirst : (bus.after event).ppu.frameCount =
        bus.ppu.frameCount + (completesFrame bus event).toNat := by
      by_cases h : event = .dot
      · subst h
        cases hlast : bus.ppu.onLastDot with
        | true =>
          simp only [completesFrame, hlast, after_dot]
          exact (Ppu.tick_of_onLastDot hlast bus.board).2.2.2
        | false =>
          simp only [completesFrame, hlast, after_dot]
          exact (Ppu.tick_of_not_onLastDot hlast bus.board).2.2.2
      · rw [completesFrame_of_ne_dot bus event h]
        exact (bus.after_samePicture h).frameCount
    rw [tally, ← Nat.add_assoc, ← hfirst]
    exact ih (bus.after event)

/-- Every event keeps the position on the grid. -/
theorem after_onGrid {bus : ConsoleBus} (h : bus.ppu.OnGrid) (event : ConsoleEvent) :
    (bus.after event).ppu.OnGrid := by
  by_cases hevent : event = .dot
  · subst hevent
    exact h.tick bus.board
  · have hsame := bus.after_samePicture hevent
    exact ⟨hsame.scanline ▸ h.scanline_lt, hsame.dot ▸ h.dot_lt⟩

/-- Events keep the position on the grid. -/
theorem afterAll_onGrid {bus : ConsoleBus} (h : bus.ppu.OnGrid) (events : List ConsoleEvent) :
    (bus.afterAll events).ppu.OnGrid :=
  afterAll_keeps (·.ppu.OnGrid) (fun event _ _ hgrid => after_onGrid hgrid event) h

/-- At most one dot is left out for each completed frame. -/
theorem tally_skipsDot_le (bus : ConsoleBus) (events : List ConsoleEvent) :
    tally skipsDot events bus ≤ tally completesFrame events bus := by
  induction events generalizing bus with
  | nil => exact Nat.le_refl _
  | cons event rest ih =>
    refine Nat.add_le_add ?_ (ih _)
    cases hskip : skipsDot bus event with
    | false => exact Nat.zero_le _
    | true =>
      have hcompletes : completesFrame bus event = true := by
        simp only [skipsDot, completesFrame, Bool.and_eq_true] at hskip ⊢
        exact ⟨hskip.1, Ppu.onLastDot_of_skipsDot hskip.2⟩
      exact Nat.le_of_eq (by rw [hcompletes])

/-- Fewer dots than a frame has complete at most one frame. -/
theorem tally_completesFrame_le_one {bus : ConsoleBus} (hgrid : bus.ppu.OnGrid)
    (events : List ConsoleEvent) (hfew : events.count .dot < 89341) :
    tally completesFrame events bus ≤ 1 := by
  have hbalance := bus.afterAll_balance events
  have hskips := bus.tally_skipsDot_le events
  have hposition := hgrid.position_lt
  rw [Ppu.frameDots_eq] at hbalance hposition
  omega

end ConsoleBus

namespace Console

open ConsoleBus

/-- The console after a number of steps. -/
def afterSteps : (steps : Nat) → Console → Console
  | 0, console => console
  | steps + 1, console => afterSteps steps console.step.2

/-- The events of a number of steps, oldest first. -/
def eventsOf : (steps : Nat) → Console → List ConsoleEvent
  | 0, _ => []
  | steps + 1, console => console.events ++ eventsOf steps console.step.2

/-- How a run of the console begins. -/
inductive Start where
  /-- It is switched on with a cartridge. -/
  | switchOn (board : Board)
  /-- Its reset button is pressed. -/
  | reset (console : Console)

/-- The console at the beginning of a run. -/
def Start.console : Start → Console
  | switchOn board => withBoard board
  | reset console => console.reset

/-- Going through the events of a number of steps leads to the bus after them. -/
theorem afterAll_eventsOf (console : Console) (steps : Nat) :
    console.bus.afterAll (console.eventsOf steps) = (console.afterSteps steps).bus := by
  induction steps generalizing console with
  | zero => rfl
  | succ steps ih =>
    rw [eventsOf, afterAll_append, afterAll_events, ih]
    rfl

/-- The cycles that a step reports are those that it adds to the total. -/
theorem step_cycles (console : Console) :
    console.step.2.cpu.cycles = console.cpu.cycles + console.step.1.cycles := by
  rw [step_cpu, step_cycles_eq, ← Nat.add_assoc]
  exact congrArg (· + console.stall) (console.cpu.step_cycles console.bus)

/-- Over a number of steps there are three dots for each cycle. -/
theorem count_dot_eventsOf (console : Console) (steps : Nat) :
    (console.eventsOf steps).count .dot + dotsPerCycle * console.cpu.cycles =
      dotsPerCycle * (console.afterSteps steps).cpu.cycles := by
  induction steps generalizing console with
  | zero => exact Nat.zero_add _
  | succ steps ih =>
    have hrest := ih console.step.2
    rw [step_cycles] at hrest
    rw [eventsOf, List.count_append, count_dot_events, afterSteps, ← hrest, Nat.mul_add,
      Nat.mul_comm dotsPerCycle console.step.1.cycles]
    omega

/-- A step has few dots, the longest instruction with the longest transfer being the most. -/
theorem count_dot_events_le (console : Console) : console.events.count .dot ≤ 1566 := by
  have hinstruction := (console.cpu.step_cycles_bounds console.bus).2
  have hstall := console.stall_le
  rw [count_dot_events, step_cycles_eq, dotsPerCycle]
  omega

/-- Reading the reset vector leaves the picture of the reset bus alone. -/
theorem reset_samePicture (console : Console) :
    console.bus.reset.ppu.SamePicture (Cpu.reset console.bus.reset).2.ppu := by
  refine Cpu.keeps_readWord (P := fun bus : ConsoleBus => console.bus.reset.ppu.SamePicture bus.ppu)
    ?_ (.refl _) Cpu.resetVector (Cpu.resetVector + 1)
  intro bus address h
  exact h.trans (bus.read_samePicture address)

/-- The unit works through the dots of the reset sequence after its reads. -/
theorem reset_bus (console : Console) :
    console.reset.bus =
      (Cpu.reset console.bus.reset).2.afterAll
        (List.replicate (Cpu.resetCycles * dotsPerCycle) .dot) := by
  rw [← runPpu_bus]
  simp only [reset]

/-- The processor starts from its vector. -/
theorem reset_cpu (console : Console) :
    console.reset.cpu = (Cpu.reset console.bus.reset).1 := by
  simp only [reset]

/-- After the reset sequence the processor has spent seven cycles, and the unit has worked
through the first dots of a frame. -/
theorem reset_clock (console : Console) :
    console.reset.cpu.cycles = 7 ∧ console.reset.bus.ppu.position = 21 ∧
      console.reset.bus.ppu.OnGrid := by
  have hsame := console.reset_samePicture
  have hgrid : (Cpu.reset console.bus.reset).2.ppu.OnGrid :=
    ⟨hsame.scanline ▸ (by decide : 0 < Schedule.scanlines),
      hsame.dot ▸ (by decide : 0 < Schedule.dots)⟩
  have hstart : (Cpu.reset console.bus.reset).2.ppu.position = 0 := by
    rw [Ppu.position, hsame.scanline, hsame.dot]
    rfl
  have hbalance := (Cpu.reset console.bus.reset).2.afterAll_balance
    (List.replicate (Cpu.resetCycles * dotsPerCycle) .dot)
  have hskips := (Cpu.reset console.bus.reset).2.tally_skipsDot_le
    (List.replicate (Cpu.resetCycles * dotsPerCycle) .dot)
  rw [hstart, List.count_replicate_self] at hbalance
  rw [reset_bus]
  refine ⟨congrArg Cpu.cycles console.reset_cpu, ?_, afterAll_onGrid hgrid _⟩
  -- a completed frame would need more dots than the sequence has
  simp only [Ppu.frameDots_eq, Cpu.resetCycles, dotsPerCycle]
    at hbalance hskips ⊢
  omega

/-- Switching on ends with a reset. -/
theorem withBoard_eq (board : Board) : withBoard board = reset { bus := { board } } := rfl

/-- Every run begins with a reset. -/
theorem Start.console_eq (start : Start) :
    ∃ console : Console, start.console = Console.reset console := by
  cases start with
  | switchOn board => exact ⟨{ bus := { board } }, withBoard_eq board⟩
  | reset console => exact ⟨console, rfl⟩

/-- A run begins seven cycles and as many dots as belong to them after the reset. -/
theorem Start.clock (start : Start) :
    start.console.cpu.cycles = 7 ∧ start.console.bus.ppu.position = 21 ∧
      start.console.bus.ppu.OnGrid := by
  obtain ⟨console, heq⟩ := start.console_eq
  rw [heq]
  exact console.reset_clock

/-- Steps keep the position on the grid. -/
theorem afterSteps_onGrid {console : Console} (hgrid : console.bus.ppu.OnGrid) (steps : Nat) :
    (console.afterSteps steps).bus.ppu.OnGrid := by
  rw [← afterAll_eventsOf]
  exact afterAll_onGrid hgrid _

/-- A run keeps the position on the grid. -/
theorem Start.afterSteps_onGrid (start : Start) (steps : Nat) :
    (start.console.afterSteps steps).bus.ppu.OnGrid :=
  Console.afterSteps_onGrid start.clock.2.2 steps

/-- A step counts at most one frame, and says so. -/
theorem step_frameCount {console : Console} (hgrid : console.bus.ppu.OnGrid) :
    console.step.2.bus.ppu.frameCount ≤ console.bus.ppu.frameCount + 1 ∧
      (console.step.1.frameComplete = true ↔
        console.bus.ppu.frameCount < console.step.2.bus.ppu.frameCount) := by
  have hcount := console.bus.afterAll_frameCount console.events
  have hfew := console.count_dot_events_le
  have hone := tally_completesFrame_le_one hgrid console.events (by omega)
  rw [afterAll_events] at hcount
  rw [step_frameComplete, hcount]
  omega

/-- Processor and picture unit keep step. At any point of a run, three times the cycles since
the reset are the dots of the frames completed, without those left out, and the dots before the
position in the current frame. The next step adds the cycles it reports, and it reports a
completed frame exactly when it counts one more. -/
theorem lockstep (start : Start) (steps : Nat) :
    let first := start.console
    let now := first.afterSteps steps
    let completed := tally completesFrame (first.eventsOf steps) first.bus
    let skipped := tally ConsoleBus.skipsDot (first.eventsOf steps) first.bus
    ((3 * now.cpu.cycles : Int) =
        89342 * completed - skipped + 341 * now.bus.ppu.scanline + now.bus.ppu.dot) ∧
      now.bus.ppu.scanline < 262 ∧ now.bus.ppu.dot < 341 ∧
      now.bus.ppu.frameCount = first.bus.ppu.frameCount + completed ∧
      now.step.2.cpu.cycles = now.cpu.cycles + now.step.1.cycles ∧
      now.step.2.bus.ppu.frameCount ≤ now.bus.ppu.frameCount + 1 ∧
      (now.step.1.frameComplete = true ↔
        now.bus.ppu.frameCount < now.step.2.bus.ppu.frameCount) := by
  intro first now completed skipped
  obtain ⟨hcycles, hposition, -⟩ := start.clock
  have hgrid : now.bus.ppu.OnGrid := start.afterSteps_onGrid steps
  have hbus : first.bus.afterAll (first.eventsOf steps) = now.bus := afterAll_eventsOf first steps
  have hbalance := first.bus.afterAll_balance (first.eventsOf steps)
  have hdots := count_dot_eventsOf first steps
  rw [hbus, hposition] at hbalance
  rw [hcycles] at hdots
  obtain ⟨hone, hsays⟩ := step_frameCount hgrid
  refine ⟨?_, hgrid.scanline_lt, hgrid.dot_lt, ?_, now.step_cycles, hone, hsays⟩
  · simp only [Ppu.position, Ppu.frameDots_eq, Schedule.dots] at hbalance
    simp only [dotsPerCycle] at hdots
    change _ + _ = 3 * now.cpu.cycles at hdots
    change _ + 89342 * completed = _ + _ + skipped at hbalance
    omega
  · rw [← hbus]
    exact first.bus.afterAll_frameCount _

end Console

end Famicom
