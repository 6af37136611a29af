import Famicom.Proofs.Console.Clock
import Famicom.Proofs.Safety.Console

/-!
# Running for a frame

A host that wants a picture steps the console until a frame is completed. Nothing that a program
does can keep it waiting: every step, also one of a stopped processor, takes two cycles or more, so
the picture unit works through at least six dots in it, and the dots of a frame are finite. At the
other end a step is far shorter than a frame, so it completes one at most, and what is left of it
then reaches into the first lines of the next frame only. The number of steps allowed is therefore
no bound on what is run: from the step on that completes the frame, any larger number does the same.
-/

namespace Famicom.Console

open ConsoleBus

/-- The step of a console does not complete a frame. -/
def Quiet (console : Console) : Prop := console.step.1.frameComplete = false

/-- The first step to complete a frame comes after `last` quiet ones. -/
structure CompletesAfter (console : Console) (last : Nat) : Prop where
  quiet : ∀ earlier < last, (console.afterSteps earlier).Quiet
  completes : (console.afterSteps last).step.1.frameComplete = true

variable {console : Console}

/-- Either a number of steps are all quiet, or one of them is the first to complete a frame. -/
theorem quiet_or_completesAfter (console : Console) (steps : Nat) :
    (∀ earlier < steps, (console.afterSteps earlier).Quiet) ∨
      ∃ last < steps, console.CompletesAfter last := by
  induction steps with
  | zero => exact .inl fun _ hlt => absurd hlt (Nat.not_lt_zero _)
  | succ steps ih =>
    obtain hquiet | ⟨last, hlt, hlast⟩ := ih
    · cases hnow : (console.afterSteps steps).step.1.frameComplete with
      | true => exact .inr ⟨steps, Nat.lt_succ_self steps, hquiet, hnow⟩
      | false =>
        refine .inl fun earlier hlt => ?_
        rcases Nat.lt_succ_iff_lt_or_eq.mp hlt with hlt | rfl
        · exact hquiet earlier hlt
        · exact hnow
    · exact .inr ⟨last, Nat.lt_succ_of_lt hlt, hlast⟩

/-- A step has six dots at least. -/
theorem le_count_dot_events (console : Console) : 6 ≤ console.events.count .dot := by
  have hcycles := (console.cpu.step_cycles_bounds console.bus).1
  rw [count_dot_events, step_cycles_eq, dotsPerCycle]
  omega

/-- A quiet step moves the position on by six dots at least, and counts no frame. -/
theorem Quiet.step (h : console.Quiet) :
    console.bus.ppu.position + 6 ≤ console.step.2.bus.ppu.position ∧
      console.step.2.bus.ppu.frameCount = console.bus.ppu.frameCount := by
  have hnone : tally completesFrame console.events console.bus = 0 := by
    refine Nat.eq_zero_of_not_pos fun hpos => ?_
    exact Bool.false_ne_true (h.symm.trans (console.step_frameComplete.mpr hpos))
  have hbalance := console.bus.afterAll_balance console.events
  have hcount := console.bus.afterAll_frameCount console.events
  have hdots := console.le_count_dot_events
  rw [afterAll_events, hnone] at hbalance hcount
  exact ⟨by omega, hcount⟩

/-- Quiet steps move the position on by six dots each, and count no frame. -/
theorem afterSteps_of_quiet {steps : Nat}
    (hquiet : ∀ earlier < steps, (console.afterSteps earlier).Quiet) :
    console.bus.ppu.position + 6 * steps ≤ (console.afterSteps steps).bus.ppu.position ∧
      (console.afterSteps steps).bus.ppu.frameCount = console.bus.ppu.frameCount := by
  induction steps generalizing console with
  | zero => exact ⟨Nat.le_refl _, rfl⟩
  | succ steps ih =>
    have hfirst : console.Quiet := hquiet 0 (Nat.succ_pos steps)
    obtain ⟨hposition, hcount⟩ := hfirst.step
    obtain ⟨hlater, hlaterCount⟩ :=
      @ih console.step.2 fun earlier hlt => hquiet (earlier + 1) (Nat.succ_lt_succ hlt)
    rw [afterSteps]
    exact ⟨by omega, hlaterCount.trans hcount⟩

/-- Steps, followed by one more. -/
theorem afterSteps_succ_eq_step (console : Console) (steps : Nat) :
    console.afterSteps (steps + 1) = (console.afterSteps steps).step.2 := by
  induction steps generalizing console with
  | zero => rfl
  | succ steps ih =>
    rw [afterSteps, ih, afterSteps]

/-- The grid has room for fewer quiet steps than are allowed for a frame. -/
theorem exists_completesAfter (hgrid : console.bus.ppu.OnGrid) :
    ∃ last < frameSteps, console.CompletesAfter last := by
  refine (console.quiet_or_completesAfter frameSteps).resolve_left fun hquiet => ?_
  -- 14891 steps of six dots would be 89346 dots, four more than the grid has
  have hfar := (afterSteps_of_quiet hquiet).1
  have hend := (afterSteps_onGrid hgrid frameSteps).position_lt
  rw [Ppu.frameDots_eq] at hend
  simp only [frameSteps] at hfar hend
  omega

/-- A step that completes a frame counts just this one, and ends in the first lines of the next. -/
theorem step_of_completes (hgrid : console.bus.ppu.OnGrid)
    (h : console.step.1.frameComplete = true) :
    console.step.2.bus.ppu.frameCount = console.bus.ppu.frameCount + 1 ∧
      console.step.2.bus.ppu.scanline < 5 := by
  have hdots := console.count_dot_events_le
  have hsome := console.step_frameComplete.mp h
  have hone := tally_completesFrame_le_one hgrid console.events (by omega)
  have hskips := console.bus.tally_skipsDot_le console.events
  have hbalance := console.bus.afterAll_balance console.events
  have hcount := console.bus.afterAll_frameCount console.events
  have hposition := hgrid.position_lt
  rw [afterAll_events] at hbalance hcount
  rw [Ppu.frameDots_eq] at hbalance hposition
  refine ⟨by omega, ?_⟩
  -- at most 1566 dots of the step, and one left out, lie behind the end of the frame
  simp only [Ppu.position, Schedule.dots] at hbalance hposition
  omega

/-- After a quiet step the first one to complete a frame is a step nearer. -/
theorem CompletesAfter.step {last : Nat} (h : console.CompletesAfter (last + 1)) :
    console.Quiet ∧ console.step.2.CompletesAfter last :=
  ⟨h.quiet 0 (Nat.succ_pos last),
    fun earlier hlt => h.quiet (earlier + 1) (Nat.succ_lt_succ hlt), h.completes⟩

/-- A run for a frame ends with a step that completes one. -/
theorem runFrameWithin_of_completes (h : console.step.1.frameComplete = true)
    (limit cycles : Nat) :
    runFrameWithin (limit + 1) cycles console =
      (cycles + console.step.1.cycles, console.step.2) := by
  simp only [runFrameWithin, h, if_true]

/-- A run for a frame goes on after a quiet step. -/
theorem runFrameWithin_of_quiet (h : console.Quiet) (limit cycles : Nat) :
    runFrameWithin (limit + 1) cycles console =
      runFrameWithin limit (cycles + console.step.1.cycles) console.step.2 := by
  rw [Quiet] at h
  simp only [runFrameWithin, h, Bool.false_eq_true, if_false]

/-- Any number of steps that reaches the first one to complete a frame ends with it, and adds up
the cycles on the way. -/
theorem CompletesAfter.run {last : Nat} (h : console.CompletesAfter last) {limit : Nat}
    (hlimit : last < limit) (cycles : Nat) :
    (runFrameWithin limit cycles console).2 = console.afterSteps (last + 1) ∧
      console.cpu.cycles + (runFrameWithin limit cycles console).1 =
        cycles + (console.afterSteps (last + 1)).cpu.cycles := by
  induction last generalizing console limit cycles with
  | zero =>
    obtain ⟨limit, rfl⟩ := Nat.exists_eq_add_one.mpr hlimit
    have hnow : console.step.1.frameComplete = true := h.completes
    rw [runFrameWithin_of_completes hnow, afterSteps, afterSteps, step_cycles]
    exact ⟨rfl, Nat.add_left_comm _ _ _⟩
  | succ last ih =>
    obtain ⟨limit, rfl⟩ := Nat.exists_eq_add_one.mpr (Nat.zero_lt_of_lt hlimit)
    obtain ⟨hquiet, hrest⟩ := h.step
    obtain ⟨hend, hcycles⟩ :=
      ih hrest (Nat.lt_of_succ_lt_succ hlimit) (cycles + console.step.1.cycles)
    rw [step_cycles] at hcycles
    rw [runFrameWithin_of_quiet hquiet, afterSteps]
    exact ⟨hend, by omega⟩

/-- A console with another cartridge begins on the grid. -/
theorem insert_onGrid (console : Console) (board : Board) :
    (console.insert board).bus.ppu.OnGrid := by
  rw [insert]
  exact (reset_clock _).2.2

/-- What a host does keeps the position on the grid. -/
theorem act_onGrid (h : console.bus.ppu.OnGrid) (action : HostAction) :
    (console.act action).bus.ppu.OnGrid := by
  cases action with
  | step =>
    rw [act, ← afterAll_events]
    exact afterAll_onGrid h _
  | reset =>
    rw [act]
    exact console.reset_clock.2.2
  | insert raw =>
    rw [act]
    cases Board.ofImage raw with
    | error error => exact h
    | ok board =>
      dsimp only
      exact console.insert_onGrid board
  | read address =>
    rw [act]
    exact h.of_samePicture (console.bus.read_samePicture address)
  | write address value =>
    rw [act]
    exact h.of_samePicture (console.bus.write_samePicture address value)
  | tick dots =>
    rw [act, runPpu_bus]
    exact afterAll_onGrid h _

/-- Whatever a host does with a console that is switched on, the position is on the grid. -/
theorem foldl_act_onGrid (h : console.bus.ppu.OnGrid) (actions : List HostAction) :
    (actions.foldl act console).bus.ppu.OnGrid := by
  induction actions generalizing console with
  | nil => exact h
  | cons action rest ih => exact ih (act_onGrid h action)

/-- What running for a frame does, when the first step to complete one comes after `last` others. -/
structure RunsFrame (console : Console) (last : Nat) : Prop
    extends CompletesAfter console last where
  /-- The run ends just after that step. -/
  ends : console.runFrame.2 = console.afterSteps (last + 1)
  /-- It would with any number of steps allowed that reaches it. -/
  enough : ∀ limit, last < limit → runFrameWithin limit 0 console = console.runFrame
  frameCount : console.runFrame.2.bus.ppu.frameCount = console.bus.ppu.frameCount + 1
  scanline_lt : console.runFrame.2.bus.ppu.scanline < 5
  cycles : console.runFrame.2.cpu.cycles = console.cpu.cycles + console.runFrame.1

/-- From any position on the grid a run for a frame ends. -/
theorem runsFrame_of_onGrid (hgrid : console.bus.ppu.OnGrid) :
    ∃ last < frameSteps, console.RunsFrame last := by
  obtain ⟨last, hlast, hfirst⟩ := exists_completesAfter hgrid
  obtain ⟨hend, hcycles⟩ := hfirst.run hlast 0
  obtain ⟨-, hquietCount⟩ := afterSteps_of_quiet hfirst.quiet
  obtain ⟨hcount, hline⟩ := step_of_completes (afterSteps_onGrid hgrid last) hfirst.completes
  have hends : console.runFrame.2 = console.afterSteps (last + 1) := hend
  have hlastStep := console.afterSteps_succ_eq_step last
  refine ⟨last, hlast, hfirst, hends, fun limit hlimit => ?_, ?_, ?_, ?_⟩
  · obtain ⟨hend', hcycles'⟩ := hfirst.run hlimit 0
    refine Prod.ext ?_ (hend'.trans hends.symm)
    exact Nat.add_left_cancel (hcycles'.trans hcycles.symm)
  · rw [hends, hlastStep, hcount, hquietCount]
  · rw [hends, hlastStep]
    exact hline
  · rw [hends]
    have := hcycles
    rw [Nat.zero_add] at this
    exact this.symm

/-- **Running for a frame ends.** Whatever cartridge a console is switched on with, whatever the
host has done with it and whether or not it keeps a history, one of the next 14891 steps is the
first to complete a frame. Running for a frame ends just after that step, as it would with any
larger number of steps allowed; it counts one frame, leaves the picture unit in the first five lines
of the next one, and reports the cycles by which the count of the processor has grown. -/
theorem runFrame_ends (board : Board) (actions : List HostAction) (history : Option History) :
    ∃ last < 14891, RunsFrame { actions.foldl act (withBoard board) with history } last := by
  have hstart : (withBoard board).bus.ppu.OnGrid := by
    rw [withBoard_eq]
    exact (reset_clock _).2.2
  have hgrid := foldl_act_onGrid hstart actions
  exact runsFrame_of_onGrid hgrid

end Famicom.Console
