import Famicom.Console
import Famicom.Proofs.Cpu.BusUse
import Famicom.Proofs.Cpu.Cycles
import Famicom.Proofs.OamDma
import Famicom.Proofs.Ppu.Position

/-!
# The events of a step

A step of the console is taken apart into single events on its bus: the accesses of the
processor, the dots of the picture unit, and the reads and stores of a transfer. Going through
the events in turn leads to the bus after the step, so that a moment inside a step is a split
of its list of events, and what happens in a step can be counted.
-/

namespace Famicom

/-- One thing that happens on the console's bus. -/
inductive ConsoleEvent where
  /-- The processor, or a transfer in its place, makes an access. -/
  | access (access : Access)
  /-- The picture unit works through a dot. -/
  | dot
  /-- The request for a transfer is taken up. -/
  | takeUp
  /-- A byte of a transfer is stored in object memory. -/
  | store (value : UInt8)
deriving DecidableEq, Repr

namespace ConsoleBus

/-- The bus after an event. -/
def after (bus : ConsoleBus) : ConsoleEvent → ConsoleBus
  | .access access => CpuBus.respond bus access
  | .dot => (bus.runPpu 1).2
  | .takeUp => bus.takeDmaPage.2
  | .store value => bus.writeOam value

/-- The bus after a list of events. -/
def afterAll (bus : ConsoleBus) (events : List ConsoleEvent) : ConsoleBus :=
  events.foldl after bus

/-- How many of the events count, each one judged on the bus that it meets. -/
def tally (counts : ConsoleBus → ConsoleEvent → Bool) : List ConsoleEvent → ConsoleBus → Nat
  | [], _ => 0
  | event :: rest, bus => (counts bus event).toNat + tally counts rest (bus.after event)

/-- The event is the dot that completes a frame. -/
def completesFrame (bus : ConsoleBus) (event : ConsoleEvent) : Bool :=
  event == .dot && bus.ppu.onLastDot

/-- The event is a dot after which the last one of an odd frame is left out. -/
def skipsDot (bus : ConsoleBus) (event : ConsoleEvent) : Bool :=
  event == .dot && bus.ppu.skipsDot

/-- A frame is completed by dots only. -/
theorem completesFrame_of_ne_dot (bus : ConsoleBus) (event : ConsoleEvent) (h : event ≠ .dot) :
    completesFrame bus event = false := by
  simp [completesFrame, h]

/-- Only a dot can be followed by one that is left out. -/
theorem skipsDot_of_ne_dot (bus : ConsoleBus) (event : ConsoleEvent) (h : event ≠ .dot) :
    skipsDot bus event = false := by
  simp [skipsDot, h]

/-- Two lists of events, one after the other. -/
theorem afterAll_append (bus : ConsoleBus) (first second : List ConsoleEvent) :
    bus.afterAll (first ++ second) = (bus.afterAll first).afterAll second :=
  List.foldl_append

/-- What every event of a list keeps, the list keeps. -/
theorem afterAll_keeps (holds : ConsoleBus → Prop) {events : List ConsoleEvent}
    (hevents : ∀ event ∈ events, ∀ bus, holds bus → holds (bus.after event)) {bus : ConsoleBus}
    (h : holds bus) : holds (bus.afterAll events) := by
  induction events generalizing bus with
  | nil => exact h
  | cons event rest ih =>
    obtain ⟨hfirst, hrest⟩ := List.forall_mem_cons.mp hevents
    exact ih hrest (hfirst bus h)

/-- What counts in two lists of events is counted in one after the other. -/
theorem tally_append (counts : ConsoleBus → ConsoleEvent → Bool)
    (first second : List ConsoleEvent) (bus : ConsoleBus) :
    tally counts (first ++ second) bus =
      tally counts first bus + tally counts second (bus.afterAll first) := by
  induction first generalizing bus with
  | nil => exact (Nat.zero_add _).symm
  | cons event rest ih =>
    simp only [List.cons_append, tally, ih, Nat.add_assoc]
    rfl

/-- The accesses of the processor as events. -/
theorem afterAll_accesses (bus : ConsoleBus) (cpu : Cpu) :
    bus.afterAll ((cpu.accesses bus).map .access) = (cpu.step bus).2.2 := by
  rw [afterAll, List.foldl_map]
  exact cpu.foldl_accesses bus

/-- A dot as an event: the unit works through it, and all else stays. -/
theorem after_dot (bus : ConsoleBus) :
    bus.after .dot =
      { bus with ppu := (bus.ppu.tick bus.board).2.1, board := (bus.ppu.tick bus.board).2.2 } :=
  rfl

/-- The dots of a run are single dots. -/
theorem runPpu_bus (bus : ConsoleBus) (dots : Nat) :
    (bus.runPpu dots).2 = bus.afterAll (List.replicate dots .dot) := by
  induction dots generalizing bus with
  | zero => rfl
  | succ dots ih =>
    rw [List.replicate_succ]
    change _ = (bus.after .dot).afterAll (List.replicate dots .dot)
    rw [← ih, after_dot]
    simp only [runPpu, Ppu.run_succ]

/-- The frames completed in a run are counted dot by dot. -/
theorem run_frames (bus : ConsoleBus) (dots : Nat) :
    (bus.ppu.run dots bus.board).1 = tally completesFrame (List.replicate dots .dot) bus := by
  induction dots generalizing bus with
  | zero => rfl
  | succ dots ih =>
    rw [Ppu.run_succ, Ppu.tick_completed, List.replicate_succ]
    exact congrArg (bus.ppu.onLastDot.toNat + ·) (ih (bus.after .dot))

/-- A run says whether one of its dots completes a frame. -/
theorem runPpu_completed (bus : ConsoleBus) (dots : Nat) :
    (bus.runPpu dots).1 = true ↔
      0 < tally completesFrame (List.replicate dots .dot) bus := by
  rw [← run_frames]
  exact decide_eq_true_iff

end ConsoleBus

namespace Console

open ConsoleBus

/-- The bus once the picture unit has caught up with the instruction of the next step. -/
def caughtUp (console : Console) : ConsoleBus :=
  let (cycles, _, bus) := console.cpu.step console.bus
  (bus.runPpu (cycles * dotsPerCycle)).2

/-- What a cycle of a transfer does on the bus besides the dots. -/
def transferAccess : OamDmaAction → List ConsoleEvent
  | .idle => []
  | .read address => [.access (.read address)]
  | .write value => [.store value]

/-- The events of a transfer that goes on for at most `limit` cycles. -/
def transferEvents : (limit : Nat) → OamDma → ConsoleBus → List ConsoleEvent
  | 0, _, _ => []
  | limit + 1, dma, bus =>
    if dma.active then
      let (dma', bus) := transferByte dma.action dma.next bus
      transferAccess dma.action ++ List.replicate dotsPerCycle .dot ++
        transferEvents limit dma' (bus.runPpu dotsPerCycle).2
    else []

/-- The transfer that begins when a request for `page` is taken up after the next instruction. -/
def transferFor (console : Console) (page : UInt8) : OamDma :=
  OamDma.start page ((console.cpu.step console.bus).2.1.cycles % 2 == 1)

/-- The events after the catching up: a request is taken up, and its transfer carried out. -/
def requestEvents (console : Console) : List ConsoleEvent :=
  .takeUp :: match console.caughtUp.dmaPage with
    | none => []
    | some page =>
      transferEvents (console.transferFor page).remaining (console.transferFor page)
        console.caughtUp.takeDmaPage.2

/-- The events of the next step, oldest first. -/
def events (console : Console) : List ConsoleEvent :=
  (console.cpu.accesses console.bus).map .access ++
    List.replicate ((console.cpu.step console.bus).1 * dotsPerCycle) .dot ++
    console.requestEvents

/-- Recording a line changes neither processor nor bus. -/
theorem record_same (console : Console) :
    console.record.cpu = console.cpu ∧ console.record.bus = console.bus := by
  unfold record
  split <;> exact ⟨rfl, rfl⟩

/-- The access of a transfer's cycle as an event. -/
theorem transferByte_bus (action : OamDmaAction) (dma : OamDma) (bus : ConsoleBus) :
    (transferByte action dma bus).2 = bus.afterAll (transferAccess action) := by
  cases action <;> rfl

/-- The access of a transfer's cycle leaves the cycles left and their soundness alone. -/
theorem transferByte_dma (action : OamDmaAction) (dma : OamDma) (bus : ConsoleBus) :
    (transferByte action dma bus).1.remaining = dma.remaining ∧
      (dma.Sound → (transferByte action dma bus).1.Sound) := by
  cases action <;> exact ⟨rfl, id⟩

/-- The accesses of a transfer complete no frame and leave out no dot. -/
theorem tally_transferAccess {counts : ConsoleBus → ConsoleEvent → Bool}
    (hcounts : ∀ bus event, event ≠ .dot → counts bus event = false) (action : OamDmaAction)
    (bus : ConsoleBus) : tally counts (transferAccess action) bus = 0 := by
  cases action <;> simp [transferAccess, tally, hcounts]

/-- The bus after a cycle of a transfer. -/
theorem transferCycle_bus (action : OamDmaAction) (dma : OamDma) (bus : ConsoleBus) :
    ((transferByte action dma bus).2.runPpu dotsPerCycle).2 =
      bus.afterAll (transferAccess action ++ List.replicate dotsPerCycle .dot) := by
  rw [afterAll_append, runPpu_bus, transferByte_bus]

/-- A cycle of a transfer says whether one of its dots completes a frame. -/
theorem transferCycle_completed (action : OamDmaAction) (dma : OamDma) (bus : ConsoleBus) :
    ((transferByte action dma bus).2.runPpu dotsPerCycle).1 = true ↔
      0 < tally completesFrame
        (transferAccess action ++ List.replicate dotsPerCycle .dot) bus := by
  rw [runPpu_completed, transferByte_bus, tally_append,
    tally_transferAccess completesFrame_of_ne_dot, Nat.zero_add]

/-- A transfer under way goes on with a cycle. -/
theorem transfer_succ (limit : Nat) (outcome : StepOutcome) {dma : OamDma}
    (hactive : dma.active = true) (bus : ConsoleBus) :
    transfer (limit + 1) outcome dma bus =
      transfer limit
        { cycles := outcome.cycles + 1
          frameComplete := outcome.frameComplete ||
            ((transferByte dma.action dma.next bus).2.runPpu dotsPerCycle).1 }
        (transferByte dma.action dma.next bus).1
        ((transferByte dma.action dma.next bus).2.runPpu dotsPerCycle).2 := by
  simp only [transfer, hactive, if_true, OamDma.step]

/-- The events of a transfer under way begin with those of a cycle. -/
theorem transferEvents_succ (limit : Nat) {dma : OamDma} (hactive : dma.active = true)
    (bus : ConsoleBus) :
    transferEvents (limit + 1) dma bus =
      transferAccess dma.action ++ List.replicate dotsPerCycle .dot ++
        transferEvents limit (transferByte dma.action dma.next bus).1
          ((transferByte dma.action dma.next bus).2.runPpu dotsPerCycle).2 := by
  simp only [transferEvents, hactive, if_true]

/-- An idle engine does nothing. -/
theorem transfer_of_idle (limit : Nat) (outcome : StepOutcome) {dma : OamDma}
    (hidle : dma.active = false) (bus : ConsoleBus) :
    transfer limit outcome dma bus = (outcome, dma, bus) := by
  cases limit <;> simp [transfer, hidle]

/-- An idle engine has no events. -/
theorem transferEvents_of_idle (limit : Nat) {dma : OamDma} (hidle : dma.active = false)
    (bus : ConsoleBus) : transferEvents limit dma bus = [] := by
  cases limit <;> simp [transferEvents, hidle]

/-- What a transfer does: it goes through its events, takes all the cycles it has left, and
says whether one of its dots completes a frame. -/
theorem transfer_spec (limit : Nat) (outcome : StepOutcome) {dma : OamDma} (hsound : dma.Sound)
    (hlimit : dma.remaining ≤ limit) (bus : ConsoleBus) :
    (transfer limit outcome dma bus).2.2 = bus.afterAll (transferEvents limit dma bus) ∧
      (transfer limit outcome dma bus).1.cycles = outcome.cycles + dma.remaining ∧
      ((transfer limit outcome dma bus).1.frameComplete = true ↔
        outcome.frameComplete = true ∨
          0 < tally completesFrame (transferEvents limit dma bus) bus) := by
  induction limit generalizing outcome dma bus with
  | zero =>
    have hidle : dma.active = false := by
      rw [Bool.eq_false_iff]
      intro h
      have := OamDma.remaining_pos hsound h
      omega
    rw [OamDma.remaining_of_idle hidle]
    exact ⟨rfl, rfl, by simp [transfer, transferEvents, tally]⟩
  | succ limit ih =>
    cases hactive : dma.active with
    | false =>
      rw [transfer_of_idle _ _ hactive, transferEvents_of_idle _ hactive,
        OamDma.remaining_of_idle hactive]
      exact ⟨rfl, rfl, by simp [tally]⟩
    | true =>
      obtain ⟨hleft, hkept⟩ := transferByte_dma dma.action dma.next bus
      have hnext := OamDma.remaining_next hsound hactive
      have hcompleted := transferCycle_completed dma.action dma.next bus
      rw [transfer_succ _ _ hactive, transferEvents_succ _ hactive, transferCycle_bus]
      obtain ⟨hbus, hcycles, hframe⟩ :=
        ih { cycles := outcome.cycles + 1
             frameComplete := outcome.frameComplete ||
               ((transferByte dma.action dma.next bus).2.runPpu dotsPerCycle).1 }
          (hkept hsound.next) (by omega)
          (bus.afterAll (transferAccess dma.action ++ List.replicate dotsPerCycle .dot))
      refine ⟨?_, ?_, ?_⟩
      · rw [hbus, afterAll_append _ (transferAccess dma.action ++ _)]
      · rw [hcycles, hleft, ← hnext, Nat.add_assoc, Nat.add_comm 1]
      · rw [hframe, tally_append _ (transferAccess dma.action ++ _), Bool.or_eq_true, hcompleted,
          or_assoc, ← Nat.add_pos_iff_pos_or_pos]

/-- What every cycle of a transfer keeps, the transfer keeps, and at its end the engine is idle. -/
theorem transfer_keeps (holds : OamDma → ConsoleBus → Prop)
    (hcycle : ∀ dma bus, dma.active = true → holds dma bus →
      holds (transferByte dma.action dma.next bus).1
        ((transferByte dma.action dma.next bus).2.runPpu dotsPerCycle).2)
    {limit : Nat} (outcome : StepOutcome) {dma : OamDma} (hsound : dma.Sound)
    (hlimit : dma.remaining ≤ limit) {bus : ConsoleBus} (h : holds dma bus) :
    holds (transfer limit outcome dma bus).2.1 (transfer limit outcome dma bus).2.2 ∧
      (transfer limit outcome dma bus).2.1.active = false := by
  induction limit generalizing outcome dma bus with
  | zero =>
    refine ⟨h, Bool.eq_false_iff.mpr fun hactive => ?_⟩
    have hleft := OamDma.remaining_pos hsound hactive
    omega
  | succ limit ih =>
    cases hactive : dma.active with
    | false =>
      rw [transfer_of_idle _ _ hactive]
      exact ⟨h, hactive⟩
    | true =>
      obtain ⟨hleft, hkept⟩ := transferByte_dma dma.action dma.next bus
      have hnext := OamDma.remaining_next hsound hactive
      rw [transfer_succ _ _ hactive]
      exact ih _ (hkept hsound.next) (by omega) (hcycle dma bus hactive h)

/-- A transfer has three dots for each of its cycles. -/
theorem count_dot_transferEvents (limit : Nat) {dma : OamDma} (hsound : dma.Sound)
    (hlimit : dma.remaining ≤ limit) (bus : ConsoleBus) :
    (transferEvents limit dma bus).count .dot = dma.remaining * dotsPerCycle := by
  induction limit generalizing dma bus with
  | zero =>
    rw [Nat.le_zero.mp hlimit, Nat.zero_mul]
    rfl
  | succ limit ih =>
    cases hactive : dma.active with
    | false =>
      rw [transferEvents_of_idle _ hactive, OamDma.remaining_of_idle hactive, Nat.zero_mul]
      rfl
    | true =>
      obtain ⟨hleft, hkept⟩ := transferByte_dma dma.action dma.next bus
      have hnext := OamDma.remaining_next hsound hactive
      have haccess : (transferAccess dma.action).count .dot = 0 := by
        cases dma.action <;> rfl
      rw [transferEvents_succ _ hactive, List.count_append, List.count_append, haccess,
        List.count_replicate_self, ih (hkept hsound.next) (by omega), hleft, ← hnext,
        Nat.succ_mul]
      omega

/-- The cycles that the processor waits in the next step, for a transfer it has asked for. -/
def stall (console : Console) : Nat :=
  match console.caughtUp.dmaPage with
  | none => 0
  | some page => (console.transferFor page).remaining

/-- The whole transfer for a request, from the bus that has caught up. -/
def transferred (console : Console) (page : UInt8) : StepOutcome × OamDma × ConsoleBus :=
  transfer (console.transferFor page).remaining { cycles := 0, frameComplete := false }
    (console.transferFor page) console.caughtUp.takeDmaPage.2

/-- The transfer of a request is sound. -/
theorem transferFor_sound (console : Console) (page : UInt8) :
    (console.transferFor page).Sound :=
  OamDma.sound_start _ _

/-- A step without a request is an instruction and the catching up. -/
theorem step_of_no_request {console : Console} (h : console.caughtUp.dmaPage = none) :
    console.step =
      ({ cycles := (console.cpu.step console.bus).1
         frameComplete := ((console.cpu.step console.bus).2.2.runPpu
           ((console.cpu.step console.bus).1 * dotsPerCycle)).1 },
        { cpu := (console.cpu.step console.bus).2.1
          bus := console.caughtUp.takeDmaPage.2
          dma := console.record.dma
          history := console.record.history }) := by
  obtain ⟨hcpu, hbus⟩ := console.record_same
  simp only [caughtUp] at h
  simp only [step, hcpu, hbus, takeDmaPage, h, caughtUp]

/-- A step with a request is an instruction, the catching up and a transfer. -/
theorem step_of_request {console : Console} {page : UInt8}
    (h : console.caughtUp.dmaPage = some page) :
    console.step =
      ({ cycles := (console.cpu.step console.bus).1 + (console.transferred page).1.cycles
         frameComplete := ((console.cpu.step console.bus).2.2.runPpu
             ((console.cpu.step console.bus).1 * dotsPerCycle)).1 ||
           (console.transferred page).1.frameComplete },
        { cpu := { (console.cpu.step console.bus).2.1 with
            cycles := (console.cpu.step console.bus).2.1.cycles +
              (console.transferred page).1.cycles }
          bus := (console.transferred page).2.2
          dma := (console.transferred page).2.1
          history := console.record.history }) := by
  obtain ⟨hcpu, hbus⟩ := console.record_same
  simp only [caughtUp] at h
  simp only [step, runDma, hcpu, hbus, takeDmaPage, h, caughtUp, transferFor, transferred]

/-- Without a request nothing follows the catching up. -/
theorem requestEvents_of_no_request {console : Console} (h : console.caughtUp.dmaPage = none) :
    console.requestEvents = [.takeUp] := by
  simp only [requestEvents, h]

/-- A request is followed by its transfer. -/
theorem requestEvents_of_request {console : Console} {page : UInt8}
    (h : console.caughtUp.dmaPage = some page) :
    console.requestEvents = .takeUp ::
      transferEvents (console.transferFor page).remaining (console.transferFor page)
        console.caughtUp.takeDmaPage.2 := by
  simp only [requestEvents, h]

/-- Without a request the processor does not wait. -/
theorem stall_of_no_request {console : Console} (h : console.caughtUp.dmaPage = none) :
    console.stall = 0 := by
  simp only [stall, h]

/-- After a request the processor waits for the whole transfer. -/
theorem stall_of_request {console : Console} {page : UInt8}
    (h : console.caughtUp.dmaPage = some page) :
    console.stall = (console.transferFor page).remaining := by
  simp only [stall, h]

/-- What the transfer of a request does. -/
theorem transferred_spec (console : Console) (page : UInt8) :
    (console.transferred page).2.2 = console.caughtUp.takeDmaPage.2.afterAll
        (transferEvents (console.transferFor page).remaining (console.transferFor page)
          console.caughtUp.takeDmaPage.2) ∧
      (console.transferred page).1.cycles = (console.transferFor page).remaining ∧
      ((console.transferred page).1.frameComplete = true ↔
        0 < tally completesFrame
          (transferEvents (console.transferFor page).remaining (console.transferFor page)
            console.caughtUp.takeDmaPage.2) console.caughtUp.takeDmaPage.2) := by
  obtain ⟨hbus, hcycles, hframe⟩ :=
    transfer_spec (console.transferFor page).remaining { cycles := 0, frameComplete := false }
      (console.transferFor_sound page) (Nat.le_refl _) console.caughtUp.takeDmaPage.2
  unfold transferred
  refine ⟨hbus, ?_, ?_⟩
  · rw [hcycles]
    exact Nat.zero_add _
  · rw [hframe]
    simp

/-- The bus has caught up after the accesses and the dots of the instruction. -/
theorem caughtUp_eq (console : Console) :
    console.caughtUp = console.bus.afterAll
      ((console.cpu.accesses console.bus).map .access ++
        List.replicate ((console.cpu.step console.bus).1 * dotsPerCycle) .dot) := by
  rw [afterAll_append, afterAll_accesses, ← runPpu_bus]
  rfl

/-- The dots of the catching up make no request. -/
theorem caughtUp_dmaPage (console : Console) :
    console.caughtUp.dmaPage = (console.cpu.step console.bus).2.2.dmaPage := by
  simp only [caughtUp, runPpu]

/-- Going through the events of a step leads to the bus after it. -/
theorem afterAll_events (console : Console) :
    console.bus.afterAll console.events = console.step.2.bus := by
  rw [events, afterAll_append, ← caughtUp_eq]
  cases hpage : console.caughtUp.dmaPage with
  | none =>
    rw [step_of_no_request hpage, requestEvents_of_no_request hpage]
    rfl
  | some page =>
    rw [step_of_request hpage, requestEvents_of_request hpage]
    dsimp only
    rw [(console.transferred_spec page).1]
    rfl

/-- A step takes the cycles of its instruction and those of the transfer it has asked for. -/
theorem step_cycles_eq (console : Console) :
    console.step.1.cycles = (console.cpu.step console.bus).1 + console.stall := by
  cases hpage : console.caughtUp.dmaPage with
  | none => rw [step_of_no_request hpage, stall_of_no_request hpage]; rfl
  | some page =>
    rw [step_of_request hpage, stall_of_request hpage]
    dsimp only
    rw [(console.transferred_spec page).2.1]

/-- The processor after a step has run its instruction and waited. -/
theorem step_cpu (console : Console) :
    console.step.2.cpu = { (console.cpu.step console.bus).2.1 with
      cycles := (console.cpu.step console.bus).2.1.cycles + console.stall } := by
  cases hpage : console.caughtUp.dmaPage with
  | none => rw [step_of_no_request hpage, stall_of_no_request hpage]; rfl
  | some page =>
    rw [step_of_request hpage, stall_of_request hpage]
    dsimp only
    rw [(console.transferred_spec page).2.1]

/-- The accesses of the processor complete no frame. -/
theorem tally_accesses {counts : ConsoleBus → ConsoleEvent → Bool}
    (hcounts : ∀ bus event, event ≠ .dot → counts bus event = false) (accesses : List Access)
    (bus : ConsoleBus) : tally counts (accesses.map .access) bus = 0 := by
  induction accesses generalizing bus with
  | nil => rfl
  | cons access rest ih => simp [tally, hcounts, ih]

/-- The catching up says whether one of its dots completes a frame. -/
theorem caughtUp_completed (console : Console) :
    ((console.cpu.step console.bus).2.2.runPpu
        ((console.cpu.step console.bus).1 * dotsPerCycle)).1 = true ↔
      0 < tally completesFrame ((console.cpu.accesses console.bus).map .access ++
        List.replicate ((console.cpu.step console.bus).1 * dotsPerCycle) .dot) console.bus := by
  rw [tally_append, tally_accesses completesFrame_of_ne_dot, afterAll_accesses, Nat.zero_add,
    runPpu_completed]

/-- A step says whether one of its dots completes a frame. -/
theorem step_frameComplete (console : Console) :
    console.step.1.frameComplete = true ↔
      0 < tally completesFrame console.events console.bus := by
  have htakeUp (rest : List ConsoleEvent) :
      tally completesFrame (.takeUp :: rest) console.caughtUp =
        tally completesFrame rest console.caughtUp.takeDmaPage.2 :=
    Nat.zero_add _
  rw [events, tally_append, ← caughtUp_eq]
  cases hpage : console.caughtUp.dmaPage with
  | none =>
    rw [step_of_no_request hpage, requestEvents_of_no_request hpage, htakeUp]
    exact console.caughtUp_completed
  | some page =>
    rw [step_of_request hpage, requestEvents_of_request hpage, htakeUp]
    dsimp only
    rw [Bool.or_eq_true, console.caughtUp_completed, (console.transferred_spec page).2.2,
      ← Nat.add_pos_iff_pos_or_pos]

/-- A step has three dots for each of its cycles. -/
theorem count_dot_events (console : Console) :
    console.events.count .dot = console.step.1.cycles * dotsPerCycle := by
  have haccesses : ((console.cpu.accesses console.bus).map ConsoleEvent.access).count .dot = 0 := by
    simp [List.count_eq_zero]
  rw [events, step_cycles_eq, List.count_append, List.count_append, haccesses,
    List.count_replicate_self, Nat.zero_add, Nat.add_mul]
  congr 1
  cases hpage : console.caughtUp.dmaPage with
  | none =>
    rw [requestEvents_of_no_request hpage, stall_of_no_request hpage]
    rfl
  | some page =>
    rw [requestEvents_of_request hpage, stall_of_request hpage, List.count_cons_of_ne (by simp)]
    exact count_dot_transferEvents _ (console.transferFor_sound page) (Nat.le_refl _) _

/-- The processor waits for a whole transfer at most. -/
theorem stall_le (console : Console) : console.stall ≤ 514 := by
  cases hpage : console.caughtUp.dmaPage with
  | none => rw [stall_of_no_request hpage]; exact Nat.zero_le _
  | some page =>
    have := Bool.toNat_le ((console.cpu.step console.bus).2.1.cycles % 2 == 1)
    rw [stall_of_request hpage, transferFor, OamDma.remaining_start]
    omega

end Console

end Famicom
