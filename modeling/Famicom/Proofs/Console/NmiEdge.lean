import Famicom.Proofs.Console.LateProgram

/-!
# The edge of the non-maskable line

The processor looks at the line once a step, while the line moves inside the step. A rise is
therefore served by the next step exactly when vertical blank outlasts the step in which the
line rose: the dot that ends it and a read of the status, which a transfer can make as well,
take the line down again before the processor has seen it.
-/

namespace Famicom

namespace ConsoleEvent

/-- A write of the control register is a write. -/
theorem writesControl_of_writes {event : ConsoleEvent} (h : event.writes = false) :
    event.writesControl = false := by
  cases event with
  | access access =>
    cases access with
    | read address => rfl
    | write address value => contradiction
  | _ => rfl

/-- Reads and pushes do not write the control register. -/
theorem writesControl_of_isReadOrPush {access : Access} (h : access.IsReadOrPush) :
    (ConsoleEvent.access access).writesControl = false := by
  cases access with
  | read address => rfl
  | write address value =>
    obtain ⟨sp, rfl⟩ := h
    rw [writesControl, ConsoleBus.Region.of_stackAddress]
    rfl

/-- Once a dot has passed or the control register is written, it is not written any more. -/
def Settled (earlier later : ConsoleEvent) : Prop :=
  earlier = .dot ∨ earlier.writesControl = true → later.writesControl = false

end ConsoleEvent

namespace Console

open ConsoleBus

/-- A transfer makes no writes by the processor. -/
theorem transferEvents_writes (limit : Nat) (dma : OamDma) (bus : ConsoleBus) :
    ∀ event ∈ transferEvents limit dma bus, event.writes = false := by
  induction limit generalizing dma bus with
  | zero => exact fun _ h => absurd h List.not_mem_nil
  | succ limit ih =>
    cases hactive : dma.active with
    | false =>
      rw [transferEvents_of_idle _ hactive]
      exact fun _ h => absurd h List.not_mem_nil
    | true =>
      intro event h
      rw [transferEvents_succ _ hactive, List.mem_append, List.mem_append] at h
      rcases h with (haccess | hdot) | hrest
      · cases hact : dma.action with
        | idle => rw [hact] at haccess; contradiction
        | read address => rw [hact] at haccess; rw [List.mem_singleton.mp haccess]; rfl
        | write value => rw [hact] at haccess; rw [List.mem_singleton.mp haccess]; rfl
      · rw [(List.mem_replicate.mp hdot).2]
        rfl
      · exact ih _ _ event hrest

/-- No writes by the processor follow the taking up of a request. -/
theorem requestEvents_writes (console : Console) :
    ∀ event ∈ console.requestEvents, event.writes = false := by
  intro event h
  cases hpage : console.caughtUp.dmaPage with
  | none =>
    rw [requestEvents_of_no_request hpage] at h
    rw [List.mem_singleton.mp h]
    rfl
  | some page =>
    rw [requestEvents_of_request hpage, List.mem_cons] at h
    rcases h with rfl | h
    · rfl
    · exact transferEvents_writes _ _ _ event h

/-- In a step the control register is written at most once, and before all dots. -/
theorem events_settled (console : Console) : console.events.Pairwise ConsoleEvent.Settled := by
  have hlater : ∀ event ∈ List.replicate ((console.cpu.step console.bus).1 * dotsPerCycle)
      ConsoleEvent.dot ++ console.requestEvents, event.writesControl = false := by
    intro event h
    rcases List.mem_append.mp h with hdot | hrequest
    · rw [(List.mem_replicate.mp hdot).2]
      rfl
    · exact ConsoleEvent.writesControl_of_writes (console.requestEvents_writes event hrequest)
  rw [events, List.append_assoc, List.pairwise_append]
  refine ⟨?_, List.pairwise_of_forall_mem_list fun _ _ event h _ => hlater event h,
    fun _ _ event h _ => hlater event h⟩
  obtain ⟨quiet, hquiet, hlast⟩ := console.cpu.accesses_eq console.bus
  have hearlier : ∀ event ∈ quiet.map ConsoleEvent.access,
      event ≠ .dot ∧ event.writesControl = false := by
    intro event h
    obtain ⟨access, hmem, rfl⟩ := List.mem_map.mp h
    exact ⟨fun heq => ConsoleEvent.noConfusion heq,
      ConsoleEvent.writesControl_of_isReadOrPush (hquiet access hmem)⟩
  have hquietPairwise : (quiet.map ConsoleEvent.access).Pairwise ConsoleEvent.Settled :=
    List.pairwise_of_forall_mem_list fun _ _ event h _ => (hearlier event h).2
  rcases hlast with heq | ⟨address, value, heq⟩
  · rw [heq]
    exact hquietPairwise
  · rw [heq, List.map_append, List.pairwise_append]
    refine ⟨hquietPairwise, List.pairwise_singleton _ _, ?_⟩
    intro earlier hmem _ _ hsettled
    obtain ⟨hdot, hcontrol⟩ := hearlier earlier hmem
    rcases hsettled with hsettled | hsettled
    · exact absurd hsettled hdot
    · rw [hcontrol] at hsettled
      contradiction

/-- No request is left after a step. -/
theorem step_dmaPage (console : Console) : console.step.2.bus.dmaPage = none := by
  rw [← afterAll_events, events, afterAll_append, ← caughtUp_eq]
  cases hpage : console.caughtUp.dmaPage with
  | none => rw [requestEvents_of_no_request hpage]; rfl
  | some page =>
    have htaken : console.caughtUp.takeDmaPage.2.dmaPage = none := rfl
    rw [requestEvents_of_request hpage]
    exact afterAll_dmaPage htaken (transferEvents_writes _ _ _)

/-- The next step enters the handler of the non-maskable line. -/
def entersNmi (console : Console) : Bool := console.cpu.takesNmi console.bus.ppu.nmiLine

/-- The address of the handler of the non-maskable line. -/
def nmiHandler (console : Console) : UInt16 := CpuBus.lookWord console.bus 0xFFFA 0xFFFB

/-- Pushes stay in working memory. -/
theorem push_keeps (board : Board) (page : Option UInt8) :
    CpuBus.KeptByPushes fun bus : ConsoleBus => bus.board = board ∧ bus.dmaPage = page := by
  intro bus sp value h
  change (bus.write (Cpu.stackAddress sp) value).board = board ∧
    (bus.write (Cpu.stackAddress sp) value).dmaPage = page
  simp only [write, Region.of_stackAddress]
  exact h

/-- The way into a handler makes no request. -/
theorem enter_dmaPage {bus : ConsoleBus} (h : bus.dmaPage = none) (cpu : Cpu)
    (interrupt : Interrupt) : (cpu.enter interrupt bus).2.dmaPage = none := by
  refine Cpu.keeps_enter (P := fun bus : ConsoleBus => bus.dmaPage = none) ?_ ?_ h cpu interrupt
  · exact fun bus address h => (bus.read_dmaPage address).trans h
  · exact fun bus sp value h => (push_keeps bus.board none bus sp value ⟨rfl, h⟩).2

/-- The step into the handler takes seven cycles and leads to the handler's address. -/
theorem step_of_entersNmi {console : Console} (hpage : console.bus.dmaPage = none)
    (h : console.entersNmi = true) :
    console.step.1.cycles = 7 ∧ console.step.2.cpu.pc = console.nmiHandler := by
  have htakes : console.cpu.takesNmi (CpuBus.nmiLine console.bus) = true := h
  obtain ⟨polled, hstep⟩ := Cpu.step_of_takesNmi htakes
  have hcaughtUp : console.caughtUp.dmaPage = none := by
    rw [caughtUp_dmaPage, hstep]
    exact enter_dmaPage hpage polled .nmi
  obtain ⟨pushed, ⟨hboard, -⟩, hpc⟩ :=
    Cpu.enter_pc (push_keeps console.bus.board none) ⟨rfl, hpage⟩ polled .nmi
  rw [step_cycles_eq, step_cpu, stall_of_no_request hcaughtUp, hstep]
  refine ⟨rfl, hpc.trans ?_⟩
  exact readWord_eq_lookWord hboard (by decide) (by decide)

variable {console : Console} {before rest : List ConsoleEvent} {event : ConsoleEvent}

/-- The line rises when vertical blank begins or when the control register is written. -/
theorem Rises.cause (h : Rises console before event rest)
    (hsettled : console.bus.ppu.nmi.Settled) :
    (event = .dot ∧ beginsVblank (console.bus.afterAll before) event = true) ∨
      (event.writesControl = true ∧ (console.bus.afterAll before).ppu.nmi.enabled = false) := by
  have hlow := h.low
  have hhigh := h.high
  have hbefore := afterAll_settled hsettled before
  rw [Ppu.nmiLine, hbefore] at hlow
  rw [Ppu.nmiLine, after_settled hbefore event, Bool.and_eq_true] at hhigh
  obtain ⟨henabled, hvblank⟩ := hhigh
  cases hbegins : beginsVblank (console.bus.afterAll before) event with
  | true =>
    cases event with
    | dot => exact .inl ⟨rfl, rfl⟩
    | _ => contradiction
  | false =>
    rw [after_vblank, hbegins, Bool.false_or, Bool.and_eq_true] at hvblank
    rw [hvblank.1, Bool.and_true] at hlow
    refine .inr ⟨?_, hlow⟩
    rw [← Bool.not_eq_false]
    intro hcontrol
    rw [after_enabled _ hcontrol, hlow] at henabled
    contradiction

/-- When the line rises in a step, it was low at the start of the step. -/
theorem Rises.low_first (h : Rises console before event rest) (htimed : console.bus.ppu.Timed) :
    console.bus.ppu.nmiLine = false := by
  rcases h.cause htimed.settled with ⟨-, hbegins⟩ | ⟨hcontrol, hdisabled⟩
  · -- one vertical blank in the step leaves no room for another one
    cases hvblank : console.bus.ppu.nmi.vblank with
    | false => exact htimed.settled.trans ((congrArg _ hvblank).trans (Bool.and_false _))
    | true =>
      have hnone := vblank_far htimed hvblank console.count_dot_events_le
      rw [h.events_eq, tally_append, tally, hbegins] at hnone
      have : 1 ≤ true.toNat := Nat.le_refl _
      omega
  · have hsettled := console.events_settled
    rw [h.events_eq, List.pairwise_append] at hsettled
    have hquiet : ∀ earlier ∈ before, earlier.writesControl = false := by
      intro earlier hmem
      rw [Bool.eq_false_iff]
      intro hearlier
      have := hsettled.2.2 earlier hmem event List.mem_cons_self (.inr hearlier)
      rw [hcontrol] at this
      contradiction
    have hfirst := console.bus.afterAll_enabled hquiet
    rw [hdisabled] at hfirst
    exact htimed.settled.trans ((congrArg (· && _) hfirst.symm).trans (Bool.false_and _))

/-- After the line has risen in a step, the control register is not written any more. -/
theorem Rises.rest_settled (h : Rises console before event rest)
    (hline : console.bus.ppu.nmi.Settled) :
    ∀ later ∈ rest, later.writesControl = false := by
  have hsettled := console.events_settled
  rw [h.events_eq, List.pairwise_append, List.pairwise_cons] at hsettled
  intro later hmem
  refine hsettled.2.1.1 later hmem ?_
  rcases h.cause hline with ⟨hdot, -⟩ | ⟨hcontrol, -⟩
  · exact .inl hdot
  · exact .inr hcontrol

/-- After the line has risen in a step, it stays high until an event ends vertical blank. -/
theorem Rises.high_last (h : Rises console before event rest) (htimed : console.bus.ppu.Timed) :
    console.step.2.bus.ppu.nmiLine = true ↔
      tally endsVblank rest ((console.bus.afterAll before).after event) = 0 := by
  have hhigh := h.high
  have hfew := console.count_dot_events_le
  rw [h.events_eq, List.count_append, List.count_cons] at hfew
  have htimedAfter := after_timed (afterAll_timed htimed before) event
  rw [Ppu.nmiLine, htimedAfter.settled, Bool.and_eq_true] at hhigh
  have hfar : tally beginsVblank rest _ = 0 := vblank_far htimedAfter hhigh.2 (by omega)
  rw [← afterAll_events, h.events_eq, afterAll_append]
  change (((console.bus.afterAll before).after event).afterAll rest).ppu.nmiLine = true ↔ _
  rw [Ppu.nmiLine, afterAll_settled htimedAfter.settled rest, Bool.and_eq_true,
    afterAll_enabled _ (h.rest_settled htimed.settled), afterAll_vblank _ hfar]
  simp only [hhigh, true_and]

/-- Which rises of the non-maskable line are served. When the line rises inside a step after
which the processor still runs, the next step enters the handler exactly when no later event
of the step ends vertical blank. The step that enters it takes seven cycles. -/
theorem nmi_served_iff (hreach : Reachable console) (hrises : Rises console before event rest)
    (hruns : console.step.2.cpu.jammed = false) :
    (console.step.2.entersNmi = true ↔
        tally endsVblank rest ((console.bus.afterAll before).after event) = 0) ∧
      (console.step.2.entersNmi = true →
        console.step.2.step.1.cycles = 7 ∧
          console.step.2.step.2.cpu.pc = console.step.2.nmiHandler) := by
  have hjammed : console.cpu.jammed = false := by
    rw [Bool.eq_false_iff]
    intro hjammed
    have hstays := Cpu.step_jammed hjammed console.bus
    rw [step_cpu] at hruns
    exact absurd hstays (Bool.eq_false_iff.mp hruns)
  obtain ⟨hlevel, hpending⟩ := Cpu.step_nmi hjammed console.bus
  have hlow : CpuBus.nmiLine console.bus = false := hrises.low_first hreach.timed
  refine ⟨?_, step_of_entersNmi console.step_dmaPage⟩
  rw [← hrises.high_last hreach.timed, entersNmi, Cpu.takesNmi, hruns, step_cpu]
  dsimp only
  rw [hlevel, hpending, hlow]
  simp

/-- A request in the middle of vertical blank is served by the next step. -/
theorem nmi_served_in_vblank :
    let console := (withBoard (lateBoard 13900)).afterSteps (1 + 13900)
    (Reachable console ∧
        Rises console console.requestReads (.access (.write 0x2000 0x80)) requestRest ∧
        console.step.2.cpu.jammed = false) ∧
      ((console.step.2.entersNmi = true ↔
          tally endsVblank requestRest ((console.bus.afterAll console.requestReads).after
            (.access (.write 0x2000 0x80))) = 0) ∧
        (console.step.2.entersNmi = true →
          console.step.2.step.1.cycles = 7 ∧
            console.step.2.step.2.cpu.pc = console.step.2.nmiHandler)) := by
  intro console
  have hwaiting : Waiting 13900 13900 console := waiting_last (by omega)
  have hreach : Reachable console := (Reachable.switchOn _).afterSteps _
  have hrises := hwaiting.rises (by omega) (by omega)
  have hruns := (hwaiting.asked (by omega)).1
  exact ⟨⟨hreach, hrises, hruns⟩, nmi_served_iff hreach hrises hruns⟩

/-- A request on the last dots of vertical blank is lost: the line rises, the processor runs,
and the next step is an idle instruction. -/
theorem nmi_lost_at_vblank_end :
    let console := (withBoard (lateBoard 14828)).afterSteps (1 + 14828)
    Reachable console ∧
      Rises console console.requestReads (.access (.write 0x2000 0x80)) requestRest ∧
      console.step.2.cpu.jammed = false ∧ console.step.2.step.1.cycles = 2 := by
  intro console
  have hwaiting : Waiting 14828 14828 console := waiting_last (by omega)
  have hreach : Reachable console := (Reachable.switchOn _).afterSteps _
  exact ⟨hreach, hwaiting.rises (by omega) (by omega), (hwaiting.asked (by omega)).1,
    hwaiting.missed (by omega) (by omega)⟩

end Console

end Famicom
