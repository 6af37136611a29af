import Famicom.Proofs.Console.Clock
import Famicom.Proofs.Console.Regions
import Famicom.Proofs.Ppu.NmiLine

/-!
# Vertical blank on the console's bus

Of all events on the bus, dots and reads of the status begin and end vertical blank, and writes
of the control register turn its announcing on and off. Vertical blank keeps to its times in
every console that a program reaches, and it is long and far away enough that one step sees it
begin at most once.
-/

namespace Famicom

/-- The event is a write by the processor. -/
def ConsoleEvent.writes : ConsoleEvent → Bool
  | .access (.write _ _) => true
  | _ => false

/-- The event is a write of the control register. -/
def ConsoleEvent.writesControl : ConsoleEvent → Bool
  | .access (.write address _) =>
    ConsoleBus.Region.of address == .ppu && address % 8 == 0
  | _ => false

namespace ConsoleBus

/-- The event begins vertical blank. -/
def beginsVblank (bus : ConsoleBus) : ConsoleEvent → Bool
  | .dot => bus.ppu.beginsVblank
  | _ => false

/-- The event ends vertical blank: its last dot, or a read of the status. -/
def endsVblank (bus : ConsoleBus) : ConsoleEvent → Bool
  | .dot => bus.ppu.endsVblank
  | .access (.read address) => Region.of address == .ppu && address % 8 == 2
  | _ => false

/-- A read moves the line when it ends vertical blank only. -/
theorem read_nmi (bus : ConsoleBus) (address : UInt16) :
    (bus.read address).2.ppu.nmi =
      if endsVblank bus (.access (.read address)) then bus.ppu.nmi.on .statusRead
      else bus.ppu.nmi := by
  have hends : endsVblank bus (.access (.read address)) =
      (Region.of address == .ppu && address % 8 == 2) := rfl
  rw [hends]
  unfold read
  split
  case h_2 hregion =>
    refine (bus.ppu.readRegister_nmi address bus.board).trans ?_
    rw [hregion]
    split
    · next heq => rw [heq]; rfl
    · next hne => rw [beq_eq_false_iff_ne.mpr hne]; rfl
  all_goals
    next hregion =>
      rw [hregion]
      rfl

/-- A write moves the line when it reaches the control register only. -/
theorem write_nmi (bus : ConsoleBus) {address : UInt16} {value : UInt8}
    (h : (ConsoleEvent.access (.write address value)).writesControl = false) :
    (bus.write address value).ppu.nmi = bus.ppu.nmi := by
  unfold write
  split
  case h_2 hregion =>
    have haddress : address % 8 ≠ 0 := by simpa [ConsoleEvent.writesControl, hregion] using h
    exact bus.ppu.writeRegister_nmi haddress value bus.board
  all_goals rfl

/-- No write begins or ends vertical blank. -/
theorem write_vblank (bus : ConsoleBus) (address : UInt16) (value : UInt8) :
    (bus.write address value).ppu.nmi.vblank = bus.ppu.nmi.vblank := by
  unfold write
  split
  case h_2 => exact bus.ppu.writeRegister_vblank address value bus.board
  all_goals rfl

/-- Announcing is turned on and off by writes of the control register only. -/
theorem after_enabled (bus : ConsoleBus) {event : ConsoleEvent} (h : event.writesControl = false) :
    (bus.after event).ppu.nmi.enabled = bus.ppu.nmi.enabled := by
  cases event with
  | dot => exact bus.ppu.tick_enabled bus.board
  | takeUp => rfl
  | store value => rfl
  | access access =>
    cases access with
    | read address =>
      change (bus.read address).2.ppu.nmi.enabled = _
      rw [read_nmi]
      split <;> rfl
    | write address value => exact congrArg Nmi.enabled (bus.write_nmi h)

/-- Vertical blank lasts after the event that begins it, and after others if it did before and
they do not end it. -/
theorem after_vblank (bus : ConsoleBus) (event : ConsoleEvent) :
    (bus.after event).ppu.nmi.vblank =
      (beginsVblank bus event || (bus.ppu.nmi.vblank && !endsVblank bus event)) := by
  cases event with
  | dot => exact bus.ppu.tick_vblank bus.board
  | takeUp => exact (Bool.and_true _).symm
  | store value => exact (Bool.and_true _).symm
  | access access =>
    cases access with
    | read address =>
      change (bus.read address).2.ppu.nmi.vblank = (false || _)
      rw [read_nmi, Bool.false_or]
      cases endsVblank bus (.access (.read address)) with
      | true => exact (Bool.and_false _).symm
      | false => exact (Bool.and_true _).symm
    | write address value => exact (bus.write_vblank address value).trans (Bool.and_true _).symm

/-- Every event keeps the line settled. -/
theorem after_settled {bus : ConsoleBus} (h : bus.ppu.nmi.Settled) (event : ConsoleEvent) :
    (bus.after event).ppu.nmi.Settled := by
  cases event with
  | dot => exact Ppu.tick_settled h bus.board
  | takeUp => exact h
  | store value => exact h
  | access access =>
    cases access with
    | read address =>
      change (bus.read address).2.ppu.nmi.Settled
      rw [read_nmi]
      split
      · exact Nmi.settled_on _ _
      · exact h
    | write address value =>
      change (bus.write address value).ppu.nmi.Settled
      unfold write
      split
      case h_2 => exact Ppu.writeRegister_settled h address value bus.board
      all_goals exact h

/-- Every event keeps to the times of vertical blank. -/
theorem after_timed {bus : ConsoleBus} (h : bus.ppu.Timed) (event : ConsoleEvent) :
    (bus.after event).ppu.Timed := by
  by_cases hevent : event = .dot
  · subst hevent
    exact h.tick bus.board
  · have hsame := bus.after_samePicture hevent
    have hbegins : beginsVblank bus event = false := by
      cases event with
      | dot => contradiction
      | _ => rfl
    refine ⟨after_onGrid h.onGrid event, after_settled h.settled event, fun hvblank => ?_⟩
    rw [after_vblank, hbegins, Bool.false_or, Bool.and_eq_true] at hvblank
    rw [Ppu.position, hsame.scanline, hsame.dot]
    exact h.vblank_le hvblank.1

/-- Events keep the line settled. -/
theorem afterAll_settled {bus : ConsoleBus} (h : bus.ppu.nmi.Settled)
    (events : List ConsoleEvent) : (bus.afterAll events).ppu.nmi.Settled :=
  afterAll_keeps (·.ppu.nmi.Settled) (fun event _ _ hsettled => after_settled hsettled event) h

/-- Events keep to the times of vertical blank. -/
theorem afterAll_timed {bus : ConsoleBus} (h : bus.ppu.Timed) (events : List ConsoleEvent) :
    (bus.afterAll events).ppu.Timed :=
  afterAll_keeps (·.ppu.Timed) (fun event _ _ htimed => after_timed htimed event) h

/-- Without writes of the control register announcing stays on or off. -/
theorem afterAll_enabled (bus : ConsoleBus) {events : List ConsoleEvent}
    (h : ∀ event ∈ events, event.writesControl = false) :
    (bus.afterAll events).ppu.nmi.enabled = bus.ppu.nmi.enabled :=
  afterAll_keeps (·.ppu.nmi.enabled = bus.ppu.nmi.enabled)
    (fun event hmem other hsame => (other.after_enabled (h event hmem)).trans hsame) rfl

/-- While it does not begin anew, vertical blank lasts until the first event that ends it. -/
theorem afterAll_vblank (bus : ConsoleBus) {events : List ConsoleEvent}
    (h : tally beginsVblank events bus = 0) :
    (bus.afterAll events).ppu.nmi.vblank = true ↔
      bus.ppu.nmi.vblank = true ∧ tally endsVblank events bus = 0 := by
  induction events generalizing bus with
  | nil => exact (and_iff_left rfl).symm
  | cons event rest ih =>
    rw [tally, Nat.add_eq_zero_iff, Bool.toNat_eq_zero] at h
    obtain ⟨hbegins, hrest⟩ := h
    rw [tally, Nat.add_eq_zero_iff, Bool.toNat_eq_zero]
    refine (ih (bus.after event) hrest).trans ?_
    rw [after_vblank, hbegins, Bool.false_or, Bool.and_eq_true, Bool.not_eq_true', and_assoc]

/-- The dots before vertical blank begins, at the least: the frame may leave out its last dot. -/
def dotsToVblank (position : Nat) : Nat :=
  if position < Ppu.vblankFirst then Ppu.vblankFirst - 1 - position
  else Ppu.frameDots - 1 - position + (Ppu.vblankFirst - 1)

/-- A dot that does not begin vertical blank brings it at most one dot nearer. -/
theorem dotsToVblank_tick {ppu : Ppu} (h : ppu.OnGrid) (hbegins : ppu.beginsVblank = false)
    (board : Board) :
    dotsToVblank ppu.position ≤ dotsToVblank (ppu.tick board).2.1.position + 1 := by
  rw [Bool.eq_false_iff, ne_eq, h.beginsVblank_iff, Ppu.vblankFirst_eq] at hbegins
  have hposition := h.position_lt
  have hskip := ppu.skipsDot.toNat_le
  rw [Ppu.frameDots_eq] at hposition
  rw [dotsToVblank, dotsToVblank, Ppu.vblankFirst_eq, Ppu.frameDots_eq]
  cases hlast : ppu.onLastDot with
  | true =>
    obtain ⟨hline, hdot, -⟩ := Ppu.tick_of_onLastDot hlast board
    have hend := Ppu.position_of_onLastDot hlast
    have hstart : (ppu.tick board).2.1.position = 0 := by rw [Ppu.position, hline, hdot]; rfl
    rw [Ppu.frameDots_eq] at hend
    rw [hstart, if_neg (by omega), if_pos (by omega)]
    omega
  | false =>
    rw [Ppu.tick_position_of_not_onLastDot hlast]
    by_cases hbefore : ppu.position < 82183
    · rw [if_pos hbefore, if_pos (by omega)]
      omega
    · rw [if_neg hbefore, if_neg (by omega)]
      omega

/-- Too few dots do not reach the beginning of vertical blank. -/
theorem tally_beginsVblank {bus : ConsoleBus} (hgrid : bus.ppu.OnGrid)
    {events : List ConsoleEvent} (h : events.count .dot ≤ dotsToVblank bus.ppu.position) :
    tally beginsVblank events bus = 0 := by
  induction events generalizing bus with
  | nil => rfl
  | cons event rest ih =>
    rw [tally, Nat.add_eq_zero_iff, Bool.toNat_eq_zero]
    by_cases hevent : event = .dot
    · subst hevent
      rw [List.count_cons_self] at h
      have hbegins : bus.ppu.beginsVblank = false := by
        rw [Bool.eq_false_iff, ne_eq, hgrid.beginsVblank_iff]
        intro heq
        rw [dotsToVblank, if_pos (by omega)] at h
        omega
      have htick := dotsToVblank_tick hgrid hbegins bus.board
      refine ⟨hbegins, ih (after_onGrid hgrid _) ?_⟩
      change _ ≤ dotsToVblank (bus.ppu.tick bus.board).2.1.position
      omega
    · have hsame := bus.after_samePicture hevent
      rw [List.count_cons_of_ne hevent] at h
      refine ⟨?_, ih (after_onGrid hgrid _) ?_⟩
      · cases event with
        | dot => contradiction
        | _ => rfl
      · rw [Ppu.position, hsame.scanline, hsame.dot]
        exact h

/-- The dots of a step do not reach from one vertical blank to the next. -/
theorem vblank_far {bus : ConsoleBus} (htimed : bus.ppu.Timed)
    (hvblank : bus.ppu.nmi.vblank = true) {events : List ConsoleEvent}
    (hfew : events.count .dot ≤ 1566) : tally beginsVblank events bus = 0 := by
  obtain ⟨hfirst, hlast⟩ := htimed.vblank_le hvblank
  refine tally_beginsVblank htimed.onGrid ?_
  rw [Ppu.vblankFirst_eq] at hfirst
  rw [Ppu.vblankLast_eq] at hlast
  rw [dotsToVblank, Ppu.vblankFirst_eq, Ppu.frameDots_eq, if_neg (by omega)]
  omega

/-- Once a request is taken up, only a write makes a new one. -/
theorem after_dmaPage {bus : ConsoleBus} (h : bus.dmaPage = none) {event : ConsoleEvent}
    (hwrites : event.writes = false) : (bus.after event).dmaPage = none := by
  cases event with
  | dot => exact h
  | takeUp => rfl
  | store value => exact h
  | access access =>
    cases access with
    | read address => exact (bus.read_dmaPage address).trans h
    | write address value => contradiction

/-- Without writes there is no new request. -/
theorem afterAll_dmaPage {bus : ConsoleBus} (h : bus.dmaPage = none) {events : List ConsoleEvent}
    (hwrites : ∀ event ∈ events, event.writes = false) :
    (bus.afterAll events).dmaPage = none :=
  afterAll_keeps (·.dmaPage = none)
    (fun event hmem _ hnone => after_dmaPage hnone (hwrites event hmem)) h

end ConsoleBus

namespace Console

open ConsoleBus

/-- The consoles that a program can reach. -/
inductive Reachable : Console → Prop where
  /-- A console is switched on with a cartridge. -/
  | switchOn (board : Board) : Reachable (withBoard board)
  /-- It goes on with a step. -/
  | step {console : Console} : Reachable console → Reachable console.step.2
  /-- Its reset button is pressed. -/
  | reset {console : Console} : Reachable console → Reachable console.reset

/-- A program that goes on reaches all consoles after it. -/
theorem Reachable.afterSteps {console : Console} (h : Reachable console) (steps : Nat) :
    Reachable (console.afterSteps steps) := by
  induction steps generalizing console with
  | zero => exact h
  | succ steps ih => exact ih h.step

/-- A reset begins outside vertical blank. -/
theorem reset_timed (console : Console) : console.reset.bus.ppu.Timed := by
  have hstart : console.bus.reset.ppu.Timed :=
    ⟨⟨(by decide : 0 < Schedule.scanlines), (by decide : 0 < Schedule.dots)⟩, rfl,
      fun h => absurd h Bool.false_ne_true⟩
  have hreads : CpuBus.KeptByReads fun bus : ConsoleBus => bus.ppu.Timed :=
    fun bus address h => after_timed h (.access (.read address))
  rw [reset_bus]
  refine afterAll_timed ?_ _
  exact Cpu.keeps_readWord hreads hstart Cpu.resetVector (Cpu.resetVector + 1)

/-- Every console that a program reaches keeps to the times of vertical blank. -/
theorem Reachable.timed {console : Console} (h : Reachable console) :
    console.bus.ppu.Timed := by
  induction h with
  | switchOn board =>
    rw [withBoard_eq]
    exact reset_timed _
  | @step console _ ih =>
    rw [← afterAll_events]
    exact afterAll_timed ih console.events
  | reset _ _ => exact reset_timed _

/-- A moment inside the next step at which the line rises. -/
structure Rises (console : Console) (before : List ConsoleEvent) (event : ConsoleEvent)
    (rest : List ConsoleEvent) : Prop where
  events_eq : console.events = before ++ event :: rest
  low : (console.bus.afterAll before).ppu.nmiLine = false
  high : ((console.bus.afterAll before).after event).ppu.nmiLine = true

end Console

end Famicom
