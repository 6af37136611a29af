import Famicom.Proofs.Console.FreshStart

/-!
# What a host sees

A host does one thing after the other with a console. Of each of them it sees what is reported, for
a step with every byte that goes over the bus on the way, then the processor, and the last frame if
one has been completed since the host began to watch. Two consoles that go the same way show the
same, whatever the host does.
-/

namespace Famicom

/-- A reset keeps units on the same way. -/
theorem Ppu.Alike.reset {l r : Nat} {left right : Ppu} (h : left.Alike l r right) :
    left.reset.Alike l r right.reset := by
  refine ⟨⟨?_, fun cell hcell => absurd hcell (Nat.not_lt_zero _)⟩, .of_corner rfl rfl,
    fun x _ y _ hdrawn => absurd hdrawn (Nat.not_lt_zero _), h.counted, h.shown⟩
  rw [h.same]
  rfl

namespace ConsoleBus

/-- The byte that an event brings, where it reads one. -/
def answer (bus : ConsoleBus) : ConsoleEvent → Option UInt8
  | .access (.read address) => some (bus.read address).1
  | _ => none

/-- What goes over the bus in a list of events: every event with the byte that it brings. -/
def exchanges : List ConsoleEvent → ConsoleBus → List (ConsoleEvent × Option UInt8)
  | [], _ => []
  | event :: rest, bus => (event, bus.answer event) :: exchanges rest (bus.after event)

variable {l r : Nat} {left right : ConsoleBus}

/-- An event brings the same byte on buses alike, and keeps them alike. -/
theorem Alike.after (h : left.Alike l r right) (event : ConsoleEvent) :
    right.answer event = left.answer event ∧
      (left.after event).Alike l r (right.after event) := by
  cases event with
  | access access =>
    cases access with
    | read address => exact ⟨congrArg some (h.read address).1, (h.read address).2⟩
    | write address value => exact ⟨rfl, h.write address value⟩
  | dot => exact ⟨rfl, (h.runPpu 1).2⟩
  | takeUp => exact ⟨rfl, h.takeDmaPage.2⟩
  | store value => exact ⟨rfl, h.writeOam value⟩

/-- The same bytes go over buses alike. -/
theorem Alike.exchanges (h : left.Alike l r right) (events : List ConsoleEvent) :
    ConsoleBus.exchanges events right = ConsoleBus.exchanges events left := by
  induction events generalizing left right with
  | nil => rfl
  | cons event rest ih =>
    obtain ⟨hanswer, hafter⟩ := h.after event
    rw [ConsoleBus.exchanges, ConsoleBus.exchanges, hanswer, ih hafter]

/-- A reset keeps buses alike. -/
theorem Alike.reset (h : left.Alike l r right) : left.reset.Alike l r right.reset := by
  refine ⟨?_, h.ppu.reset⟩
  rw [h.same]
  rfl

/-- Another cartridge keeps buses alike. -/
theorem Alike.insert (h : left.Alike l r right) (board : Board) :
    (left.insert board).Alike l r (right.insert board) := by
  refine ⟨?_, h.ppu.reset⟩
  rw [h.same]
  rfl

end ConsoleBus

/-- A step makes the same accesses on buses alike. -/
theorem Cpu.accesses_alike {l r : Nat} {left right : ConsoleBus} (h : left.Alike l r right)
    (cpu : Cpu) : cpu.accesses right = cpu.accesses left := by
  have hleft := cpu.accesses_forget TwinBus.left_forgets (⟨left, right, h⟩ : TwinBus l r)
  have hright := cpu.accesses_forget TwinBus.right_forgets (⟨left, right, h⟩ : TwinBus l r)
  exact hright.trans hleft.symm

/-- What a host is told by an action. -/
inductive HostReport where
  /-- A step tells what it did, and everything that went over the bus. -/
  | stepped (outcome : StepOutcome) (exchanges : List (ConsoleEvent × Option UInt8))
  /-- A read gives a byte. -/
  | byte (value : UInt8)
  /-- Dots tell whether they completed a frame. -/
  | ran (completed : Bool)
  | nothing
deriving DecidableEq

/-- What a host sees of an action. -/
structure HostView where
  /-- What it is told. -/
  report : HostReport
  /-- The processor afterwards. -/
  cpu : Cpu
  /-- The last completed frame, if it has been completed since the host began to watch. -/
  frame : Option Screen
deriving DecidableEq

namespace Console

/-- What a host is told by an action. -/
def report (console : Console) : HostAction → HostReport
  | .step => .stepped console.step.1 (ConsoleBus.exchanges console.events console.bus)
  | .read address => .byte (console.bus.read address).1
  | .tick dots => .ran (console.bus.runPpu dots).1
  | .reset | .insert _ | .write _ _ => .nothing

/-- What a host sees of an action that has watched since `frames` had been completed. -/
def view (frames : Nat) (console : Console) (action : HostAction) : HostView :=
  let after := console.act action
  { report := console.report action
    cpu := after.cpu
    frame := if frames < after.bus.ppu.frameCount then some after.frame else none }

/-- What such a host sees of one action after the other. -/
def views (frames : Nat) : Console → List HostAction → List HostView
  | _, [] => []
  | console, action :: rest => console.view frames action :: views frames (console.act action) rest

variable {l r : Nat} {left right : Console}

/-- A transfer has the same events on buses alike. -/
theorem transferEvents_alike {left right : ConsoleBus} (h : left.Alike l r right) (limit : Nat)
    (dma : OamDma) : transferEvents limit dma right = transferEvents limit dma left := by
  induction limit generalizing left right dma with
  | zero => rfl
  | succ limit ih =>
    cases hactive : dma.active with
    | false => rw [transferEvents_of_idle _ hactive, transferEvents_of_idle _ hactive]
    | true =>
      obtain ⟨hdma, hbyte⟩ := transferByte_alike h dma.action dma.next
      rw [transferEvents_succ _ hactive, transferEvents_succ _ hactive, hdma,
        ih (hbyte.runPpu dotsPerCycle).2]

/-- A step has the same events on consoles alike. -/
theorem Alike.events (h : left.Alike l r right) : right.events = left.events := by
  obtain ⟨hcycles, hcpu, -⟩ := Cpu.step_alike h.bus left.cpu
  obtain ⟨hpage, htaken⟩ := h.caughtUp.2.takeDmaPage
  have hfor (page : UInt8) : right.transferFor page = left.transferFor page := by
    rw [transferFor, transferFor, h.cpu, hcpu]
  have hrequest : right.requestEvents = left.requestEvents := by
    cases hleft : left.caughtUp.dmaPage with
    | none =>
      have hright : right.caughtUp.dmaPage = none := hpage.trans hleft
      rw [requestEvents_of_no_request hleft, requestEvents_of_no_request hright]
    | some page =>
      have hright : right.caughtUp.dmaPage = some page := hpage.trans hleft
      rw [requestEvents_of_request hleft, requestEvents_of_request hright, hfor,
        transferEvents_alike htaken]
  rw [Console.events, Console.events, h.cpu, Cpu.accesses_alike h.bus, hcycles, hrequest]

/-- Exchanging the cartridge keeps consoles alike. -/
theorem Alike.insert (h : left.Alike l r right) (board : Board) :
    (left.insert board).Alike l r (right.insert board) := by
  rw [Console.insert, Console.insert]
  exact alike_of_reset (h.bus.insert board).reset

/-- Every action of a host keeps consoles alike. -/
theorem Alike.act (h : left.Alike l r right) (action : HostAction) :
    (left.act action).Alike l r (right.act action) := by
  cases action with
  | step => exact h.step.2
  | reset =>
    change left.reset.Alike l r right.reset
    exact alike_of_reset h.bus.reset
  | insert raw =>
    rw [Console.act, Console.act]
    cases Board.ofImage raw with
    | error error => exact h
    | ok board => exact h.insert board
  | read address => exact ⟨h.cpu, h.dma, (h.bus.read address).2⟩
  | write address value => exact ⟨h.cpu, h.dma, h.bus.write address value⟩
  | tick dots => exact ⟨h.cpu, h.dma, (h.bus.runPpu dots).2⟩

/-- Consoles alike tell the same. -/
theorem Alike.report (h : left.Alike l r right) (action : HostAction) :
    right.report action = left.report action := by
  cases action with
  | step => simp only [Console.report, h.step.1, h.events, h.bus.exchanges]
  | read address => simp only [Console.report, (h.bus.read address).1]
  | tick dots => simp only [Console.report, (h.bus.runPpu dots).1]
  | reset | insert | write => simp only [Console.report]

/-- Consoles alike show the same in an action. -/
theorem Alike.view (h : left.Alike l r right) (action : HostAction) :
    right.view r action = left.view l action := by
  have hact := h.act action
  have hcounted := hact.bus.ppu.counted
  rw [Console.view, Console.view, h.report, hact.cpu]
  congr 1
  by_cases hshown : l < (left.act action).bus.ppu.frameCount
  · rw [if_pos hshown, if_pos (by omega)]
    exact congrArg some (hact.bus.ppu.shown hshown)
  · rw [if_neg hshown, if_neg (by omega)]

/-- Consoles alike show the same, whatever the host does. -/
theorem Alike.views (h : left.Alike l r right) (actions : List HostAction) :
    right.views r actions = left.views l actions := by
  induction actions generalizing left right with
  | nil => rfl
  | cons action rest ih => rw [Console.views, Console.views, h.view, ih (h.act action)]

end Console

end Famicom
