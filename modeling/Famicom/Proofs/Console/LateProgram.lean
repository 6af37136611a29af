import Famicom.Proofs.Console.Vblank
import Famicom.Proofs.Cpu.Polling

/-!
# A program that asks late

A program that idles for a chosen number of instructions and then asks to be told of vertical
blank. Its idling moves the picture unit by six dots an instruction and nothing else, so the
moment of the request is known to the dot, for every length of the idling.
-/

namespace Famicom

namespace Cpu

variable {Bus : Type} [CpuBus Bus]

/-- Nothing keeps the processor from its next instruction. -/
structure Undisturbed (cpu : Cpu) (bus : Bus) : Prop where
  jammed : cpu.jammed = false
  nmiPending : cpu.nmiPending = false
  nmiLine : CpuBus.nmiLine bus = false
  irqLine : CpuBus.irqLine bus = false

/-- The processor after a look at two low lines. -/
def looked (cpu : Cpu) : Cpu := { cpu with nmiLevel := false, nmiPending := false }

/-- An undisturbed processor runs its next instruction. -/
theorem Undisturbed.step {cpu : Cpu} {bus : Bus} (h : cpu.Undisturbed bus) :
    cpu.step bus = cpu.looked.runInstruction bus := by
  have hdue : cpu.interruptDue (CpuBus.nmiLine bus) (CpuBus.irqLine bus) = false := by
    rw [h.nmiLine, h.irqLine, interruptDue, h.nmiPending]
    rfl
  rw [step_of_not_due h.jammed hdue, h.nmiLine]
  rfl

theorem decode_lda :
    decode 0xA9 = Opcode.Catalogue.official 0xA9 (.read .lda) .immediate 2 := by
  rw [decode_eq_find]
  rfl

theorem decode_sta :
    decode 0x8D = Opcode.Catalogue.official 0x8D (.store .sta) .absolute 4 := by
  rw [decode_eq_find]
  rfl

/-- The idle instruction. -/
theorem runInstruction_nop {cpu : Cpu} {bus after : Bus}
    (hcode : CpuBus.read bus cpu.pc = (0xEA, after)) :
    cpu.runInstruction bus =
      (2, { cpu with pc := cpu.pc + 1, cycles := cpu.cycles + 2, lastCode := some 0xEA },
        after) := by
  rw [runInstruction_eq hcode decode_nop rfl]
  exact congrArg (fun pc => (2, { cpu with pc, cycles := cpu.cycles + 2, lastCode := some 0xEA },
    after)) (cpu.pc + 1).add_zero

/-- Loading the accumulator with the byte after the opcode. -/
theorem runInstruction_lda {cpu : Cpu} {bus coded after : Bus} {value : UInt8}
    (hcode : CpuBus.read bus cpu.pc = (0xA9, coded))
    (hvalue : CpuBus.read coded (cpu.pc + 1) = (value, after)) :
    cpu.runInstruction bus =
      (2, { cpu with
            registers := cpu.registers.loadA value
            pc := cpu.pc + 1 + 1
            cycles := cpu.cycles + 2
            lastCode := some 0xA9 }, after) := by
  have hexecute (cpu' : Cpu) : (Operation.read .lda).execute (.direct (cpu.pc + 1)) cpu' coded =
      (cpu'.mapRegisters (ReadOperation.lda.apply value), after) := by
    simp only [Operation.execute, Operand.direct, hvalue]
  rw [runInstruction_eq hcode decode_lda rfl]
  exact congrArg (Prod.mk 2) (hexecute _)

/-- Storing the accumulator at the address after the opcode. -/
theorem runInstruction_sta {cpu : Cpu} {bus coded after : Bus} {target : UInt16}
    (hcode : CpuBus.read bus cpu.pc = (0x8D, coded))
    (htarget : CpuBus.readWord coded (cpu.pc + 1) (cpu.pc + 1 + 1) = (target, after)) :
    cpu.runInstruction bus =
      (4, { cpu with pc := cpu.pc + 1 + 2, cycles := cpu.cycles + 4, lastCode := some 0x8D },
        CpuBus.write after target cpu.registers.a) := by
  have hoperand : AddressingMode.absolute.resolve cpu.registers (cpu.pc + 1) coded =
      (Operand.direct target, after) := by
    rw [AddressingMode.resolve, htarget]
  rw [runInstruction_eq hcode decode_sta hoperand]
  rfl

/-- The accesses of a store of the accumulator: its three bytes are read, and it writes. -/
theorem accesses_sta {cpu : Cpu} {bus coded after : Bus} {target : UInt16}
    (h : cpu.Undisturbed bus) (hcode : CpuBus.read bus cpu.pc = (0x8D, coded))
    (htarget : CpuBus.readWord coded (cpu.pc + 1) (cpu.pc + 1 + 1) = (target, after)) :
    cpu.accesses bus =
      [.read cpu.pc, .read (cpu.pc + 1), .read (cpu.pc + 1 + 1),
        .write target cpu.registers.a] := by
  have hcodeRecorded : CpuBus.read ({ bus } : Recorded Bus) cpu.looked.pc =
      (0x8D, { bus := coded, traffic := #[.read cpu.pc] }) := by
    change Recorded.read { bus } CpuBus.read cpu.pc = _
    simp only [Recorded.read, hcode]
    rfl
  have htargetRecorded : CpuBus.readWord
      ({ bus := coded, traffic := #[.read cpu.pc] } : Recorded Bus)
      (cpu.looked.pc + 1) (cpu.looked.pc + 1 + 1) =
      (target, { bus := after
                 traffic := #[.read cpu.pc, .read (cpu.pc + 1), .read (cpu.pc + 1 + 1)] }) := by
    have hword := Prod.mk.inj htarget
    unfold CpuBus.readWord
    change (_, Recorded.mk _ _) = _
    exact Prod.ext hword.1 (congrArg (Recorded.mk · _) hword.2)
  have hundisturbed : cpu.Undisturbed ({ bus } : Recorded Bus) :=
    ⟨h.jammed, h.nmiPending, h.nmiLine, h.irqLine⟩
  rw [accesses, hundisturbed.step, runInstruction_sta hcodeRecorded htargetRecorded]
  rfl

end Cpu

/-- The program area: load the accumulator, idle, store it in the control register, and idle
on. The vectors at the end lead to the start and to a handler farther on. -/
def lateByte (idle index : Nat) : UInt8 :=
  if index = 0 then 0xA9
  else if index = 1 then 0x80
  else if index = 2 + idle then 0x8D
  else if index = 3 + idle then 0x00
  else if index = 4 + idle then 0x20
  else if index = 0x3FFA ∨ index = 0x3FFC then 0x00
  else if index = 0x3FFB then 0xB0
  else if index = 0x3FFD then 0x80
  else 0xEA

/-- The bytes of the program area. -/
def lateImage (idle : Nat) : Array UInt8 :=
  Array.ofFn fun index : Fin 0x4000 => lateByte idle index.val

/-- A cartridge with the program. -/
def lateBoard (idle : Nat) : Board :=
  Board.ofBytes .nrom (lateImage idle) #[] .horizontal

/-- A program of 16 KB repeats through the upper half of the address space. -/
theorem Board.read_program (byte : Nat → UInt8) {address : UInt16} (h : 0x8000 ≤ address) :
    (Board.ofBytes .nrom (Array.ofFn fun index : Fin 0x4000 => byte index.val) #[]
        .horizontal).read address = some (byte ((address.toNat - 0x8000) % 0x4000)) := by
  have hupper : 0x8000 ≤ address.toNat := UInt16.le_iff_toNat_le.mp h
  have hindex : (address.toNat - 0x8000) % 0x4000 < 0x4000 := Nat.mod_lt _ (by omega)
  rw [ofBytes, read]
  dsimp only
  rw [if_pos hupper, prgByte, Array.size_ofFn, Array.getD_eq_getD_getElem?, Array.getElem?_ofFn,
    dif_pos hindex, Option.getD_some]

/-- The program repeats through the upper half of the address space. -/
theorem lateBoard_read (idle : Nat) {address : UInt16} (h : 0x8000 ≤ address) :
    (lateBoard idle).read address =
      some (lateByte idle ((address.toNat - 0x8000) % 0x4000)) :=
  Board.read_program (lateByte idle) h

/-- The addresses of the program area. -/
theorem programAddress {index : Nat} (h : index < 0x4000) :
    (UInt16.ofNat (0x8000 + index)).toNat = 0x8000 + index ∧
      0x8000 ≤ UInt16.ofNat (0x8000 + index) := by
  have haddress : (UInt16.ofNat (0x8000 + index)).toNat = 0x8000 + index :=
    UInt16.toNat_ofNat_of_lt' (by simp only [UInt16.size]; omega)
  refine ⟨haddress, ?_⟩
  rw [UInt16.le_iff_toNat_le, haddress]
  exact Nat.le_add_right _ _

/-- The program begins at the start of the upper half. -/
theorem lateBoard_code (idle : Nat) {index : Nat} (h : index < 0x4000) :
    (lateBoard idle).read (UInt16.ofNat (0x8000 + index)) = some (lateByte idle index) := by
  obtain ⟨haddress, hupper⟩ := programAddress h
  rw [lateBoard_read idle hupper, haddress, Nat.add_sub_cancel_left, Nat.mod_eq_of_lt h]

/-- The program idles around the request. -/
theorem lateByte_idle {idle index : Nat} (hfirst : 2 ≤ index) (hlast : index < 0x3FFA)
    (hrequest : index < 2 + idle ∨ 4 + idle < index) : lateByte idle index = 0xEA := by
  unfold lateByte
  iterate 8 rw [if_neg (by omega)]

/-- The request is a store of the accumulator. -/
theorem lateByte_request (idle : Nat) :
    lateByte idle (2 + idle) = 0x8D ∧ lateByte idle (3 + idle) = 0x00 ∧
      lateByte idle (4 + idle) = 0x20 := by
  unfold lateByte
  refine ⟨?_, ?_, ?_⟩
  · rw [if_neg (by omega), if_neg (by omega), if_pos rfl]
  · rw [if_neg (by omega), if_neg (by omega), if_neg (by omega), if_pos rfl]
  · rw [if_neg (by omega), if_neg (by omega), if_neg (by omega), if_neg (by omega), if_pos rfl]

namespace Ppu

/-- The unit is at a position, the line is settled, and vertical blank has been left unread. -/
structure OnTime (position : Nat) (ppu : Ppu) : Prop where
  onGrid : ppu.OnGrid
  settled : ppu.nmi.Settled
  position_eq : ppu.position = position
  vblank_iff : ppu.nmi.vblank = true ↔ vblankFirst ≤ position ∧ position ≤ vblankLast

/-- Before the end of a frame a dot keeps the unit on time. -/
theorem OnTime.tick {position : Nat} {ppu : Ppu} (h : OnTime position ppu)
    (hnear : position + 2 < frameDots) (board : Board) :
    OnTime (position + 1) (ppu.tick board).2.1 := by
  have hposition := h.position_eq
  refine ⟨h.onGrid.tick board, tick_settled h.settled board, ?_, ?_⟩
  · rw [tick_position_of_lt (hposition ▸ hnear), hposition]
  · rw [tick_vblank, Bool.or_eq_true, h.onGrid.beginsVblank_iff, Bool.and_eq_true,
      Bool.not_eq_true', Bool.eq_false_iff, ne_eq, h.onGrid.endsVblank_iff, h.vblank_iff,
      hposition, vblankFirst_eq, vblankLast_eq]
    omega

end Ppu

namespace ConsoleBus

/-- Before the end of a frame dots keep the unit on time. -/
theorem afterAll_dots_onTime {position : Nat} {bus : ConsoleBus} (h : bus.ppu.OnTime position)
    {dots : Nat} (hnear : position + dots + 1 < Ppu.frameDots) :
    (bus.afterAll (List.replicate dots .dot)).ppu.OnTime (position + dots) := by
  induction dots generalizing position bus with
  | zero => exact h
  | succ dots ih =>
    have hfirst : (bus.after .dot).ppu.OnTime (position + 1) := h.tick (by omega) bus.board
    have hrest := ih hfirst (by omega)
    rw [Nat.add_assoc, Nat.add_comm 1] at hrest
    exact hrest

/-- What dots leave alone: working memory, the board, the request, and the memories and registers
of the picture unit. -/
structure SameBesidesDots (before after : ConsoleBus) : Prop where
  ram : after.ram = before.ram
  board : after.board = before.board
  dmaPage : after.dmaPage = before.dmaPage
  memory : before.ppu.SameMemory after.ppu
  enabled : after.ppu.nmi.enabled = before.ppu.nmi.enabled

/-- Dots leave memories, registers, the board and the request alone. -/
theorem afterAll_dots_keeps (bus : ConsoleBus) (dots : Nat) :
    SameBesidesDots bus (bus.afterAll (List.replicate dots .dot)) := by
  refine afterAll_keeps (SameBesidesDots bus) (fun event hmem other hsame => ?_)
    ⟨rfl, rfl, rfl, .refl bus.ppu, rfl⟩
  obtain rfl := List.eq_of_mem_replicate hmem
  refine ⟨hsame.ram, (other.ppu.tick_board other.board).trans hsame.board, hsame.dmaPage, ?_, ?_⟩
  · exact hsame.memory.trans (other.ppu.tick_sameMemory other.board)
  · exact (other.ppu.tick_enabled other.board).trans hsame.enabled

/-- A write of the control register. -/
theorem write_control (bus : ConsoleBus) (value : UInt8) :
    bus.write 0x2000 value =
      { bus with ppu := ({ bus.ppu with lines := value } : Ppu).writeControl value } := by
  have hregion : Region.of 0x2000 = .ppu := by decide
  simp only [write, hregion]
  rfl

/-- Asking to be told where it was not asked before. -/
theorem write_control_enables {bus : ConsoleBus} (h : bus.ppu.control.nmiEnabled = false) :
    (bus.write 0x2000 0x80).ppu.nmi.enabled = true := by
  have hasks : ({ bits := 0x80 } : Control).nmiEnabled = true := by decide
  rw [write_control]
  simp only [Ppu.writeControl, h, hasks]
  rfl

/-- A register write leaves the unit on time. -/
theorem write_onTime {bus : ConsoleBus} {position : Nat} (h : bus.ppu.OnTime position)
    (address : UInt16) (value : UInt8) : (bus.write address value).ppu.OnTime position := by
  have hsame := bus.write_samePicture address value
  refine ⟨⟨?_, ?_⟩, after_settled h.settled (.access (.write address value)), ?_, ?_⟩
  · exact hsame.scanline ▸ h.onGrid.scanline_lt
  · exact hsame.dot ▸ h.onGrid.dot_lt
  · rw [Ppu.position, hsame.scanline, hsame.dot]
    exact h.position_eq
  · rw [write_vblank]
    exact h.vblank_iff

/-- Taking up no request changes nothing. -/
theorem takeDmaPage_of_none {bus : ConsoleBus} (h : bus.dmaPage = none) :
    bus.takeDmaPage.2 = bus := by
  cases bus
  simp only [takeDmaPage] at h ⊢
  rw [h]

end ConsoleBus

namespace Console

/-- A reset reads its vector and goes on for some dots. -/
theorem reset_of_vector {console : Console} {low high : UInt8}
    (hlow : console.bus.board.read Cpu.resetVector = some low)
    (hhigh : console.bus.board.read (Cpu.resetVector + 1) = some high) :
    console.reset.cpu =
        { pc := high.toUInt16 * 0x100 + low.toUInt16, cycles := Cpu.resetCycles } ∧
      console.reset.bus = ({ console.bus.reset with openBus := high } : ConsoleBus).afterAll
        (List.replicate (Cpu.resetCycles * dotsPerCycle) .dot) := by
  have hword := console.bus.reset.readWord_upper (by decide) (by decide) hlow hhigh
  have hreset : Cpu.reset console.bus.reset =
      ({ pc := high.toUInt16 * 0x100 + low.toUInt16, cycles := Cpu.resetCycles },
        { console.bus.reset with openBus := high }) := by
    unfold Cpu.reset
    rw [hword]
    rfl
  rw [reset_bus, reset_cpu, hreset]
  exact ⟨rfl, rfl⟩

/-- A step whose instruction makes no request. -/
theorem step_of_quiet {console : Console} {cycles : Nat} {cpu : Cpu} {bus : ConsoleBus}
    (hstep : console.cpu.step console.bus = (cycles, cpu, bus)) (hpage : bus.dmaPage = none) :
    console.step.1.cycles = cycles ∧ console.step.2.cpu = cpu ∧
      console.step.2.bus = bus.afterAll (List.replicate (cycles * dotsPerCycle) .dot) := by
  have hcaughtUp : console.caughtUp =
      bus.afterAll (List.replicate (cycles * dotsPerCycle) .dot) := by
    rw [← ConsoleBus.runPpu_bus]
    simp only [caughtUp, hstep]
  have hnone : console.caughtUp.dmaPage = none := by
    rw [hcaughtUp, (bus.afterAll_dots_keeps _).dmaPage, hpage]
  rw [step_of_no_request hnone, hstep]
  refine ⟨rfl, rfl, ?_⟩
  rw [← hcaughtUp]
  exact ConsoleBus.takeDmaPage_of_none hnone

/-- The program has not asked yet: it is at `index`, with the picture unit at `position`. -/
structure Unasked (idle index position : Nat) (console : Console) : Prop where
  board : console.bus.board = lateBoard idle
  dmaPage : console.bus.dmaPage = none
  control : console.bus.ppu.control.nmiEnabled = false
  enabled : console.bus.ppu.nmi.enabled = false
  onTime : console.bus.ppu.OnTime position
  jammed : console.cpu.jammed = false
  nmiPending : console.cpu.nmiPending = false
  pc : console.cpu.pc = UInt16.ofNat (0x8000 + index)

section

variable {idle index position : Nat} {console : Console}

/-- Nothing disturbs a program that has not asked. -/
theorem Unasked.undisturbed (h : Unasked idle index position console) :
    console.cpu.Undisturbed console.bus := by
  refine ⟨h.jammed, h.nmiPending, ?_, rfl⟩
  exact h.onTime.settled.trans ((congrArg (· && _) h.enabled).trans (Bool.false_and _))

/-- A read of the program on a bus with its cartridge. -/
theorem read_program {bus : ConsoleBus} (hboard : bus.board = lateBoard idle)
    (h : index < 0x4000) :
    CpuBus.read bus (UInt16.ofNat (0x8000 + index)) =
      (lateByte idle index, { bus with openBus := lateByte idle index }) := by
  refine bus.read_upper (programAddress h).2 ?_
  rw [hboard]
  exact lateBoard_code idle h

/-- The address after one of the program. -/
theorem programAddress_succ (index : Nat) :
    UInt16.ofNat (0x8000 + index) + 1 = UInt16.ofNat (0x8000 + (index + 1)) :=
  (UInt16.ofNat_add (0x8000 + index) 1).symm

/-- An instruction that only reads the program moves the clock and the program counter. -/
theorem Unasked.after (h : Unasked idle index position console) {cycles next : Nat} {cpu : Cpu}
    {openBus : UInt8}
    (hrun : console.cpu.looked.runInstruction console.bus =
      (cycles, cpu, { console.bus with openBus }))
    (hjammed : cpu.jammed = false) (hpending : cpu.nmiPending = false)
    (hpc : cpu.pc = UInt16.ofNat (0x8000 + next))
    (hnear : position + cycles * dotsPerCycle + 1 < Ppu.frameDots) :
    Unasked idle next (position + cycles * dotsPerCycle) console.step.2 ∧
      console.step.2.cpu = cpu := by
  have hstep := h.undisturbed.step.trans hrun
  obtain ⟨-, hcpu, hbus⟩ := step_of_quiet hstep h.dmaPage
  obtain ⟨-, hboard, hpage, hmemory, henabled⟩ := ConsoleBus.afterAll_dots_keeps
    { console.bus with openBus } (cycles * dotsPerCycle)
  have honTime : ({ console.bus with openBus } : ConsoleBus).ppu.OnTime position := h.onTime
  refine ⟨⟨?_, ?_, ?_, ?_, ?_, ?_, ?_, ?_⟩, hcpu⟩
  · rw [hbus, hboard, h.board]
  · rw [hbus, hpage, h.dmaPage]
  · rw [hbus, hmemory.control, h.control]
  · rw [hbus, henabled, h.enabled]
  · rw [hbus]
    exact ConsoleBus.afterAll_dots_onTime honTime hnear
  · rw [hcpu, hjammed]
  · rw [hcpu, hpending]
  · rw [hcpu, hpc]

/-- The program is about to idle or to ask: the accumulator is loaded, and every idle instruction
takes six dots. -/
structure Waiting (idle done : Nat) (console : Console) : Prop
    extends Unasked idle (2 + done) (27 + 6 * done) console where
  accumulator : console.cpu.registers.a = 0x80

/-- The program idles on. -/
theorem Waiting.next {done : Nat} (h : Waiting idle done console) (hdone : done < idle)
    (hidle : idle ≤ 14829) : Waiting idle (done + 1) console.step.2 := by
  have hindex : 2 + done < 0x4000 := by omega
  have hcode := read_program h.board hindex
  rw [lateByte_idle (by omega) (by omega) (by omega), ← h.pc] at hcode
  have hrun : console.cpu.looked.runInstruction console.bus = _ := Cpu.runInstruction_nop hcode
  have hnear : 27 + 6 * done + 2 * dotsPerCycle + 1 < Ppu.frameDots := by
    rw [Ppu.frameDots_eq, dotsPerCycle]
    omega
  obtain ⟨hnext, hcpu⟩ := h.toUnasked.after hrun h.jammed rfl
    (h.pc ▸ programAddress_succ (2 + done)) hnear
  refine ⟨hnext, ?_⟩
  rw [hcpu]
  exact h.accumulator

/-- The program idles for a number of instructions. -/
theorem Waiting.afterSteps {done : Nat} (h : Waiting idle done console) (steps : Nat)
    (hsteps : done + steps ≤ idle) (hidle : idle ≤ 14829) :
    Waiting idle (done + steps) (console.afterSteps steps) := by
  induction steps generalizing done console with
  | zero => exact h
  | succ steps ih =>
    have hrest := ih (h.next (by omega) hidle) (by omega)
    rw [Nat.add_assoc, Nat.add_comm 1] at hrest
    exact hrest

/-- The vectors of the program. -/
theorem lateByte_vectors (hidle : idle ≤ 14829) :
    lateByte idle 0x3FFA = 0x00 ∧ lateByte idle 0x3FFB = 0xB0 ∧
      lateByte idle 0x3FFC = 0x00 ∧ lateByte idle 0x3FFD = 0x80 := by
  have hrequest (index : Nat) (h : 0x3FFA ≤ index) : lateByte idle index =
      if index = 0x3FFA ∨ index = 0x3FFC then 0x00
      else if index = 0x3FFB then 0xB0
      else if index = 0x3FFD then 0x80
      else 0xEA := by
    unfold lateByte
    iterate 5 rw [if_neg (by omega)]
  rw [hrequest _ (by omega), hrequest _ (by omega), hrequest _ (by omega), hrequest _ (by omega)]
  decide

/-- After the reset the program is at its start. -/
theorem unasked_withBoard (hidle : idle ≤ 14829) :
    Unasked idle 0 21 (withBoard (lateBoard idle)) := by
  obtain ⟨-, -, hlow, hhigh⟩ := lateByte_vectors hidle
  let switched : Console := { bus := { board := lateBoard idle } }
  let first : ConsoleBus := { switched.bus.reset with openBus := 0x80 }
  have hlowByte : switched.bus.board.read Cpu.resetVector = some 0x00 :=
    (lateBoard_read idle (by decide)).trans (congrArg some hlow)
  have hhighByte : switched.bus.board.read (Cpu.resetVector + 1) = some 0x80 :=
    (lateBoard_read idle (by decide)).trans (congrArg some hhigh)
  obtain ⟨hcpu, hbus⟩ := reset_of_vector hlowByte hhighByte
  obtain ⟨-, hboard, hpage, hmemory, henabled⟩ :=
    first.afterAll_dots_keeps (Cpu.resetCycles * dotsPerCycle)
  have honTime : first.ppu.OnTime 0 :=
    ⟨⟨(by decide : 0 < 262), (by decide : 0 < 341)⟩, rfl, rfl,
      iff_of_false Bool.false_ne_true (by decide)⟩
  have hnear : 0 + Cpu.resetCycles * dotsPerCycle + 1 < Ppu.frameDots := by decide
  rw [withBoard_eq]
  constructor
  · rw [hbus, hboard]
    rfl
  · rw [hbus, hpage]
    rfl
  · rw [hbus, hmemory.control]
    exact (by decide : ({} : Control).nmiEnabled = false)
  · rw [hbus, henabled]
    rfl
  · rw [hbus]
    exact ConsoleBus.afterAll_dots_onTime honTime hnear
  · rw [hcpu]
  · rw [hcpu]
  · rw [hcpu]
    rfl

/-- The program begins with loading the accumulator. -/
theorem waiting_first (hidle : idle ≤ 14829) :
    Waiting idle 0 (withBoard (lateBoard idle)).step.2 := by
  have h := unasked_withBoard hidle
  generalize withBoard (lateBoard idle) = console at h
  have hfirst : lateByte idle 0 = 0xA9 := if_pos rfl
  have hsecond : lateByte idle 1 = 0x80 := (if_neg (by decide)).trans (if_pos rfl)
  have hcode := read_program h.board (by decide : 0 < 0x4000)
  rw [hfirst, ← h.pc] at hcode
  let coded : ConsoleBus := { console.bus with openBus := 0xA9 }
  have hboard : coded.board = lateBoard idle := h.board
  have hvalue := read_program hboard (by decide : 1 < 0x4000)
  rw [hsecond, ← programAddress_succ 0, ← h.pc] at hvalue
  have hrun : console.cpu.looked.runInstruction console.bus = _ :=
    Cpu.runInstruction_lda hcode hvalue
  have hpc : console.cpu.pc + 1 + 1 = UInt16.ofNat (0x8000 + 2) := by
    rw [h.pc, programAddress_succ, programAddress_succ]
  obtain ⟨hnext, hcpu⟩ := h.after hrun h.jammed rfl hpc
    (by decide : 21 + 2 * dotsPerCycle + 1 < Ppu.frameDots)
  refine ⟨hnext, ?_⟩
  rw [hcpu]
  rfl

/-- The program waits for the moment of its request. -/
theorem waiting_last (hidle : idle ≤ 14829) :
    Waiting idle idle ((withBoard (lateBoard idle)).afterSteps (1 + idle)) := by
  have h := (waiting_first hidle).afterSteps idle (by omega) hidle
  rw [Nat.zero_add] at h
  rw [Nat.add_comm, Console.afterSteps]
  exact h

/-- The bus before the processor writes the control register. -/
def requestBus (console : Console) : ConsoleBus := { console.bus with openBus := 0x20 }

/-- The events of the instruction before its write. -/
def requestReads (console : Console) : List ConsoleEvent :=
  [.access (.read console.cpu.pc), .access (.read (console.cpu.pc + 1)),
    .access (.read (console.cpu.pc + 1 + 1))]

/-- The events of the instruction after its write. -/
def requestRest : List ConsoleEvent := List.replicate (4 * dotsPerCycle) .dot ++ [.takeUp]

/-- The request as an instruction. -/
theorem Waiting.step (h : Waiting idle idle console) (hidle : idle ≤ 14829) :
    console.cpu.step console.bus =
        (4, { console.cpu.looked with
              pc := console.cpu.pc + 1 + 2
              cycles := console.cpu.cycles + 4
              lastCode := some 0x8D }, console.requestBus.write 0x2000 0x80) ∧
      console.cpu.accesses console.bus =
        [.read console.cpu.pc, .read (console.cpu.pc + 1), .read (console.cpu.pc + 1 + 1),
          .write 0x2000 0x80] := by
  obtain ⟨hcodeByte, hlowByte, hhighByte⟩ := lateByte_request idle
  have hcode := read_program h.board (by omega : 2 + idle < 0x4000)
  rw [hcodeByte, ← h.pc] at hcode
  have hlow := lateBoard_code idle (by omega : 3 + idle < 0x4000)
  have hhigh := lateBoard_code idle (by omega : 4 + idle < 0x4000)
  have hpcLow : UInt16.ofNat (0x8000 + (3 + idle)) = console.cpu.pc + 1 := by
    rw [h.pc, programAddress_succ, Nat.add_right_comm]
  have hpcHigh : UInt16.ofNat (0x8000 + (4 + idle)) = console.cpu.pc + 1 + 1 := by
    rw [h.pc, programAddress_succ, programAddress_succ,
      (by omega : 2 + idle + 1 + 1 = 4 + idle)]
  rw [hlowByte, hpcLow] at hlow
  rw [hhighByte, hpcHigh] at hhigh
  have hupperLow := (programAddress (by omega : 3 + idle < 0x4000)).2
  have hupperHigh := (programAddress (by omega : 4 + idle < 0x4000)).2
  rw [hpcLow] at hupperLow
  rw [hpcHigh] at hupperHigh
  let coded : ConsoleBus := { console.bus with openBus := 0x8D }
  have hboard : coded.board = lateBoard idle := h.board
  have htarget : CpuBus.readWord coded (console.cpu.pc + 1) (console.cpu.pc + 1 + 1) =
      (0x2000, console.requestBus) := by
    rw [← hboard] at hlow hhigh
    exact coded.readWord_upper hupperLow hupperHigh hlow hhigh
  have hrun : console.cpu.looked.runInstruction console.bus = _ :=
    Cpu.runInstruction_sta hcode htarget
  have haccesses := Cpu.accesses_sta h.undisturbed hcode htarget
  have haccumulator : console.cpu.looked.registers.a = 0x80 := h.accumulator
  rw [haccumulator] at hrun
  rw [h.accumulator] at haccesses
  exact ⟨h.undisturbed.step.trans hrun, haccesses⟩

/-- The request raises the line while vertical blank lasts. -/
theorem Waiting.rises (h : Waiting idle idle console) (hvblank : 13693 ≤ idle)
    (hidle : idle ≤ 14829) :
    Rises console console.requestReads (.access (.write 0x2000 0x80)) requestRest := by
  obtain ⟨hstep, haccesses⟩ := h.step hidle
  have hreplayed := ConsoleBus.afterAll_accesses console.bus console.cpu
  rw [haccesses, hstep] at hreplayed
  have honTime : console.requestBus.ppu.OnTime (27 + 6 * idle) := h.onTime
  have hnone : console.caughtUp.dmaPage = none := by
    rw [caughtUp_dmaPage, hstep, ConsoleBus.write_control]
    exact h.dmaPage
  refine ⟨?_, ?_, ?_⟩
  · rw [events, haccesses, hstep, requestEvents_of_no_request hnone, List.append_assoc]
    rfl
  · have hdisabled := ConsoleBus.afterAll_enabled console.bus
      (by simp [requestReads, ConsoleEvent.writesControl] :
        ∀ event ∈ console.requestReads, event.writesControl = false)
    rw [h.enabled] at hdisabled
    have hsettled := ConsoleBus.afterAll_settled h.onTime.settled console.requestReads
    rw [Ppu.nmiLine, hsettled, hdisabled, Bool.false_and]
  · have hvblank : (console.requestBus.write 0x2000 0x80).ppu.nmi.vblank = true := by
      rw [(ConsoleBus.write_onTime honTime _ _).vblank_iff, Ppu.vblankFirst_eq,
        Ppu.vblankLast_eq]
      omega
    have henabled : (console.requestBus.write 0x2000 0x80).ppu.nmi.enabled = true :=
      ConsoleBus.write_control_enables h.control
    have hwritten : (console.bus.afterAll console.requestReads).after
        (.access (.write 0x2000 0x80)) = console.requestBus.write 0x2000 0x80 := hreplayed
    have hsettled := (ConsoleBus.write_onTime honTime 0x2000 0x80).settled
    rw [hwritten, Ppu.nmiLine, hsettled, henabled, hvblank, Bool.true_and]

/-- The console after the request. -/
theorem Waiting.asked (h : Waiting idle idle console) (hidle : idle ≤ 14829) :
    console.step.2.cpu.jammed = false ∧ console.step.2.cpu.nmiPending = false ∧
      console.step.2.cpu.pc = UInt16.ofNat (0x8000 + (5 + idle)) ∧
      console.step.2.bus.board = lateBoard idle ∧ console.step.2.bus.dmaPage = none ∧
      console.step.2.bus.ppu.OnTime (39 + 6 * idle) := by
  obtain ⟨hstep, -⟩ := h.step hidle
  have hpage : (console.requestBus.write 0x2000 0x80).dmaPage = none :=
    (congrArg ConsoleBus.dmaPage (ConsoleBus.write_control _ _)).trans h.dmaPage
  obtain ⟨-, hcpu, hbus⟩ := step_of_quiet hstep hpage
  obtain ⟨-, hboard, hpage', -⟩ :=
    (console.requestBus.write 0x2000 0x80).afterAll_dots_keeps (4 * dotsPerCycle)
  refine ⟨?_, ?_, ?_, ?_, ?_, ?_⟩
  · rw [hcpu]
    exact h.jammed
  · rw [hcpu]
    rfl
  · rw [hcpu]
    change console.cpu.pc + 1 + (1 + 1) = _
    rw [h.pc, ← UInt16.add_assoc, programAddress_succ, programAddress_succ,
      programAddress_succ, (by omega : 2 + idle + 1 + 1 + 1 = 5 + idle)]
  · rw [hbus, hboard, ConsoleBus.write_control]
    exact h.board
  · rw [hbus, hpage', hpage]
  · have honTime : console.requestBus.ppu.OnTime (27 + 6 * idle) := h.onTime
    have hnear : 27 + 6 * idle + 4 * dotsPerCycle + 1 < Ppu.frameDots := by
      rw [Ppu.frameDots_eq, dotsPerCycle]
      omega
    have hafter := ConsoleBus.afterAll_dots_onTime
      (ConsoleBus.write_onTime honTime 0x2000 0x80) hnear
    rw [hbus, (by omega : 39 + 6 * idle = 27 + 6 * idle + 4 * 3)]
    exact hafter

/-- When vertical blank ends on the dots of the request, the program idles on. -/
theorem Waiting.missed (h : Waiting idle idle console) (hlate : 14828 ≤ idle)
    (hidle : idle ≤ 14829) : console.step.2.step.1.cycles = 2 := by
  obtain ⟨hjammed, hpending, hpc, hboard, hpage, honTime⟩ := h.asked hidle
  have hvblank : console.step.2.bus.ppu.nmi.vblank = false := by
    rw [Bool.eq_false_iff, ne_eq, honTime.vblank_iff, Ppu.vblankFirst_eq, Ppu.vblankLast_eq]
    omega
  have hundisturbed : console.step.2.cpu.Undisturbed console.step.2.bus :=
    ⟨hjammed, hpending,
      honTime.settled.trans ((congrArg (_ && ·) hvblank).trans (Bool.and_false _)), rfl⟩
  have hcode := read_program hboard (by omega : 5 + idle < 0x4000)
  rw [lateByte_idle (by omega) (by omega) (by omega), ← hpc] at hcode
  have hrun : console.step.2.cpu.looked.runInstruction console.step.2.bus = _ :=
    Cpu.runInstruction_nop hcode
  exact (step_of_quiet (hundisturbed.step.trans hrun) hpage).1

end

end Console

end Famicom
