import Famicom.Proofs.Console.HostView
import Famicom.Proofs.Console.PageCopy
import Famicom.Proofs.Cpu.InstructionTraffic
import Famicom.Proofs.Ppu.DataPort

/-!
# Another cartridge

Exchanging the cartridge clears working memory and resets the rest. A reset keeps nametable memory,
palette and object memory, so the next game finds a console that has just been switched on but for
these three, which hold what the last game left there. If it left anything but the bytes of
power-on where a program can read them, the next game can tell at once.
-/

namespace Famicom

/-- A unit that has just been switched on, with the contents of another one's memories. -/
def Ppu.memories (ppu : Ppu) : Ppu :=
  { vram := ppu.vram, palette := ppu.palette, oam := ppu.oam }

/-- The byte that a program reads from a place of object memory. -/
def Ppu.oamAt (ppu : Ppu) (index : UInt8) : UInt8 := { ppu with oamAddress := index : Ppu }.oamByte

/-- Beside a cartridge, programs read the same from the memories of both units. -/
structure Ppu.ReadAlike (board : Board) (left right : Ppu) : Prop where
  oam : ∀ index, right.oamAt index = left.oamAt index
  picture : ∀ address < 0x4000,
    PpuSide.held { ppu := right, board } (.of board.wiring address) =
      PpuSide.held { ppu := left, board } (.of board.wiring address)

namespace PpuSide

/-- The pair of writes that sets an address. -/
def aimAt (address : UInt16) : PortUse := .aim (address / 0x100).toUInt8 address.toUInt8 0

/-- The pair of writes leads to its address. -/
theorem portLog_aimAt (side : PpuSide) {address : UInt16} (h : address < 0x4000) :
    side.portLog [aimAt address] = { address } := by
  have hrange : address.toNat < 0x4000 := UInt16.lt_iff_toNat_lt.mp h
  refine congrArg (fun address => ({ address } : PortLog)) (UInt16.toNat_inj.mp ?_)
  simp only [UInt16.toNat_add, UInt16.toNat_mul, UInt16.toNat_mod, UInt8.toNat_toUInt16,
    UInt16.toNat_toUInt8, UInt16.toNat_div, UInt16.reduceToNat]
  omega

/-- While nothing is drawn, the byte at an address is read in two accesses, or in one from palette
memory. -/
theorem portByte_aimAt {side : PpuSide} (hhidden : side.ppu.mask.rendering = false)
    (hclear : side.ppu.scroll.w = false) {address : UInt16} (h : address < 0x4000) :
    (if address < 0x3F00 then (side.afterPort [aimAt address, .read, aimAt 0]).portByte
      else (side.afterPort [aimAt address]).portByte % 0x40) = side.held (side.cell address) := by
  have haimed : Tracks side { address } (side.afterPort [aimAt address]) :=
    side.portLog_aimAt h ▸ (Tracks.begin hhidden hclear).afterPort [aimAt address]
  split
  · next hbelow =>
    have hsecond := (Tracks.begin hhidden hclear).afterPort [aimAt address, .read, aimAt 0]
    have hnext : ((side.afterPort [aimAt address]).afterPort [.read, aimAt 0]).ppu.scroll.address <
        0x3F00 := by
      rw [← afterPort_append, List.singleton_append, hsecond.address]
      exact (by decide : (0 : UInt16) < 0x3F00)
    have hdelayed := haimed.portByte_delayed (by decide : PortUse.read ∉ [aimAt 0]) hnext
    rw [← afterPort_append, Ppu.fetchAddress, haimed.address,
      if_neg (UInt16.not_le.mpr hbelow)] at hdelayed
    exact hdelayed
  · next hpalette => exact haimed.portByte_palette (UInt16.not_lt.mp hpalette)

end PpuSide

namespace Cpu

variable {Bus : Type} [CpuBus Bus]

theorem decode_inc :
    decode 0xEE = Opcode.Catalogue.official 0xEE (.modify .inc) .absolute 6 := by
  rw [decode_eq_find]
  rfl

/-- Adding one to the byte at the address after the opcode. -/
theorem runInstruction_inc {cpu : Cpu} {bus coded fetched read : Bus} {target : UInt16}
    {value : UInt8} (hcode : CpuBus.read bus cpu.pc = (0xEE, coded))
    (htarget : CpuBus.readWord coded (cpu.pc + 1) (cpu.pc + 1 + 1) = (target, fetched))
    (hvalue : CpuBus.read fetched target = (value, read)) :
    cpu.runInstruction bus =
      (6, { cpu with
            registers := cpu.registers.withResult (value + 1)
            pc := cpu.pc + 1 + 2
            cycles := cpu.cycles + 6
            lastCode := some 0xEE }, CpuBus.write read target (value + 1)) := by
  have hoperand : AddressingMode.absolute.resolve cpu.registers (cpu.pc + 1) coded =
      (Operand.direct target, fetched) := by
    rw [AddressingMode.resolve, htarget]
  have hexecute (cpu' : Cpu) :
      (Operation.modify .inc).execute (.direct target) cpu' fetched =
        ({ cpu' with registers := cpu'.registers.withResult (value + 1) },
          CpuBus.write read target (value + 1)) := by
    simp only [Operation.execute, Operand.direct, hvalue]
    rfl
  rw [runInstruction_eq hcode decode_inc hoperand]
  exact congrArg (Prod.mk 6) (hexecute _)

end Cpu

namespace ConsoleBus

/-- The picture unit of a bus with the cartridge beside it. -/
def side (bus : ConsoleBus) : PpuSide := { ppu := bus.ppu, board := bus.board }

/-- What programs read of the memories after dots on a bus that has been reset: nothing is drawn, no
write of a pair is awaited, and the memories hold what they held before. -/
theorem side_after_reset {start bus : ConsoleBus} {openBus : UInt8}
    (h : SameBesidesDots { start.reset with openBus } bus) :
    bus.side.ppu.mask.rendering = false ∧ bus.side.ppu.scroll.w = false ∧
      (∀ index, bus.side.ppu.oamAt index = start.ppu.oamAt index) ∧
      ∀ address, bus.side.held (bus.side.cell address) =
        start.side.held (start.side.cell address) := by
  obtain ⟨-, hboard, -, hmemory, -⟩ := h
  have hmask : bus.ppu.mask = {} := hmemory.mask
  have hvram : bus.ppu.vram = start.ppu.vram := hmemory.vram
  have hpalette : bus.ppu.palette = start.ppu.palette := hmemory.palette
  have hoam : bus.ppu.oam = start.ppu.oam := hmemory.oam
  have hside : bus.board = start.board := hboard
  refine ⟨?_, hmemory.w, fun index => ?_, fun address => ?_⟩
  · exact congrArg Mask.rendering hmask
  · simp only [Ppu.oamAt, Ppu.oamByte, side, hoam]
  · simp only [PpuSide.cell, side, hside]
    cases PictureCell.of start.board.wiring address <;>
      simp only [PpuSide.held, hvram, hpalette]

/-- An access to a register happens to the unit and its cartridge alone. -/
theorem side_respond (bus : ConsoleBus) {access : Access} (h : Region.of access.address = .ppu) :
    (CpuBus.respond bus access).side = bus.side.after (.access access) := by
  cases access with
  | read address =>
    have hregion : Region.of address = .ppu := h
    change (bus.read address).2.side = _
    simp only [read, hregion]
    rfl
  | write address value =>
    have hregion : Region.of address = .ppu := h
    change (bus.write address value).side = _
    simp only [write, hregion]
    rfl

/-- Accesses to registers happen to the unit and its cartridge alone. -/
theorem side_foldl_respond (bus : ConsoleBus) {accesses : List Access}
    (h : ∀ access ∈ accesses, Region.of access.address = .ppu) :
    (accesses.foldl CpuBus.respond bus).side = bus.side.afterAll (accesses.map .access) := by
  induction accesses generalizing bus with
  | nil => rfl
  | cons access rest ih =>
    obtain ⟨hfirst, hrest⟩ := List.forall_mem_cons.mp h
    rw [List.foldl_cons, ih _ hrest, bus.side_respond hfirst]
    rfl

/-- A read of a register gives the byte of the unit. -/
theorem read_side (bus : ConsoleBus) {address : UInt16} (h : Region.of address = .ppu) :
    (bus.read address).1 = (bus.side.ppu.readRegister address bus.side.board).1 := by
  simp only [read, h]
  rfl

end ConsoleBus

namespace Console

open ConsoleBus

/-- A console switched on with a cartridge, the memories of its picture unit having the contents of
another one's. -/
def withMemories (board : Board) (ppu : Ppu) : Console :=
  { bus := { board, ppu := ppu.memories } : Console }.reset

/-- An access by a host. -/
def hostAccess : Access → HostAction
  | .read address => .read address
  | .write address value => .write address value

/-- Accesses by a host reach the bus. -/
theorem foldl_hostAccess (console : Console) (accesses : List Access) :
    ((accesses.map hostAccess).foldl act console).bus =
      accesses.foldl CpuBus.respond console.bus := by
  induction accesses generalizing console with
  | nil => rfl
  | cons access rest ih =>
    refine (ih (console.act (hostAccess access))).trans ?_
    cases access <;> rfl

variable {console other : Console} {frames frames' : Nat}

/-- Where a host sees the same, its last read gives the same byte. -/
theorem read_of_views {address : UInt16} {actions : List HostAction}
    (h : console.views frames (actions ++ [.read address]) =
      other.views frames' (actions ++ [.read address])) :
    ((actions.foldl act console).bus.read address).1 =
      ((actions.foldl act other).bus.read address).1 := by
  induction actions generalizing console other with
  | nil => exact HostReport.byte.inj (congrArg HostView.report (List.head_eq_of_cons_eq h))
  | cons action rest ih => exact ih (List.tail_eq_of_cons_eq h)

/-- Where a host sees the same in all that it can do, registers read the same after any accesses to
them. -/
theorem readRegister_of_views
    (h : ∀ actions, console.views frames actions = other.views frames' actions)
    {accesses : List Access} (haccesses : ∀ access ∈ accesses, Region.of access.address = .ppu)
    {address : UInt16} (haddress : Region.of address = .ppu) :
    let side := console.bus.side.afterAll (accesses.map .access)
    let side' := other.bus.side.afterAll (accesses.map .access)
    (side.ppu.readRegister address side.board).1 =
      (side'.ppu.readRegister address side'.board).1 := by
  intro side side'
  have hread := read_of_views (h (accesses.map hostAccess ++ [.read address]))
  rw [foldl_hostAccess, foldl_hostAccess, read_side _ haddress, read_side _ haddress,
    side_foldl_respond _ haccesses, side_foldl_respond _ haccesses] at hread
  exact hread

/-- A reset ends with dots on a bus whose registers are at power-on. -/
theorem reset_keeps (console : Console) :
    ∃ openBus, SameBesidesDots { console.bus.reset with openBus } console.reset.bus := by
  obtain ⟨low, hlow⟩ := console.bus.board.read_upper (by decide : 0x8000 ≤ Cpu.resetVector)
  obtain ⟨high, hhigh⟩ := console.bus.board.read_upper (by decide : 0x8000 ≤ Cpu.resetVector + 1)
  refine ⟨high, ?_⟩
  rw [(reset_of_vector hlow hhigh).2]
  exact afterAll_dots_keeps _ _

/-- Where a host sees the same of two consoles after a reset, programs read the same from their
memories. -/
theorem readAlike_of_views {left right : Console} (hboard : right.bus.board = left.bus.board)
    (h : ∀ actions, left.reset.views frames actions = right.reset.views frames' actions) :
    Ppu.ReadAlike left.bus.board left.bus.ppu right.bus.ppu := by
  have hindex : Region.of 0x2003 = .ppu := by decide
  have hobject : Region.of 0x2004 = .ppu := by decide
  have haddress : Region.of 0x2006 = .ppu := by decide
  have hdata : Region.of 0x2007 = .ppu := by decide
  obtain ⟨openBus, hleft⟩ := left.reset_keeps
  obtain ⟨openBus', hright⟩ := right.reset_keeps
  have hread (accesses : List Access) (address : UInt16)
      (haccesses : ∀ access ∈ accesses, Region.of access.address = .ppu)
      (haddress : Region.of address = .ppu) := readRegister_of_views h haccesses haddress
  generalize left.reset.bus = bus at hleft hread
  generalize right.reset.bus = bus' at hright hread
  obtain ⟨hhidden, hclear, hoam, hheld⟩ := side_after_reset hleft
  obtain ⟨hhidden', hclear', hoam', hheld'⟩ := side_after_reset hright
  refine ⟨fun index => ?_, fun address hpicture => ?_⟩
  · have hbyte := hread [.write 0x2003 index] 0x2004
      (by simp [Access.address, hindex]) hobject
    rw [← hoam, ← hoam']
    exact hbyte.symm
  · let high := (address / 0x100).toUInt8
    let low := address.toUInt8
    have hdelayed := hread
      [.write 0x2006 high, .write 0x2006 low, .read 0x2007, .write 0x2006 0, .write 0x2006 0] 0x2007
      (by simp [Access.address, haddress, hdata]) hdata
    have hdirect := hread [.write 0x2006 high, .write 0x2006 low] 0x2007
      (by simp [Access.address, haddress]) hdata
    have hbytes := PpuSide.portByte_aimAt hhidden hclear hpicture
    have hbytes' := PpuSide.portByte_aimAt hhidden' hclear' hpicture
    have hside : right.bus.side = { ppu := right.bus.ppu, board := left.bus.board } := by
      rw [side, hboard]
    rw [hheld] at hbytes
    rw [hheld', hside] at hbytes'
    refine hbytes'.symm.trans (.trans ?_ hbytes)
    split
    · exact hdelayed.symm
    · exact congrArg (· % 0x40) hdirect.symm

/-- If the memories are filled as at power-on, the console is a fresh one. -/
theorem withMemories_of_powerOn {board : Board} {ppu : Ppu} (h : ppu.memories = {}) :
    withMemories board ppu = withBoard board := by
  rw [withMemories, h]
  rfl

/-- If a host sees what it sees of a fresh console, programs read what they read there. -/
theorem readAlike_of_fresh {board : Board} {ppu : Ppu}
    (h : ∀ actions, (withBoard board).views 0 actions =
      (withMemories board ppu).views 0 actions) : Ppu.ReadAlike board {} ppu := by
  rw [withBoard_eq, withMemories] at h
  let fresh : Console := { bus := { board } }
  let filled : Console := { bus := { board, ppu := ppu.memories } }
  have hread := @readAlike_of_views 0 0 fresh filled rfl h
  exact ⟨hread.oam, hread.picture⟩

/-- A console with another cartridge goes the way of one that has been switched on with it and with
the memories of the picture unit. -/
theorem insert_alike (console : Console) (board : Board) :
    (console.insert board).Alike console.bus.ppu.frameCount 0
      (withMemories board console.bus.ppu) := by
  have halike {start filled : Console} (hstart : start.bus = console.bus.insert board)
      (hfilled : filled.bus = { board, ppu := console.bus.ppu.memories }) :
      start.reset.Alike console.bus.ppu.frameCount 0 filled.reset := by
    have hcount : start.bus.ppu.frameCount = console.bus.ppu.frameCount := by rw [hstart]; rfl
    have hcount' : filled.bus.ppu.frameCount = 0 := by rw [hfilled]; rfl
    rw [← hcount, ← hcount']
    refine alike_reset ?_ ?_ ?_ ?_ ?_ <;> (rw [hstart, hfilled]; rfl)
  rw [Console.insert, withMemories]
  exact halike rfl rfl

/-- **Another cartridge in a running console**, whatever has happened to the console before. From
then on a host sees what it sees of a console that has just been switched on with that cartridge,
the nametable memory, the palette and the object memory being filled with what the last game left
there. If that is what they hold at power-on, the host sees what it sees of a fresh console; and if
it does, programs read from the three memories what they read in a fresh console. -/
theorem inserted_like_switched_on (console : Console) (board : Board) :
    let frames := console.bus.ppu.frameCount
    let inserted := console.insert board
    (∀ actions, inserted.views frames actions =
      (withMemories board console.bus.ppu).views 0 actions) ∧
    (console.bus.ppu.memories = {} →
      ∀ actions, inserted.views frames actions = (withBoard board).views 0 actions) ∧
    ((∀ actions, inserted.views frames actions = (withBoard board).views 0 actions) →
      Ppu.ReadAlike board {} console.bus.ppu) := by
  intro frames inserted
  have hviews (actions : List HostAction) : inserted.views frames actions =
      (withMemories board console.bus.ppu).views 0 actions :=
    ((console.insert_alike board).views actions).symm
  refine ⟨hviews, fun hfresh actions => ?_, fun hsame => readAlike_of_fresh fun actions => ?_⟩
  · rw [hviews, withMemories_of_powerOn hfresh]
  · exact (hsame actions).symm.trans (hviews actions)

/-- A game that begins by adding one to a byte of object memory, and idles. -/
def countingByte (index : Nat) : UInt8 :=
  if index = 0 then 0xEE
  else if index = 1 then 0x04
  else if index = 2 then 0x20
  else if index = 0x3FFC then 0x00
  else if index = 0x3FFD then 0x80
  else 0xEA

/-- A cartridge with the game. -/
def countingBoard : Board :=
  .ofBytes .nrom (Array.ofFn fun index : Fin 0x4000 => countingByte index.val) #[] .horizontal

/-- The bytes of the game. -/
theorem countingBoard_read {address : UInt16} (h : 0x8000 ≤ address) :
    countingBoard.read address = some (countingByte ((address.toNat - 0x8000) % 0x4000)) :=
  Board.read_program countingByte h

/-- The game is about to begin: object memory holds the bytes of power-on. -/
structure BeginsCounting (console : Console) : Prop where
  cpu : console.cpu = { pc := 0x8000, cycles := Cpu.resetCycles }
  board : console.bus.board = countingBoard
  dmaPage : console.bus.dmaPage = none
  nmiLine : console.bus.ppu.nmiLine = false
  oamAddress : console.bus.ppu.oamAddress = 0
  oam : console.bus.ppu.oam = Memory.filled 8 0

/-- The game begins when it is switched on. -/
theorem beginsCounting : BeginsCounting (withBoard countingBoard) := by
  obtain ⟨hcpu, hbus⟩ := @reset_of_vector { bus := { board := countingBoard } } _ _
    (countingBoard_read (by decide)) (countingBoard_read (by decide))
  have htimed := reset_timed { bus := { board := countingBoard } }
  rw [← withBoard_eq] at hcpu hbus htimed
  generalize withBoard countingBoard = console at hcpu hbus htimed
  obtain ⟨-, hboard, hpage, hmemory, henabled⟩ : SameBesidesDots _ console.bus :=
    hbus ▸ afterAll_dots_keeps _ _
  refine ⟨?_, hboard, hpage, ?_, hmemory.oamAddress, hmemory.oam⟩
  · rw [hcpu]
    rfl
  · exact htimed.settled.trans ((congrArg (· && _) henabled).trans (Bool.false_and _))

/-- Its first instruction adds one to the first byte of object memory. -/
theorem BeginsCounting.step {console : Console} (h : BeginsCounting console) :
    console.step.2.bus.ppu.oam.get 0 = 1 := by
  let coded : ConsoleBus := { console.bus with openBus := 0xEE }
  let fetched : ConsoleBus := { console.bus with openBus := 0x20 }
  have hundisturbed : console.cpu.Undisturbed console.bus := by
    rw [h.cpu]
    exact ⟨rfl, rfl, h.nmiLine, rfl⟩
  obtain ⟨hfirst, hsecond, hthird⟩ :
      countingByte 0 = 0xEE ∧ countingByte 1 = 0x04 ∧ countingByte 2 = 0x20 := by decide
  have hread {address : UInt16} (haddress : 0x8000 ≤ address) :
      console.bus.board.read address =
        some (countingByte ((address.toNat - 0x8000) % 0x4000)) := by
    rw [h.board]
    exact countingBoard_read haddress
  have hopcode : console.bus.board.read 0x8000 = some 0xEE :=
    (hread (by decide)).trans (congrArg some hfirst)
  have hlow : coded.board.read (0x8000 + 1) = some 0x04 :=
    (hread (by decide)).trans (congrArg some hsecond)
  have hhigh : coded.board.read (0x8000 + 1 + 1) = some 0x20 :=
    (hread (by decide)).trans (congrArg some hthird)
  have hcode : CpuBus.read console.bus 0x8000 = (0xEE, coded) :=
    console.bus.read_upper (by decide) hopcode
  have htarget : CpuBus.readWord coded (0x8000 + 1) (0x8000 + 1 + 1) = (0x2004, fetched) :=
    coded.readWord_upper (by decide) (by decide) hlow hhigh
  have hzero : fetched.ppu.oamByte = 0 := by
    rw [Ppu.oamByte, h.oamAddress, h.oam, Memory.get_filled]
    rfl
  have hvalue : CpuBus.read fetched 0x2004 = (0, fetched.seen 0) := hzero ▸ fetched.read_oamData_eq
  have hpc : console.cpu.looked.pc = 0x8000 := congrArg Cpu.pc h.cpu
  rw [← hpc] at hcode htarget
  have hstep := hundisturbed.step.trans (Cpu.runInstruction_inc hcode htarget hvalue)
  have hpage : (CpuBus.write (fetched.seen 0) 0x2004 (0 + 1)).dmaPage = none :=
    (congrArg ConsoleBus.dmaPage (write_oamData _ _)).trans h.dmaPage
  obtain ⟨-, -, hbus⟩ := step_of_quiet hstep hpage
  rw [hbus, (afterAll_dots_keeps _ _).memory.oam]
  change ((fetched.seen 0).write 0x2004 (0 + 1)).ppu.oam.get 0 = 1
  rw [write_oamData]
  change (Memory.set console.bus.ppu.oam console.bus.ppu.oamAddress.toNat (0 + 1)).get 0 = 1
  rw [h.oamAddress]
  exact Memory.get_set_self _ _ _

/-- The first byte of object memory stays where it is, and the next game reads it first. -/
theorem insert_read_oamData (console : Console) (board : Board) :
    ((console.insert board).bus.read 0x2004).1 = console.bus.ppu.oam.get 0 := by
  obtain ⟨openBus, hkept⟩ : ∃ openBus, SameBesidesDots
      { (console.bus.insert board).reset with openBus } (console.insert board).bus := by
    rw [Console.insert]
    exact reset_keeps { console with bus := console.bus.insert board }
  have haddress : (console.insert board).bus.ppu.oamAddress = 0 := hkept.memory.oamAddress
  have hoam : (console.insert board).bus.ppu.oam = console.bus.ppu.oam := hkept.memory.oam
  rw [read_oamData, Ppu.oamByte, haddress, hoam]
  rfl

/-- The game leaves a byte in object memory that the next game finds: exchanged for itself after its
first instruction, it reads a byte there that it does not read after it has been switched on. -/
theorem leftover_found_by_next_game :
    let played := (withBoard countingBoard).step.2
    let inserted := played.insert countingBoard
    inserted.report (.read 0x2004) = .byte 1 ∧
      (withBoard countingBoard).report (.read 0x2004) = .byte 0 ∧
      ¬∀ actions, inserted.views played.bus.ppu.frameCount actions =
        (withBoard countingBoard).views 0 actions := by
  have hplayed := beginsCounting.step
  generalize (withBoard countingBoard).step.2 = played at hplayed ⊢
  have hleft : ((played.insert countingBoard).bus.read 0x2004).1 = 1 :=
    (played.insert_read_oamData countingBoard).trans hplayed
  have hfresh : ((withBoard countingBoard).bus.read 0x2004).1 = 0 := by
    rw [read_oamData, Ppu.oamByte, beginsCounting.oamAddress, beginsCounting.oam,
      Memory.get_filled]
    rfl
  refine ⟨congrArg HostReport.byte hleft, congrArg HostReport.byte hfresh, fun hsame => ?_⟩
  have hread := @read_of_views _ _ _ _ 0x2004 [] (hsame _)
  rw [List.foldl_nil, List.foldl_nil, hleft, hfresh] at hread
  exact absurd hread (by decide)

end Console

end Famicom
