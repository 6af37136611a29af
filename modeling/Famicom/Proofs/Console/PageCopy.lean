import Famicom.Proofs.Console.LateProgram
import Famicom.Proofs.Console.NmiEdge

/-!
# A page is copied to object memory

A store of a page number at the transfer register halts the processor until 256 bytes have been
copied. What the transfer has done so far can be read off its counter: after an even number of
reads and writes half as many bytes are copied, after an odd number the next one is held by the
engine, and the address of object memory has moved on by the bytes copied. The dots in between
disturb none of that. So at the end every cell holds its byte, and the address, which wraps around
at the end of object memory, is back where it was.
-/

namespace Famicom

namespace ConsoleBus

/-- The address of a byte of a page. -/
def pageAddress (page offset : UInt8) : UInt16 := page.toUInt16 * 0x100 + offset.toUInt16

/-- The byte that working memory or the cartridge holds at a place of a page, and nothing where
neither of them answers. Working memory repeats every 2 KB. -/
def pageByte (bus : ConsoleBus) (page offset : UInt8) : Option UInt8 :=
  match Region.of (pageAddress page offset) with
  | .ram => some (bus.ram.get ((pageAddress page offset).toNat % 2048))
  | .cartridge => bus.board.read (pageAddress page offset)
  | .ppu | .latches => none

/-- The cartridge drives every byte of a page. -/
def DrivesPage (bus : ConsoleBus) (page : UInt8) : Prop :=
  ∀ offset, Region.of (pageAddress page offset) = .cartridge ∧
    (bus.board.read (pageAddress page offset)).isSome = true

/-- The address of a byte of a page, as a number. -/
theorem toNat_pageAddress (page offset : UInt8) :
    (pageAddress page offset).toNat = page.toNat * 0x100 + offset.toNat := by
  have hpage := page.toNat_lt
  have hoffset := offset.toNat_lt
  simp only [pageAddress, UInt16.toNat_add, UInt16.toNat_mul, UInt8.toNat_toUInt16,
    UInt16.reduceToNat]
  omega

/-- The first 32 pages lie in working memory. -/
theorem Region.of_ramPage {page : UInt8} (h : page < 0x20) (offset : UInt8) :
    Region.of (pageAddress page offset) = .ram := by
  have hpage : page.toNat < 0x20 := UInt8.lt_iff_toNat_lt.mp h
  have hoffset := offset.toNat_lt
  refine if_pos (UInt16.lt_iff_toNat_lt.mpr ?_)
  rw [toNat_pageAddress]
  change _ < 0x2000
  omega

/-- Every cartridge drives the upper 128 pages. -/
theorem drivesPage_upper (bus : ConsoleBus) {page : UInt8} (h : 0x80 ≤ page) :
    bus.DrivesPage page := by
  intro offset
  have hpage : 0x80 ≤ page.toNat := UInt8.le_iff_toNat_le.mp h
  have hupper : 0x8000 ≤ pageAddress page offset := by
    rw [UInt16.le_iff_toNat_le, toNat_pageAddress]
    change 0x8000 ≤ _
    omega
  exact ⟨Region.of_upper hupper, Option.isSome_iff_exists.mpr (bus.board.read_upper hupper)⟩

/-- The pages of working memory and those driven by the cartridge hold bytes everywhere. -/
theorem pageByte_isSome {bus : ConsoleBus} {page : UInt8} (h : page < 0x20 ∨ bus.DrivesPage page)
    (offset : UInt8) : (bus.pageByte page offset).isSome = true := by
  rcases h with hram | hdriven
  · rw [pageByte, Region.of_ramPage hram]
    rfl
  · rw [pageByte, (hdriven offset).1]
    exact (hdriven offset).2

/-- The bytes of a page depend on working memory and the cartridge alone. -/
theorem pageByte_congr {bus other : ConsoleBus} (hram : other.ram = bus.ram)
    (hboard : other.board = bus.board) (page offset : UInt8) :
    other.pageByte page offset = bus.pageByte page offset := by
  rw [pageByte, pageByte, hram, hboard]

/-- Where a page holds a byte, a read gives it and moves nothing. -/
theorem read_of_pageByte {bus : ConsoleBus} {page offset value : UInt8}
    (h : bus.pageByte page offset = some value) :
    bus.read (pageAddress page offset) = (value, { bus with openBus := value }) := by
  unfold pageByte at h
  unfold read
  split at h
  · next hregion =>
    have hcell : bus.ram.get (pageAddress page offset).toNat = value :=
      (Memory.get_congr bus.ram (Nat.mod_mod _ 2048).symm).trans (Option.some.inj h)
    rw [hregion]
    dsimp only
    rw [hcell]
  · next hregion =>
    rw [hregion]
    dsimp only
    rw [h, Option.getD_some]
  · contradiction
  · contradiction

/-- Dots leave memories, registers, the board and the request alone. -/
theorem runPpu_keeps (bus : ConsoleBus) (dots : Nat) :
    SameBesidesDots bus (bus.runPpu dots).2 := by
  rw [runPpu_bus]
  exact bus.afterAll_dots_keeps dots

/-- A write of the transfer register asks for its page. -/
theorem write_dmaRegister_dmaPage (bus : ConsoleBus) (page : UInt8) :
    (bus.write dmaRegister page).dmaPage = some page := by
  have hregion : Region.of dmaRegister = .latches := by decide
  simp only [write, hregion, if_true]

/-- A write of the address register of object memory. -/
theorem write_oamAddress (bus : ConsoleBus) (index : UInt8) :
    bus.write 0x2003 index =
      { bus with ppu := { bus.ppu with lines := index, oamAddress := index } } := by
  have hregion : Region.of 0x2003 = .ppu := by decide
  simp only [write, hregion]
  rfl

/-- The bus after a byte of a register has been seen on its lines. -/
def seen (bus : ConsoleBus) (value : UInt8) : ConsoleBus :=
  { bus with ppu := { bus.ppu with lines := value }, openBus := value }

/-- A read of the data register of object memory moves nothing. -/
theorem read_oamData_eq (bus : ConsoleBus) :
    bus.read 0x2004 = (bus.ppu.oamByte, bus.seen bus.ppu.oamByte) := by
  have hregion : Region.of 0x2004 = .ppu := by decide
  simp only [read, hregion]
  rfl

/-- A write of the data register of object memory. -/
theorem write_oamData (bus : ConsoleBus) (value : UInt8) :
    bus.write 0x2004 value =
      { bus with ppu := ({ bus.ppu with lines := value } : Ppu).writeOam value } := by
  have hregion : Region.of 0x2004 = .ppu := by decide
  simp only [write, hregion]
  rfl

/-- A read of the data register of object memory gives the byte at its address. -/
theorem read_oamData (bus : ConsoleBus) : (bus.read 0x2004).1 = bus.ppu.oamByte :=
  congrArg Prod.fst bus.read_oamData_eq

end ConsoleBus

/-- The three bits of an attribute byte that object memory does not store. -/
theorem Ppu.attribute_eq (value : UInt8) : value / 0x20 * 0x20 + value % 4 = value &&& 0xE3 := by
  obtain ⟨bits⟩ := value
  revert bits
  decide +kernel

namespace Console

open ConsoleBus

/-- How far a transfer has come that began with the bus `start`. -/
structure Copying (start : ConsoleBus) (page : UInt8) (dma : OamDma) (bus : ConsoleBus) :
    Prop where
  ram : bus.ram = start.ram
  board : bus.board = start.board
  page_eq : dma.page = page
  underWay : dma.active = true → dma.done < 512
  ended : dma.active = false → dma.done = 512
  oamAddress : bus.ppu.oamAddress = start.ppu.oamAddress + UInt8.ofNat (dma.done / 2)
  latched : dma.done % 2 = 1 →
    start.pageByte page (UInt8.ofNat (dma.done / 2)) = some dma.latched
  copied : ∀ offset : UInt8, offset.toNat < dma.done / 2 →
    start.pageByte page offset = some (bus.ppu.oam.get (start.ppu.oamAddress + offset).toNat)

namespace Copying

variable {start bus : ConsoleBus} {page : UInt8} {dma : OamDma}

/-- A transfer begins with nothing copied, once its request is taken up. -/
theorem begin (start : ConsoleBus) (page : UInt8) (oddCycle : Bool) :
    Copying start page (OamDma.start page oddCycle) start.takeDmaPage.2 where
  ram := rfl
  board := rfl
  page_eq := rfl
  underWay := fun _ => (by decide : 0 < 512)
  ended := fun h => absurd h (by simp [OamDma.start])
  oamAddress := by simp [OamDma.start, takeDmaPage]
  latched := fun h => absurd h (by simp [OamDma.start])
  copied := fun _ h => absurd h (by simp [OamDma.start])

/-- The dots between the bytes disturb nothing. -/
theorem dots (h : Copying start page dma bus) (dots : Nat) :
    Copying start page dma (bus.runPpu dots).2 := by
  have hsame := bus.runPpu_keeps dots
  refine ⟨hsame.ram.trans h.ram, hsame.board.trans h.board, h.page_eq, h.underWay, h.ended,
    hsame.memory.oamAddress.trans h.oamAddress, h.latched, ?_⟩
  rw [hsame.memory.oam]
  exact h.copied

/-- A cycle that reads brings the next byte into the engine. -/
theorem read (hsource : ∀ offset, (start.pageByte page offset).isSome = true)
    (h : Copying start page dma bus) (hactive : dma.active = true) (heven : dma.done % 2 = 0) :
    let address := dma.page.toUInt16 * 0x100 + UInt16.ofNat (dma.done / 2)
    let next : OamDma :=
      { dma with done := dma.done + 1, active := dma.done + 1 != OamDma.length }
    Copying start page (next.latch (bus.read address).1) (bus.read address).2 := by
  intro address next
  have hdone := h.underWay hactive
  obtain ⟨value, hvalue⟩ := Option.isSome_iff_exists.mp (hsource (UInt8.ofNat (dma.done / 2)))
  have haddress : address = pageAddress page (UInt8.ofNat (dma.done / 2)) := by
    rw [pageAddress, UInt8.toUInt16_ofNat' (by omega : dma.done / 2 < 256), ← h.page_eq]
  have hread : bus.read address = (value, { bus with openBus := value }) := by
    rw [haddress]
    exact read_of_pageByte ((pageByte_congr h.ram h.board page _).trans hvalue)
  have hhalf : (dma.done + 1) / 2 = dma.done / 2 := by omega
  rw [hread]
  constructor
  · exact h.ram
  · exact h.board
  · exact h.page_eq
  · exact fun _ => (by omega : dma.done + 1 < 512)
  · intro hended
    have hlast : dma.done + 1 = 512 := bne_eq_false_iff_eq.mp hended
    omega
  · change bus.ppu.oamAddress = _ + UInt8.ofNat ((dma.done + 1) / 2)
    rw [hhalf]
    exact h.oamAddress
  · intro _
    change start.pageByte page (UInt8.ofNat ((dma.done + 1) / 2)) = some value
    rw [hhalf]
    exact hvalue
  · intro offset hoffset
    change offset.toNat < (dma.done + 1) / 2 at hoffset
    rw [hhalf] at hoffset
    exact h.copied offset hoffset

/-- A cycle that writes stores the byte of the engine and moves the address on. -/
theorem store (h : Copying start page dma bus) (hactive : dma.active = true)
    (hodd : dma.done % 2 = 1) :
    Copying start page
      { dma with done := dma.done + 1, active := dma.done + 1 != OamDma.length }
      (bus.writeOam dma.latched) := by
  have hdone := h.underWay hactive
  have hhalf : (dma.done + 1) / 2 = dma.done / 2 + 1 := by omega
  have hplace : (UInt8.ofNat (dma.done / 2)).toNat = dma.done / 2 :=
    UInt8.toNat_ofNat_of_lt' (by simp only [UInt8.size]; omega)
  constructor
  · exact h.ram
  · exact h.board
  · exact h.page_eq
  · intro hactive'
    have hlast : dma.done + 1 ≠ 512 := bne_iff_ne.mp hactive'
    exact (by omega : dma.done + 1 < 512)
  · exact fun hended => bne_eq_false_iff_eq.mp hended
  · change bus.ppu.oamAddress + 1 = _ + UInt8.ofNat ((dma.done + 1) / 2)
    rw [hhalf, h.oamAddress, UInt8.ofNat_add, UInt8.add_assoc]
    rfl
  · intro hodd'
    change (dma.done + 1) % 2 = 1 at hodd'
    omega
  · intro offset hoffset
    change offset.toNat < (dma.done + 1) / 2 at hoffset
    change _ = some ((bus.ppu.oam.set bus.ppu.oamAddress.toNat dma.latched).get _)
    rw [h.oamAddress]
    by_cases hnew : offset = UInt8.ofNat (dma.done / 2)
    · rw [hnew, Memory.get_set_self]
      exact h.latched hodd
    · have hold : offset.toNat ≠ dma.done / 2 := fun heq =>
        hnew (UInt8.toNat_inj.mp (heq.trans hplace.symm))
      -- object memory has as many cells as there are offsets, so no two of them meet
      have hcell : ¬(start.ppu.oamAddress + UInt8.ofNat (dma.done / 2)).toNat % chipSize 8 =
          (start.ppu.oamAddress + offset).toNat % chipSize 8 := by
        have hlt (index : UInt8) : index.toNat < chipSize 8 := index.toNat_lt
        rw [Nat.mod_eq_of_lt (hlt _), Nat.mod_eq_of_lt (hlt _), UInt8.toNat_inj,
          UInt8.add_right_inj]
        exact fun heq => hnew heq.symm
      rw [Memory.get_set, if_neg hcell]
      exact h.copied offset (by omega)

/-- A cycle of the transfer brings the copy on. -/
theorem cycle (hsource : ∀ offset, (start.pageByte page offset).isSome = true)
    (h : Copying start page dma bus) (hactive : dma.active = true) :
    Copying start page (transferByte dma.action dma.next bus).1
      ((transferByte dma.action dma.next bus).2.runPpu dotsPerCycle).2 := by
  refine dots ?_ dotsPerCycle
  obtain ⟨-, haction, hnext⟩ | ⟨-, heven, haction, hnext⟩ | ⟨-, hodd, haction, hnext⟩ :=
    OamDma.cycle_cases hactive
  · rw [haction, hnext]
    exact ⟨h.ram, h.board, h.page_eq, h.underWay, h.ended, h.oamAddress, h.latched, h.copied⟩
  · rw [haction, hnext]
    exact h.read hsource hactive heven
  · rw [haction, hnext]
    exact h.store hactive hodd

/-- At the end the whole page is copied, and the address of object memory is back. -/
theorem finish (h : Copying start page dma bus) (hidle : dma.active = false) :
    bus.ppu.oamAddress = start.ppu.oamAddress ∧ ∀ offset,
      start.pageByte page offset =
        some (bus.ppu.oam.get (start.ppu.oamAddress + offset).toNat) := by
  have hdone := h.ended hidle
  constructor
  · rw [h.oamAddress, hdone]
    exact UInt8.add_zero _
  · intro offset
    apply h.copied
    rw [hdone]
    exact offset.toNat_lt

end Copying

/-- An instruction that writes the transfer register leaves the request behind. -/
theorem caughtUp_dmaPage_of_writes {console : Console} {page : UInt8}
    (h : .write dmaRegister page ∈ console.cpu.accesses console.bus) :
    console.caughtUp.dmaPage = some page := by
  obtain ⟨quiet, hquiet, hlast⟩ := console.cpu.accesses_eq console.bus
  have hnot : .write dmaRegister page ∉ quiet := by
    intro hmem
    obtain ⟨sp, hstack⟩ := hquiet _ hmem
    have hregion := Region.of_stackAddress sp
    rw [← hstack] at hregion
    exact absurd hregion (by decide)
  rcases hlast with heq | ⟨address, value, heq⟩
  · rw [heq] at h
    exact absurd h hnot
  · rw [heq, List.mem_append, List.mem_singleton] at h
    rw [caughtUp_dmaPage, ← Cpu.foldl_accesses, heq, ← h.resolve_left hnot, List.foldl_append]
    exact write_dmaRegister_dmaPage _ page

/-- A step with a request ends as its transfer does. -/
theorem step_transferred {console : Console} {page : UInt8}
    (h : console.caughtUp.dmaPage = some page) :
    console.step.2.dma = (console.transferred page).2.1 ∧
      console.step.2.bus = (console.transferred page).2.2 := by
  constructor <;> rw [step_of_request h]

/-- The transfer of a request copies its page. -/
theorem transferred_copies {console : Console} {page : UInt8}
    (hsource : page < 0x20 ∨ console.caughtUp.DrivesPage page) :
    Copying console.caughtUp page (console.transferred page).2.1 (console.transferred page).2.2 ∧
      (console.transferred page).2.1.active = false := by
  have hbytes := pageByte_isSome hsource
  unfold transferred
  exact transfer_keeps (Copying console.caughtUp page)
    (fun dma bus hactive h => h.cycle hbytes hactive) _ (console.transferFor_sound page)
    (Nat.le_refl _) (Copying.begin console.caughtUp page _)

/-- A program that writes an index to the address register and then reads the data register gets
the byte of that cell, however many dots go by. -/
theorem oam_readBack (bus : ConsoleBus) (index : UInt8) (before between : Nat) :
    ((((bus.runPpu before).2.write 0x2003 index).runPpu between).2.read 0x2004).1 =
      if index % 4 = 2 then bus.ppu.oam.get index.toNat &&& 0xE3
      else bus.ppu.oam.get index.toNat := by
  have hbefore := (bus.runPpu_keeps before).memory
  have hbetween := (((bus.runPpu before).2.write 0x2003 index).runPpu_keeps between).memory
  have haddress := hbetween.oamAddress
  have hoam := hbetween.oam
  rw [write_oamAddress] at haddress hoam ⊢
  rw [read_oamData, Ppu.oamByte, haddress, hoam]
  dsimp only
  rw [hbefore.oam, Ppu.attribute_eq]

/-- **A transfer copies one page exactly.** After a step whose instruction writes a page number to
the transfer register, for a page of working memory or one that the cartridge drives, the cells of
object memory from its address on, wrapping around, hold the bytes of the page in order, and the
address is what it was. The step has taken 513 cycles more than its instruction, or 514 where that
ended on an odd cycle, and the transfer has changed nothing else that a program can see: not
working memory, not the cartridge, and of the processor the cycle count alone. No request is left,
the engine is idle, and a read back of any cell gives its byte, without the three bits that an
attribute byte does not have. -/
theorem transfer_copies_page {console : Console} {page : UInt8}
    (hwrites : .write dmaRegister page ∈ console.cpu.accesses console.bus)
    (hsource : page < 0x20 ∨ console.caughtUp.DrivesPage page) :
    let ran := console.cpu.step console.bus
    let stall := if ran.2.1.cycles % 2 = 1 then 514 else 513
    let start := console.caughtUp
    let first := start.ppu.oamAddress
    let after := console.step.2
    (∀ offset, start.pageByte page offset =
      some (after.bus.ppu.oam.get (first + offset).toNat)) ∧
    after.bus.ppu.oamAddress = first ∧
    console.step.1.cycles = ran.1 + stall ∧
    after.bus.ram = start.ram ∧ after.bus.board = start.board ∧
    after.cpu = { ran.2.1 with cycles := ran.2.1.cycles + stall } ∧
    after.bus.dmaPage = none ∧ after.dma.active = false ∧
    ∀ index before between, ∃ byte, start.pageByte page (index - first) = some byte ∧
      ((((after.bus.runPpu before).2.write 0x2003 index).runPpu between).2.read 0x2004).1 =
        if index % 4 = 2 then byte &&& 0xE3 else byte := by
  intro ran stall start first after
  have hrequest := caughtUp_dmaPage_of_writes hwrites
  obtain ⟨hcopying, hidle⟩ := transferred_copies hsource
  obtain ⟨hdma, hbus⟩ := step_transferred hrequest
  rw [← hdma, ← hbus] at hcopying
  rw [← hdma] at hidle
  obtain ⟨haddress, hcopied⟩ := hcopying.finish hidle
  have hstall : console.stall =
      if (console.cpu.step console.bus).2.1.cycles % 2 = 1 then 514 else 513 := by
    rw [stall_of_request hrequest, transferFor, OamDma.remaining_start]
    split
    · next hodd => rw [hodd]; rfl
    · next heven => rw [(by omega : (console.cpu.step console.bus).2.1.cycles % 2 = 0)]; rfl
  refine ⟨hcopied, haddress, ?_, hcopying.ram, hcopying.board, ?_, console.step_dmaPage, hidle, ?_⟩
  · exact console.step_cycles_eq.trans (congrArg _ hstall)
  · rw [step_cpu, hstall]
  · intro index before between
    have hbyte := hcopied (index - console.caughtUp.ppu.oamAddress)
    rw [UInt8.add_comm, UInt8.sub_add_cancel] at hbyte
    exact ⟨_, hbyte, oam_readBack console.step.2.bus index before between⟩

/-- The whole cartridge is one instruction, a store at the transfer register, and its pages repeat
it. The first of them is copied from a cell near the end of object memory on, around that end; a
byte that comes to lie in an attribute cell loses three bits when it is read back. -/
theorem transfer_copies_page_of_stores :
    let board := Board.ofBytes .nrom #[0x8D, 0x14, 0x40] #[] .horizontal
    let console : Console :=
      { cpu := { pc := 0x8000, registers := { a := 0x80 } }
        bus := { board, ppu := { oamAddress := 0xF0 } } }
    (.write dmaRegister 0x80 ∈ console.cpu.accesses console.bus ∧
        console.caughtUp.DrivesPage 0x80) ∧
      console.step.1.cycles = 517 ∧ console.step.2.bus.ppu.oam.get 6 = 0x14 ∧
      ((((console.step.2.bus.runPpu 12).2.write 0x2003 6).runPpu 12).2.read 0x2004).1 = 0 := by
  intro board console
  let fetched : ConsoleBus := { console.bus with openBus := 0x8D }
  let loaded : ConsoleBus := { console.bus with openBus := 0x40 }
  have hundisturbed : console.cpu.Undisturbed console.bus := ⟨rfl, rfl, rfl, rfl⟩
  have hfirst : console.bus.board.read 0x8000 = some 0x8D := rfl
  have hcode : CpuBus.read console.bus 0x8000 = (0x8D, fetched) :=
    console.bus.read_upper (by decide) hfirst
  have hlow : fetched.board.read 0x8001 = some 0x14 := rfl
  have hhigh : fetched.board.read 0x8002 = some 0x40 := rfl
  have htarget : CpuBus.readWord fetched 0x8001 0x8002 = (dmaRegister, loaded) := by
    rw [fetched.readWord_upper (by decide) (by decide) hlow hhigh]
    rfl
  have hstep := hundisturbed.step.trans (Cpu.runInstruction_sta hcode htarget)
  have hwrites : .write dmaRegister 0x80 ∈ console.cpu.accesses console.bus := by
    rw [Cpu.accesses_sta hundisturbed hcode htarget]
    simp [console]
  have hdriven : console.caughtUp.DrivesPage 0x80 := drivesPage_upper _ (by decide)
  have hcaughtUp : console.caughtUp = ((loaded.write dmaRegister 0x80).runPpu 12).2 := by
    rw [caughtUp, hstep]
    rfl
  have hkept := (loaded.write dmaRegister 0x80).runPpu_keeps 12
  rw [← hcaughtUp] at hkept
  have hboard : console.caughtUp.board = board := hkept.board
  have haddress : console.caughtUp.ppu.oamAddress = 0xF0 := hkept.memory.oamAddress
  have hbyte : console.caughtUp.pageByte 0x80 22 = some 0x14 := by
    have hplace : pageAddress 0x80 22 = 0x8016 := by decide
    rw [pageByte, (hdriven 22).1, hboard, hplace]
    simp [board, Board.ofBytes, Board.read, Board.prgByte]
  obtain ⟨hcopied, -, hcycles, -, -, -, -, -, hreadBack⟩ :=
    transfer_copies_page hwrites (.inr hdriven)
  have hcell := hcopied 22
  rw [haddress, hbyte] at hcell
  obtain ⟨byte, hplace, hread⟩ := hreadBack 6 12 12
  refine ⟨⟨hwrites, hdriven⟩, ?_, (Option.some.inj hcell).symm, ?_⟩
  · rw [hcycles, hstep]
    decide
  · rw [haddress] at hplace
    have hsame : byte = 0x14 := Option.some.inj (hplace.symm.trans hbyte)
    rw [hread, hsame]
    decide

end Console

end Famicom
