import Famicom.Proofs.Cartridge.Banks
import Famicom.Proofs.Ppu.PictureCells
import Famicom.Proofs.Safety.Bus

/-!
# The data port is a memory

A program reaches the picture's memories through two registers: it aims at an address by a pair
of writes, and then reads or writes the data register any number of times, the address moving on
by one column or one row. While nothing is drawn, what it reads is what was stored last in the cell
behind the address. Below palette memory the byte arrives with the next read; in palette memory it
arrives at once, and the next read gives the nametable byte below.
-/

namespace Famicom

/-- One use of the port by a program, or a dot in between. -/
inductive PortUse where
  | dot
  /-- The pair of writes that sets the address, with dots between them. -/
  | aim (high low : UInt8) (dots : Nat)
  | read
  | write (value : UInt8)
deriving DecidableEq

/-- What happens to the unit in a use of the port. -/
def PortUse.uses : PortUse → List PpuUse
  | dot => [.dot]
  | aim high low dots =>
    .access (.write 0x2006 high) :: List.replicate dots .dot ++ [.access (.write 0x2006 low)]
  | read => [.access (.read 0x2007)]
  | write value => [.access (.write 0x2007 value)]

/-- What a program that uses the port can keep account of. -/
structure PortLog where
  /-- The address of the next access. -/
  address : UInt16
  /-- The accesses so far at their addresses, oldest first. -/
  accesses : List Access := []

/-- The account after a use, the address moving by `step` with every access. -/
def PortLog.after (step : UInt16) (log : PortLog) : PortUse → PortLog
  | .dot => log
  | .aim high low _ => { log with address := high.toUInt16 % 0x40 * 0x100 + low.toUInt16 }
  | .read =>
    { address := (log.address + step) % 0x4000
      accesses := log.accesses ++ [.read log.address] }
  | .write value =>
    { address := (log.address + step) % 0x4000
      accesses := log.accesses ++ [.write log.address value] }

/-- A pair of writes sets the address. -/
theorem Scroll.writeAddress_pair {scroll : Scroll} (h : scroll.w = false) (high low : UInt8) :
    ((scroll.writeAddress high).writeAddress low).w = false ∧
      ((scroll.writeAddress high).writeAddress low).address =
        high.toUInt16 % 0x40 * 0x100 + low.toUInt16 := by
  have hhigh := high.toNat_lt
  have hlow := low.toNat_lt
  simp only [writeAddress, h, Bool.false_eq_true, if_true, if_false, address, true_and]
  apply UInt16.toNat_inj.mp
  simp only [UInt16.toNat_mod, UInt16.toNat_add, UInt16.toNat_mul, UInt16.toNat_div,
    UInt8.toNat_toUInt16, UInt16.reduceToNat]
  omega

/-- The address moves on within its fourteen bits. -/
theorem Scroll.address_advance (scroll : Scroll) (step : UInt16) :
    (scroll.advance step).address = (scroll.address + step) % 0x4000 := by
  apply UInt16.toNat_inj.mp
  simp only [advance, address, UInt16.toNat_mod, UInt16.toNat_add, UInt16.reduceToNat]
  omega

namespace PpuSide

/-- The unit and the cartridge after uses of the port. -/
def afterPort (side : PpuSide) (uses : List PortUse) : PpuSide :=
  side.afterAll (uses.flatMap PortUse.uses)

/-- The byte that a read of the data register would give. -/
def portByte (side : PpuSide) : UInt8 := (side.ppu.readRegister 0x2007 side.board).1

/-- A use of the port, and all others after it. -/
theorem afterPort_cons (side : PpuSide) (use : PortUse) (rest : List PortUse) :
    side.afterPort (use :: rest) = (side.afterAll use.uses).afterPort rest := by
  rw [afterPort, List.flatMap_cons, afterAll_append, afterPort]

/-- Uses of the port, and others after them. -/
theorem afterPort_append (side : PpuSide) (first second : List PortUse) :
    side.afterPort (first ++ second) = (side.afterPort first).afterPort second := by
  rw [afterPort, List.flatMap_append, afterAll_append, afterPort, afterPort]

/-- Below palette memory the byte comes from the buffer. -/
theorem portByte_eq (side : PpuSide) :
    side.portByte =
      if 0x3F00 ≤ side.ppu.scroll.address then side.ppu.paletteByte else side.ppu.readBuffer :=
  congrArg Prod.fst (side.ppu.readData_eq side.board)

/-- The account of uses of the port. -/
def portLog (start : PpuSide) (uses : List PortUse) : PortLog :=
  uses.foldl (PortLog.after start.ppu.control.addressStep) { address := start.ppu.scroll.address }

/-- The byte that was stored last in the cell behind an address. -/
def current (start : PpuSide) (accesses : List Access) (address : UInt16) : UInt8 :=
  let cell := start.cell address
  ((Access.lastWritten (start.cell · = cell) accesses).map (start.stored · cell)).getD
    (start.held cell)

/-- A read stores nothing. -/
theorem current_append_read (start : PpuSide) (accesses : List Access) (address other : UInt16) :
    start.current (accesses ++ [.read address]) other = start.current accesses other := by
  simp [current]

/-- A write stores at all addresses with the same cell. -/
theorem current_append_write (start : PpuSide) (accesses : List Access)
    (address other : UInt16) (value : UInt8) :
    start.current (accesses ++ [.write address value]) other =
      if start.cell address = start.cell other then start.stored value (start.cell other)
      else start.current accesses other := by
  by_cases hcell : start.cell address = start.cell other <;> simp [current, hcell]

/-- A cell that takes no store shows its first byte after any accesses. -/
theorem current_of_kept (start : PpuSide) (accesses : List Access) {address : UInt16}
    (h : ∀ value, start.stored value (start.cell address) = start.held (start.cell address)) :
    start.current accesses address = start.held (start.cell address) := by
  simp only [current, h]
  cases Access.lastWritten (start.cell · = start.cell address) accesses <;> rfl

/-- The memories and the registers around them are the same. -/
structure SameCells (before after : PpuSide) : Prop where
  vram : after.ppu.vram = before.ppu.vram
  palette : after.ppu.palette = before.ppu.palette
  readBuffer : after.ppu.readBuffer = before.ppu.readBuffer
  control : after.ppu.control = before.ppu.control
  mask : after.ppu.mask = before.ppu.mask
  board : after.board = before.board

/-- Having the same memories is transitive. -/
theorem SameCells.trans {first second third : PpuSide} (h : SameCells first second)
    (h' : SameCells second third) : SameCells first third := by
  constructor
  · exact h'.vram.trans h.vram
  · exact h'.palette.trans h.palette
  · exact h'.readBuffer.trans h.readBuffer
  · exact h'.control.trans h.control
  · exact h'.mask.trans h.mask
  · exact h'.board.trans h.board

/-- The same memories hold the same bytes. -/
theorem SameCells.held_eq {before after : PpuSide} (h : SameCells before after)
    (cell : PictureCell) : after.held cell = before.held cell := by
  cases cell <;> simp only [held, h.vram, h.palette, h.board]

/-- A dot leaves the memories alone. -/
theorem after_dot_sameCells (side : PpuSide) : SameCells side (side.after .dot) := by
  have hmemory := side.ppu.tick_sameMemory side.board
  rw [after_dot]
  exact ⟨hmemory.vram, hmemory.palette, hmemory.readBuffer, hmemory.control, hmemory.mask, rfl⟩

/-- While nothing is drawn, dots leave the memories and the address alone. -/
theorem afterAll_dots (side : PpuSide) (h : side.ppu.mask.rendering = false) (dots : Nat) :
    SameCells side (side.afterAll (List.replicate dots .dot)) ∧
      (side.afterAll (List.replicate dots .dot)).ppu.scroll = side.ppu.scroll := by
  induction dots generalizing side with
  | zero => exact ⟨⟨rfl, rfl, rfl, rfl, rfl, rfl⟩, rfl⟩
  | succ dots ih =>
    have hcells := side.after_dot_sameCells
    obtain ⟨hrest, hscroll⟩ := ih (side.after .dot) (hcells.mask ▸ h)
    exact ⟨hcells.trans hrest, hscroll.trans (side.ppu.tick_scroll_of_hidden h side.board)⟩

/-- A write of the address register leaves the memories alone. -/
theorem after_address_sameCells (side : PpuSide) (value : UInt8) :
    SameCells side (side.after (.access (.write 0x2006 value))) :=
  ⟨rfl, rfl, rfl, rfl, rfl, rfl⟩

/-- While nothing is drawn, a pair of writes sets the address and leaves the memories alone. -/
theorem afterAll_aim (side : PpuSide) (h : side.ppu.mask.rendering = false)
    (hclear : side.ppu.scroll.w = false) (high low : UInt8) (dots : Nat) :
    let aimed := side.afterAll (PortUse.aim high low dots).uses
    SameCells side aimed ∧ aimed.ppu.scroll.w = false ∧
      aimed.ppu.scroll.address = high.toUInt16 % 0x40 * 0x100 + low.toUInt16 := by
  intro aimed
  let half := side.after (.access (.write 0x2006 high))
  let waited := half.afterAll (List.replicate dots .dot)
  obtain ⟨hcells, hwaited⟩ := half.afterAll_dots h dots
  have haimed : aimed = waited.after (.access (.write 0x2006 low)) :=
    half.afterAll_append (List.replicate dots .dot) [.access (.write 0x2006 low)]
  have hscroll : (waited.after (.access (.write 0x2006 low))).ppu.scroll =
      (side.ppu.scroll.writeAddress high).writeAddress low :=
    congrArg (Scroll.writeAddress · low) hwaited
  rw [haimed, hscroll]
  refine ⟨?_, Scroll.writeAddress_pair hclear high low⟩
  exact ((side.after_address_sameCells high).trans hcells).trans
    (waited.after_address_sameCells low)

/-- A unit whose memories are as the account tells, ready for the next use of the port. -/
structure Tracks (start : PpuSide) (log : PortLog) (side : PpuSide) : Prop where
  hidden : side.ppu.mask.rendering = false
  toggle : side.ppu.scroll.w = false
  control : side.ppu.control = start.ppu.control
  address : side.ppu.scroll.address = log.address
  wiring : side.board.wiring = start.board.wiring
  writable : side.board.chr.isRam = start.board.chr.isRam
  held : ∀ address, side.held (side.cell address) = start.current log.accesses address

namespace Tracks

variable {start side : PpuSide} {log : PortLog}

/-- Before the first use nothing has been stored. -/
theorem begin (hhidden : start.ppu.mask.rendering = false) (hclear : start.ppu.scroll.w = false) :
    Tracks start { address := start.ppu.scroll.address } start :=
  ⟨hhidden, hclear, rfl, rfl, rfl, rfl, fun _ => rfl⟩

/-- Setting the address keeps the account of the memories. -/
theorem aimed {next : PpuSide} (h : Tracks start log side) (hcells : SameCells side next)
    (hclear : next.ppu.scroll.w = false) {address : UInt16}
    (haddress : next.ppu.scroll.address = address) :
    Tracks start { log with address } next := by
  constructor
  · rw [hcells.mask, h.hidden]
  · exact hclear
  · rw [hcells.control, h.control]
  · exact haddress
  · rw [hcells.board, h.wiring]
  · rw [hcells.board, h.writable]
  · intro address
    rw [cell, hcells.board, hcells.held_eq]
    exact h.held address

/-- The cell behind an address stays the same. -/
theorem cell_eq (h : Tracks start log side) (address : UInt16) :
    side.cell address = start.cell address := by
  rw [cell, h.wiring, cell]

/-- What a store leaves in a cell is settled from the start: a cell that takes no store still holds
what it held at first. -/
theorem stored_eq (h : Tracks start log side) (value : UInt8) (address : UInt16) :
    side.stored value (side.cell address) = start.stored value (start.cell address) := by
  have hheld := h.held address
  rw [h.cell_eq] at hheld ⊢
  cases hcell : start.cell address with
  | nametable table offset => rfl
  | palette entry => rfl
  | pattern offset =>
    rw [hcell] at hheld
    simp only [stored, h.writable]
    split
    · rfl
    · next hfixed =>
      -- both sides are the byte held at first, whatever was written to it since
      rw [hheld, current_of_kept, hcell]
      intro value
      rw [hcell]
      exact if_neg hfixed

/-- The address moves on by one column or one row. -/
theorem advance_address (h : Tracks start log side) :
    (side.ppu.scroll.advance side.ppu.control.addressStep).address =
      (log.address + start.ppu.control.addressStep) % 0x4000 := by
  rw [Scroll.address_advance, h.address, h.control]

/-- A write of the data register stores at the address and leaves the buffer alone. -/
theorem write (h : Tracks start log side) (value : UInt8) :
    Tracks start (log.after start.ppu.control.addressStep (.write value))
        (side.after (.access (.write 0x2007 value))) ∧
      (side.after (.access (.write 0x2007 value))).ppu.readBuffer = side.ppu.readBuffer := by
  -- the byte stays on the lines to the processor, which no cell depends on
  let seen : PpuSide := { side with ppu := { side.ppu with lines := value } }
  obtain ⟨hbuffer, hcontrol, hmask, hscroll, hwiring, hwritable⟩ :=
    seen.store_leaves side.ppu.scroll.address value
  have hheld (other : UInt16) := seen.held_store side.ppu.scroll.address other value
  have hafter : side.after (.access (.write 0x2007 value)) =
      let kept := seen.store side.ppu.scroll.address value
      { kept with ppu := kept.ppu.advance } := rfl
  have hhidden : (seen.store side.ppu.scroll.address value).ppu.mask.rendering = false := by
    rw [hmask]
    exact h.hidden
  rw [hafter]
  dsimp only
  rw [Ppu.advance_of_hidden hhidden]
  generalize seen.store side.ppu.scroll.address value = kept at *
  refine ⟨?_, hbuffer⟩
  constructor
  · exact hhidden
  · exact (congrArg Scroll.w hscroll).trans h.toggle
  · exact hcontrol.trans h.control
  · change (kept.ppu.scroll.advance kept.ppu.control.addressStep).address = _
    rw [hscroll, hcontrol]
    exact h.advance_address
  · exact hwiring.trans h.wiring
  · exact hwritable.trans h.writable
  · intro other
    have hcell : kept.cell other = side.cell other := by
      rw [cell, hwiring]
      rfl
    change kept.held (kept.cell other) = start.current (log.accesses ++ [_]) other
    rw [hcell, current_append_write, ← h.stored_eq, ← h.cell_eq, ← h.cell_eq, ← h.held, ← h.address]
    exact hheld other

/-- A read of the data register fetches ahead and stores nothing. -/
theorem read (h : Tracks start log side) :
    Tracks start (log.after start.ppu.control.addressStep .read)
        (side.after (.access (.read 0x2007))) ∧
      (side.after (.access (.read 0x2007))).ppu.readBuffer =
        (side.ppu.readPicture side.ppu.fetchAddress side.board).1 := by
  have hafter : side.after (.access (.read 0x2007)) =
      { ppu := { (side.ppu.readData side.board).2.1 with lines := side.portByte }
        board := (side.ppu.readData side.board).2.2 } := rfl
  have hboard := side.ppu.readData_board side.board
  have hmoved : (side.ppu.readData side.board).2.1 =
      { side.ppu with
        readBuffer := (side.ppu.readPicture side.ppu.fetchAddress side.board).1
        scroll := side.ppu.scroll.advance side.ppu.control.addressStep } := by
    rw [Ppu.readData_eq]
    exact Ppu.advance_of_hidden h.hidden
  rw [hafter, hmoved, hboard]
  refine ⟨⟨h.hidden, h.toggle, h.control, h.advance_address, h.wiring, h.writable, ?_⟩, rfl⟩
  intro other
  exact (h.held other).trans (current_append_read start log.accesses log.address other).symm

/-- Every use of the port keeps the account. -/
theorem after (h : Tracks start log side) (use : PortUse) :
    Tracks start (log.after start.ppu.control.addressStep use) (side.afterAll use.uses) := by
  cases use with
  | dot =>
    have hscroll : (side.after .dot).ppu.scroll = side.ppu.scroll :=
      side.ppu.tick_scroll_of_hidden h.hidden side.board
    apply h.aimed side.after_dot_sameCells
    · rw [hscroll, h.toggle]
    · rw [hscroll, h.address]
  | aim high low dots =>
    obtain ⟨hcells, hclear, haddress⟩ := side.afterAll_aim h.hidden h.toggle high low dots
    exact h.aimed hcells hclear haddress
  | read => exact h.read.1
  | write value => exact (h.write value).1

/-- Only a read of the data register fills the buffer. -/
theorem after_readBuffer (h : Tracks start log side) {use : PortUse} (hquiet : use ≠ .read) :
    (side.afterAll use.uses).ppu.readBuffer = side.ppu.readBuffer := by
  cases use with
  | dot => exact side.after_dot_sameCells.readBuffer
  | aim high low dots => exact (side.afterAll_aim h.hidden h.toggle high low dots).1.readBuffer
  | read => contradiction
  | write value => exact (h.write value).2

/-- Any uses of the port keep the account. -/
theorem afterPort (h : Tracks start log side) (uses : List PortUse) :
    Tracks start (uses.foldl (PortLog.after start.ppu.control.addressStep) log)
      (side.afterPort uses) := by
  induction uses generalizing log side with
  | nil => exact h
  | cons use rest ih =>
    rw [afterPort_cons]
    exact ih (h.after use)

/-- Without a read the buffer stays. -/
theorem afterPort_readBuffer (h : Tracks start log side) {uses : List PortUse}
    (hquiet : .read ∉ uses) : (side.afterPort uses).ppu.readBuffer = side.ppu.readBuffer := by
  induction uses generalizing log side with
  | nil => rfl
  | cons use rest ih =>
    obtain ⟨hfirst, hrest⟩ := not_or.mp (List.mem_cons.not.mp hquiet)
    rw [afterPort_cons, ih (h.after use) hrest, h.after_readBuffer (Ne.symm hfirst)]

/-- A byte that is fetched ahead is the current one at the address of the fetch. -/
theorem fetched (h : Tracks start log side) :
    (side.ppu.readPicture side.ppu.fetchAddress side.board).1 =
      start.current log.accesses side.ppu.fetchAddress := by
  have hbelow : side.ppu.fetchAddress < 0x3F00 := by
    have hrange : side.ppu.scroll.address.toNat < 0x4000 := by
      rw [Scroll.address, UInt16.toNat_mod]
      exact Nat.mod_lt _ (by decide)
    rw [Ppu.fetchAddress]
    split
    · next hpalette =>
      have hroom : (0x1000 : UInt16) ≤ side.ppu.scroll.address :=
        UInt16.le_trans (by decide) hpalette
      rw [UInt16.lt_iff_toNat_lt, UInt16.toNat_sub_of_le _ _ hroom]
      change _ - 0x1000 < 0x3F00
      omega
    · next hbelow => exact UInt16.not_le.mp hbelow
  rw [side.readPicture_eq hbelow, h.held]

/-- The byte fetched by a read waits for the next one below palette memory. -/
theorem portByte_delayed (h : Tracks start log side) {between : List PortUse}
    (hquiet : .read ∉ between)
    (hbelow : (side.afterPort (.read :: between)).ppu.scroll.address < 0x3F00) :
    (side.afterPort (.read :: between)).portByte =
      start.current log.accesses side.ppu.fetchAddress := by
  rw [portByte_eq, if_neg (UInt16.not_le.mpr hbelow), afterPort_cons]
  calc
    ((side.afterAll PortUse.read.uses).afterPort between).ppu.readBuffer =
        (side.afterAll PortUse.read.uses).ppu.readBuffer :=
      (h.after .read).afterPort_readBuffer hquiet
    _ = (side.ppu.readPicture side.ppu.fetchAddress side.board).1 := h.read.2
    _ = start.current log.accesses side.ppu.fetchAddress := h.fetched

/-- In palette memory six bits of the byte are the current entry. -/
theorem portByte_palette (h : Tracks start log side) (hpalette : 0x3F00 ≤ log.address) :
    side.portByte % 0x40 = start.current log.accesses log.address := by
  rw [← h.address] at hpalette ⊢
  rw [portByte_eq, if_pos hpalette, side.paletteByte_eq (UInt16.not_lt.mpr hpalette), h.held]

end Tracks

/-- **The data port is coherent.** While nothing is drawn, a program may use the port in any way,
dots in between. A read below palette memory is answered by the next read there, whatever was aimed
at or written meanwhile: with the byte stored last in the cell behind the address of the first. A
read in palette memory gives the entry stored last at once, and the next read below palette memory
gives the nametable byte stored last under the entry. -/
theorem dataPort_coherent {start : PpuSide} (hhidden : start.ppu.mask.rendering = false)
    (hclear : start.ppu.scroll.w = false) (before : List PortUse) {between : List PortUse}
    (hquiet : .read ∉ between) :
    let first := start.portLog before
    let second := start.portLog (before ++ .read :: between)
    let firstByte := (start.afterPort before).portByte
    let secondByte := (start.afterPort (before ++ .read :: between)).portByte
    (first.address < 0x3F00 → second.address < 0x3F00 →
        secondByte = start.current first.accesses first.address) ∧
      (0x3F00 ≤ first.address →
        firstByte % 0x40 = start.current first.accesses first.address ∧
          (second.address < 0x3F00 →
            secondByte = start.current first.accesses (first.address - 0x1000))) := by
  intro first second firstByte secondByte
  have hfirst : Tracks start first (start.afterPort before) :=
    (Tracks.begin hhidden hclear).afterPort before
  have hsecond : Tracks start second (start.afterPort (before ++ .read :: between)) :=
    (Tracks.begin hhidden hclear).afterPort _
  have hdelayed (hbelow : second.address < 0x3F00) :
      secondByte = start.current first.accesses (start.afterPort before).ppu.fetchAddress := by
    rw [← hsecond.address, afterPort_append] at hbelow
    change (start.afterPort (before ++ .read :: between)).portByte = _
    rw [afterPort_append]
    exact hfirst.portByte_delayed hquiet hbelow
  constructor
  · intro hbelow hnext
    rw [hdelayed hnext, Ppu.fetchAddress, hfirst.address, if_neg (UInt16.not_le.mpr hbelow)]
  · intro hpalette
    refine ⟨hfirst.portByte_palette hpalette, fun hnext => ?_⟩
    rw [hdelayed hnext, Ppu.fetchAddress, hfirst.address, if_pos hpalette]

/-- A fresh unit beside a cartridge whose columns of nametables are one. -/
def freshSide : PpuSide := { ppu := {}, board := .ofBytes .nrom #[] #[] .vertical }

/-- A program that stores a nametable byte and a palette entry. -/
def portStores : List PortUse :=
  [.aim 0x23 0x05 3, .write 0x77, .dot, .aim 0x3F 0x10 0, .write 0xE5]

/-- The nametable byte is read through the table below and is still on its way when the program
aims elsewhere. The entry is read through the background palette, without its two highest bits. -/
theorem dataPort_coherent_of_mirrors :
    let delayed := [PortUse.aim 0x2B 0x05 1, .read, .dot, .aim 0x00 0x00 2]
    (freshSide.afterPort (portStores ++ delayed)).portByte = 0x77 ∧
      (freshSide.afterPort (portStores ++ [.aim 0x3F 0x00 0])).portByte % 0x40 = 0x25 := by
  have hhidden : freshSide.ppu.mask.rendering = false := rfl
  have hclear : freshSide.ppu.scroll.w = false := rfl
  have hquiet : PortUse.read ∉ [.dot, .aim 0x00 0x00 2] := by decide
  have hdelayed := dataPort_coherent hhidden hclear (portStores ++ [.aim 0x2B 0x05 1]) hquiet
  have hpalette := dataPort_coherent hhidden hclear (portStores ++ [.aim 0x3F 0x00 0]) hquiet
  exact ⟨hdelayed.1 (by decide) (by decide), (hpalette.2 (by decide)).1⟩

end PpuSide

end Famicom
