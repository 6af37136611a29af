import Famicom.Proofs.Ppu.AccessFrame
import Famicom.Proofs.Safety.Dots

/-!
# Checked bus

Register accesses and all other accesses to the console's bus, with every index, difference and
sum checked, and the branch for a register that does not exist marked as one. Programs move the
picture address, the mask and the size of sprites at any dot, but neither the position nor the
counts of sprites, so that an access keeps all that dots need.
-/

namespace Famicom

open Checked

namespace Ppu

/-- The byte at object memory's position, checked. -/
def oamByteChecked (ppu : Ppu) : Checked UInt8 := do
  let value ← ppu.oam.getChecked ppu.oamAddress.toNat
  .ok (if ppu.oamAddress % 4 = 2 then value / 0x20 * 0x20 + value % 4 else value)

theorem oamByteChecked_eq (ppu : Ppu) : ppu.oamByteChecked = .ok ppu.oamByte := by
  rw [oamByteChecked, ppu.oam.getChecked_eq ppu.oamAddress.toNat_lt]
  rfl

/-- Store a byte in object memory, checked. -/
def writeOamChecked (ppu : Ppu) (value : UInt8) : Checked Ppu := do
  let oam ← ppu.oam.setChecked ppu.oamAddress.toNat value
  .ok { ppu with oam, oamAddress := ppu.oamAddress + 1 }

theorem writeOamChecked_eq (ppu : Ppu) (value : UInt8) :
    ppu.writeOamChecked value = .ok (ppu.writeOam value) := by
  rw [writeOamChecked, ppu.oam.setChecked_eq ppu.oamAddress.toNat_lt]
  rfl

/-- The palette entry at a picture address, checked. -/
def paletteEntryChecked (ppu : Ppu) (address : UInt16) : Checked UInt8 := do
  let cell ← Palette.cellChecked address.toNat
  ppu.palette.getChecked cell

theorem paletteEntryChecked_eq (ppu : Ppu) (address : UInt16) :
    ppu.paletteEntryChecked address = .ok (ppu.paletteEntry address) := by
  rw [paletteEntryChecked, Palette.cellChecked_eq, ok_bind,
    ppu.palette.getChecked_eq (Palette.cell_lt _)]
  rfl

/-- The palette entry that the data register shows, checked. -/
def paletteByteChecked (ppu : Ppu) : Checked UInt8 := do
  let entry ← ppu.paletteEntryChecked ppu.scroll.address
  .ok (entry ||| (ppu.lines / 0x40 * 0x40))

theorem paletteByteChecked_eq (ppu : Ppu) : ppu.paletteByteChecked = .ok ppu.paletteByte := by
  rw [paletteByteChecked, paletteEntryChecked_eq, ok_bind]
  rfl

/-- The byte at a picture address below palette memory, checked. -/
def readPictureChecked (ppu : Ppu) (address : UInt16) (board : Board) : Checked UInt8 :=
  if address < 0x2000 then board.readPatternChecked address
  else ppu.nametableByteChecked board.wiring address

/-- Store a byte at a picture address, checked. -/
def writePictureChecked (ppu : Ppu) (address : UInt16) (value : UInt8) (board : Board) :
    Checked (Ppu × Board) :=
  if address < 0x2000 then do
    let board ← board.writePatternChecked address value
    .ok (ppu, board)
  else if address < 0x3F00 then do
    let cell ← board.wiring.cellChecked address.toNat
    let vram ← ppu.vram.setChecked cell value
    .ok ({ ppu with vram }, board)
  else do
    let cell ← Palette.cellChecked address.toNat
    let palette ← ppu.palette.setChecked cell (value % 0x40)
    .ok ({ ppu with palette }, board)

theorem writePictureChecked_eq (ppu : Ppu) (address : UInt16) (value : UInt8) (board : Board) :
    ppu.writePictureChecked address value board =
      .ok (ppu.writePicture address value board) := by
  unfold writePictureChecked writePicture
  split
  · rw [board.writePatternChecked_eq, ok_bind]
    rfl
  · split
    · rw [Wiring.cellChecked_eq, ok_bind, ppu.vram.setChecked_eq (board.wiring.cell_lt _)]
      rfl
    · rw [Palette.cellChecked_eq, ok_bind, ppu.palette.setChecked_eq (Palette.cell_lt _)]
      rfl

/-- Move the picture address on after a data access, checked. -/
def advanceChecked (ppu : Ppu) : Checked Ppu :=
  if ppu.onFetchingLine && ppu.mask.rendering then do
    let v ← PictureAddress.incrementXChecked ppu.scroll.v
    let v ← PictureAddress.incrementYChecked v
    .ok { ppu with scroll := { ppu.scroll with v } }
  else .ok { ppu with scroll := ppu.scroll.advance ppu.control.addressStep }

theorem advanceChecked_eq (ppu : Ppu) : ppu.advanceChecked = .ok ppu.advance := by
  rw [advanceChecked, PictureAddress.incrementXChecked_eq, ok_bind,
    PictureAddress.incrementYChecked_eq, ok_bind, advance, apply_ite Except.ok]
  rfl

/-- Read the data register, checked. -/
def readDataChecked (ppu : Ppu) (board : Board) : Checked (UInt8 × Ppu) := do
  let address := ppu.scroll.address
  if 0x3F00 ≤ address then
    let fetched ← ppu.readPictureChecked (address - 0x1000) board
    let ppu := { ppu with readBuffer := fetched }
    let value ← ppu.paletteByteChecked
    let ppu ← ppu.advanceChecked
    .ok (value, ppu)
  else
    let buffered := ppu.readBuffer
    let fetched ← ppu.readPictureChecked address board
    let ppu ← { ppu with readBuffer := fetched }.advanceChecked
    .ok (buffered, ppu)

/-- Read a register, checked. -/
def readRegisterChecked (ppu : Ppu) (address : UInt16) (board : Board) : Checked (UInt8 × Ppu) :=
  match (address % 8).toNat with
  | 2 =>
    let value := ppu.statusByte
    .ok (value, { ppu.acknowledge with lines := value })
  | 4 => do
    let value ← ppu.oamByteChecked
    .ok (value, { ppu with lines := value })
  | 7 => do
    let (value, ppu) ← ppu.readDataChecked board
    .ok (value, { ppu with lines := value })
  | _ => .ok (ppu.lines, ppu)

/-- Write a register, checked. There are eight of them. -/
def writeRegisterChecked (ppu : Ppu) (address : UInt16) (value : UInt8) (board : Board) :
    Checked (Ppu × Board) :=
  let ppu := { ppu with lines := value }
  match (address % 8).toNat with
  | 0 => .ok (ppu.writeControl value, board)
  | 1 => .ok ({ ppu with mask := { bits := value } }, board)
  | 2 => .ok (ppu, board)
  | 3 => .ok ({ ppu with oamAddress := value }, board)
  | 4 => do
    let ppu ← ppu.writeOamChecked value
    .ok (ppu, board)
  | 5 => .ok ({ ppu with scroll := ppu.scroll.writeScroll value }, board)
  | 6 => .ok ({ ppu with scroll := ppu.scroll.writeAddress value }, board)
  | 7 => do
    let (ppu, board) ← ppu.writePictureChecked ppu.scroll.address value board
    let ppu ← ppu.advanceChecked
    .ok (ppu, board)
  | _ => .error .unreachable

section Board

variable {board : Board}

theorem readPictureChecked_eq (ppu : Ppu) (h : board.Sound) (address : UInt16) :
    ppu.readPictureChecked address board = .ok (ppu.readPicture address board).1 := by
  rw [readPictureChecked, board.readPatternChecked_eq h, nametableByteChecked_eq, readPicture,
    apply_ite Prod.fst, apply_ite Except.ok]
  rfl

/-- Reading the picture does not change a board. -/
theorem readPicture_board (ppu : Ppu) (address : UInt16) (board : Board) :
    (ppu.readPicture address board).2 = board := by
  unfold readPicture
  split <;> rfl

theorem readDataChecked_eq (ppu : Ppu) (h : board.Sound) :
    ppu.readDataChecked board = .ok ((ppu.readData board).1, (ppu.readData board).2.1) := by
  unfold readDataChecked readData
  simp only [paletteByteChecked_eq, readPictureChecked_eq ppu h, advanceChecked_eq, ok_bind]
  split <;> rfl

/-- There are eight registers. -/
theorem register_cases (address : UInt16) :
    (address % 8).toNat = 0 ∨ (address % 8).toNat = 1 ∨ (address % 8).toNat = 2 ∨
      (address % 8).toNat = 3 ∨ (address % 8).toNat = 4 ∨ (address % 8).toNat = 5 ∨
      (address % 8).toNat = 6 ∨ (address % 8).toNat = 7 := by
  have hlt : (address % 8).toNat < 8 := by
    rw [UInt16.toNat_mod]
    exact Nat.mod_lt _ (by decide)
  omega

theorem readRegisterChecked_eq (ppu : Ppu) (h : board.Sound) (address : UInt16) :
    ppu.readRegisterChecked address board =
      .ok ((ppu.readRegister address board).1, (ppu.readRegister address board).2.1) := by
  have hregister := register_cases address
  unfold readRegisterChecked readRegister
  generalize (address % 8).toNat = register at hregister
  obtain rfl | rfl | rfl | rfl | rfl | rfl | rfl | rfl := hregister
  case inr.inr.inr.inr.inl =>
    dsimp only
    rw [oamByteChecked_eq]
    rfl
  case inr.inr.inr.inr.inr.inr.inr =>
    dsimp only
    rw [readDataChecked_eq ppu h]
    rfl
  all_goals rfl

/-- Reading the data register does not change a board. -/
theorem readData_board (ppu : Ppu) (board : Board) : (ppu.readData board).2.2 = board := by
  rw [readData_eq]
  exact ppu.readPicture_board _ board

/-- Reading a register does not change a board. -/
theorem readRegister_board (ppu : Ppu) (address : UInt16) (board : Board) :
    (ppu.readRegister address board).2.2 = board := by
  unfold readRegister
  split
  case h_3 => exact ppu.readData_board board
  all_goals rfl

theorem writeRegisterChecked_eq (ppu : Ppu) (address : UInt16) (value : UInt8) (board : Board) :
    ppu.writeRegisterChecked address value board =
      .ok (ppu.writeRegister address value board) := by
  have hregister := register_cases address
  unfold writeRegisterChecked writeRegister
  generalize (address % 8).toNat = register at hregister
  obtain rfl | rfl | rfl | rfl | rfl | rfl | rfl | rfl := hregister
  case inr.inr.inr.inr.inl =>
    dsimp only
    rw [writeOamChecked_eq]
    rfl
  case inr.inr.inr.inr.inr.inr.inr =>
    dsimp only
    rw [writePictureChecked_eq, ok_bind, advanceChecked_eq]
    rfl
  all_goals rfl

/-- Storing at a picture address keeps a board sound. -/
theorem writePicture_board (ppu : Ppu) (h : board.Sound) (address : UInt16) (value : UInt8) :
    (ppu.writePicture address value board).2.Sound := by
  unfold writePicture
  split
  · exact h.writePattern address value
  · split <;> exact h

/-- Writing a register keeps a board sound. -/
theorem writeRegister_board (ppu : Ppu) (h : board.Sound) (address : UInt16) (value : UInt8) :
    (ppu.writeRegister address value board).2.Sound := by
  unfold writeRegister
  dsimp only
  split
  case h_7 => exact writePicture_board _ h _ _
  all_goals exact h

end Board

/-- What no access moves is all that a sound unit needs. -/
theorem SamePicture.sound {before after : Ppu} (hsame : SamePicture before after)
    (h : before.Sound) : after.Sound := by
  obtain ⟨⟨hscanline, hdot⟩, hpicked, hunits⟩ := h
  refine ⟨⟨?_, ?_⟩, ?_, ?_⟩
  · rwa [hsame.scanline]
  · rwa [hsame.dot]
  · rwa [hsame.pickedCount]
  · rwa [hsame.sprites]

end Ppu

/-- A bus with a sound unit and a sound board. -/
structure ConsoleBus.Sound (bus : ConsoleBus) : Prop where
  ppu : bus.ppu.Sound
  board : bus.board.Sound

namespace ConsoleBus

/-- A read by the processor, checked. -/
def readChecked (bus : ConsoleBus) (address : UInt16) : Checked (UInt8 × ConsoleBus) :=
  match Region.of address with
  | .ram => do
    let value ← bus.ram.getChecked (address.toNat % 0x800)
    .ok (value, { bus with openBus := value })
  | .ppu => do
    let (value, ppu) ← bus.ppu.readRegisterChecked address bus.board
    .ok (value, { bus with ppu, openBus := value })
  | .latches => .ok (bus.openBus, bus)
  | .cartridge => do
    let answer ← bus.board.readChecked address
    let value := answer.getD bus.openBus
    .ok (value, { bus with openBus := value })

/-- A write by the processor, checked. -/
def writeChecked (bus : ConsoleBus) (address : UInt16) (value : UInt8) : Checked ConsoleBus :=
  match Region.of address with
  | .ram => do
    let ram ← bus.ram.setChecked (address.toNat % 0x800) value
    .ok { bus with ram }
  | .ppu => do
    let (ppu, board) ← bus.ppu.writeRegisterChecked address value bus.board
    .ok { bus with ppu, board }
  | .latches => do
    let cell ← difference address.toNat 0x4000
    let latches ← bus.latches.setChecked cell value
    .ok { bus with
      latches
      dmaPage := if address = dmaRegister then some value else bus.dmaPage }
  | .cartridge => do
    let board ← bus.board.writeChecked address value
    .ok { bus with board }

variable {bus : ConsoleBus}

/-- The latches lie behind the registers. -/
theorem le_of_latches {address : UInt16} (h : Region.of address = .latches) :
    0x4000 ≤ address.toNat ∧ address.toNat < 0x4020 := by
  unfold Region.of at h
  split at h
  · cases h
  · split at h
    · cases h
    · next hlower =>
      split at h
      · next hupper =>
        exact ⟨UInt16.le_iff_toNat_le.mp (UInt16.not_lt.mp hlower),
          UInt16.lt_iff_toNat_lt.mp hupper⟩
      · cases h

theorem readChecked_eq (h : bus.Sound) (address : UInt16) :
    bus.readChecked address = .ok (bus.read address) := by
  unfold readChecked read
  cases hregion : Region.of address with
  | ram =>
    have hread : bus.ram.getChecked (address.toNat % 0x800) = .ok (bus.ram.get address.toNat) :=
      bus.ram.getChecked_mod address.toNat
    dsimp only
    rw [hread, ok_bind]
  | ppu =>
    have hboard := bus.ppu.readRegister_board address bus.board
    dsimp only
    rw [bus.ppu.readRegisterChecked_eq h.board, ok_bind, hboard]
  | latches => rfl
  | cartridge =>
    dsimp only
    rw [bus.board.readChecked_eq h.board, ok_bind]

theorem writeChecked_eq (bus : ConsoleBus) (address : UInt16) (value : UInt8) :
    bus.writeChecked address value = .ok (bus.write address value) := by
  unfold writeChecked write
  cases hregion : Region.of address with
  | ram =>
    have hwrite : bus.ram.setChecked (address.toNat % 0x800) value =
        .ok (bus.ram.set address.toNat value) :=
      bus.ram.setChecked_mod address.toNat value
    dsimp only
    rw [hwrite, ok_bind]
  | ppu =>
    dsimp only
    rw [bus.ppu.writeRegisterChecked_eq]
    rfl
  | latches =>
    obtain ⟨hlower, hupper⟩ := le_of_latches hregion
    have hcell : address.toNat - 0x4000 < chipSize 5 := by
      change address.toNat - 0x4000 < 32
      omega
    have hsame : (address.toNat - 0x4000) % chipSize 5 = address.toNat % chipSize 5 := by
      change (address.toNat - 0x4000) % 32 = address.toNat % 32
      omega
    dsimp only
    rw [difference_eq hlower, ok_bind, bus.latches.setChecked_eq hcell, ok_bind,
      bus.latches.set_congr hsame]
  | cartridge =>
    dsimp only
    rw [bus.board.writeChecked_eq, ok_bind]

/-- A read keeps a bus sound. -/
theorem Sound.read (h : bus.Sound) (address : UInt16) : (bus.read address).2.Sound := by
  refine ⟨(bus.read_samePicture address).sound h.ppu, ?_⟩
  have hboard : (bus.read address).2.board = bus.board := by
    unfold ConsoleBus.read
    split
    case h_2 => exact bus.ppu.readRegister_board address bus.board
    all_goals rfl
  rw [hboard]
  exact h.board

/-- A write keeps a bus sound. -/
theorem Sound.write (h : bus.Sound) (address : UInt16) (value : UInt8) :
    (bus.write address value).Sound := by
  refine ⟨(bus.write_samePicture address value).sound h.ppu, ?_⟩
  unfold ConsoleBus.write
  split
  case h_2 => exact bus.ppu.writeRegister_board h.board address value
  case h_4 => exact h.board.write address value
  all_goals exact h.board

/-- Let the picture unit work through a number of dots, checked. -/
def runPpuChecked (bus : ConsoleBus) (dots : Nat) : Checked (Bool × ConsoleBus) := do
  let (frames, ppu) ← bus.ppu.runChecked dots bus.board
  .ok (decide (0 < frames), { bus with ppu })

theorem runPpuChecked_eq (h : bus.Sound) (dots : Nat) :
    bus.runPpuChecked dots = .ok (bus.runPpu dots) := by
  have hboard := (h.ppu.runFrom 0 dots bus.board).2
  rw [runPpuChecked, Ppu.runChecked_eq h.ppu h.board, ok_bind, runPpu]
  dsimp only [Ppu.run]
  rw [hboard]

/-- Dots keep a bus sound. -/
theorem Sound.runPpu (h : bus.Sound) (dots : Nat) : (bus.runPpu dots).2.Sound := by
  obtain ⟨hppu, hboard⟩ := h.ppu.runFrom 0 dots bus.board
  refine ⟨hppu, ?_⟩
  change (Ppu.runFrom 0 dots bus.ppu bus.board).2.2.Sound
  rw [hboard]
  exact h.board

/-- Storing a byte of a transfer keeps a bus sound. -/
theorem Sound.writeOam (h : bus.Sound) (value : UInt8) : (bus.writeOam value).Sound :=
  ⟨(bus.writeOam_samePicture value).sound h.ppu, h.board⟩

/-- Store a byte of a transfer in object memory, checked. -/
def writeOamChecked (bus : ConsoleBus) (value : UInt8) : Checked ConsoleBus := do
  let ppu ← bus.ppu.writeOamChecked value
  .ok { bus with ppu }

theorem writeOamChecked_eq (bus : ConsoleBus) (value : UInt8) :
    bus.writeOamChecked value = .ok (bus.writeOam value) := by
  rw [writeOamChecked, Ppu.writeOamChecked_eq]
  rfl

/-- A unit that has been reset is sound. -/
theorem sound_reset (h : bus.board.Sound) : bus.reset.Sound :=
  ⟨⟨⟨(by decide : 0 < Schedule.scanlines), (by decide : 0 < Schedule.dots)⟩,
    Nat.zero_le 8, Nat.zero_le 8⟩, h⟩

end ConsoleBus

end Famicom
