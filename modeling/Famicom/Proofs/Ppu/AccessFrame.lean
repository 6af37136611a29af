import Famicom.Console.Bus
import Famicom.Proofs.Ppu.Position

/-!
# What a register access leaves alone

Programs reach memories, addresses, toggles and flags. The position in the frame, the two
pixel pipelines and the frames themselves are behind the registers: no access moves them, and
neither does any other use of the console's bus by the processor.
-/

namespace Famicom

namespace Ppu

variable {Bus : Type} [PatternBus Bus]

/-- The parts of the unit that no register access changes. -/
structure SamePicture (before after : Ppu) : Prop where
  scanline : after.scanline = before.scanline
  dot : after.dot = before.dot
  oddFrame : after.oddFrame = before.oddFrame
  frameCount : after.frameCount = before.frameCount
  secondaryOam : after.secondaryOam = before.secondaryOam
  pickedCount : after.pickedCount = before.pickedCount
  pickedZero : after.pickedZero = before.pickedZero
  sprites : after.sprites = before.sprites
  next : after.next = before.next
  shifter : after.shifter = before.shifter
  drawing : after.drawing = before.drawing
  frame : after.frame = before.frame

/-- A unit has its own picture. -/
theorem SamePicture.refl (ppu : Ppu) : SamePicture ppu ppu := by
  constructor <;> rfl

/-- Having the same picture is transitive. -/
theorem SamePicture.trans {first second third : Ppu} (h : SamePicture first second)
    (h' : SamePicture second third) : SamePicture first third := by
  constructor
  · exact h'.scanline.trans h.scanline
  · exact h'.dot.trans h.dot
  · exact h'.oddFrame.trans h.oddFrame
  · exact h'.frameCount.trans h.frameCount
  · exact h'.secondaryOam.trans h.secondaryOam
  · exact h'.pickedCount.trans h.pickedCount
  · exact h'.pickedZero.trans h.pickedZero
  · exact h'.sprites.trans h.sprites
  · exact h'.next.trans h.next
  · exact h'.shifter.trans h.shifter
  · exact h'.drawing.trans h.drawing
  · exact h'.frame.trans h.frame

/-- Units with the same picture are at the same position. -/
theorem SamePicture.position {before after : Ppu} (h : SamePicture before after) :
    after.position = before.position := by
  rw [Ppu.position, Ppu.position, h.scanline, h.dot]

/-- What leaves the picture alone stays on the grid. -/
theorem OnGrid.of_samePicture {before after : Ppu} (h : OnGrid before)
    (hsame : SamePicture before after) : OnGrid after :=
  ⟨hsame.scanline ▸ h.scanline_lt, hsame.dot ▸ h.dot_lt⟩

/-- While both layers are hidden, the picture address moves on by one column or one row. -/
theorem advance_of_hidden {ppu : Ppu} (h : ppu.mask.rendering = false) :
    ppu.advance = { ppu with scroll := ppu.scroll.advance ppu.control.addressStep } := by
  rw [advance, h, Bool.and_false]
  rfl

/-- Moving the picture address on leaves the picture alone. -/
theorem advance_samePicture (ppu : Ppu) : SamePicture ppu ppu.advance := by
  unfold advance
  split <;> constructor <;> rfl

/-- Fetching for the data register leaves the picture alone. -/
theorem fetchAhead_samePicture (ppu : Ppu) (address : UInt16) (bus : Bus) :
    SamePicture ppu (ppu.fetchAhead address bus).1 := by
  constructor <;> rfl

/-- The address that a read of the data register fetches from. -/
def fetchAddress (ppu : Ppu) : UInt16 :=
  if 0x3F00 ≤ ppu.scroll.address then ppu.scroll.address - 0x1000 else ppu.scroll.address

/-- A read of the data register fetches ahead and moves on, whatever it gives. -/
theorem readData_eq (ppu : Ppu) (bus : Bus) :
    ppu.readData bus =
      (if 0x3F00 ≤ ppu.scroll.address then ppu.paletteByte else ppu.readBuffer,
        (ppu.fetchAhead ppu.fetchAddress bus).1.advance,
        (ppu.fetchAhead ppu.fetchAddress bus).2) := by
  unfold readData fetchAddress
  dsimp only
  split <;> rfl

/-- Reading the data register leaves the picture alone. -/
theorem readData_samePicture (ppu : Ppu) (bus : Bus) :
    SamePicture ppu (ppu.readData bus).2.1 := by
  rw [readData_eq]
  exact (fetchAhead_samePicture ppu _ bus).trans (advance_samePicture _)

/-- Storing at a picture address leaves the picture alone. -/
theorem writePicture_samePicture (ppu : Ppu) (address : UInt16) (value : UInt8) (bus : Bus) :
    SamePicture ppu (ppu.writePicture address value bus).1 := by
  unfold writePicture
  split
  · exact .refl ppu
  · split <;> constructor <;> rfl

/-- Reading a register leaves the picture alone. -/
theorem readRegister_samePicture (ppu : Ppu) (address : UInt16) (bus : Bus) :
    SamePicture ppu (ppu.readRegister address bus).2.1 := by
  unfold readRegister
  split
  · constructor <;> rfl
  · constructor <;> rfl
  · exact (readData_samePicture ppu bus).trans (by constructor <;> rfl)
  · exact .refl ppu

/-- Writing a register leaves the picture alone. -/
theorem writeRegister_samePicture (ppu : Ppu) (address : UInt16) (value : UInt8) (bus : Bus) :
    SamePicture ppu (ppu.writeRegister address value bus).1 := by
  have hlines : SamePicture ppu { ppu with lines := value } := by constructor <;> rfl
  refine hlines.trans ?_
  unfold writeRegister
  dsimp only
  split
  case h_7 => exact (writePicture_samePicture _ _ _ _).trans (advance_samePicture _)
  all_goals constructor <;> rfl

/-- Moving the picture address on leaves the flags alone. -/
theorem advance_status (ppu : Ppu) : ppu.advance.status = ppu.status := by
  unfold advance
  split <;> rfl

/-- Reading the data register leaves the flags alone. -/
theorem readData_status (ppu : Ppu) (bus : Bus) : (ppu.readData bus).2.1.status = ppu.status := by
  rw [readData_eq]
  exact advance_status _

/-- A read of the status ends vertical blank, and no read moves a flag otherwise. -/
theorem readRegister_status (ppu : Ppu) (address : UInt16) (bus : Bus) :
    (ppu.readRegister address bus).2.1.status =
      if address % 8 = 2 then { ppu.status with vblank := false } else ppu.status := by
  have htwo : address % 8 = 2 ↔ (address % 8).toNat = 2 := UInt16.toNat_inj.symm
  unfold readRegister
  split
  · next h => rw [if_pos (htwo.mpr h)]; rfl
  · next h => rw [if_neg (by rw [htwo, h]; decide)]
  · next h => rw [if_neg (by rw [htwo, h]; decide)]; exact readData_status ppu bus
  · next h _ _ => rw [if_neg (fun heq => h (htwo.mp heq))]

/-- Storing at a picture address leaves the flags alone. -/
theorem writePicture_status (ppu : Ppu) (address : UInt16) (value : UInt8) (bus : Bus) :
    (ppu.writePicture address value bus).1.status = ppu.status := by
  unfold writePicture
  split
  · rfl
  · split <;> rfl

/-- No write moves a flag. -/
theorem writeRegister_status (ppu : Ppu) (address : UInt16) (value : UInt8) (bus : Bus) :
    (ppu.writeRegister address value bus).1.status = ppu.status := by
  unfold writeRegister
  dsimp only
  split
  case h_7 => exact (advance_status _).trans (writePicture_status _ _ _ _)
  all_goals rfl

end Ppu

namespace ConsoleBus

/-- A read by the processor leaves the picture alone. -/
theorem read_samePicture (bus : ConsoleBus) (address : UInt16) :
    bus.ppu.SamePicture (bus.read address).2.ppu := by
  unfold read
  split
  case h_2 => exact bus.ppu.readRegister_samePicture address bus.board
  all_goals exact .refl bus.ppu

/-- A write by the processor leaves the picture alone. -/
theorem write_samePicture (bus : ConsoleBus) (address : UInt16) (value : UInt8) :
    bus.ppu.SamePicture (bus.write address value).ppu := by
  unfold write
  split
  case h_2 => exact bus.ppu.writeRegister_samePicture address value bus.board
  all_goals exact .refl bus.ppu

/-- Storing a byte of a transfer leaves the picture alone. -/
theorem writeOam_samePicture (bus : ConsoleBus) (value : UInt8) :
    bus.ppu.SamePicture (bus.writeOam value).ppu := by
  constructor <;> rfl

end ConsoleBus

end Famicom
