import Famicom.Proofs.Ppu.AccessFrame
import Famicom.Proofs.Safety.Bus

/-!
# What registers do not see

An access reads and moves the registers, the memories and the picture address. The position, the
pixel pipelines and the frames are behind the registers: an access does the same whatever they are,
but that a data access asks whether the line fetches. Whether vertical blank has begun is seen by a
read of the status alone. So the parts behind the registers can be exchanged before an access or
after it.
-/

namespace Famicom.Ppu

/-- The registers and memories of a unit with the picture of another one, after vertical blank may
have begun. -/
def behind (ppu picture : Ppu) (begins : Bool) : Ppu :=
  { ppu with
    scanline := picture.scanline
    dot := picture.dot
    oddFrame := picture.oddFrame
    frameCount := picture.frameCount
    secondaryOam := picture.secondaryOam
    pickedCount := picture.pickedCount
    pickedZero := picture.pickedZero
    sprites := picture.sprites
    next := picture.next
    shifter := picture.shifter
    drawing := picture.drawing
    frame := picture.frame
    status := { ppu.status with vblank := begins || ppu.status.vblank }
    nmi := if begins then ppu.nmi.on .vblankSet else ppu.nmi }

variable {picture : Ppu} (begins : Bool)

/-- Two units with the same picture are exchanged for each other. -/
theorem behind_congr {before after : Ppu} (hsame : before.SamePicture after) (ppu : Ppu) :
    ppu.behind after begins = ppu.behind before begins := by
  simp only [behind, hsame.scanline, hsame.dot, hsame.oddFrame, hsame.frameCount,
    hsame.secondaryOam, hsame.pickedCount, hsame.pickedZero, hsame.sprites, hsame.next,
    hsame.shifter, hsame.drawing, hsame.frame]

/-- A data access moves the picture address alike before two pictures, if both or neither of their
lines fetch. -/
theorem advance_behind {ppu : Ppu} (hline : picture.onFetchingLine = ppu.onFetchingLine) :
    (ppu.behind picture begins).advance = ppu.advance.behind picture begins := by
  change (if picture.onFetchingLine && ppu.mask.rendering then _ else _) = _
  rw [hline, advance]
  split <;> rfl

/-- A read of the data register gives the same byte before two pictures. -/
theorem readData_behind {ppu : Ppu} (hline : picture.onFetchingLine = ppu.onFetchingLine)
    (board : Board) :
    (ppu.behind picture begins).readData board =
      ((ppu.readData board).1, (ppu.readData board).2.1.behind picture begins,
        (ppu.readData board).2.2) := by
  have hmoved : ((ppu.fetchAhead ppu.fetchAddress board).1.behind picture begins).advance =
      (ppu.fetchAhead ppu.fetchAddress board).1.advance.behind picture begins :=
    advance_behind begins hline
  rw [readData_eq, readData_eq]
  exact congrArg (Prod.mk _ <| Prod.mk · _) hmoved

/-- A read gives the same byte before two pictures and has the same effect. That vertical blank has
begun is seen by a read of the status alone. -/
theorem readRegister_behind {ppu : Ppu} (address : UInt16)
    (hstatus : address % 8 ≠ 2 ∨ begins = false)
    (hline : picture.onFetchingLine = ppu.onFetchingLine) (board : Board) :
    (ppu.behind picture begins).readRegister address board =
      ((ppu.readRegister address board).1,
        (ppu.readRegister address board).2.1.behind picture begins,
        (ppu.readRegister address board).2.2) := by
  have hregister := register_cases address
  have hstatus' : (address % 8).toNat = 2 → begins = false := by
    intro htwo
    apply hstatus.resolve_left
    intro hother
    exact hother (UInt16.toNat_inj.mp htwo)
  unfold readRegister
  generalize (address % 8).toNat = register at hregister hstatus'
  obtain rfl | rfl | rfl | rfl | rfl | rfl | rfl | rfl := hregister
  case inr.inr.inl =>
    rw [hstatus' rfl]
    rfl
  case inr.inr.inr.inr.inr.inr.inr =>
    simp only [readData_behind begins hline]
    rfl
  all_goals rfl

/-- Storing at a picture address does the same before every picture. -/
theorem writePicture_behind (ppu : Ppu) (address : UInt16) (value : UInt8) (board : Board) :
    (ppu.behind picture begins).writePicture address value board =
      ((ppu.writePicture address value board).1.behind picture begins,
        (ppu.writePicture address value board).2) := by
  unfold writePicture
  split
  · rfl
  · split <;> rfl

/-- The choice whether vertical blank is announced does not see whether it has begun. -/
theorem writeControl_behind (ppu : Ppu) (value : UInt8) :
    (ppu.behind picture begins).writeControl value =
      (ppu.writeControl value).behind picture begins := by
  have hbefore : (ppu.behind picture begins).control.nmiEnabled = ppu.control.nmiEnabled := rfl
  unfold writeControl
  dsimp only
  rw [hbefore]
  cases begins <;> cases ppu.control.nmiEnabled <;>
    cases Control.nmiEnabled { bits := value } <;> rfl

/-- A write has the same effect before two pictures. -/
theorem writeRegister_behind {ppu : Ppu} (hline : picture.onFetchingLine = ppu.onFetchingLine)
    (address : UInt16) (value : UInt8) (board : Board) :
    (ppu.behind picture begins).writeRegister address value board =
      ((ppu.writeRegister address value board).1.behind picture begins,
        (ppu.writeRegister address value board).2) := by
  have hregister := register_cases address
  unfold writeRegister
  generalize (address % 8).toNat = register at hregister
  obtain rfl | rfl | rfl | rfl | rfl | rfl | rfl | rfl := hregister
  case inl =>
    exact congrArg (·, board) (writeControl_behind begins { ppu with lines := value } value)
  case inr.inr.inr.inr.inr.inr.inr =>
    let seen : Ppu := { ppu with lines := value }
    let address := ppu.scroll.address
    have hscanline := (seen.writePicture_samePicture address value board).scanline
    have hline' : picture.onFetchingLine =
        (seen.writePicture address value board).1.onFetchingLine := by
      rw [hline, onFetchingLine, onFetchingLine, hscanline]
    have hmoved := advance_behind begins hline'
    have hstored : (seen.behind picture begins).writePicture address value board =
        ((seen.writePicture address value board).1.behind picture begins,
          (seen.writePicture address value board).2) :=
      writePicture_behind begins seen address value board
    change (((seen.behind picture begins).writePicture address value board).1.advance,
      ((seen.behind picture begins).writePicture address value board).2) = _
    rw [hstored, hmoved]
    rfl
  all_goals rfl

end Famicom.Ppu
