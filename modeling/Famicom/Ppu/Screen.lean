import Famicom.Fault
import Famicom.Ppu.Palette

/-!
# Frames

A picture as colour numbers, row after row. Points outside the picture cannot be set and have
no colour. Sizes and places are machine words, so a picture too large for a word has fewer cells
than points. To reach a point whose place is none of the cells is a fault.
-/

namespace Famicom

/-- A picture of `width` by `height` colour numbers. -/
structure Frame (width height : UInt64) where
  /-- The colour numbers, row after row. -/
  cells : Vector UInt8 (width * height).toNat
deriving DecidableEq

namespace Frame

variable {width height : UInt64}

/-- A picture in colour 0. -/
def blank (width height : UInt64) : Frame width height :=
  ⟨Vector.replicate (width * height).toNat 0⟩

/-- The place among the cells of the point in column `x` of row `y`. -/
def place (width x y : UInt64) : UInt64 := y * width + x

/-- Set the point in column `x` of row `y` to the low six bits of `colour`. -/
def set (frame : Frame width height) (x y : UInt64) (colour : UInt8) : Frame width height :=
  if x < width ∧ y < height then
    ⟨frame.cells.setIfInBounds (place width x y).toNat (colour % 0x40)⟩
  else frame

/-- The colour number in column `x` of row `y`, none outside the picture. -/
def get? (frame : Frame width height) (x y : UInt64) : Option UInt8 :=
  if x < width ∧ y < height then frame.cells[(place width x y).toNat]? else none

/-- Look for the cell of a point. It is a fault if one inside has none. -/
def reach (width height x y : UInt64) : Checked Unit :=
  if x < width ∧ y < height ∧ width * height ≤ place width x y then
    .error (.index (place width x y).toNat (width * height).toNat)
  else .ok ()

/-- Set a point, with a fault where its cell is missing. -/
def setPoint (frame : Frame width height) (x y : UInt64) (colour : UInt8) :
    Checked (Frame width height) := do
  reach width height x y
  return frame.set x y colour

/-- The colour number of a point, with a fault where its cell is missing. -/
def point (frame : Frame width height) (x y : UInt64) : Checked (Option UInt8) := do
  reach width height x y
  return frame.get? x y

/-- The picture as red, green and blue bytes. -/
def toRgb (frame : Frame width height) : List UInt8 :=
  frame.cells.toList.flatMap fun index =>
    let colour := Palette.colour index
    [colour.red, colour.green, colour.blue]

end Frame

/-- A picture of the size of the screen. -/
abbrev Screen := Frame 256 240

end Famicom
