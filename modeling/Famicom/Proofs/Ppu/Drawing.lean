import Famicom.Proofs.Ppu.FramePoints
import Famicom.Proofs.Ppu.Position

/-!
# The pixel of a dot

On each dot of the picture the unit puts out one pixel before it does anything else, whether a
layer shows or not, and on no other dot does it put out any. So the frame being drawn changes
in one known point, and the colour found there depends on the unit before the dot.
-/

namespace Famicom

/-- The dots on which a pixel is put out. -/
def Schedule.OnPicture (scanline dot : Nat) : Prop := scanline < 240 ∧ 1 ≤ dot ∧ dot ≤ 256

instance (scanline dot : Nat) : Decidable (Schedule.OnPicture scanline dot) :=
  inferInstanceAs (Decidable (_ ∧ _ ∧ _))

namespace Schedule

/-- The fetches of a tile work on the background alone. -/
theorem fetches_subset (dot : Nat) :
    fetches dot ⊆ [.fetchNametable, .fetchAttribute, .fetchPatternLow, .fetchPatternHigh,
      .loadBackground, .incrementX] := by
  unfold fetches
  split <;> simp

/-- The work at the end of a line returns to the left edge and fetches sprites. -/
theorem lineEnd_subset (dot : Nat) : lineEnd dot ⊆ [.copyHorizontal, .fillSpriteUnit] := by
  unfold lineEnd
  split
  · simp
  · split <;> simp

/-- Besides the fetches and the end of the line, little is done on the line before the picture. -/
theorem not_mem_prerender {operation : DotOperation} {dot : Nat}
    (hfetches : operation ∉ fetches dot) (hlineEnd : operation ∉ lineEnd dot)
    (hother : operation ∉ [.shiftBackground, .incrementY, .copyVertical, .clearFlags]) :
    operation ∉ operations .prerender dot := by
  simp only [List.mem_cons, List.not_mem_nil, or_false, not_or] at hother
  rw [operations]
  split
  · split
    · simp [hfetches, hother]
    · split <;> simp [hfetches, hother]
  · split
    · simp [hfetches, hother]
    · split
      · exact hlineEnd
      · split <;> simp [hlineEnd, hother]

/-- On a dot of the picture the pixel comes first. -/
theorem work_onPicture {scanline dot : Nat} (h : OnPicture scanline dot) :
    ∃ rest, work scanline dot = .renderPixel :: rest ∧ .renderPixel ∉ rest := by
  obtain ⟨hline, hdot⟩ := h
  rw [work, Line.ofScanline, if_pos hline, operations, if_pos hdot]
  refine ⟨_, rfl, ?_⟩
  have hfetches : .renderPixel ∉ fetches dot := fun hmem => by simpa using fetches_subset dot hmem
  split
  · simp [hfetches]
  · split <;> simp [hfetches]

/-- No other dot puts out a pixel. -/
theorem work_of_not_onPicture {scanline dot : Nat} (h : ¬OnPicture scanline dot) :
    .renderPixel ∉ work scanline dot := by
  have hfetches : .renderPixel ∉ fetches dot := fun hmem => by simpa using fetches_subset dot hmem
  have hlineEnd : .renderPixel ∉ lineEnd dot := fun hmem => by simpa using lineEnd_subset dot hmem
  unfold work
  cases hline : Line.ofScanline scanline with
  | visible =>
    have hvisible : scanline < 240 := by
      unfold Line.ofScanline at hline
      split at hline
      · assumption
      · split at hline
        · contradiction
        · split at hline <;> contradiction
    rw [operations, if_neg (fun hdot => h ⟨hvisible, hdot⟩)]
    split
    · simp [hfetches]
    · exact hlineEnd
  | vblankStart =>
    rw [operations]
    split <;> simp
  | prerender => exact not_mem_prerender hfetches hlineEnd (by decide)
  | idle => simp [operations]

end Schedule

namespace Ppu

variable {Bus : Type} [PatternBus Bus]

/-- The colour of the current dot: that of the layers or, while both are hidden, of the backdrop. -/
def colour (ppu : Ppu) : UInt8 :=
  ppu.maskedColour
    (if ppu.mask.rendering then paletteCell ppu.backgroundPixel ppu.spritePixel else ppu.idleCell)

/-- A colour is one of the 64 that the palette has. -/
theorem colour_lt (ppu : Ppu) : ppu.colour < 0x40 := by
  unfold colour maskedColour
  rw [UInt8.lt_iff_toNat_lt]
  dsimp only
  split
  · simp
    omega
  · simp
    omega

/-- A frame keeps a colour whole. -/
theorem colour_mod (ppu : Ppu) : ppu.colour % 0x40 = ppu.colour := by
  have hlt := UInt8.lt_iff_toNat_lt.mp ppu.colour_lt
  apply UInt8.toNat_inj.mp
  rw [UInt8.toNat_mod]
  exact Nat.mod_eq_of_lt hlt

/-- Putting out a pixel sets the point of the current dot to its colour. -/
theorem renderPixel_drawing (ppu : Ppu) :
    ppu.renderPixel.drawing =
      ppu.drawing.set (.ofNat (ppu.dot - 1)) (.ofNat ppu.scanline) ppu.colour := by
  unfold renderPixel colour
  split <;> rfl

/-- Work that puts out no pixel leaves the frame being drawn alone. -/
theorem performAll_drawing {rendering : Bool} {operations : List DotOperation}
    (h : .renderPixel ∉ operations) (ppu : Ppu) (bus : Bus) :
    (performAll rendering operations ppu bus).1.drawing = ppu.drawing := by
  refine performAll_keeps (·.drawing = ppu.drawing) (fun operation hmem _ other bus hkept => ?_)
    rfl bus
  cases operation with
  | renderPixel => exact absurd hmem h
  | _ => exact hkept

/-- The work of a dot sets one point on the picture and none elsewhere. -/
theorem worked_drawing (ppu : Ppu) (bus : Bus) :
    (ppu.worked bus).drawing =
      if Schedule.OnPicture ppu.scanline ppu.dot then
        ppu.drawing.set (.ofNat (ppu.dot - 1)) (.ofNat ppu.scanline) ppu.colour
      else ppu.drawing := by
  rw [worked]
  split
  · next h =>
    obtain ⟨rest, hwork, hrest⟩ := Schedule.work_onPicture h
    rw [hwork]
    exact (performAll_drawing hrest _ _).trans ppu.renderPixel_drawing
  · next h => exact performAll_drawing (Schedule.work_of_not_onPicture h) ppu bus

/-- The work of a dot seen from a point of the picture: the dot at its position gives it a colour,
and all others leave it alone. -/
theorem OnGrid.worked_point {ppu : Ppu} (h : ppu.OnGrid) (bus : Bus) {x y : Nat} (hx : x < 256)
    (hy : y < 240) :
    (ppu.worked bus).drawing.get? (.ofNat x) (.ofNat y) =
      if ppu.position = Schedule.dots * y + (x + 1) then some ppu.colour
      else ppu.drawing.get? (.ofNat x) (.ofNat y) := by
  have hwide : x + 1 < Schedule.dots := by
    rw [Schedule.dots]
    omega
  have hplace : ppu.position = Schedule.dots * y + (x + 1) ↔ ppu.scanline = y ∧ ppu.dot = x + 1 :=
    h.position_eq_iff hwide
  rw [worked_drawing]
  split
  · next hpicture =>
    obtain ⟨hline, hfirst, hlast⟩ := hpicture
    have hpoint : ppu.dot - 1 < 256 := by omega
    have hsame : (ppu.dot - 1 = x ∧ ppu.scanline = y) ↔
        ppu.position = Schedule.dots * y + (x + 1) := by
      rw [hplace]
      omega
    rw [Frame.get?_set_ofNat Frame.screen_fits _ ⟨hpoint, hline⟩ ⟨hx, hy⟩, ppu.colour_mod]
    simp only [hsame]
  · next hpicture =>
    rw [if_neg fun hposition => hpicture ?_]
    obtain ⟨hline, hdot⟩ := hplace.mp hposition
    exact ⟨by omega, by omega, by omega⟩

/-- The two frames after a dot. The last dot of a frame exchanges them. -/
theorem tick_frames (ppu : Ppu) (bus : Bus) :
    (ppu.tick bus).2.1.drawing =
        (if ppu.onLastDot then ppu.frame else (ppu.worked bus).drawing) ∧
      (ppu.tick bus).2.1.frame =
        if ppu.onLastDot then (ppu.worked bus).drawing else ppu.frame := by
  have hsame := ppu.worked_sameOutside bus
  rw [tick_unit, nextDot, hsame.onLastDot, ← hsame.frame]
  split
  · exact ⟨rfl, rfl⟩
  · split <;> exact ⟨rfl, rfl⟩

/-- The last dot of a frame lies behind all points of the picture. -/
theorem position_lt_of_onLastDot {ppu : Ppu} (h : ppu.onLastDot = true) {x y : Nat} (hx : x < 256)
    (hy : y < 240) : Schedule.dots * y + (x + 1) < ppu.position + 1 := by
  have hend := position_of_onLastDot h
  have hskip := ppu.skipsDot.toNat_le
  rw [frameDots_eq] at hend
  rw [Schedule.dots]
  omega

end Ppu

end Famicom
