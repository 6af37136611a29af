import Famicom.Proofs.Ppu.BehindRegisters
import Famicom.Proofs.Ppu.Drawing
import Famicom.Proofs.Ppu.SpriteSearch

/-!
# What a reset leaves behind

A reset of the unit keeps the frames, their count and the second memory of the sprite search. None
of them matters to what the unit does later. The second memory is read only in places to which
sprites have been copied since, however rendering is turned on and off between the search and the
fetching. And a frame is shown only when all of it has been drawn. So two units that differ in
these leftovers alone go the same way, and show the same frames as soon as the next one is
completed.
-/

namespace Famicom

/-- What a reset of the picture unit keeps besides the memories that programs fill. -/
structure Leftovers where
  /-- Frames completed since power-on. -/
  frameCount : Nat
  /-- Sprites picked for some line. -/
  secondaryOam : Memory 5
  /-- A frame drawn in part. -/
  drawing : Screen
  /-- The last completed frame. -/
  frame : Screen

namespace Ppu

/-- The leftovers in a unit. -/
def leftovers (ppu : Ppu) : Leftovers :=
  { frameCount := ppu.frameCount
    secondaryOam := ppu.secondaryOam
    drawing := ppu.drawing
    frame := ppu.frame }

/-- A unit with other leftovers. -/
def withLeftovers (ppu : Ppu) (leftovers : Leftovers) : Ppu :=
  { ppu with
    frameCount := leftovers.frameCount
    secondaryOam := leftovers.secondaryOam
    drawing := leftovers.drawing
    frame := leftovers.frame }

/-- How many places of the second memory may still be read. -/
def places (ppu : Ppu) : Nat := max ppu.pickedCount ppu.sprites.count

/-- Two units that differ in leftovers alone, with second memories that agree where they are
read. -/
structure Close (left right : Ppu) : Prop where
  same : right = left.withLeftovers right.leftovers
  secondary : ∀ cell < 4 * left.places, right.secondaryOam.get cell = left.secondaryOam.get cell

variable {left right : Ppu}

/-- Units that differ in leftovers alone are at the same dot. -/
theorem Close.dot (h : left.Close right) : right.dot = left.dot := by
  rw [h.same]
  rfl

/-- Units that differ in leftovers alone are on the last dot together. -/
theorem Close.onLastDot (h : left.Close right) : right.onLastDot = left.onLastDot := by
  rw [h.same]
  rfl

/-- Units that differ in leftovers alone fetch on the same lines. -/
theorem Close.onFetchingLine (h : left.Close right) :
    right.onFetchingLine = left.onFetchingLine := by
  rw [h.same]
  rfl

/-- Units that differ in leftovers alone put out the same colour. -/
theorem Close.colour (h : left.Close right) : right.colour = left.colour := by
  rw [h.same]
  rfl

/-- Both units put out a pixel of the same colour, and the first sprites meet the background
alike. -/
theorem Close.renderPixel (h : left.Close right) : left.renderPixel.Close right.renderPixel := by
  refine ⟨?_, ?_⟩
  · rw [h.same]
    generalize right.leftovers = leftovers
    have hmask : (left.withLeftovers leftovers).mask = left.mask := rfl
    unfold Ppu.renderPixel
    rw [hmask]
    split <;> rfl
  · obtain ⟨drawing, hit, hleft⟩ := left.renderPixel_eq
    obtain ⟨drawing', hit', hright⟩ := right.renderPixel_eq
    rw [hleft, hright]
    exact h.secondary

/-- Both searches find the same sprites. -/
theorem Close.evaluateSprites (h : left.Close right) :
    left.evaluateSprites.Close right.evaluateSprites := by
  have hstart : Sprite.Evaluation.Close left.sprites.count
      { secondary := left.secondaryOam } { secondary := right.secondaryOam } := by
    refine ⟨rfl, rfl, rfl, Nat.zero_le _, fun cell hcell => h.secondary cell ?_⟩
    rw [places]
    dsimp only at hcell
    omega
  have hfound := hstart.search left.oam left.scanline left.control.spriteHeight Sprite.total
  have hright : right.evaluateSprites =
      let found := Sprite.search left.oam left.scanline left.control.spriteHeight Sprite.total
        { secondary := right.secondaryOam }
      { right with
        secondaryOam := found.secondary
        pickedCount := found.found
        pickedZero := found.zero
        status := { right.status with
          spriteOverflow := right.status.spriteOverflow || found.overflow } } := by
    rw [Ppu.evaluateSprites, Sprite.evaluate, h.same]
    rfl
  have hcells := hfound.secondary
  rw [hright]
  generalize Sprite.search left.oam left.scanline left.control.spriteHeight Sprite.total
    { secondary := right.secondaryOam } = found at *
  refine ⟨?_, hcells⟩
  dsimp only
  rw [hfound.found, hfound.zero, hfound.overflow, h.same]
  rfl

/-- Both units fetch the same sprite. -/
theorem Close.fillSpriteUnit (h : left.Close right) (slot : Fin 8) (board : Board) :
    (left.fillSpriteUnit slot board).1.Close (right.fillSpriteUnit slot board).1 := by
  obtain ⟨hsprites, hcontrol, hline⟩ : right.spritesFrom slot = left.spritesFrom slot ∧
      right.control = left.control ∧ right.scanline = left.scanline := by
    rw [h.same]
    exact ⟨rfl, rfl, rfl⟩
  have hcount : (left.spritesFrom slot).count ≤ left.places := by
    rw [places]
    unfold spritesFrom
    split
    · exact Nat.le_max_left _ _
    · exact Nat.le_max_right _ _
  -- a slot that is in use was filled by the last search, and no other one is read
  have hcells (hslot : slot.val < (left.spritesFrom slot).count) (byte : Nat) (hbyte : byte < 4) :
      right.secondaryOam.get (slot.val * 4 + byte) =
        left.secondaryOam.get (slot.val * 4 + byte) :=
    h.secondary _ (by omega)
  have haddress : right.spriteRowAddress slot = left.spriteRowAddress slot := by
    rw [spriteRowAddress, spriteRowAddress, hsprites, hcontrol, hline]
    by_cases hslot : slot.val < (left.spritesFrom slot).count
    · have hy : right.secondaryOam.get (slot.val * 4) = left.secondaryOam.get (slot.val * 4) :=
        hcells hslot 0 (by decide)
      rw [if_pos hslot, if_pos hslot, hy, hcells hslot 1 (by decide), hcells hslot 2 (by decide)]
    · rw [if_neg hslot, if_neg hslot]
  have hunits : (right.fillSpriteUnit slot board).1.sprites =
      (left.fillSpriteUnit slot board).1.sprites := by
    simp only [Ppu.fillSpriteUnit, hsprites, haddress]
    by_cases hslot : slot.val < (left.spritesFrom slot).count
    · rw [if_pos hslot, if_pos hslot, hcells hslot 2 (by decide), hcells hslot 3 (by decide)]
    · rw [if_neg hslot, if_neg hslot]
  refine ⟨?_, fun cell hcell => h.secondary cell ?_⟩
  · change { right with sprites := (right.fillSpriteUnit slot board).1.sprites } = _
    rw [hunits, h.same]
    rfl
  · change cell < 4 * max left.pickedCount (left.spritesFrom slot).count at hcell
    have hpicked : left.pickedCount ≤ left.places := Nat.le_max_left _ _
    omega

/-- Every part of the work of a dot keeps two units close. -/
theorem Close.perform (h : left.Close right) (operation : DotOperation) (board : Board) :
    (left.perform operation board).1.Close (right.perform operation board).1 := by
  cases operation with
  | renderPixel => exact h.renderPixel
  | evaluateSprites => exact h.evaluateSprites
  | fillSpriteUnit =>
    have hfill := h.fillSpriteUnit (SpriteUnits.slotOf ((left.dot - 257) / 8)) board
    change Close _ (right.fillSpriteUnit (SpriteUnits.slotOf ((right.dot - 257) / 8)) board).1
    rw [h.dot]
    exact hfill
  | clearSecondaryOam =>
    refine ⟨?_, fun cell _ => rfl⟩
    rw [h.same]
    rfl
  | clearFlags =>
    refine ⟨?_, fun cell hcell => h.secondary cell ?_⟩
    · rw [h.same]
      rfl
    · change cell < 4 * max 0 left.sprites.count at hcell
      rw [places]
      omega
  | _ =>
    refine ⟨?_, fun cell hcell => h.secondary cell hcell⟩
    rw [h.same]
    rfl

/-- The work of a list of operations keeps two units close. -/
theorem Close.performAll (h : left.Close right) (rendering : Bool)
    (operations : List DotOperation) (board : Board) :
    (performAll rendering operations left board).1.Close
      (performAll rendering operations right board).1 := by
  induction operations generalizing left right with
  | nil => exact h
  | cons operation rest ih =>
    unfold Ppu.performAll
    split
    · exact ih h
    · change (Ppu.performAll rendering rest (left.perform operation board).1
        (left.perform operation board).2).1.Close (Ppu.performAll rendering rest
        (right.perform operation board).1 (right.perform operation board).2).1
      rw [perform_board, perform_board]
      exact ih (h.perform operation board)

/-- The work of a dot keeps two units close. -/
theorem Close.worked (h : left.Close right) (board : Board) :
    (left.worked board).Close (right.worked board) := by
  have hwork := h.performAll left.mask.rendering (Schedule.work left.scanline left.dot) board
  have hright : right.worked board =
      (Ppu.performAll left.mask.rendering (Schedule.work left.scanline left.dot) right
        board).1 := by
    rw [Ppu.worked, h.same]
    rfl
  rw [hright]
  exact hwork

/-- The step to the next dot keeps two units close and completes the same frames. -/
theorem Close.nextDot (h : left.Close right) :
    right.nextDot.1 = left.nextDot.1 ∧ left.nextDot.2.Close right.nextDot.2 := by
  unfold Ppu.nextDot
  rw [h.onLastDot, h.dot]
  split
  · refine ⟨rfl, ?_, h.secondary⟩
    rw [h.same]
    rfl
  · split
    · refine ⟨rfl, ?_, h.secondary⟩
      rw [h.same]
      rfl
    · refine ⟨rfl, ?_, h.secondary⟩
      rw [h.same]
      rfl

/-- A dot keeps two units close and completes the same frames. -/
theorem Close.tick (h : left.Close right) (board : Board) :
    (right.tick board).1 = (left.tick board).1 ∧
      (left.tick board).2.1.Close (right.tick board).2.1 :=
  (h.worked board).nextDot

/-- Two units that go the same way. They are close, what they have drawn of the current frame is
the same, and so is the frame that is shown once one is completed after the counts `l` and `r` from
which they started. -/
structure Alike (l r : Nat) (left right : Ppu) : Prop extends Close left right where
  onGrid : left.OnGrid
  drawn : ∀ x < 256, ∀ y < 240, Schedule.dots * y + (x + 1) < left.position →
    right.drawing.get? (.ofNat x) (.ofNat y) = left.drawing.get? (.ofNat x) (.ofNat y)
  counted : left.frameCount + r = right.frameCount + l
  shown : l < left.frameCount → right.frame = left.frame

variable {l r : Nat}

/-- A reset makes units alike that hold the same in the memories that programs fill. -/
theorem alike_reset (hvram : right.vram = left.vram) (hpalette : right.palette = left.palette)
    (hoam : right.oam = left.oam) :
    left.reset.Alike left.frameCount right.frameCount right.reset := by
  refine ⟨⟨?_, ?_⟩, .of_corner rfl rfl, ?_, Nat.add_comm _ _, ?_⟩
  · rw [reset, hvram, hpalette, hoam]
    rfl
  · intro cell hcell
    exact absurd hcell (Nat.not_lt_zero _)
  · intro x _ y _ hdrawn
    exact absurd hdrawn (Nat.not_lt_zero _)
  · intro hshown
    exact absurd hshown (Nat.lt_irrefl _)

/-- Where units go the same way, what accesses leave alone stays alike. -/
theorem Alike.of_samePicture (h : left.Alike l r right) {left' : Ppu}
    (hsame : left.SamePicture left') : left'.Alike l r (left'.withLeftovers right.leftovers) := by
  refine ⟨⟨rfl, ?_⟩, ?_, ?_, ?_, ?_⟩
  · rw [places, hsame.pickedCount, hsame.sprites, hsame.secondaryOam]
    exact h.secondary
  · exact h.onGrid.of_samePicture hsame
  · rw [hsame.position, hsame.drawing]
    exact h.drawn
  · rw [hsame.frameCount]
    exact h.counted
  · rw [hsame.frameCount, hsame.frame]
    exact h.shown

/-- Among close units the second one is the first one with the picture of the second one. -/
theorem Close.eq_behind (h : left.Close right) : right = left.behind right false := by
  rw [h.same]
  rfl

/-- The picture of the second one of two close units brings its leftovers only. -/
theorem Close.behind_eq (h : left.Close right) {left' : Ppu} (hsame : left.SamePicture left') :
    left'.behind right false = left'.withLeftovers right.leftovers := by
  have hpicture : right.SamePicture (left'.withLeftovers right.leftovers) := by
    rw [h.same]
    exact ⟨hsame.scanline, hsame.dot, hsame.oddFrame, rfl, rfl, hsame.pickedCount,
      hsame.pickedZero, hsame.sprites, hsame.next, hsame.shifter, rfl, rfl⟩
  exact (behind_congr false hpicture left').symm

/-- Reads from two units that go the same way give the same byte. -/
theorem Alike.readRegister (h : left.Alike l r right) (address : UInt16) (board : Board) :
    ∃ right', right.readRegister address board =
        ((left.readRegister address board).1, right', (left.readRegister address board).2.2) ∧
      (left.readRegister address board).2.1.Alike l r right' := by
  have hsame := left.readRegister_samePicture address board
  have hread := readRegister_behind false address (.inr rfl) h.onFetchingLine board
  rw [← h.eq_behind, h.behind_eq hsame] at hread
  exact ⟨_, hread, h.of_samePicture hsame⟩

/-- Writes keep two units on the same way. -/
theorem Alike.writeRegister (h : left.Alike l r right) (address : UInt16) (value : UInt8)
    (board : Board) :
    ∃ right', right.writeRegister address value board =
        (right', (left.writeRegister address value board).2) ∧
      (left.writeRegister address value board).1.Alike l r right' := by
  have hsame := left.writeRegister_samePicture address value board
  have hwrite := writeRegister_behind false h.onFetchingLine address value board
  rw [← h.eq_behind, h.behind_eq hsame] at hwrite
  exact ⟨_, hwrite, h.of_samePicture hsame⟩

/-- Storing a byte of a transfer keeps two units on the same way. -/
theorem Alike.writeOam (h : left.Alike l r right) (value : UInt8) :
    (left.writeOam value).Alike l r (right.writeOam value) := by
  have hsame : left.SamePicture (left.writeOam value) := by constructor <;> rfl
  have hright : right.writeOam value = (left.writeOam value).withLeftovers right.leftovers := by
    rw [h.same]
    rfl
  rw [hright]
  exact h.of_samePicture hsame

/-- A dot gives the same colour to the same point of two frames. -/
theorem Alike.worked_drawing (h : left.Alike l r right) (board : Board) {x y : Nat} (hx : x < 256)
    (hy : y < 240) (hdrawn : Schedule.dots * y + (x + 1) < left.position + 1) :
    (right.worked board).drawing.get? (.ofNat x) (.ofNat y) =
      (left.worked board).drawing.get? (.ofNat x) (.ofNat y) := by
  have hposition : right.position = left.position := by
    rw [h.same]
    rfl
  have hgrid : right.OnGrid := by
    rw [h.same]
    exact ⟨h.onGrid.scanline_lt, h.onGrid.dot_lt⟩
  rw [h.onGrid.worked_point board hx hy, hgrid.worked_point board hx hy, hposition, h.colour]
  split
  · rfl
  · exact h.drawn x hx y hy (by omega)

/-- A dot keeps two units on the same way. -/
theorem Alike.tick (h : left.Alike l r right) (board : Board) :
    (right.tick board).1 = (left.tick board).1 ∧
      (left.tick board).2.1.Alike l r (right.tick board).2.1 := by
  have hsame := h.onLastDot
  have hcounted := h.counted
  obtain ⟨hcompleted, hclose⟩ := h.toClose.tick board
  obtain ⟨hdrawing, hframe⟩ := left.tick_frames board
  obtain ⟨hdrawing', hframe'⟩ := right.tick_frames board
  rw [hsame] at hdrawing' hframe'
  refine ⟨hcompleted, hclose, h.onGrid.tick board, ?_, ?_, ?_⟩
  · intro x hx y hy hdrawn
    cases hlast : left.onLastDot with
    | false =>
      rw [tick_position_of_not_onLastDot hlast] at hdrawn
      rw [hdrawing, hdrawing', hlast]
      exact h.worked_drawing board hx hy hdrawn
    | true =>
      obtain ⟨hline, hdot, -⟩ := tick_of_onLastDot hlast board
      rw [position, hline, hdot] at hdrawn
      omega
  · cases hlast : left.onLastDot with
    | false =>
      rw [(tick_of_not_onLastDot hlast board).2.2.2,
        (tick_of_not_onLastDot (hsame.trans hlast) board).2.2.2, hcounted]
    | true =>
      rw [(tick_of_onLastDot hlast board).2.2.2,
        (tick_of_onLastDot (hsame.trans hlast) board).2.2.2]
      omega
  · cases hlast : left.onLastDot with
    | false =>
      rw [hframe, hframe', hlast, (tick_of_not_onLastDot hlast board).2.2.2]
      exact h.shown
    | true =>
      -- all points have been drawn since the reset, so older frames do not show
      intro _
      rw [hframe, hframe', hlast, if_pos rfl, if_pos rfl]
      apply Frame.ext_get? Frame.screen_fits
      intro x hx y hy
      exact h.worked_drawing board hx hy (position_lt_of_onLastDot hlast hx hy)

/-- A run of dots keeps two units on the same way and completes as many frames. -/
theorem Alike.run (h : left.Alike l r right) (dots : Nat) (board : Board) :
    ∃ right', right.run dots board =
        ((left.run dots board).1, right', (left.run dots board).2.2) ∧
      (left.run dots board).2.1.Alike l r right' := by
  induction dots generalizing left right with
  | zero => exact ⟨right, rfl, h⟩
  | succ dots ih =>
    obtain ⟨hcompleted, halike⟩ := h.tick board
    obtain ⟨right', hrun, halike'⟩ := ih halike
    refine ⟨right', ?_, ?_⟩
    · rw [run_succ, run_succ, tick_board, tick_board, hcompleted, hrun]
    · rw [run_succ, tick_board]
      exact halike'

end Ppu

end Famicom
