import Famicom.Ppu.Dot

/-!
# What a dot leaves alone

The work of a dot moves the two pixel pipelines, the picture address and the flags, and puts
out a pixel. The position, the memories, the registers that programs write and the finished
frame stay as they are, and a cartridge board is only read. The step to the next dot moves the
position and exchanges the frames. So all dots see the same memories and registers as long as
no program interferes.
-/

namespace Famicom.Ppu

variable {Bus : Type} [PatternBus Bus]

/-- Memories and registers that only programs change. -/
structure SameMemory (before after : Ppu) : Prop where
  vram : after.vram = before.vram
  palette : after.palette = before.palette
  readBuffer : after.readBuffer = before.readBuffer
  lines : after.lines = before.lines
  control : after.control = before.control
  mask : after.mask = before.mask
  t : after.scroll.t = before.scroll.t
  x : after.scroll.x = before.scroll.x
  w : after.scroll.w = before.scroll.w
  oamAddress : after.oamAddress = before.oamAddress
  oam : after.oam = before.oam

/-- All that the work of a dot never changes: memories, registers and the position. -/
structure SameOutside (before after : Ppu) : Prop extends SameMemory before after where
  scanline : after.scanline = before.scanline
  dot : after.dot = before.dot
  oddFrame : after.oddFrame = before.oddFrame
  frameCount : after.frameCount = before.frameCount
  frame : after.frame = before.frame

/-- A unit has its own memories. -/
theorem SameMemory.refl (ppu : Ppu) : SameMemory ppu ppu := by
  constructor <;> rfl

/-- Having the same memories is transitive. -/
theorem SameMemory.trans {first second third : Ppu} (h : SameMemory first second)
    (h' : SameMemory second third) : SameMemory first third := by
  constructor
  · exact h'.vram.trans h.vram
  · exact h'.palette.trans h.palette
  · exact h'.readBuffer.trans h.readBuffer
  · exact h'.lines.trans h.lines
  · exact h'.control.trans h.control
  · exact h'.mask.trans h.mask
  · exact h'.t.trans h.t
  · exact h'.x.trans h.x
  · exact h'.w.trans h.w
  · exact h'.oamAddress.trans h.oamAddress
  · exact h'.oam.trans h.oam

/-- A unit has its own outside. -/
theorem SameOutside.refl (ppu : Ppu) : SameOutside ppu ppu :=
  ⟨.refl ppu, rfl, rfl, rfl, rfl, rfl⟩

/-- Having the same outside is transitive. -/
theorem SameOutside.trans {first second third : Ppu} (h : SameOutside first second)
    (h' : SameOutside second third) : SameOutside first third := by
  refine ⟨h.toSameMemory.trans h'.toSameMemory, ?_, ?_, ?_, ?_, ?_⟩
  · exact h'.scanline.trans h.scanline
  · exact h'.dot.trans h.dot
  · exact h'.oddFrame.trans h.oddFrame
  · exact h'.frameCount.trans h.frameCount
  · exact h'.frame.trans h.frame

/-- Putting out a pixel changes the drawing and the first sprite's flag only. -/
theorem renderPixel_eq (ppu : Ppu) :
    ∃ drawing hit, ppu.renderPixel =
      { ppu with drawing, status := { ppu.status with spriteZeroHit := hit } } := by
  unfold renderPixel
  split
  · exact ⟨_, _, rfl⟩
  · exact ⟨_, ppu.status.spriteZeroHit, rfl⟩

/-- No part of the work of a dot changes the outside. -/
theorem perform_sameOutside (operation : DotOperation) (ppu : Ppu) (bus : Bus) :
    SameOutside ppu (ppu.perform operation bus).1 := by
  cases operation with
  | renderPixel =>
    obtain ⟨drawing, hit, heq⟩ := ppu.renderPixel_eq
    change SameOutside ppu ppu.renderPixel
    rw [heq]
    exact ⟨⟨rfl, rfl, rfl, rfl, rfl, rfl, rfl, rfl, rfl, rfl, rfl⟩, rfl, rfl, rfl, rfl, rfl⟩
  | _ => exact ⟨⟨rfl, rfl, rfl, rfl, rfl, rfl, rfl, rfl, rfl, rfl, rfl⟩, rfl, rfl, rfl, rfl, rfl⟩

/-- What every part of the work that is done keeps, the whole work of a dot keeps. Parts that need
a visible layer are done only where there is one. -/
theorem performAll_keeps (holds : Ppu → Prop) {rendering : Bool} {operations : List DotOperation}
    (hperform : ∀ operation ∈ operations, (operation.needsRendering = true → rendering = true) →
      ∀ (ppu : Ppu) (bus : Bus), holds ppu → holds (ppu.perform operation bus).1)
    {ppu : Ppu} (h : holds ppu) (bus : Bus) :
    holds (performAll rendering operations ppu bus).1 := by
  induction operations generalizing ppu bus with
  | nil => exact h
  | cons operation rest ih =>
    obtain ⟨hfirst, hrest⟩ := List.forall_mem_cons.mp hperform
    unfold performAll
    split
    · exact ih hrest h bus
    · next hdone => exact ih hrest (hfirst (by simpa using hdone) ppu bus h) _

/-- The work of a dot does not change the outside. -/
theorem performAll_sameOutside (rendering : Bool) (operations : List DotOperation) (ppu : Ppu)
    (bus : Bus) : SameOutside ppu (performAll rendering operations ppu bus).1 :=
  performAll_keeps (SameOutside ppu)
    (fun operation _ _ other bus h => h.trans (perform_sameOutside operation other bus))
    (.refl ppu) bus

/-- No part of the work of a dot changes a board. -/
theorem perform_board (operation : DotOperation) (ppu : Ppu) (board : Board) :
    (ppu.perform operation board).2 = board := by
  cases operation <;> rfl

/-- The work of a dot does not change a board. -/
theorem performAll_board (rendering : Bool) (operations : List DotOperation) (ppu : Ppu)
    (board : Board) : (performAll rendering operations ppu board).2 = board := by
  induction operations generalizing ppu with
  | nil => rfl
  | cons operation rest ih =>
    unfold performAll
    split
    · exact ih ppu
    · change (performAll rendering rest _ (ppu.perform operation board).2).2 = board
      rw [perform_board]
      exact ih _

/-- The unit after the work of its current dot, before the step to the next one. -/
def worked (ppu : Ppu) (bus : Bus) : Ppu :=
  (performAll ppu.mask.rendering (Schedule.work ppu.scanline ppu.dot) ppu bus).1

/-- A dot is its work followed by the step to the next dot. -/
theorem tick_unit (ppu : Ppu) (bus : Bus) : (ppu.tick bus).2.1 = (ppu.worked bus).nextDot.2 :=
  rfl

/-- The work of a dot leaves the outside alone. -/
theorem worked_sameOutside (ppu : Ppu) (bus : Bus) : SameOutside ppu (ppu.worked bus) :=
  performAll_sameOutside _ _ _ _

/-- The step to the next dot leaves memories and registers alone. -/
theorem nextDot_sameMemory (ppu : Ppu) : SameMemory ppu ppu.nextDot.2 := by
  unfold nextDot completeFrame
  split
  · constructor <;> rfl
  · split <;> constructor <;> rfl

/-- The step to the next dot leaves the flags alone. -/
theorem nextDot_status (ppu : Ppu) : ppu.nextDot.2.status = ppu.status := by
  unfold nextDot
  split
  · rfl
  · split <;> rfl

/-- A dot leaves memories and registers alone. -/
theorem tick_sameMemory (ppu : Ppu) (bus : Bus) : SameMemory ppu (ppu.tick bus).2.1 :=
  (ppu.worked_sameOutside bus).toSameMemory.trans (nextDot_sameMemory _)

/-- The step to the next dot leaves the scroll registers alone. -/
theorem nextDot_scroll (ppu : Ppu) : ppu.nextDot.2.scroll = ppu.scroll := by
  unfold nextDot
  split
  · rfl
  · split <;> rfl

/-- The parts of the work that are done while both layers are hidden do not scroll. -/
theorem perform_scroll_of_hidden {operation : DotOperation}
    (h : operation.needsRendering = false) (ppu : Ppu) (bus : Bus) :
    (ppu.perform operation bus).1.scroll = ppu.scroll := by
  cases operation with
  | renderPixel =>
    obtain ⟨drawing, hit, heq⟩ := ppu.renderPixel_eq
    change ppu.renderPixel.scroll = ppu.scroll
    rw [heq]
  | setVblank | clearFlags => rfl
  | _ => contradiction

/-- While both layers are hidden a dot does not scroll. -/
theorem tick_scroll_of_hidden {ppu : Ppu} (h : ppu.mask.rendering = false) (bus : Bus) :
    (ppu.tick bus).2.1.scroll = ppu.scroll := by
  rw [tick_unit, nextDot_scroll]
  refine performAll_keeps (·.scroll = ppu.scroll) ?_ rfl bus
  intro operation _ hdone other bus hkept
  have hidden : operation.needsRendering = false := by
    rw [h] at hdone
    exact Bool.eq_false_iff.mpr (fun hneeds => Bool.false_ne_true (hdone hneeds))
  exact (perform_scroll_of_hidden hidden other bus).trans hkept

/-- A dot does not change a board. -/
theorem tick_board (ppu : Ppu) (board : Board) : (ppu.tick board).2.2 = board :=
  performAll_board _ _ _ _

end Famicom.Ppu
