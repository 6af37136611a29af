import Famicom.Proofs.Ppu.AccessFrame
import Famicom.Proofs.Ppu.Position

/-!
# What moves the non-maskable line

The line has two conditions. One dot of a frame begins vertical blank and another one ends it,
a read of the status ends it early, and a write of the control register decides whether it is
announced. Nothing else moves a condition, so whoever knows the position knows when vertical
blank can last.
-/

namespace Famicom

/-- How a part of the work of a dot moves the line. -/
def DotOperation.nmiEvent : DotOperation → Option NmiEvent
  | setVblank => some .vblankSet
  | clearFlags => some .vblankCleared
  | _ => none

/-- The announcing of vertical blank does not wait for a visible layer. -/
theorem DotOperation.nmiEvent_of_needsRendering {operation : DotOperation}
    (h : operation.needsRendering = true) : operation.nmiEvent = none := by
  cases operation with
  | renderPixel | setVblank | clearFlags => contradiction
  | _ => rfl

/-- Fetches do not move the line. -/
theorem Schedule.fetches_nmiEvent (dot : Nat) :
    (fetches dot).filterMap DotOperation.nmiEvent = [] := by
  unfold fetches
  split <;> rfl

/-- The work at the end of a line does not move the line. -/
theorem Schedule.lineEnd_nmiEvent (dot : Nat) :
    (lineEnd dot).filterMap DotOperation.nmiEvent = [] := by
  unfold lineEnd
  split
  · rfl
  · split <;> rfl

/-- How a line of dots moves the non-maskable line on its first dot after the left edge. -/
def Schedule.Line.nmiEvents : Line → List NmiEvent
  | .vblankStart => [.vblankSet]
  | .prerender => [.vblankCleared]
  | .visible | .idle => []

/-- A line of dots moves the non-maskable line on one dot at most. -/
theorem Schedule.operations_nmiEvent (line : Line) (dot : Nat) :
    (operations line dot).filterMap DotOperation.nmiEvent =
      if dot = 1 then line.nmiEvents else [] := by
  by_cases hone : dot = 1
  · subst hone
    cases line <;> rfl
  · rw [if_neg hone]
    cases line with
    | visible =>
      simp only [operations]
      split
      · rw [List.filterMap_append, List.filterMap_append, fetches_nmiEvent]
        split
        · rfl
        · split <;> rfl
      · split
        · rw [List.filterMap_append, fetches_nmiEvent]
          rfl
        · exact lineEnd_nmiEvent dot
    | vblankStart => simp only [operations, if_neg hone, List.filterMap_nil]
    | prerender =>
      simp only [operations, if_neg hone]
      split
      · rw [List.filterMap_append, List.filterMap_append, fetches_nmiEvent]
        split <;> rfl
      · split
        · rw [List.filterMap_append, fetches_nmiEvent]
          rfl
        · split
          · exact lineEnd_nmiEvent dot
          · rw [List.filterMap_append, lineEnd_nmiEvent]
            split <;> rfl
    | idle => rfl

/-- Two lines of dots move the non-maskable line. -/
theorem Schedule.ofScanline_nmiEvents (scanline : Nat) :
    (Line.ofScanline scanline).nmiEvents =
      if scanline = vblankScanline then [.vblankSet]
      else if scanline = prerenderScanline then [.vblankCleared] else [] := by
  by_cases hvblank : scanline = vblankScanline
  · rw [if_pos hvblank, hvblank]
    rfl
  · by_cases hprerender : scanline = prerenderScanline
    · rw [if_neg hvblank, if_pos hprerender, hprerender]
      rfl
    · rw [if_neg hvblank, if_neg hprerender, Line.ofScanline, if_neg hvblank, if_neg hprerender]
      split <;> rfl

namespace Ppu

section Dots

variable {Bus : Type} [PatternBus Bus]

/-- A part of the work of a dot moves the line as its event says. -/
theorem perform_nmi (operation : DotOperation) (ppu : Ppu) (bus : Bus) :
    (ppu.perform operation bus).1.nmi = operation.nmiEvent.elim ppu.nmi ppu.nmi.on := by
  cases operation with
  | renderPixel =>
    obtain ⟨drawing, hit, heq⟩ := ppu.renderPixel_eq
    change ppu.renderPixel.nmi = ppu.nmi
    rw [heq]
  | _ => rfl

/-- The work of a dot moves the line as its events say. -/
theorem performAll_nmi (rendering : Bool) (operations : List DotOperation) (ppu : Ppu)
    (bus : Bus) :
    (performAll rendering operations ppu bus).1.nmi =
      (operations.filterMap DotOperation.nmiEvent).foldl Nmi.on ppu.nmi := by
  induction operations generalizing ppu bus with
  | nil => rfl
  | cons operation rest ih =>
    unfold performAll
    split
    · next hskipped =>
      rw [Bool.and_eq_true] at hskipped
      rw [ih, List.filterMap_cons_none (DotOperation.nmiEvent_of_needsRendering hskipped.1)]
    · dsimp only
      rw [ih, perform_nmi, List.filterMap_cons]
      cases operation.nmiEvent <;> rfl

/-- The step to the next dot does not move the line. -/
theorem nextDot_nmi (ppu : Ppu) : ppu.nextDot.2.nmi = ppu.nmi := by
  unfold nextDot
  split
  · rfl
  · split <;> rfl

/-- The two dots of a frame that move the line. -/
theorem tick_nmi (ppu : Ppu) (bus : Bus) :
    (ppu.tick bus).2.1.nmi =
      if ppu.dot = 1 then
        if ppu.scanline = Schedule.vblankScanline then ppu.nmi.on .vblankSet
        else if ppu.scanline = Schedule.prerenderScanline then ppu.nmi.on .vblankCleared
        else ppu.nmi
      else ppu.nmi := by
  rw [tick_unit, nextDot_nmi, worked, performAll_nmi, Schedule.work,
    Schedule.operations_nmiEvent, Schedule.ofScanline_nmiEvents]
  split
  · split
    · rfl
    · split <;> rfl
  · rfl

/-- The position after the dot that begins vertical blank. -/
def vblankFirst : Nat := Schedule.dots * Schedule.vblankScanline + 2

/-- The position of the dot that ends vertical blank. -/
def vblankLast : Nat := Schedule.dots * Schedule.prerenderScanline + 1

theorem vblankFirst_eq : vblankFirst = 82183 := rfl

theorem vblankLast_eq : vblankLast = 89002 := rfl

/-- The current dot begins vertical blank. -/
def beginsVblank (ppu : Ppu) : Bool :=
  ppu.scanline == Schedule.vblankScanline && ppu.dot == 1

/-- The current dot ends vertical blank. -/
def endsVblank (ppu : Ppu) : Bool :=
  ppu.scanline == Schedule.prerenderScanline && ppu.dot == 1

/-- One dot of a frame clears the flags. -/
theorem endsVblank_of_clearFlags {ppu : Ppu}
    (h : .clearFlags ∈ Schedule.work ppu.scanline ppu.dot) :
    ppu.endsVblank = true := by
  have hevent : NmiEvent.vblankCleared ∈
      (Schedule.work ppu.scanline ppu.dot).filterMap DotOperation.nmiEvent :=
    List.mem_filterMap.mpr ⟨_, h, rfl⟩
  rw [Schedule.work, Schedule.operations_nmiEvent, Schedule.ofScanline_nmiEvents] at hevent
  by_cases hdot : ppu.dot = 1
  · rw [if_pos hdot] at hevent
    by_cases hline : ppu.scanline = Schedule.prerenderScanline
    · simp [endsVblank, hline, hdot]
    · rw [if_neg hline] at hevent
      split at hevent <;> simp at hevent
  · rw [if_neg hdot] at hevent
    simp at hevent

/-- A dot keeps the line settled. -/
theorem tick_settled {ppu : Ppu} (h : ppu.nmi.Settled) (bus : Bus) :
    (ppu.tick bus).2.1.nmi.Settled := by
  rw [tick_nmi]
  split
  · split
    · exact Nmi.settled_on _ _
    · split
      · exact Nmi.settled_on _ _
      · exact h
  · exact h

/-- The position is on the grid, the line is settled, and vertical blank lasts between the dots
that begin and end it only. -/
structure Timed (ppu : Ppu) : Prop where
  onGrid : OnGrid ppu
  settled : ppu.nmi.Settled
  vblank_le : ppu.nmi.vblank = true → vblankFirst ≤ ppu.position ∧ ppu.position ≤ vblankLast

/-- No dot turns the announcing on or off. -/
theorem tick_enabled (ppu : Ppu) (bus : Bus) :
    (ppu.tick bus).2.1.nmi.enabled = ppu.nmi.enabled := by
  rw [tick_nmi]
  split
  · split
    · rfl
    · split <;> rfl
  · rfl

/-- Vertical blank lasts after the dot that begins it, and after others if it did before and
they do not end it. -/
theorem tick_vblank (ppu : Ppu) (bus : Bus) :
    (ppu.tick bus).2.1.nmi.vblank =
      (ppu.beginsVblank || (ppu.nmi.vblank && !ppu.endsVblank)) := by
  rw [tick_nmi, beginsVblank, endsVblank]
  by_cases hdot : ppu.dot = 1
  · rw [if_pos hdot, hdot]
    by_cases hvblank : ppu.scanline = Schedule.vblankScanline
    · rw [if_pos hvblank, hvblank]
      rfl
    · rw [if_neg hvblank, beq_eq_false_iff_ne.mpr hvblank]
      by_cases hprerender : ppu.scanline = Schedule.prerenderScanline
      · rw [if_pos hprerender, hprerender]
        simp [Nmi.on, Nmi.settle]
      · rw [if_neg hprerender, beq_eq_false_iff_ne.mpr hprerender]
        simp
  · rw [if_neg hdot, beq_eq_false_iff_ne.mpr hdot]
    simp

/-- On the grid, the dot that begins vertical blank is known by its position. -/
theorem OnGrid.beginsVblank_iff {ppu : Ppu} (h : OnGrid ppu) :
    ppu.beginsVblank = true ↔ ppu.position + 1 = vblankFirst := by
  have hdot := h.dot_lt
  simp only [Schedule.dots] at hdot
  simp only [beginsVblank, Bool.and_eq_true, beq_iff_eq, position, vblankFirst, Schedule.dots,
    Schedule.vblankScanline]
  omega

/-- On the grid, the dot that ends vertical blank is known by its position. -/
theorem OnGrid.endsVblank_iff {ppu : Ppu} (h : OnGrid ppu) :
    ppu.endsVblank = true ↔ ppu.position = vblankLast := by
  have hdot := h.dot_lt
  simp only [Schedule.dots] at hdot
  simp only [endsVblank, Bool.and_eq_true, beq_iff_eq, position, vblankLast, Schedule.dots,
    Schedule.prerenderScanline]
  omega

/-- Far from the end of a frame a dot moves the position on by one. -/
theorem tick_position_of_lt {ppu : Ppu} (h : ppu.position + 2 < frameDots) (bus : Bus) :
    (ppu.tick bus).2.1.position = ppu.position + 1 := by
  apply tick_position_of_not_onLastDot
  rw [Bool.eq_false_iff]
  intro hlast
  have hend := position_of_onLastDot hlast
  have hskip := ppu.skipsDot.toNat_le
  omega

/-- A dot keeps to the times of vertical blank. -/
theorem Timed.tick {ppu : Ppu} (h : Timed ppu) (bus : Bus) : Timed (ppu.tick bus).2.1 := by
  refine ⟨h.onGrid.tick bus, tick_settled h.settled bus, fun hvblank => ?_⟩
  rw [tick_vblank, Bool.or_eq_true, h.onGrid.beginsVblank_iff, Bool.and_eq_true,
    Bool.not_eq_true', Bool.eq_false_iff, ne_eq, h.onGrid.endsVblank_iff] at hvblank
  have hvblank_le := h.vblank_le
  rw [vblankFirst_eq, vblankLast_eq] at *
  have hwindow : 82183 ≤ ppu.position + 1 ∧ ppu.position < 89002 := by
    rcases hvblank with hbegins | ⟨hlasts, hends⟩
    · omega
    · obtain ⟨hfirst, hlast⟩ := hvblank_le hlasts
      omega
  have hnear : ppu.position + 2 < frameDots := by
    rw [frameDots_eq]
    omega
  rw [tick_position_of_lt hnear]
  omega

end Dots

section Accesses

variable {Bus : Type} [PatternBus Bus]

/-- Moving the picture address on does not move the line. -/
theorem advance_nmi (ppu : Ppu) : ppu.advance.nmi = ppu.nmi := by
  unfold advance
  split <;> rfl

/-- Storing at a picture address does not move the line. -/
theorem writePicture_nmi (ppu : Ppu) (address : UInt16) (value : UInt8) (bus : Bus) :
    (ppu.writePicture address value bus).1.nmi = ppu.nmi := by
  unfold writePicture
  split
  · rfl
  · split <;> rfl

/-- Reading the data register does not move the line. -/
theorem readData_nmi (ppu : Ppu) (bus : Bus) : (ppu.readData bus).2.1.nmi = ppu.nmi := by
  rw [readData_eq]
  exact advance_nmi _

/-- Of the register reads only that of the status moves the line. -/
theorem readRegister_nmi (ppu : Ppu) (address : UInt16) (bus : Bus) :
    (ppu.readRegister address bus).2.1.nmi =
      if address % 8 = 2 then ppu.nmi.on .statusRead else ppu.nmi := by
  have htwo : address % 8 = 2 ↔ (address % 8).toNat = 2 := UInt16.toNat_inj.symm
  unfold readRegister
  split
  · next h => rw [if_pos (htwo.mpr h)]; rfl
  · next h => rw [if_neg (by rw [htwo, h]; decide)]
  · next h => rw [if_neg (by rw [htwo, h]; decide)]; exact readData_nmi ppu bus
  · next h _ _ => rw [if_neg (fun heq => h (htwo.mp heq))]

/-- Of the register writes only that of the control register moves the line. -/
theorem writeRegister_nmi (ppu : Ppu) {address : UInt16} (h : address % 8 ≠ 0) (value : UInt8)
    (bus : Bus) : (ppu.writeRegister address value bus).1.nmi = ppu.nmi := by
  have hzero : address % 8 = 0 ↔ (address % 8).toNat = 0 := UInt16.toNat_inj.symm
  unfold writeRegister
  dsimp only
  split
  · next heq => exact absurd (hzero.mpr heq) h
  case h_7 => exact (advance_nmi _).trans (writePicture_nmi _ _ _ _)
  all_goals rfl

/-- Of the writes of the control register only those that change its top bit move the line. -/
theorem writeControl_nmi (ppu : Ppu) (value : UInt8) :
    (ppu.writeControl value).nmi = ppu.nmi ∨
      ∃ event, (ppu.writeControl value).nmi = ppu.nmi.on event := by
  unfold writeControl
  dsimp only
  split
  · exact .inr ⟨_, rfl⟩
  · exact .inr ⟨_, rfl⟩
  · exact .inl rfl

/-- A write of a register keeps the line settled. -/
theorem writeRegister_settled {ppu : Ppu} (h : ppu.nmi.Settled) (address : UInt16) (value : UInt8)
    (bus : Bus) : (ppu.writeRegister address value bus).1.nmi.Settled := by
  by_cases hcontrol : address % 8 = 0
  · unfold writeRegister
    rw [hcontrol]
    change (writeControl { ppu with lines := value } value).nmi.Settled
    obtain heq | ⟨event, heq⟩ := writeControl_nmi { ppu with lines := value } value
    · rw [heq]
      exact h
    · rw [heq]
      exact Nmi.settled_on _ _
  · rw [writeRegister_nmi ppu hcontrol]
    exact h

/-- No write of a register begins or ends vertical blank. -/
theorem writeRegister_vblank (ppu : Ppu) (address : UInt16) (value : UInt8) (bus : Bus) :
    (ppu.writeRegister address value bus).1.nmi.vblank = ppu.nmi.vblank := by
  by_cases h : address % 8 = 0
  · unfold writeRegister
    rw [h]
    change (writeControl _ _).nmi.vblank = _
    unfold writeControl
    dsimp only
    split <;> rfl
  · rw [writeRegister_nmi ppu h]

end Accesses

end Ppu

end Famicom
