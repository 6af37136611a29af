import Famicom.Proofs.Ppu.DotFrame

/-!
# The way of the unit through a frame

Every dot moves the position on by one, counted along the lines. At the end of a frame it goes
back to the start, and an odd frame with a visible layer leaves out its last dot. So the dots
worked through, the frames completed and the dots left out together determine the position.
-/

namespace Famicom.Ppu

variable {Bus : Type} [PatternBus Bus]

/-- Dots in a frame that leaves none out. -/
def frameDots : Nat := Schedule.dots * Schedule.scanlines

theorem frameDots_eq : frameDots = 89342 := rfl

/-- The number of dots before the current one, counted from the start of the frame. -/
def position (ppu : Ppu) : Nat := Schedule.dots * ppu.scanline + ppu.dot

/-- The position is one of the frame's dots. -/
structure OnGrid (ppu : Ppu) : Prop where
  scanline_lt : ppu.scanline < Schedule.scanlines
  dot_lt : ppu.dot < Schedule.dots

/-- The current dot is the last one of its frame, and the one after it is left out. -/
def skipsDot (ppu : Ppu) : Bool :=
  ppu.scanline == Schedule.prerenderScanline && ppu.dot == Schedule.dots - 2 && ppu.oddFrame &&
    ppu.mask.rendering

/-- The top left corner is on the grid. -/
theorem OnGrid.of_corner {ppu : Ppu} (hline : ppu.scanline = 0) (hdot : ppu.dot = 0) :
    OnGrid ppu := by
  constructor
  · rw [hline]
    decide
  · rw [hdot]
    decide

/-- A position on the grid is less than the dots of a frame. -/
theorem OnGrid.position_lt {ppu : Ppu} (h : OnGrid ppu) : ppu.position < frameDots := by
  obtain ⟨hline, hdot⟩ := h
  simp only [Schedule.scanlines, Schedule.dots] at hline hdot
  simp only [position, frameDots, Schedule.dots, Schedule.scanlines]
  omega

/-- On the grid a position belongs to one dot of one line. -/
theorem OnGrid.position_eq_iff {ppu : Ppu} (h : OnGrid ppu) {scanline dot : Nat}
    (hdot : dot < Schedule.dots) :
    ppu.position = Schedule.dots * scanline + dot ↔ ppu.scanline = scanline ∧ ppu.dot = dot := by
  have hgrid := h.dot_lt
  simp only [position, Schedule.dots] at hgrid hdot ⊢
  omega

/-- Being on the last dot depends on the outside alone. -/
theorem SameOutside.onLastDot {before after : Ppu} (h : SameOutside before after) :
    after.onLastDot = before.onLastDot := by
  simp only [Ppu.onLastDot, h.scanline, h.dot, h.oddFrame, h.mask]

/-- A dot completes a frame exactly when it is the last one. -/
theorem tick_completed (ppu : Ppu) (bus : Bus) : (ppu.tick bus).1 = ppu.onLastDot := by
  change (ppu.worked bus).nextDot.1 = _
  rw [← (ppu.worked_sameOutside bus).onLastDot]
  unfold nextDot
  split
  · next h => exact h.symm
  · next h =>
    rw [Bool.not_eq_true] at h
    split <;> exact h.symm

/-- Where the last dot of a frame leads. -/
theorem tick_of_onLastDot {ppu : Ppu} (h : ppu.onLastDot = true) (bus : Bus) :
    (ppu.tick bus).2.1.scanline = 0 ∧ (ppu.tick bus).2.1.dot = 0 ∧
      (ppu.tick bus).2.1.oddFrame = !ppu.oddFrame ∧
      (ppu.tick bus).2.1.frameCount = ppu.frameCount + 1 := by
  have hsame := ppu.worked_sameOutside bus
  rw [tick_unit, nextDot, if_pos (hsame.onLastDot.trans h)]
  refine ⟨rfl, rfl, ?_, ?_⟩
  · exact congrArg (!·) hsame.oddFrame
  · exact congrArg (· + 1) hsame.frameCount

/-- Where every other dot leads: to the next dot of the line or to the next line. -/
theorem tick_of_not_onLastDot {ppu : Ppu} (h : ppu.onLastDot = false) (bus : Bus) :
    (ppu.tick bus).2.1.scanline =
        (if ppu.dot = Schedule.dots - 1 then ppu.scanline + 1 else ppu.scanline) ∧
      (ppu.tick bus).2.1.dot = (if ppu.dot = Schedule.dots - 1 then 0 else ppu.dot + 1) ∧
      (ppu.tick bus).2.1.oddFrame = ppu.oddFrame ∧
      (ppu.tick bus).2.1.frameCount = ppu.frameCount := by
  have hsame := ppu.worked_sameOutside bus
  have hworked : ¬(ppu.worked bus).onLastDot = true := by
    rw [hsame.onLastDot, h]
    exact Bool.false_ne_true
  rw [tick_unit, nextDot, if_neg hworked, hsame.dot]
  split
  · exact ⟨congrArg (· + 1) hsame.scanline, rfl, hsame.oddFrame, hsame.frameCount⟩
  · exact ⟨hsame.scanline, rfl, hsame.oddFrame, hsame.frameCount⟩

/-- Inside the grid, a dot that is not the last one moves the position on by one. -/
theorem tick_position_of_not_onLastDot {ppu : Ppu} (h : ppu.onLastDot = false) (bus : Bus) :
    (ppu.tick bus).2.1.position = ppu.position + 1 := by
  obtain ⟨hline, hdot, -⟩ := tick_of_not_onLastDot h bus
  rw [position, position, hline, hdot]
  by_cases hend : ppu.dot = Schedule.dots - 1
  · rw [if_pos hend, if_pos hend, hend]
    simp only [Schedule.dots]
    omega
  · rw [if_neg hend, if_neg hend, Nat.add_assoc]

/-- The last dot of a frame is the last one of the grid, or the one before it where that is
left out. -/
theorem position_of_onLastDot {ppu : Ppu} (h : ppu.onLastDot = true) :
    ppu.position + 1 + ppu.skipsDot.toNat = frameDots := by
  simp only [onLastDot, Bool.and_eq_true, Bool.or_eq_true, beq_iff_eq] at h
  obtain ⟨hline, hdot | ⟨⟨hdot, hodd⟩, hrendering⟩⟩ := h
  · have hskip : ppu.skipsDot = false := by simp [skipsDot, hdot, Schedule.dots]
    rw [hskip, position, hline, hdot]
    rfl
  · have hskip : ppu.skipsDot = true := by simp [skipsDot, hline, hdot, hodd, hrendering]
    rw [hskip, position, hline, hdot]
    rfl

/-- Only the last dot of a frame can be followed by one that is left out. -/
theorem onLastDot_of_skipsDot {ppu : Ppu} (h : ppu.skipsDot = true) : ppu.onLastDot = true := by
  simp only [skipsDot, Bool.and_eq_true, beq_iff_eq] at h
  obtain ⟨⟨⟨hline, hdot⟩, hodd⟩, hrendering⟩ := h
  simp [onLastDot, hline, hdot, hodd, hrendering]

/-- The balance of a dot: the position, with the dots of a completed frame, grows by the dot
worked through and by the one left out. -/
theorem tick_balance (ppu : Ppu) (bus : Bus) :
    (ppu.tick bus).2.1.position + frameDots * ppu.onLastDot.toNat =
      ppu.position + 1 + ppu.skipsDot.toNat := by
  cases hlast : ppu.onLastDot with
  | false =>
    have hskip : ppu.skipsDot = false := by
      rw [Bool.eq_false_iff]
      intro hskip
      rw [onLastDot_of_skipsDot hskip] at hlast
      contradiction
    rw [tick_position_of_not_onLastDot hlast, hskip]
    rfl
  | true =>
    obtain ⟨hline, hdot, -⟩ := tick_of_onLastDot hlast bus
    rw [position_of_onLastDot hlast, position, hline, hdot]
    rfl

/-- A dot stays on the grid. -/
theorem OnGrid.tick {ppu : Ppu} (h : OnGrid ppu) (bus : Bus) : OnGrid (ppu.tick bus).2.1 := by
  obtain ⟨hscanline, hdot⟩ := h
  cases hlast : ppu.onLastDot with
  | true =>
    obtain ⟨hline', hdot', -⟩ := tick_of_onLastDot hlast bus
    exact ⟨by rw [hline']; decide, by rw [hdot']; decide⟩
  | false =>
    obtain ⟨hline', hdot', -⟩ := tick_of_not_onLastDot hlast bus
    simp only [onLastDot, Bool.and_eq_false_iff, beq_eq_false_iff_ne, Bool.or_eq_false_iff,
      Schedule.prerenderScanline] at hlast
    simp only [Schedule.scanlines] at hscanline
    by_cases hend : ppu.dot = Schedule.dots - 1
    · rw [if_pos hend] at hline' hdot'
      refine ⟨?_, by rw [hdot']; decide⟩
      rw [hline', Schedule.scanlines]
      omega
    · rw [if_neg hend] at hline' hdot'
      refine ⟨by rw [hline']; exact hscanline, ?_⟩
      rw [hdot']
      omega

/-- The frames counted in a run come on top of those counted before. -/
theorem runFrom_eq (frames dots : Nat) (ppu : Ppu) (bus : Bus) :
    runFrom frames dots ppu bus = (frames + (ppu.run dots bus).1, (ppu.run dots bus).2) := by
  induction dots generalizing frames ppu bus with
  | zero => rfl
  | succ dots ih =>
    simp only [run, runFrom]
    rw [ih, ih (0 + _)]
    simp only [Nat.zero_add, Nat.add_assoc]

/-- A run begins with a dot. -/
theorem run_succ (dots : Nat) (ppu : Ppu) (bus : Bus) :
    ppu.run (dots + 1) bus =
      ((ppu.tick bus).1.toNat + ((ppu.tick bus).2.1.run dots (ppu.tick bus).2.2).1,
        ((ppu.tick bus).2.1.run dots (ppu.tick bus).2.2).2) := by
  simp only [run, runFrom, Nat.zero_add]
  exact runFrom_eq _ _ _ _

end Famicom.Ppu
