import Famicom.Proofs.Ppu.StatusFlags

/-!
# How long a frame takes

From one arrival at the top left corner to the next one the unit works through as many dots as the
grid has, whatever its registers are used for on the way. Only an odd frame can be shorter, by its
last dot: whether it is left out is settled on the dot before, by the layers that show there. The
dots of a frame are counted along the position, which every dot moves on by one, until the one that
reports the frame.
-/

namespace Famicom.PpuSide

variable {side : PpuSide} {use : PpuUse} {uses : List PpuUse}

/-- The use is a dot that reports a completed frame. -/
def completes (side : PpuSide) (use : PpuUse) : Bool :=
  use == .dot && (side.ppu.tick side.board).1

/-- How many frames are reported in a history. -/
def completions (side : PpuSide) (uses : List PpuUse) : Nat :=
  (side.moments uses).countP fun moment => moment.1.completes moment.2

/-- The unit has arrived at the first dot of a frame. -/
def AtCorner (side : PpuSide) : Prop := side.ppu.scanline = 0 ∧ side.ppu.dot = 0

/-- A dot reports a frame exactly when it is the last one. -/
theorem completes_dot (side : PpuSide) : side.completes .dot = side.ppu.onLastDot :=
  side.ppu.tick_completed side.board

/-- Only dots report frames. -/
theorem completes_of_ne_dot (h : use ≠ .dot) : side.completes use = false := by
  simp [completes, h]

/-- The frames of a history: the one that its first use may report, and those of the rest. -/
theorem completions_cons (side : PpuSide) (use : PpuUse) (rest : List PpuUse) :
    side.completions (use :: rest) =
      (side.completes use).toNat + (side.after use).completions rest := by
  rw [completions, moments, List.countP_cons, Nat.add_comm]
  cases side.completes use <;> simp [completions]

/-- A use that is no reset counts the frame that it reports, and changes the parity with it. -/
theorem after_counters (hreset : use ≠ .reset) :
    (side.after use).ppu.frameCount = side.ppu.frameCount + (side.completes use).toNat ∧
      (side.after use).ppu.oddFrame = (side.ppu.oddFrame != side.completes use) := by
  by_cases hdot : use = .dot
  · subst hdot
    rw [completes_dot, after_dot]
    cases hlast : side.ppu.onLastDot with
    | true =>
      obtain ⟨-, -, hodd, hcount⟩ := Ppu.tick_of_onLastDot hlast side.board
      exact ⟨hcount, hodd.trans (by simp)⟩
    | false =>
      obtain ⟨-, -, hodd, hcount⟩ := Ppu.tick_of_not_onLastDot hlast side.board
      exact ⟨hcount, hodd.trans (by simp)⟩
  · have hsame := side.after_samePicture hdot hreset
    rw [completes_of_ne_dot hdot]
    exact ⟨hsame.frameCount, hsame.oddFrame.trans (by simp)⟩

/-- The frame count grows with the dots that report a frame, and a reset keeps it. -/
theorem after_frameCount (use : PpuUse) :
    (side.after use).ppu.frameCount = side.ppu.frameCount + (side.completes use).toNat := by
  by_cases hreset : use = .reset
  · subst hreset
    rfl
  · exact (after_counters hreset).1

/-- One more frame changes the parity. -/
theorem parity_succ (frames : Nat) :
    decide ((1 + frames) % 2 = 1) = !decide (frames % 2 = 1) := by
  rw [← decide_not, decide_eq_decide]
  omega

/-- A history without a reset counts the frames that it reports, and the parity goes along. -/
theorem afterAll_counters (hreset : .reset ∉ uses) :
    (side.afterAll uses).ppu.frameCount = side.ppu.frameCount + side.completions uses ∧
      (side.afterAll uses).ppu.oddFrame =
        (side.ppu.oddFrame != decide (side.completions uses % 2 = 1)) := by
  induction uses generalizing side with
  | nil => exact ⟨rfl, (Bool.xor_false _).symm⟩
  | cons use rest ih =>
    rw [List.mem_cons, not_or] at hreset
    obtain ⟨hcount, hodd⟩ : (side.after use).ppu.frameCount = _ ∧ _ :=
      after_counters (Ne.symm hreset.1)
    obtain ⟨hcount', hodd'⟩ : ((side.after use).afterAll rest).ppu.frameCount = _ ∧ _ :=
      ih hreset.2
    rw [completions_cons]
    refine ⟨?_, ?_⟩
    · exact hcount'.trans (by rw [hcount, Nat.add_assoc])
    · refine hodd'.trans ?_
      rw [hodd]
      cases side.completes use with
      | false => simp
      | true => rw [Bool.toNat_true, parity_succ, Bool.bne_true, Bool.not_bne, Bool.bne_not]

/-- A use that neither resets the unit nor reports a frame moves the position by its dot. -/
theorem after_position (hreset : use ≠ .reset) (hopen : side.completes use = false) :
    (side.after use).ppu.position = side.ppu.position + [use].count .dot := by
  by_cases hdot : use = .dot
  · subst hdot
    rw [completes_dot] at hopen
    exact Ppu.tick_position_of_not_onLastDot hopen side.board
  · rw [(side.after_samePicture hdot hreset).position, List.count_singleton,
      beq_eq_false_iff_ne.mpr hdot]
    rfl

/-- The dots of a history, those of its first use coming first. -/
theorem count_dot_cons (use : PpuUse) (rest : List PpuUse) :
    (use :: rest).count .dot = [use].count .dot + rest.count .dot := by
  rw [← List.count_append, List.singleton_append]

/-- Without a reset and without a reported frame, the first use and the rest of a history are so as
well. -/
theorem open_cons {rest : List PpuUse} (hreset : .reset ∉ use :: rest)
    (hopen : side.completions (use :: rest) = 0) :
    use ≠ .reset ∧ side.completes use = false ∧ .reset ∉ rest ∧
      (side.after use).completions rest = 0 := by
  rw [completions_cons, Nat.add_eq_zero_iff, Bool.toNat_eq_zero] at hopen
  rw [List.mem_cons, not_or] at hreset
  exact ⟨Ne.symm hreset.1, hopen.1, hreset.2, hopen.2⟩

/-- While no frame is reported, a history without a reset moves the position by its dots. -/
theorem afterAll_position_of_open (hreset : .reset ∉ uses) (hopen : side.completions uses = 0) :
    (side.afterAll uses).ppu.position = side.ppu.position + uses.count .dot := by
  induction uses generalizing side with
  | nil => rfl
  | cons use rest ih =>
    obtain ⟨hfirst, hnone, hrest, hopen'⟩ := open_cons hreset hopen
    rw [count_dot_cons, ← Nat.add_assoc, ← after_position hfirst hnone]
    exact ih hrest hopen'

/-- While no frame is reported, each place between the first position and the last one is worked
through once, and no other place is. -/
theorem countP_worksAt (hgrid : side.ppu.OnGrid) (hreset : .reset ∉ uses)
    (hopen : side.completions uses = 0) (scanline : Nat) {dot : Nat} (hdot : dot < Schedule.dots) :
    (side.moments uses).countP (fun moment => moment.1.WorksAt moment.2 scanline dot) =
      if side.ppu.position ≤ Schedule.dots * scanline + dot ∧
          Schedule.dots * scanline + dot < side.ppu.position + uses.count .dot then 1 else 0 := by
  induction uses generalizing side with
  | nil =>
    rw [if_neg (by rw [List.count_nil]; omega)]
    rfl
  | cons use rest ih =>
    obtain ⟨hfirst, hnone, hrest, hopen'⟩ := open_cons hreset hopen
    have hcount := ih (after_onGrid hgrid use) hrest hopen'
    have hdots := count_dot_cons use rest
    rw [after_position hfirst hnone] at hcount
    rw [moments, List.countP_cons, hcount, hdots]
    by_cases huse : use = .dot
    · subst huse
      have hworks : side.WorksAt .dot scanline dot ↔
          side.ppu.position = Schedule.dots * scanline + dot := by
        rw [hgrid.position_eq_iff hdot]
        exact ⟨fun h => h.2, fun h => ⟨rfl, h⟩⟩
      have hone : [PpuUse.dot].count .dot = 1 := rfl
      simp only [hone, decide_eq_true_eq, hworks]
      split <;> split <;> split <;> omega
    · have hworks : ¬side.WorksAt use scanline dot := fun h => huse h.1
      have hzero : [use].count .dot = 0 := List.count_cons_of_ne huse
      simp only [hzero, decide_eq_true_eq, hworks, if_false, Nat.add_zero, Nat.zero_add]

/-- While no frame is reported, no use reports one, and the parity stays as it is. -/
theorem moments_of_open (hreset : .reset ∉ uses) (hopen : side.completions uses = 0) :
    ∀ moment ∈ side.moments uses,
      moment.1.completes moment.2 = false ∧ moment.1.ppu.oddFrame = side.ppu.oddFrame := by
  induction uses generalizing side with
  | nil => exact fun moment hmem => absurd hmem List.not_mem_nil
  | cons use rest ih =>
    obtain ⟨hfirst, hnone, hrest, hopen'⟩ := open_cons hreset hopen
    have hodd : (side.after use).ppu.oddFrame = side.ppu.oddFrame := by
      rw [(after_counters hfirst).2, hnone, Bool.bne_false]
    refine List.forall_mem_cons.mpr ⟨⟨hnone, rfl⟩, fun moment hmem => ?_⟩
    exact hodd ▸ ih hrest hopen' moment hmem

/-- The dot after the current one is left out where an odd frame shows a layer at (261, 339). -/
theorem skipsDot_iff :
    side.ppu.skipsDot = true ↔ side.WorksAt .dot 261 339 ∧ side.ppu.oddFrame = true ∧
      side.ppu.mask.rendering = true := by
  simp only [Ppu.skipsDot, WorksAt, Bool.and_eq_true, beq_iff_eq, Schedule.prerenderScanline,
    Schedule.dots, true_and, and_assoc]

/-- A dot of a history is worked through at (261, 339) while a layer shows. -/
def turnsWithLayers (side : PpuSide) (uses : List PpuUse) : Bool :=
  (side.moments uses).any fun moment =>
    decide (moment.1.WorksAt moment.2 261 339) && moment.1.ppu.mask.rendering

theorem turnsWithLayers_iff :
    side.turnsWithLayers uses = true ↔ ∃ moment ∈ side.moments uses,
      moment.1.WorksAt moment.2 261 339 ∧ moment.1.ppu.mask.rendering = true := by
  simp [turnsWithLayers]

/-- Whether a frame leaves out its last dot, told by its parity and by the layers at the dot
before. -/
theorem skipsDot_of_frame (hreset : .reset ∉ uses) (hopen : side.completions uses = 0) :
    (side.afterAll uses).ppu.skipsDot =
      (side.ppu.oddFrame && side.turnsWithLayers (uses ++ [.dot])) := by
  let last := side.afterAll uses
  have hodd : last.ppu.oddFrame = side.ppu.oddFrame := by
    rw [(afterAll_counters hreset).2, hopen]
    exact Bool.bne_false _
  rw [Bool.eq_iff_iff, Bool.and_eq_true, turnsWithLayers_iff, moments_append]
  refine ⟨fun hskip => ?_, fun ⟨hoddFrame, moment, hmem, hworks, hrendering⟩ => ?_⟩
  · obtain ⟨hworks, hoddLast, hrendering⟩ := skipsDot_iff.mp hskip
    exact ⟨hodd ▸ hoddLast, (last, .dot), List.mem_append_right _ List.mem_cons_self, hworks,
      hrendering⟩
  · rcases List.mem_append.mp hmem with hbefore | hlast
    · -- an earlier dot would have been the last one of the frame
      obtain ⟨hnone, hsame⟩ := moments_of_open hreset hopen moment hbefore
      have hskip : moment.1.ppu.skipsDot = true :=
        skipsDot_iff.mpr ⟨⟨rfl, hworks.2⟩, hsame.trans hoddFrame, hrendering⟩
      rw [hworks.1, completes_dot, Ppu.onLastDot_of_skipsDot hskip] at hnone
      contradiction
    · obtain rfl : moment = (last, .dot) := List.mem_singleton.mp hlast
      exact skipsDot_iff.mpr ⟨hworks, hodd.trans hoddFrame, hrendering⟩

/-- A frame from the corner to the dot that reports it. It works once through the dot before the
last one of the grid, and it is shorter by one dot exactly when it is odd and a layer shows there. -/
theorem count_dot_of_frame (hcorner : side.AtCorner) (hreset : .reset ∉ uses)
    (hopen : side.completions uses = 0) (hlast : (side.afterAll uses).completes .dot = true) :
    let frame := uses ++ [.dot]
    (side.moments frame).countP (fun moment => moment.1.WorksAt moment.2 261 339) = 1 ∧
      frame.count .dot =
        if side.ppu.oddFrame && side.turnsWithLayers frame then 89341 else 89342 := by
  intro frame
  have hgrid : side.ppu.OnGrid := .of_corner hcorner.1 hcorner.2
  have hstart : side.ppu.position = 0 := by
    rw [Ppu.position, hcorner.1, hcorner.2]
    rfl
  let last := side.afterAll uses
  have hposition : last.ppu.position = uses.count .dot := by
    rw [afterAll_position_of_open hreset hopen, hstart, Nat.zero_add]
  have hend : uses.count .dot + 1 + last.ppu.skipsDot.toNat = 89342 := by
    rw [← hposition]
    exact Ppu.position_of_onLastDot (last.completes_dot.symm.trans hlast)
  have hdot : 339 < Schedule.dots := by decide
  have hplace : Schedule.dots * 261 + 339 = 89340 := rfl
  refine ⟨?_, ?_⟩
  · have hbefore := countP_worksAt hgrid hreset hopen 261 hdot
    rw [hstart, hplace] at hbefore
    have hworks : last.WorksAt .dot 261 339 ↔ uses.count .dot = 89340 := by
      rw [← hposition, ← hplace, (afterAll_onGrid hgrid uses).position_eq_iff hdot]
      exact and_iff_right rfl
    rw [side.moments_append, List.countP_append, hbefore]
    change _ + List.countP _ [(last, PpuUse.dot)] = 1
    have htoNat := last.ppu.skipsDot.toNat_le
    rw [List.countP_singleton]
    simp only [decide_eq_true_eq, hworks]
    split <;> split <;> omega
  · have hcount : frame.count .dot = uses.count .dot + 1 := List.count_append
    rw [hcount, ← skipsDot_of_frame hreset hopen]
    change _ = if last.ppu.skipsDot = true then _ else _
    cases hskip : last.ppu.skipsDot <;> rw [hskip] at hend
    · exact Nat.add_right_cancel hend
    · exact Nat.add_right_cancel hend

/-- Arriving at the corner, by the dot that reports a frame and by a reset only. -/
theorem after_atCorner (h : side.completes use = true ∨ use = .reset) :
    (side.after use).AtCorner := by
  rcases h with hlast | rfl
  · have hdot : use = .dot := Decidable.byContradiction fun hdot => by
      rw [completes_of_ne_dot hdot] at hlast
      contradiction
    subst hdot
    rw [completes_dot] at hlast
    obtain ⟨hline, hdot, -⟩ := Ppu.tick_of_onLastDot hlast side.board
    exact ⟨hline, hdot⟩
  · exact ⟨rfl, rfl⟩

/-- A dot that leads to the corner reports a frame. -/
theorem completes_of_after_atCorner (h : (side.after .dot).AtCorner) :
    side.completes .dot = true := by
  rw [completes_dot, ← Bool.not_eq_false]
  intro hlast
  have hmoves : (side.after .dot).ppu.position = side.ppu.position + 1 :=
    Ppu.tick_position_of_not_onLastDot hlast side.board
  rw [Ppu.position, h.1, h.2] at hmoves
  exact absurd hmoves (Nat.succ_ne_zero _).symm

/-- **How long a frame takes**, whatever has happened to the unit since power-on and whatever it is
used for in between. The dots that report a frame are those that arrive at the corner; each one, and
nothing else but a reset, flips the parity and each one, and nothing else, adds to the frame count,
so after a reset the frames are even and odd by turns. From the corner, the first 89342 dots
complete a frame. A frame that a dot reports is complete after 89342 dots, or after 89341 exactly if
it is odd and a layer shows at the one dot of it that is worked through at (261, 339). -/
theorem frame_length (board : Board) (history : List PpuUse) :
    let side := PpuSide.afterAll { ppu := {}, board } history
    (PpuSide.AtCorner { ppu := {}, board } ∧ (side.after .reset).AtCorner ∧
      (side.after .reset).ppu.oddFrame = false) ∧
    (∀ use, side.completes use = true ↔ use = .dot ∧ (side.after use).AtCorner) ∧
    (∀ use,
      (side.after use).ppu.frameCount = side.ppu.frameCount + (side.completes use).toNat ∧
      (use ≠ .reset →
        (side.after use).ppu.oddFrame = (side.ppu.oddFrame != side.completes use))) ∧
    (∀ uses, .reset ∉ uses →
      ((side.after .reset).afterAll uses).ppu.oddFrame =
        decide ((side.after .reset).completions uses % 2 = 1)) ∧
    (side.AtCorner → ∀ uses, .reset ∉ uses → side.completions uses = 0 →
      uses.count .dot < 89342 ∧
      ((side.afterAll uses).completes .dot = true →
        let frame := uses ++ [.dot]
        (side.moments frame).countP (fun moment => moment.1.WorksAt moment.2 261 339) = 1 ∧
        frame.count .dot =
          if side.ppu.oddFrame && side.turnsWithLayers frame then 89341 else 89342)) := by
  intro side
  refine ⟨⟨⟨rfl, rfl⟩, ⟨rfl, rfl⟩, rfl⟩, fun use => ⟨fun hlast => ?_, fun ⟨hdot, hcorner⟩ => ?_⟩,
    fun use => ⟨after_frameCount use, fun hreset => (after_counters hreset).2⟩,
    fun uses hreset => ?_, fun hcorner uses hreset hopen => ⟨?_, fun hlast =>
      count_dot_of_frame hcorner hreset hopen hlast⟩⟩
  · refine ⟨Decidable.byContradiction fun hdot => ?_, after_atCorner (.inl hlast)⟩
    rw [completes_of_ne_dot hdot] at hlast
    contradiction
  · subst hdot
    exact completes_of_after_atCorner hcorner
  · exact (afterAll_counters hreset).2.trans (Bool.false_bne _)
  · have hgrid : side.ppu.OnGrid := .of_corner hcorner.1 hcorner.2
    have hposition := (afterAll_onGrid hgrid uses).position_lt
    rw [afterAll_position_of_open hreset hopen, Ppu.frameDots_eq] at hposition
    exact Nat.lt_of_le_of_lt (Nat.le_add_left _ _) hposition

end Famicom.PpuSide
