import Famicom.Proofs.Ppu.PictureAddress
import Famicom.Proofs.Ppu.ScrollUses

/-!
# Steps of the picture address walk a torus

The four nametables lie in a square whose opposite edges meet: 64 columns of tiles around in one
direction, 480 lines in the other. Any number of steps to the right or down has a closed form on
it. The two rows of attributes below each nametable lie outside: an address set among them walks to
their end and comes back to the top of the same nametable.
-/

namespace Famicom

namespace PictureAddress

namespace Fields

/-- Being in the same column is transitive. -/
theorem SameColumn.trans {f g h : Fields} (first : SameColumn f g) (second : SameColumn g h) :
    SameColumn f h :=
  ⟨second.coarseX.trans first.coarseX, second.nametableX.trans first.nametableX⟩

/-- Lines from the top of a nametable, through all 32 rows of tiles. -/
def depth (f : Fields) : Nat := 8 * f.coarseY + f.fineY

/-- The last line of the attributes is followed by the first line of the same nametable. -/
theorem down_of_last {f : Fields} (hrow : f.coarseY = 31) (hline : f.fineY = 7) :
    f.down = { f with coarseY := 0, fineY := 0 } := by
  rw [down, if_neg (by omega), if_neg (by omega), hrow]

/-- Among the attributes a step down stays in the nametable and counts the lines up. -/
theorem Fit.down_attributes {f : Fields} (h : f.Fit) (hrow : 30 ≤ f.coarseY)
    (hmore : f.depth + 1 < 256) :
    f.down.depth = f.depth + 1 ∧ f.down.nametableY = f.nametableY := by
  have hfine := h.fineY_lt
  unfold depth at *
  unfold down
  split
  · exact ⟨by dsimp only; omega, rfl⟩
  · rw [if_neg (by omega)]
    exact ⟨by dsimp only; omega, rfl⟩

/-- A step to the right and a step down move different fields. -/
theorem right_down (f : Fields) : f.right.down = f.down.right := by
  unfold right down
  by_cases hcolumn : f.coarseX = 31
  all_goals
    by_cases hline : f.fineY = 7
    · by_cases hrow : f.coarseY = 29 <;>
        simp only [hcolumn, hline, hrow, ne_eq, not_true, if_true, if_false]
    · simp only [hcolumn, hline, ne_eq, not_false_iff, if_true, if_false]

end Fields

/-- Steps to the right stay on the line. -/
theorem sameLine_tilesRight (v : UInt16) (tiles : Nat) :
    (fields v).SameLine (fields (tilesRight v tiles)) :=
  have hrow := sameRow_tilesRight v tiles
  ⟨hrow.coarseY, hrow.nametableY, hrow.fineY⟩

/-- Steps to the right count the column up, around the 64 columns. -/
theorem fields_tilesRight_column (v : UInt16) (tiles : Nat) :
    (fields (tilesRight v tiles)).column = ((fields v).column + tiles) % 64 := by
  have hcolumn := column_tilesRight v tiles
  simp only [column, Fields.column, fields] at hcolumn ⊢
  omega

/-- Steps to the right leave the spare bit alone. -/
theorem spare_tilesRight (v : UInt16) (tiles : Nat) : spare (tilesRight v tiles) = spare v := by
  induction tiles with
  | zero => rfl
  | succ tiles ih => rw [tilesRight, spare_incrementX, ih]

/-- Steps down stay in the column. -/
theorem sameColumn_linesDown (v : UInt16) (lines : Nat) :
    (fields v).SameColumn (fields (linesDown v lines)) := by
  induction lines with
  | zero => exact ⟨rfl, rfl⟩
  | succ lines ih =>
    rw [linesDown, fields_incrementY]
    exact ih.trans (Fields.sameColumn_down _)

/-- Steps down leave the spare bit alone. -/
theorem spare_linesDown (v : UInt16) (lines : Nat) : spare (linesDown v lines) = spare v := by
  induction lines with
  | zero => rfl
  | succ lines ih => rw [linesDown, spare_incrementY, ih]

/-- Steps down, followed by more of them. -/
theorem linesDown_add (v : UInt16) (first second : Nat) :
    linesDown v (first + second) = linesDown (linesDown v first) second := by
  induction second with
  | zero => rfl
  | succ second ih => rw [Nat.add_succ, linesDown, ih, linesDown]

/-- Among the attributes steps down count the lines up to the end of the last row. -/
theorem depth_linesDown {v : UInt16} (hrow : 30 ≤ (fields v).coarseY) {lines : Nat}
    (hinside : (fields v).depth + lines < 256) :
    (fields (linesDown v lines)).depth = (fields v).depth + lines ∧
      (fields (linesDown v lines)).nametableY = (fields v).nametableY := by
  induction lines with
  | zero => exact ⟨rfl, rfl⟩
  | succ lines ih =>
    obtain ⟨hdepth, hnametable⟩ := ih (by omega)
    have hfit := fields_fit (linesDown v lines)
    have hfine := hfit.fineY_lt
    have hrow' : 30 ≤ (fields (linesDown v lines)).coarseY := by
      unfold Fields.depth at hdepth
      omega
    obtain ⟨hdepth', hnametable'⟩ := hfit.down_attributes hrow' (by omega)
    rw [linesDown, fields_incrementY]
    exact ⟨by omega, hnametable'.trans hnametable⟩

/-- Past the end of the attributes steps down go on from the top of the same nametable. -/
theorem line_linesDown_attributes {v : UInt16} (hrow : 30 ≤ (fields v).coarseY) {lines : Nat}
    (houtside : 256 ≤ (fields v).depth + lines) :
    (fields (linesDown v lines)).line =
        (240 * (fields v).nametableY + ((fields v).depth + lines - 256)) % 480 ∧
      (fields (linesDown v lines)).coarseY ≤ 29 := by
  have hrow_lt := (fields_fit v).coarseY_lt
  have hfine_lt := (fields_fit v).fineY_lt
  have hdepth_lt : (fields v).depth < 256 := by
    unfold Fields.depth
    omega
  -- the steps to the last line, the one that leaves the attributes, and the rest
  obtain ⟨hlast, hnametable⟩ := depth_linesDown hrow
    (by omega : (fields v).depth + (255 - (fields v).depth) < 256)
  have hsplit : linesDown v lines =
      linesDown (linesDown v (255 - (fields v).depth + 1)) ((fields v).depth + lines - 256) := by
    have hsum : lines = 255 - (fields v).depth + 1 + ((fields v).depth + lines - 256) := by omega
    rw [← linesDown_add, ← hsum]
  have htop : fields (linesDown v (255 - (fields v).depth + 1)) =
      { fields (linesDown v (255 - (fields v).depth)) with coarseY := 0, fineY := 0 } := by
    have hfit := fields_fit (linesDown v (255 - (fields v).depth))
    have hrow_lt := hfit.coarseY_lt
    have hfine_lt := hfit.fineY_lt
    rw [linesDown, fields_incrementY]
    generalize fields (linesDown v (255 - (fields v).depth)) = f at *
    have hdepth : 8 * f.coarseY + f.fineY = 255 := by
      rw [Fields.depth] at hlast
      omega
    exact Fields.down_of_last (by omega) (by omega)
  have hstart : (fields (linesDown v (255 - (fields v).depth + 1))).line =
      240 * (fields v).nametableY := by
    rw [htop]
    simp only [Fields.line, hnametable, Nat.mul_zero, Nat.add_zero]
  have hpicture : (fields (linesDown v (255 - (fields v).depth + 1))).coarseY ≤ 29 := by
    rw [htop]
    exact Nat.zero_le _
  rw [hsplit, ← hstart]
  exact line_linesDown hpicture _

end PictureAddress

namespace Scroll

open PictureAddress

/-- Steps to the right move the current address alone. -/
theorem afterAll_incrementX (scroll : Scroll) (steps : Nat) :
    scroll.afterAll (List.replicate steps .incrementX) =
      { scroll with v := tilesRight scroll.v steps } := by
  induction steps with
  | zero => rfl
  | succ steps ih =>
    rw [List.replicate_succ', afterAll_concat, ih]
    rfl

/-- Steps down move the current address alone. -/
theorem afterAll_incrementY (scroll : Scroll) (steps : Nat) :
    scroll.afterAll (List.replicate steps .incrementY) =
      { scroll with v := linesDown scroll.v steps } := by
  induction steps with
  | zero => rfl
  | succ steps ih =>
    rw [List.replicate_succ', afterAll_concat, ih]
    rfl

/-- **Steps of the picture address walk a torus.** Any number of steps to the right counts the
column up around 64 columns and changes nothing else. Any number of steps down changes nothing but
the vertical fields. From a row of the picture they count the line up around 480 lines; from a row
of attributes they count up to the end of the last one and go on from the top of the same
nametable. A step to the right and a step down can be exchanged. -/
theorem steps_walk_torus (scroll : Scroll) (steps : Nat) :
    let start := fields scroll.v
    let right := scroll.afterAll (List.replicate steps .incrementX)
    let down := scroll.afterAll (List.replicate steps .incrementY)
    (right = { scroll with v := right.v } ∧ spare right.v = spare scroll.v ∧
      start.SameLine (fields right.v) ∧
      (fields right.v).column = (start.column + steps) % 64) ∧
    (down = { scroll with v := down.v } ∧ spare down.v = spare scroll.v ∧
      start.SameColumn (fields down.v) ∧
      (start.coarseY ≤ 29 →
        (fields down.v).line = (start.line + steps) % 480 ∧ (fields down.v).coarseY ≤ 29) ∧
      (30 ≤ start.coarseY → start.depth + steps < 256 →
        (fields down.v).depth = start.depth + steps ∧
          (fields down.v).nametableY = start.nametableY) ∧
      (30 ≤ start.coarseY → 256 ≤ start.depth + steps →
        (fields down.v).line = (240 * start.nametableY + (start.depth + steps - 256)) % 480 ∧
          (fields down.v).coarseY ≤ 29)) ∧
    scroll.incrementX.incrementY = scroll.incrementY.incrementX := by
  intro start right down
  have hright : right = { scroll with v := tilesRight scroll.v steps } :=
    scroll.afterAll_incrementX steps
  have hdown : down = { scroll with v := linesDown scroll.v steps } :=
    scroll.afterAll_incrementY steps
  refine ⟨?_, ?_, ?_⟩
  · rw [hright]
    exact ⟨rfl, spare_tilesRight _ _, sameLine_tilesRight _ _, fields_tilesRight_column _ _⟩
  · rw [hdown]
    exact ⟨rfl, spare_linesDown _ _, sameColumn_linesDown _ _, fun h => line_linesDown h steps,
      fun h hinside => depth_linesDown h hinside,
      fun h houtside => line_linesDown_attributes h houtside⟩
  · have hcommute : PictureAddress.incrementY (PictureAddress.incrementX scroll.v) =
        PictureAddress.incrementX (PictureAddress.incrementY scroll.v) := by
      refine eq_of_fields ?_ ?_
      · simp only [fields_incrementX, fields_incrementY, Fields.right_down]
      · simp only [spare_incrementX, spare_incrementY]
    exact congrArg (fun v => { scroll with v }) hcommute

/-- From the first row of attributes of the lower nametables, twenty steps down lead out of the
attributes to line 4 of the same nametable, and twenty to the right into the neighbouring one. -/
theorem steps_walk_torus_of_attributes :
    let scroll : Scroll := { v := 0x0BDF }
    (30 ≤ (fields scroll.v).coarseY ∧ 256 ≤ (fields scroll.v).depth + 20) ∧
      (fields (scroll.afterAll (List.replicate 20 .incrementY)).v).line = 244 ∧
      (fields (scroll.afterAll (List.replicate 20 .incrementX)).v).column = 51 := by
  intro scroll
  obtain ⟨⟨-, -, -, hcolumn⟩, ⟨-, -, -, -, -, houtside⟩, -⟩ := steps_walk_torus scroll 20
  have hrow : 30 ≤ (fields scroll.v).coarseY := by decide
  have hend : 256 ≤ (fields scroll.v).depth + 20 := by decide
  exact ⟨⟨hrow, hend⟩, (houtside hrow hend).1.trans (by decide), hcolumn.trans (by decide)⟩

end Scroll

end Famicom
