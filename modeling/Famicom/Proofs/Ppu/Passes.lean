import Famicom.Proofs.Ppu.Drawing
import Famicom.Proofs.Ppu.Uses

/-!
# A completed frame shows one pass

The unit has two frames, one to draw and one to show. At the end of a frame they change places,
and neither is ever cleared, so a point that was left out would show an old picture. But the way
from the top left corner to the end of a frame leads through every point of the picture once,
whatever programs do on the way, and a reset begins a new way at the corner.
-/

namespace Famicom

/-- How often the current dot puts out the pixel in column `x` of row `y`. -/
def Ppu.puts (ppu : Ppu) (x y : Nat) : Nat :=
  if ppu.dot - 1 = x ∧ ppu.scanline = y then
    (Schedule.work ppu.scanline ppu.dot).count .renderPixel
  else 0

namespace PpuSide

/-- The dots worked through since the last arrival at the top left corner, each as the unit
before it, after one more use. -/
def passAfter (pass : List Ppu) (side : PpuSide) : PpuUse → List Ppu
  | .dot => if (side.after .dot).ppu.position = 0 then [] else pass ++ [side.ppu]
  | .reset => []
  | _ => pass

/-- The dots worked through since the last arrival at the top left corner, after a history. -/
def passAfterAll : List Ppu → PpuSide → List PpuUse → List Ppu
  | pass, _, [] => pass
  | pass, side, use :: rest => passAfterAll (side.passAfter pass use) (side.after use) rest

end PpuSide

namespace Ppu

/-- What the dots since the last arrival at the top left corner have drawn. They are all the
positions up to the current one, and each point of the picture among them has its colour. -/
structure Drawn (pass : List Ppu) (ppu : Ppu) : Prop where
  onGrid : ppu.OnGrid
  pass_onGrid : ∀ drawn ∈ pass, drawn.OnGrid
  positions : pass.map position = List.range ppu.position
  shown : ∀ drawn ∈ pass, Schedule.OnPicture drawn.scanline drawn.dot →
    ppu.drawing.get? (.ofNat (drawn.dot - 1)) (.ofNat drawn.scanline) = some drawn.colour

variable {Bus : Type} [PatternBus Bus] {pass : List Ppu} {ppu : Ppu}

/-- At the top left corner nothing has been drawn. -/
theorem Drawn.begin (h : ppu.OnGrid) (hposition : ppu.position = 0) : Drawn [] ppu :=
  ⟨h, by simp, by rw [hposition]; rfl, by simp⟩

/-- What does not change the picture does not change what has been drawn. -/
theorem Drawn.of_samePicture {after : Ppu} (h : Drawn pass ppu) (hsame : ppu.SamePicture after) :
    Drawn pass after := by
  refine ⟨?_, h.pass_onGrid, ?_, ?_⟩
  · exact h.onGrid.of_samePicture hsame
  · rw [h.positions, hsame.position]
  · intro drawn hmem hpicture
    rw [hsame.drawing]
    exact h.shown drawn hmem hpicture

/-- After the work of the current dot its point shows its colour as well. -/
theorem Drawn.worked (h : Drawn pass ppu) (bus : Bus) :
    ∀ drawn ∈ pass ++ [ppu], Schedule.OnPicture drawn.scanline drawn.dot →
      (ppu.worked bus).drawing.get? (.ofNat (drawn.dot - 1)) (.ofNat drawn.scanline) =
        some drawn.colour := by
  intro drawn hmem hpicture
  obtain ⟨hline, hfirst, hlast⟩ := hpicture
  have hplace : drawn.position = Schedule.dots * drawn.scanline + (drawn.dot - 1 + 1) := by
    rw [position, Nat.sub_add_cancel hfirst]
  rw [h.onGrid.worked_point bus (by omega) hline, ← hplace]
  rcases List.mem_append.mp hmem with hmem | hmem
  · have hbefore : drawn.position < ppu.position := by
      rw [← List.mem_range, ← h.positions]
      exact List.mem_map_of_mem hmem
    rw [if_neg (by omega)]
    exact h.shown drawn hmem ⟨hline, hfirst, hlast⟩
  · obtain rfl := List.mem_singleton.mp hmem
    rw [if_pos rfl]

/-- With the current dot the pass is still on the grid. -/
theorem Drawn.onGrid_append (h : Drawn pass ppu) : ∀ drawn ∈ pass ++ [ppu], drawn.OnGrid := by
  intro drawn hmem
  rw [List.mem_append, List.mem_singleton] at hmem
  rcases hmem with hmem | rfl
  · exact h.pass_onGrid drawn hmem
  · exact h.onGrid

/-- With the current dot the pass reaches one position further. -/
theorem Drawn.positions_append (h : Drawn pass ppu) :
    (pass ++ [ppu]).map position = List.range (ppu.position + 1) := by
  rw [List.range_succ, List.map_append, h.positions]
  rfl

/-- A dot that does not end the frame adds its own point. -/
theorem Drawn.tick (h : Drawn pass ppu) (hlast : ppu.onLastDot = false) (bus : Bus) :
    Drawn (pass ++ [ppu]) (ppu.tick bus).2.1 := by
  refine ⟨h.onGrid.tick bus, h.onGrid_append, ?_, ?_⟩
  · rw [tick_position_of_not_onLastDot hlast, h.positions_append]
  · rw [(tick_frames ppu bus).1, hlast]
    exact h.worked bus

/-- On the grid a pixel is put out at one position, and once there. -/
theorem OnGrid.puts_eq (h : ppu.OnGrid) {x y : Nat} (hx : x < 256) (hy : y < 240) :
    ppu.puts x y = if ppu.position = Schedule.dots * y + (x + 1) then 1 else 0 := by
  have hwide : x + 1 < Schedule.dots := by
    rw [Schedule.dots]
    omega
  have hplace : ppu.position = Schedule.dots * y + (x + 1) ↔ ppu.scanline = y ∧ ppu.dot = x + 1 :=
    h.position_eq_iff hwide
  unfold puts
  by_cases hpicture : Schedule.OnPicture ppu.scanline ppu.dot
  · obtain ⟨rest, hwork, hrest⟩ := Schedule.work_onPicture hpicture
    have hfirst := hpicture.2.1
    have hpoint : (ppu.dot - 1 = x ∧ ppu.scanline = y) ↔ ppu.scanline = y ∧ ppu.dot = x + 1 := by
      omega
    rw [hwork, List.count_cons_self, List.count_eq_zero_of_not_mem hrest]
    simp only [hpoint, hplace]
  · have helsewhere : ¬(ppu.scanline = y ∧ ppu.dot = x + 1) := by
      rintro ⟨rfl, hdot⟩
      exact hpicture ⟨hy, by omega⟩
    rw [List.count_eq_zero_of_not_mem (Schedule.work_of_not_onPicture hpicture), ite_self,
      if_neg (mt hplace.mp helsewhere)]

/-- Dots at successive positions put out each pixel that they reach once. -/
theorem puts_once {dots : Nat} (hgrid : ∀ drawn ∈ pass, drawn.OnGrid)
    (hpositions : pass.map position = List.range dots) {x y : Nat} (hx : x < 256) (hy : y < 240)
    (hpassed : Schedule.dots * y + (x + 1) < dots) :
    ∃ drawn, pass.filter (fun drawn => drawn.puts x y ≠ 0) = [drawn] ∧
      drawn.position = Schedule.dots * y + (x + 1) := by
  let place := Schedule.dots * y + (x + 1)
  have hfilter : pass.filter (fun drawn => drawn.puts x y ≠ 0) =
      pass.filter ((fun place' => place' = place) ∘ position) := by
    apply List.filter_congr
    intro drawn hmem
    rw [(hgrid drawn hmem).puts_eq hx hy]
    simp [place]
  -- each position occurs once in the pass, so one dot is left
  have hplaces : (pass.filter ((fun place' => place' = place) ∘ position)).map position =
      [place] := by
    rw [← List.filter_map, hpositions, List.filter_eq, List.count_range, if_pos hpassed]
    rfl
  obtain ⟨drawn, hone, hplace⟩ := List.map_eq_singleton_iff.mp hplaces
  exact ⟨drawn, hfilter.trans hone, hplace⟩

end Ppu

namespace PpuSide

open Ppu

/-- Every use keeps what is known about the pass. -/
theorem drawn_after {side : PpuSide} {pass : List Ppu} (h : Drawn pass side.ppu) (use : PpuUse) :
    Drawn (side.passAfter pass use) (side.after use).ppu := by
  have hgrid := after_onGrid h.onGrid use
  by_cases hdot : use = .dot
  · subst hdot
    rw [passAfter]
    split
    · next hcorner => exact .begin hgrid hcorner
    · next hcorner =>
      have hlast : side.ppu.onLastDot = false := by
        rw [Bool.eq_false_iff]
        intro hlast
        obtain ⟨hline, hdot, -⟩ := tick_of_onLastDot hlast side.board
        apply hcorner
        change (side.ppu.tick side.board).2.1.position = 0
        rw [position, hline, hdot]
        rfl
      exact h.tick hlast side.board
  · by_cases hreset : use = .reset
    · subst hreset
      exact .begin hgrid rfl
    · have hpass : side.passAfter pass use = pass := by
        cases use <;> first | rfl | contradiction
      rw [hpass]
      exact h.of_samePicture (side.after_samePicture hdot hreset)

/-- A history keeps what is known about the pass. -/
theorem drawn_afterAll {side : PpuSide} {pass : List Ppu} (h : Drawn pass side.ppu)
    (uses : List PpuUse) : Drawn (passAfterAll pass side uses) (side.afterAll uses).ppu := by
  induction uses generalizing side pass with
  | nil => exact h
  | cons use rest ih => exact ih (drawn_after h use)

/-- A use that completes no frame leaves the frame that is shown alone. -/
theorem after_frame {side : PpuSide} {use : PpuUse}
    (h : use = .dot → (side.ppu.tick side.board).1 = false) :
    (side.after use).ppu.frame = side.ppu.frame := by
  by_cases hdot : use = .dot
  · subst hdot
    have hlast := h rfl
    rw [tick_completed] at hlast
    change (side.ppu.tick side.board).2.1.frame = _
    rw [(tick_frames side.ppu side.board).2, hlast]
    rfl
  · by_cases hreset : use = .reset
    · subst hreset
      rfl
    · exact (side.after_samePicture hdot hreset).frame

end PpuSide

/-- A completed frame shows what its pass has drawn, and nothing of older frames. Each pixel is put
out once on the way from the top left corner, and shows the colour of the dot that put it out.
Between two completions the frame that is shown stays the same. -/
theorem PpuSide.completed_frame_shows_pass (board : Board) (uses : List PpuUse) :
    let start : PpuSide := { ppu := {}, board }
    let side := start.afterAll uses
    let pass := passAfterAll [] start uses ++ [side.ppu]
    ((side.ppu.tick side.board).1 = true → ∀ x < 256, ∀ y < 240,
      ∃ drawn, pass.filter (fun drawn => drawn.puts x y ≠ 0) = [drawn] ∧ drawn.puts x y = 1 ∧
        drawn.scanline = y ∧ drawn.dot = x + 1 ∧ drawn.colour < 0x40 ∧
        (side.after .dot).ppu.frame.get? (.ofNat x) (.ofNat y) = some drawn.colour) ∧
    ∀ use, (use = .dot → (side.ppu.tick side.board).1 = false) →
      (side.after use).ppu.frame = side.ppu.frame := by
  intro start side pass
  have hstart : start.ppu.OnGrid :=
    .of_corner rfl rfl
  have hdrawn : Ppu.Drawn (passAfterAll [] start uses) side.ppu :=
    drawn_afterAll (.begin hstart rfl) uses
  refine ⟨?_, fun use => after_frame⟩
  intro hcompleted x hx y hy
  rw [Ppu.tick_completed] at hcompleted
  have hpassed := Ppu.position_lt_of_onLastDot hcompleted hx hy
  have hwide : x + 1 < Schedule.dots := by
    rw [Schedule.dots]
    omega
  obtain ⟨drawn, hone, hplace⟩ :=
    Ppu.puts_once hdrawn.onGrid_append hdrawn.positions_append hx hy hpassed
  have hmem : drawn ∈ pass := by
    have hfound : drawn ∈ pass.filter (fun drawn => drawn.puts x y ≠ 0) := by
      rw [hone]
      exact List.mem_singleton_self drawn
    exact (List.mem_filter.mp hfound).1
  have hgrid := hdrawn.onGrid_append drawn hmem
  obtain ⟨hline, hdot⟩ := (hgrid.position_eq_iff hwide).mp hplace
  have hshown := hdrawn.worked side.board drawn hmem ⟨by omega, by omega, by omega⟩
  refine ⟨drawn, hone, ?_, hline, hdot, drawn.colour_lt, ?_⟩
  · rw [hgrid.puts_eq hx hy, if_pos hplace]
  · change (side.ppu.tick side.board).2.1.frame.get? (.ofNat x) (.ofNat y) = _
    rw [(Ppu.tick_frames side.ppu side.board).2, hcompleted, if_pos rfl, ← hshown, hline, hdot]
    rfl

end Famicom
