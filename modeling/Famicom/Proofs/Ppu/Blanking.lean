import Famicom.Proofs.Ppu.BehindRegisters
import Famicom.Proofs.Ppu.Uses

/-!
# Accesses between two pictures

From line 240 to line 260 a dot moves the position and nothing else, but for the one that begins
vertical blank. No access sees or moves what such a dot changes, except that a read of the status
sees and ends vertical blank. So it does not matter which of two neighbours comes first, an access
or a dot, and by exchanging neighbours all the dots of a history can be put behind its accesses.
This is what allows an instruction to be run as a whole before the unit catches up.
-/

namespace Famicom

namespace Ppu

/-- The unit is on one of the lines between two pictures. -/
structure Blank (ppu : Ppu) : Prop where
  first : 240 ≤ ppu.scanline
  last : ppu.scanline ≤ 260

variable {ppu : Ppu}

/-- The work of a dot between two pictures: vertical blank begins where it is time. -/
theorem Blank.work (h : ppu.Blank) :
    Schedule.work ppu.scanline ppu.dot = if ppu.beginsVblank then [.setVblank] else [] := by
  have hfirst := h.first
  have hlast := h.last
  rw [Schedule.work, Schedule.Line.ofScanline, if_neg (by omega), beginsVblank,
    Schedule.vblankScanline, Schedule.prerenderScanline]
  by_cases hvblank : ppu.scanline = 241
  · rw [if_pos hvblank, hvblank]
    simp [Schedule.operations]
  · rw [if_neg hvblank, if_neg (by omega)]
    simp [Schedule.operations, hvblank]

/-- No frame ends between two pictures. -/
theorem Blank.onLastDot (h : ppu.Blank) : ppu.onLastDot = false := by
  have hline : ¬ppu.scanline = Schedule.prerenderScanline := by
    have hlast := h.last
    rw [Schedule.prerenderScanline]
    omega
  simp [Ppu.onLastDot, hline]

/-- No line between two pictures fetches. -/
theorem Blank.onFetchingLine (h : ppu.Blank) : ppu.onFetchingLine = false := by
  have hfirst := h.first
  have hlast := h.last
  apply decide_eq_false
  rw [Schedule.prerenderScanline]
  omega

/-- Accesses keep the unit between two pictures. -/
theorem Blank.of_samePicture {before after : Ppu} (h : before.Blank)
    (hsame : before.SamePicture after) : after.Blank :=
  ⟨hsame.scanline ▸ h.first, hsame.scanline ▸ h.last⟩

/-- The step to the next dot inside a frame. -/
theorem nextDot_of_not_onLastDot (h : ppu.onLastDot = false) :
    ppu.nextDot =
      (false,
        { ppu with
          scanline := if ppu.dot = Schedule.dots - 1 then ppu.scanline + 1 else ppu.scanline
          dot := if ppu.dot = Schedule.dots - 1 then 0 else ppu.dot + 1 }) := by
  rw [nextDot, h, if_neg Bool.false_ne_true]
  split <;> rfl

/-- Where the step to the next dot leads does not depend on what accesses change. -/
theorem nextDot_samePicture {before after : Ppu} (hsame : before.SamePicture after)
    (h : before.onLastDot = false) (h' : after.onLastDot = false) :
    before.nextDot.2.SamePicture after.nextDot.2 := by
  rw [nextDot_of_not_onLastDot h, nextDot_of_not_onLastDot h']
  constructor
  · simp only [hsame.scanline, hsame.dot]
  · simp only [hsame.dot]
  · exact hsame.oddFrame
  · exact hsame.frameCount
  · exact hsame.secondaryOam
  · exact hsame.pickedCount
  · exact hsame.pickedZero
  · exact hsame.sprites
  · exact hsame.next
  · exact hsame.shifter
  · exact hsame.drawing
  · exact hsame.frame

/-- A dot between two pictures moves the position on, and vertical blank begins where it is time. -/
theorem Blank.tick (h : ppu.Blank) (board : Board) :
    ppu.tick board = (false, ppu.behind ppu.nextDot.2 ppu.beginsVblank, board) := by
  have hlast := h.onLastDot
  rw [Ppu.tick, h.work, nextDot_of_not_onLastDot hlast]
  cases ppu.beginsVblank with
  | false =>
    simp only [Bool.false_eq_true, if_false, performAll, nextDot_of_not_onLastDot hlast]
    rfl
  | true =>
    have hbegun : ppu.beginVblank.onLastDot = false := hlast
    simp only [if_true, performAll, DotOperation.needsRendering, Bool.false_and,
      Bool.false_eq_true, if_false, perform, nextDot_of_not_onLastDot hbegun]
    rfl

end Ppu

/-- A use that neither sees nor moves what a dot between two pictures changes. A read of the
status sees whether vertical blank has begun, and a reset moves the position. -/
def PpuUse.Quiet : PpuUse → Prop
  | .access (.read address) => address % 8 ≠ 2
  | .reset => False
  | _ => True

namespace PpuSide

variable {side : PpuSide} {use : PpuUse}

/-- The unit is between two pictures now and after each of a number of dots. -/
def BlankFor (side : PpuSide) (dots : Nat) : Prop :=
  ∀ n ≤ dots, (side.afterAll (.replicate n .dot)).ppu.Blank

/-- A dot between two pictures, with the cartridge. -/
theorem after_dot_of_blank (h : side.ppu.Blank) :
    side.after .dot =
      { side with ppu := side.ppu.behind side.ppu.nextDot.2 side.ppu.beginsVblank } := by
  rw [after_dot, h.tick]

/-- A quiet use other than a dot keeps the unit between two pictures. -/
theorem blank_after (h : side.ppu.Blank) (hquiet : use.Quiet) (hdot : use ≠ .dot) :
    (side.after use).ppu.Blank := by
  apply h.of_samePicture
  apply side.after_samePicture hdot
  rintro rfl
  exact hquiet

/-- A dot between two pictures comes before or after a quiet use. -/
theorem after_dot_comm (h : side.ppu.Blank) (hnext : (side.after .dot).ppu.Blank)
    (hquiet : use.Quiet) :
    (side.after .dot).answer use = side.answer use ∧
      (side.after .dot).after use = (side.after use).after .dot := by
  by_cases hdot : use = .dot
  · subst hdot
    exact ⟨rfl, rfl⟩
  have hreset : use ≠ .reset := by
    rintro rfl
    exact hquiet
  have hsame := side.after_samePicture hdot hreset
  have hblank := blank_after h hquiet hdot
  have hpicture := Ppu.nextDot_samePicture hsame h.onLastDot hblank.onLastDot
  have hbegins : (side.after use).ppu.beginsVblank = side.ppu.beginsVblank := by
    rw [Ppu.beginsVblank, Ppu.beginsVblank, hsame.scanline, hsame.dot]
  rw [after_dot_of_blank h] at hnext ⊢
  rw [after_dot_of_blank hblank, Ppu.behind_congr _ hpicture, hbegins]
  have hline : side.ppu.nextDot.2.onFetchingLine = side.ppu.onFetchingLine :=
    hnext.onFetchingLine.trans h.onFetchingLine.symm
  cases use with
  | dot => contradiction
  | reset => contradiction
  | store value => exact ⟨rfl, rfl⟩
  | cartridge board => exact ⟨rfl, rfl⟩
  | access access =>
    cases access with
    | read address =>
      have hread := Ppu.readRegister_behind side.ppu.beginsVblank address (.inl hquiet) hline
        side.board
      constructor
      · exact congrArg (fun result => some result.1) hread
      · exact congrArg (fun result => PpuSide.mk result.2.1 result.2.2) hread
    | write address value =>
      have hwrite := Ppu.writeRegister_behind side.ppu.beginsVblank hline address value side.board
      constructor
      · rfl
      · exact congrArg (fun result => PpuSide.mk result.1 result.2) hwrite

/-- A dot between two pictures comes before or after any number of quiet uses. -/
theorem afterAll_dot_comm {uses : List PpuUse} (hquiet : ∀ use ∈ uses, use.Quiet ∧ use ≠ .dot)
    (h : side.ppu.Blank) (hnext : (side.after .dot).ppu.Blank) :
    answers uses (side.after .dot) = answers uses side ∧
      (side.after .dot).afterAll uses = (side.afterAll uses).after .dot := by
  induction uses generalizing side with
  | nil => exact ⟨rfl, rfl⟩
  | cons use rest ih =>
    obtain ⟨⟨huse, hdot⟩, hrest⟩ := List.forall_mem_cons.mp hquiet
    obtain ⟨hanswer, hswap⟩ := after_dot_comm h hnext huse
    have hblank := blank_after h huse hdot
    have hblankNext := blank_after hnext huse hdot
    rw [hswap] at hblankNext
    obtain ⟨hanswers, hafter⟩ := ih hrest hblank hblankNext
    constructor
    · rw [answers, answers, hanswer, hswap, hanswers]
    · change (((side.after .dot).after use).afterAll rest) = _
      rw [hswap, hafter]
      rfl

/-- A quiet use other than a dot does not change how long the unit stays between pictures. -/
theorem BlankFor.after {dots : Nat} (h : side.BlankFor dots) (hquiet : use.Quiet)
    (hdot : use ≠ .dot) : (side.after use).BlankFor dots := by
  have hdots : ∀ n ≤ dots, (side.after use).afterAll (.replicate n .dot) =
      (side.afterAll (.replicate n .dot)).after use := by
    intro n hn
    induction n with
    | zero => rfl
    | succ n ih =>
      have hblank := h n (by omega)
      have hnext := h (n + 1) hn
      rw [List.replicate_succ', afterAll_append] at hnext ⊢
      rw [afterAll_append, ih (by omega)]
      exact (after_dot_comm hblank hnext hquiet).2.symm
  intro n hn
  rw [hdots n hn]
  exact blank_after (h n hn) hquiet hdot

/-- The uses of a history other than dots, followed by its dots. -/
def settled (uses : List PpuUse) : List PpuUse :=
  uses.filter (· ≠ .dot) ++ .replicate (uses.count .dot) .dot

theorem settled_dot (rest : List PpuUse) :
    settled (.dot :: rest) =
      rest.filter (· ≠ .dot) ++ .dot :: .replicate (rest.count .dot) .dot := by
  simp [settled, List.replicate_succ]

theorem settled_of_ne (hdot : use ≠ .dot) (rest : List PpuUse) :
    settled (use :: rest) = use :: settled rest := by
  simp [settled, hdot]

/-- Between two pictures the dots of a history can wait for its end. -/
theorem afterAll_settled {uses : List PpuUse} (hquiet : ∀ use ∈ uses, use.Quiet)
    (h : side.BlankFor (uses.count .dot)) :
    answers uses side = answers (settled uses) side ∧
      side.afterAll uses = side.afterAll (settled uses) := by
  induction uses generalizing side with
  | nil => exact ⟨rfl, rfl⟩
  | cons use rest ih =>
    obtain ⟨huse, hrest⟩ := List.forall_mem_cons.mp hquiet
    by_cases hdot : use = .dot
    · subst hdot
      rw [List.count_cons_self] at h
      -- the dots of the rest go to its end first, then the first dot goes behind its accesses
      have hlater : (side.after .dot).BlankFor (rest.count .dot) := by
        intro n hn
        exact h (n + 1) (by omega)
      have haccesses : ∀ use ∈ rest.filter (· ≠ .dot), use.Quiet ∧ use ≠ .dot := by
        intro use hmem
        obtain ⟨hmem, hne⟩ := List.mem_filter.mp hmem
        exact ⟨hrest use hmem, of_decide_eq_true hne⟩
      obtain ⟨hanswers, hafter⟩ := ih hrest hlater
      have hblank : side.ppu.Blank := h 0 (by omega)
      have hnext : (side.after .dot).ppu.Blank := h 1 (by omega)
      obtain ⟨hanswers', hafter'⟩ := afterAll_dot_comm haccesses hblank hnext
      rw [settled_dot, answers_append, afterAll_append]
      constructor
      · change answers rest (side.after .dot) = _ ++ answers _ ((side.afterAll _).after .dot)
        rw [hanswers, settled, answers_append, hanswers', hafter']
      · change (side.after .dot).afterAll rest = ((side.afterAll _).after .dot).afterAll _
        rw [hafter, settled, afterAll_append, hafter']
    · rw [List.count_cons_of_ne hdot] at h
      obtain ⟨hanswers, hafter⟩ := ih hrest (h.after huse hdot)
      rw [settled_of_ne hdot]
      constructor
      · rw [answers, hanswers]
        rfl
      · exact hafter

/-- On the grid, the unit stays between two pictures until it reaches the line before the next
one. -/
theorem blankFor_of_position (hgrid : side.ppu.OnGrid) (hfirst : 240 ≤ side.ppu.scanline)
    {dots : Nat} (hdots : side.ppu.position + dots < Schedule.dots * Schedule.prerenderScanline) :
    side.BlankFor dots := by
  intro n hn
  have hgrid' := afterAll_onGrid hgrid (.replicate n .dot)
  have hcount : (List.replicate n PpuUse.dot).count .dot = n := List.count_replicate_self
  have hshort : side.ppu.position + n + 1 < Ppu.frameDots := by
    rw [Ppu.frameDots_eq]
    simp only [Schedule.dots, Schedule.prerenderScanline] at hdots
    omega
  have hposition : (side.afterAll (.replicate n .dot)).ppu.position =
      side.ppu.position + (List.replicate n PpuUse.dot).count .dot :=
    afterAll_position (by simp) (hcount.symm ▸ hshort)
  have hdot := hgrid.dot_lt
  have hdot' := hgrid'.dot_lt
  rw [hcount] at hposition
  simp only [Ppu.position, Schedule.dots, Schedule.prerenderScanline] at *
  exact ⟨by omega, by omega⟩

/-- The order of accesses and dots between two pictures does not matter. A dot comes before or
after any access but a read of the status, and so all orders of the same accesses and the same
number of dots read the same bytes and end in the same state. -/
theorem order_irrelevant_between_pictures (side : PpuSide) :
    (∀ use : PpuUse, use.Quiet → side.ppu.Blank → (side.after .dot).ppu.Blank →
      (side.after .dot).answer use = side.answer use ∧
        (side.after .dot).after use = (side.after use).after .dot) ∧
    ∀ first second : List PpuUse, (∀ use ∈ first, use.Quiet) →
      first.filter (· ≠ .dot) = second.filter (· ≠ .dot) →
      first.count .dot = second.count .dot → side.BlankFor (first.count .dot) →
      answers first side = answers second side ∧
        side.afterAll first = side.afterAll second := by
  constructor
  · intro use hquiet hblank hnext
    exact after_dot_comm hblank hnext hquiet
  · intro first second hquiet haccesses hdots hblank
    have hquiet' : ∀ use ∈ second, use.Quiet := by
      intro use hmem
      by_cases hdot : use = .dot
      · rw [hdot]
        trivial
      · have hmem' : use ∈ first.filter (· ≠ .dot) := by
          rw [haccesses]
          exact List.mem_filter.mpr ⟨hmem, decide_eq_true hdot⟩
        exact hquiet use (List.mem_filter.mp hmem').1
    have hsettled : settled first = settled second := by
      rw [settled, settled, haccesses, hdots]
    obtain ⟨hanswers, hafter⟩ := afterAll_settled hquiet hblank
    obtain ⟨hanswers', hafter'⟩ := afterAll_settled hquiet' (hdots ▸ hblank)
    rw [hanswers, hafter, hsettled, ← hanswers', ← hafter']
    exact ⟨rfl, rfl⟩

/-- The dot that begins vertical blank comes before or after a write that asks to be told and a
read of the data register. -/
theorem vblank_before_or_after_enabling :
    let side : PpuSide :=
      { ppu := { scanline := 241, dot := 1 }, board := Board.ofBytes .nrom #[] #[0xFF] .vertical }
    let accesses : List PpuUse := [.access (.write 0x2000 0x80), .access (.read 0x2007)]
    (∀ use ∈ PpuUse.dot :: accesses, use.Quiet) ∧ side.BlankFor 1 ∧
      answers (.dot :: accesses) side = answers (accesses ++ [.dot]) side ∧
      side.afterAll (.dot :: accesses) = side.afterAll (accesses ++ [.dot]) := by
  intro side accesses
  have hgrid : side.ppu.OnGrid := ⟨by decide, by decide⟩
  have hread : (0x2007 : UInt16) % 8 ≠ 2 := by decide
  have hquiet : ∀ use ∈ PpuUse.dot :: accesses, use.Quiet :=
    List.forall_mem_cons.mpr ⟨trivial,
      List.forall_mem_cons.mpr ⟨trivial, List.forall_mem_singleton.mpr hread⟩⟩
  have hblank : side.BlankFor 1 :=
    blankFor_of_position hgrid (by decide) (by decide)
  have horder := (order_irrelevant_between_pictures side).2 (.dot :: accesses)
    (accesses ++ [.dot]) hquiet (by decide) (by decide) hblank
  exact ⟨hquiet, hblank, horder⟩

end PpuSide

end Famicom
