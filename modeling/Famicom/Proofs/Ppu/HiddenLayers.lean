import Famicom.Proofs.Ppu.Lines
import Famicom.Proofs.Ppu.StatusFlags

/-!
# Dots and the side of the programs

A dot may do many things, but it stays on its own side: the memories and registers that programs
reach change by accesses only, and a board is not changed at all. While both layers are hidden
there is even less to do. The parts of the work that are left put out the backdrop and move the flag
of vertical blank; they need nothing from the cartridge, so whatever is connected there is never
asked, and the pipelines behind the picture stand still.
-/

namespace Famicom.Ppu

variable {Bus Other : Type} [PatternBus Bus] [PatternBus Other]

/-- The picture address and both pipelines behind the picture. -/
structure SameLayers (before after : Ppu) : Prop where
  v : after.scroll.v = before.scroll.v
  next : after.next = before.next
  shifter : after.shifter = before.shifter
  sprites : after.sprites = before.sprites
  secondaryOam : after.secondaryOam = before.secondaryOam

/-- A unit has its own layers. -/
theorem SameLayers.refl (ppu : Ppu) : SameLayers ppu ppu := by
  constructor <;> rfl

/-- Having the same layers is transitive. -/
theorem SameLayers.trans {first second third : Ppu} (h : SameLayers first second)
    (h' : SameLayers second third) : SameLayers first third := by
  constructor
  · exact h'.v.trans h.v
  · exact h'.next.trans h.next
  · exact h'.shifter.trans h.shifter
  · exact h'.sprites.trans h.sprites
  · exact h'.secondaryOam.trans h.secondaryOam

/-- The work that is left while both layers are hidden asks nothing of the bus: whatever is
connected, it is the same work, and the bus is as before. -/
theorem perform_of_hidden {operation : DotOperation} (h : operation.needsRendering = false)
    (ppu : Ppu) : ∃ after : Ppu, ∀ (Bus : Type) [PatternBus Bus] (bus : Bus),
      ppu.perform operation bus = (after, bus) := by
  cases operation with
  | renderPixel => exact ⟨ppu.renderPixel, fun _ _ _ => rfl⟩
  | setVblank => exact ⟨ppu.beginVblank, fun _ _ _ => rfl⟩
  | clearFlags => exact ⟨ppu.clearFlags, fun _ _ _ => rfl⟩
  | _ => contradiction

/-- The work of a dot with both layers hidden asks nothing of the bus. -/
theorem performAll_of_hidden (operations : List DotOperation) (ppu : Ppu) :
    ∃ after : Ppu, ∀ (Bus : Type) [PatternBus Bus] (bus : Bus),
      performAll false operations ppu bus = (after, bus) := by
  induction operations generalizing ppu with
  | nil => exact ⟨ppu, fun _ _ _ => rfl⟩
  | cons operation rest ih =>
    simp only [performAll, Bool.not_false, Bool.and_true]
    cases hneeds : operation.needsRendering with
    | true => exact ih ppu
    | false =>
      -- the unit after this part is the same on every bus, so the rest can be, too
      obtain ⟨next, hnext⟩ := perform_of_hidden hneeds ppu
      obtain ⟨after, hafter⟩ := ih next
      refine ⟨after, fun Bus _ bus => ?_⟩
      simp only [hnext]
      exact hafter Bus bus

/-- A dot with both layers hidden asks nothing of the bus. -/
theorem tick_of_hidden {ppu : Ppu} (h : ppu.mask.rendering = false) (board : Board) (bus : Bus) :
    ppu.tick bus = ((ppu.tick board).1, (ppu.tick board).2.1, bus) := by
  obtain ⟨worked, hworked⟩ := performAll_of_hidden (Schedule.work ppu.scanline ppu.dot) ppu
  rw [tick, tick, h, hworked, hworked]

/-- A dot leaves hidden layers hidden. -/
theorem tick_hidden {ppu : Ppu} (h : ppu.mask.rendering = false) (board : Board) :
    (ppu.tick board).2.1.mask.rendering = false := by
  rw [(ppu.tick_sameMemory board).mask]
  exact h

/-- Dots with both layers hidden ask nothing of the bus. -/
theorem run_of_hidden {ppu : Ppu} (h : ppu.mask.rendering = false) (dots : Nat) (board : Board)
    (bus : Bus) : ppu.run dots bus = ((ppu.run dots board).1, ppu.after dots board, bus) := by
  induction dots generalizing ppu with
  | zero => rfl
  | succ dots ih =>
    rw [run_succ, run_succ, after_succ, tick_of_hidden h board bus, ih (tick_hidden h board),
      tick_board]

/-- The work that is left while both layers are hidden leaves them alone. -/
theorem perform_sameLayers {operation : DotOperation} (h : operation.needsRendering = false)
    (ppu : Ppu) (bus : Bus) : SameLayers ppu (ppu.perform operation bus).1 := by
  cases operation with
  | renderPixel =>
    obtain ⟨drawing, hit, heq⟩ := ppu.renderPixel_eq
    change SameLayers ppu ppu.renderPixel
    rw [heq]
    exact ⟨rfl, rfl, rfl, rfl, rfl⟩
  | setVblank | clearFlags => exact ⟨rfl, rfl, rfl, rfl, rfl⟩
  | _ => contradiction

/-- The step to the next dot leaves the layers alone. -/
theorem nextDot_sameLayers (ppu : Ppu) : SameLayers ppu ppu.nextDot.2 := by
  unfold nextDot completeFrame
  split
  · constructor <;> rfl
  · split <;> constructor <;> rfl

/-- A dot leaves hidden layers alone. -/
theorem tick_sameLayers {ppu : Ppu} (h : ppu.mask.rendering = false) (bus : Bus) :
    SameLayers ppu (ppu.tick bus).2.1 := by
  rw [tick_unit]
  refine SameLayers.trans ?_ (nextDot_sameLayers _)
  refine performAll_keeps (SameLayers ppu) (fun operation _ hdone other bus hkept => ?_)
    (.refl ppu) bus
  have hidden : operation.needsRendering = false := by
    rw [h] at hdone
    exact Bool.eq_false_iff.mpr fun hneeds => Bool.false_ne_true (hdone hneeds)
  exact hkept.trans (perform_sameLayers hidden other bus)

/-- Both layers are hidden, they are as at the start, and no flag of the sprites has risen. -/
structure HiddenSince (start now : Ppu) : Prop where
  hidden : now.mask.rendering = false
  layers : SameLayers start now
  flags : ∀ flag, now.status.has flag = true → start.status.has flag = true

/-- A dot with both layers hidden keeps all of that. -/
theorem HiddenSince.tick {start now : Ppu} (h : HiddenSince start now) (board : Board) :
    HiddenSince start (now.tick board).2.1 := by
  refine ⟨tick_hidden h.hidden board, h.layers.trans (tick_sameLayers h.hidden board), ?_⟩
  intro flag hhigh
  cases hbefore : now.status.has flag with
  | true => exact h.flags flag hbefore
  | false =>
    exact absurd (h.hidden.symm.trans (tick_has_rises hbefore hhigh).2) Bool.false_ne_true

/-- Dots with both layers hidden keep all of that. -/
theorem HiddenSince.after {start now : Ppu} (h : HiddenSince start now) (dots : Nat)
    (board : Board) : HiddenSince start (now.after dots board) := by
  induction dots with
  | zero => exact h
  | succ dots ih =>
    rw [after_succ_eq_tick]
    exact ih.tick board

/-- Dots do not change a board. -/
theorem run_board (dots : Nat) (ppu : Ppu) (board : Board) :
    (ppu.run dots board).2.2 = board := by
  induction dots generalizing ppu with
  | zero => rfl
  | succ dots ih =>
    rw [run_succ, tick_board]
    exact ih _

/-- **Dots stay on their side.** In whatever state the unit is, whichever board is connected and
however many dots it works through, the memories and the registers that programs reach stay as they
are, and so does the board. If both layers are hidden, then the picture address, the background
latches and shifters, the sprite units and the sprites found stay as well, no flag of the sprites
rises, and nothing is asked of the cartridge: whatever is connected instead of it is as before, the
work is the same, and a recorder notes no access. -/
theorem dots_stay_on_their_side (ppu : Ppu) (board : Board) (dots : Nat) :
    SameMemory ppu (ppu.after dots board) ∧ (ppu.run dots board).2.2 = board ∧
      (ppu.mask.rendering = false →
        SameLayers ppu (ppu.after dots board) ∧
        (∀ flag, (ppu.after dots board).status.has flag = true → ppu.status.has flag = true) ∧
        (∀ (Bus : Type) [PatternBus Bus] (bus : Bus),
          ppu.run dots bus = ((ppu.run dots board).1, ppu.after dots board, bus)) ∧
        (ppu.run dots ({ bus := board } : Recorded Board)).2.2.traffic = #[]) := by
  refine ⟨after_sameMemory dots ppu board, run_board dots ppu board, fun hhidden => ?_⟩
  have hstart : HiddenSince ppu ppu := ⟨hhidden, .refl ppu, fun _ => id⟩
  have hafter := hstart.after dots board
  refine ⟨hafter.layers, hafter.flags, fun Bus _ bus => run_of_hidden hhidden dots board bus, ?_⟩
  rw [run_of_hidden hhidden dots board]

/-- A unit that has just been switched on shows no layer. A whole frame later the flags are low and
nothing has been asked of the cartridge. -/
theorem dots_stay_on_their_side_of_powerOn :
    let board := Board.ofBytes .nrom #[] #[] .horizontal
    SameLayers {} (({} : Ppu).after frameDots board) ∧
      (∀ flag, (({} : Ppu).after frameDots board).status.has flag = false) ∧
      (({} : Ppu).run frameDots ({ bus := board } : Recorded Board)).2.2.traffic = #[] := by
  intro board
  obtain ⟨hlayers, hflags, -, htraffic⟩ := (dots_stay_on_their_side {} board frameDots).2.2 rfl
  refine ⟨hlayers, fun flag => ?_, htraffic⟩
  refine Bool.eq_false_iff.mpr fun hhigh => ?_
  have hstart := hflags flag hhigh
  cases flag <;> cases hstart

end Famicom.Ppu
