import Famicom.Proofs.Ppu.NmiLine

/-!
# What happens to the picture unit

The unit works through dots, its registers are accessed, a transfer stores bytes in object memory,
the cartridge beside it changes, and it is reset. A history of the unit is a list of such uses in
any order. Only dots and resets move the position, so a history without a reset leads as many dots
further as it contains, as long as it does not reach the end of the frame.
-/

namespace Famicom

/-- The picture unit with the cartridge that it reads. -/
structure PpuSide where
  ppu : Ppu
  board : Board
deriving DecidableEq

/-- One thing that happens to the picture unit. -/
inductive PpuUse where
  /-- It works through a dot. -/
  | dot
  /-- One of its registers is accessed. -/
  | access (access : Access)
  /-- A byte of a transfer is stored in object memory. -/
  | store (value : UInt8)
  /-- The cartridge changes its state or is exchanged. -/
  | cartridge (board : Board)
  /-- It is reset. -/
  | reset
deriving DecidableEq

/-- The use is a read of the status. -/
def PpuUse.readsStatus : PpuUse → Bool
  | .access (.read address) => address % 8 == 2
  | _ => false

namespace PpuSide

/-- The unit and the cartridge after a use. -/
def after (side : PpuSide) : PpuUse → PpuSide
  | .dot =>
    let (_, ppu, board) := side.ppu.tick side.board
    { ppu, board }
  | .access (.read address) =>
    let (_, ppu, board) := side.ppu.readRegister address side.board
    { ppu, board }
  | .access (.write address value) =>
    let (ppu, board) := side.ppu.writeRegister address value side.board
    { ppu, board }
  | .store value => { side with ppu := side.ppu.writeOam value }
  | .cartridge board => { side with board }
  | .reset => { side with ppu := side.ppu.reset }

/-- The byte that a use gives back, where it reads one. -/
def answer (side : PpuSide) : PpuUse → Option UInt8
  | .access (.read address) => some (side.ppu.readRegister address side.board).1
  | _ => none

/-- The unit and the cartridge after a history. -/
def afterAll (side : PpuSide) (uses : List PpuUse) : PpuSide := uses.foldl after side

/-- The bytes that are read in a history, oldest first. -/
def answers : List PpuUse → PpuSide → List UInt8
  | [], _ => []
  | use :: rest, side => (side.answer use).toList ++ answers rest (side.after use)

/-- The uses of a history, each with the state that it finds. -/
def moments (side : PpuSide) : List PpuUse → List (PpuSide × PpuUse)
  | [] => []
  | use :: rest => (side, use) :: (side.after use).moments rest

/-- What every use of a history keeps, the history keeps. -/
theorem afterAll_keeps (holds : PpuSide → Prop) {side : PpuSide} {uses : List PpuUse}
    (hafter : ∀ moment ∈ side.moments uses, holds moment.1 → holds (moment.1.after moment.2))
    (h : holds side) : holds (side.afterAll uses) := by
  induction uses generalizing side with
  | nil => exact h
  | cons use rest ih =>
    obtain ⟨hfirst, hrest⟩ := List.forall_mem_cons.mp hafter
    exact ih hrest (hfirst h)

/-- A dot leaves the cartridge alone. -/
theorem after_dot (side : PpuSide) :
    side.after .dot = { side with ppu := (side.ppu.tick side.board).2.1 } := by
  have hboard := side.ppu.tick_board side.board
  simp only [after, hboard]

/-- Two histories, one after the other. -/
theorem afterAll_append (side : PpuSide) (first second : List PpuUse) :
    side.afterAll (first ++ second) = (side.afterAll first).afterAll second :=
  List.foldl_append

/-- The moments of two histories, one after the other. -/
theorem moments_append (side : PpuSide) (first second : List PpuUse) :
    side.moments (first ++ second) =
      side.moments first ++ (side.afterAll first).moments second := by
  induction first generalizing side with
  | nil => rfl
  | cons use rest ih => exact congrArg ((side, use) :: ·) (ih (side.after use))

/-- The bytes read in two histories, one after the other. -/
theorem answers_append (first second : List PpuUse) (side : PpuSide) :
    answers (first ++ second) side =
      answers first side ++ answers second (side.afterAll first) := by
  induction first generalizing side with
  | nil => rfl
  | cons use rest ih =>
    simp only [List.cons_append, answers, ih, List.append_assoc]
    rfl

/-- Uses that neither work through a dot nor reset the unit leave its picture alone. -/
theorem after_samePicture (side : PpuSide) {use : PpuUse} (hdot : use ≠ .dot)
    (hreset : use ≠ .reset) : side.ppu.SamePicture (side.after use).ppu := by
  cases use with
  | dot => contradiction
  | reset => contradiction
  | store value => constructor <;> rfl
  | cartridge board => exact .refl side.ppu
  | access access =>
    cases access with
    | read address => exact side.ppu.readRegister_samePicture address side.board
    | write address value => exact side.ppu.writeRegister_samePicture address value side.board

/-- Of the uses that neither work through a dot nor reset the unit, only a read of the status moves
a flag: it ends vertical blank. -/
theorem after_status (side : PpuSide) {use : PpuUse} (hdot : use ≠ .dot) (hreset : use ≠ .reset) :
    (side.after use).ppu.status =
      if use.readsStatus then { side.ppu.status with vblank := false } else side.ppu.status := by
  cases use with
  | dot => contradiction
  | reset => contradiction
  | store value => rfl
  | cartridge board => rfl
  | access access =>
    cases access with
    | read address =>
      refine (side.ppu.readRegister_status address side.board).trans ?_
      simp only [PpuUse.readsStatus, beq_iff_eq]
    | write address value => exact side.ppu.writeRegister_status address value side.board

/-- Every use keeps the position on the grid. -/
theorem after_onGrid {side : PpuSide} (h : side.ppu.OnGrid) (use : PpuUse) :
    (side.after use).ppu.OnGrid := by
  by_cases hdot : use = .dot
  · subst hdot
    exact h.tick side.board
  · by_cases hreset : use = .reset
    · subst hreset
      exact .of_corner rfl rfl
    · exact h.of_samePicture (side.after_samePicture hdot hreset)

/-- A history keeps the position on the grid. -/
theorem afterAll_onGrid {side : PpuSide} (h : side.ppu.OnGrid) (uses : List PpuUse) :
    (side.afterAll uses).ppu.OnGrid :=
  afterAll_keeps (·.ppu.OnGrid) (fun moment _ hkept => after_onGrid hkept moment.2) h

/-- Without a reset and short of the end of the frame, a history leads as many dots further as
it contains. -/
theorem afterAll_position {side : PpuSide} {uses : List PpuUse} (hreset : .reset ∉ uses)
    (h : side.ppu.position + uses.count .dot + 1 < Ppu.frameDots) :
    (side.afterAll uses).ppu.position = side.ppu.position + uses.count .dot := by
  induction uses generalizing side with
  | nil => rfl
  | cons use rest ih =>
    rw [List.mem_cons, not_or] at hreset
    by_cases hdot : use = .dot
    · subst hdot
      rw [List.count_cons_self] at h ⊢
      have hnext : (side.after .dot).ppu.position = side.ppu.position + 1 :=
        Ppu.tick_position_of_lt (by omega) side.board
      have hrest : ((side.after .dot).afterAll rest).ppu.position =
          (side.after .dot).ppu.position + rest.count .dot :=
        ih hreset.2 (by omega)
      rw [hnext] at hrest
      exact hrest.trans (by omega)
    · rw [List.count_cons_of_ne hdot] at h ⊢
      have hnext := (side.after_samePicture hdot (Ne.symm hreset.1)).position
      have hrest : ((side.after use).afterAll rest).ppu.position =
          (side.after use).ppu.position + rest.count .dot :=
        ih hreset.2 (by omega)
      rw [hnext] at hrest
      exact hrest

end PpuSide

end Famicom
