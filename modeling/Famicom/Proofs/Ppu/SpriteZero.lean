import Famicom.Proofs.Ppu.FramePath
import Famicom.Proofs.Ppu.Uses

/-!
# The first sprite meets the background

Programs learn where the picture is being drawn from a flag: it is set on the first dot of a
picture on which a solid pixel of the first sprite falls on a solid pixel of the background, and
cleared on the line before the next picture. Which dot that is depends on the memories and the
scroll registers alone, and is looked up in them directly.
-/

namespace Famicom

namespace Ppu

variable {Bus : Type} [PatternBus Bus] {ppu : Ppu} {board : Board}

section Flag

/-- The dot that is put out meets the condition of the flag. -/
def meets (ppu : Ppu) : Bool :=
  ppu.mask.rendering && ppu.hitsSpriteZero ppu.backgroundPixel ppu.spritePixel

/-- Putting out a pixel sets the flag where the condition is met. -/
theorem renderPixel_spriteZeroHit (ppu : Ppu) :
    ppu.renderPixel.status.spriteZeroHit = (ppu.status.spriteZeroHit || ppu.meets) := by
  unfold renderPixel meets
  split
  · next h => rw [h, Bool.true_and]
  · next h => rw [Bool.eq_false_iff.mpr h, Bool.false_and, Bool.or_false]

/-- Work that neither puts out a pixel nor clears the flags leaves the flag alone. -/
theorem performAll_spriteZeroHit {rendering : Bool} {operations : List DotOperation}
    (hrender : .renderPixel ∉ operations) (hclear : .clearFlags ∉ operations) (ppu : Ppu)
    (bus : Bus) :
    (performAll rendering operations ppu bus).1.status.spriteZeroHit =
      ppu.status.spriteZeroHit := by
  refine performAll_keeps (·.status.spriteZeroHit = ppu.status.spriteZeroHit)
    (fun operation hmem _ other bus hkept => ?_) rfl bus
  cases operation with
  | renderPixel => exact absurd hmem hrender
  | clearFlags => exact absurd hmem hclear
  | _ => exact hkept

/-- How a dot moves the flag. -/
theorem tick_spriteZeroHit (ppu : Ppu) (bus : Bus) :
    (ppu.tick bus).2.1.status.spriteZeroHit =
      if ppu.endsVblank then false
      else if Schedule.OnPicture ppu.scanline ppu.dot then ppu.status.spriteZeroHit || ppu.meets
      else ppu.status.spriteZeroHit := by
  rw [tick_unit, nextDot_status, worked]
  split
  · next hends =>
    simp only [endsVblank, Bool.and_eq_true, beq_iff_eq] at hends
    rw [hends.1, hends.2]
    cases ppu.mask.rendering <;> rfl
  · next hends =>
    have hclear := mt endsVblank_of_clearFlags hends
    split
    · next hpicture =>
      obtain ⟨rest, hwork, hrest⟩ := Schedule.work_onPicture hpicture
      rw [hwork, List.mem_cons, not_or] at hclear
      rw [hwork]
      exact (performAll_spriteZeroHit hrest hclear.2 _ _).trans ppu.renderPixel_spriteZeroHit
    · next hpicture =>
      exact performAll_spriteZeroHit (Schedule.work_of_not_onPicture hpicture) hclear ppu bus

/-- With a hidden layer the condition is never met. -/
theorem meets_of_hidden (h : ¬(ppu.mask.showBackground = true ∧ ppu.mask.showSprites = true)) :
    ppu.meets = false := by
  unfold meets hitsSpriteZero
  by_cases hbackground : ppu.mask.showBackground = true
  · have hsprites : ppu.mask.showSprites = false := by
      rw [Bool.eq_false_iff]
      exact fun hsprites => h ⟨hbackground, hsprites⟩
    have hpixel : ppu.spritePixel = {} := by simp [spritePixel, hsprites]
    rw [hpixel]
    simp
  · have hpixel : ppu.backgroundPixel = {} := by simp [backgroundPixel, hbackground]
    rw [hpixel]
    simp

end Flag

section Picture

/-- The condition of the flag for column `x` of row `y`, looked up directly in the memories. The
last column never counts, and the leftmost eight only while both layers show there. -/
structure MeetsAt (ppu : Ppu) (board : Board) (x y : Nat) : Prop where
  layers : ppu.mask.showBackground = true ∧ ppu.mask.showSprites = true
  column : x ≤ 254
  row : 1 ≤ y ∧ y < 240
  sprite : ppu.firstSpriteSolid board x y = true
  background : (ppu.pictureBackground board x y).pixel ≠ 0
  left : 8 ≤ x ∨ (ppu.mask.leftBackground = true ∧ ppu.mask.leftSprites = true)

variable {x y : Nat}

/-- What the two pipelines put out in column `x` of row `y`. -/
theorem picture_pixels (hline : ppu.scanline = 261) (hdot : ppu.dot ≤ 1)
    (hbackground : ppu.mask.showBackground = true) (hsprites : ppu.mask.showSprites = true)
    (board : Board) (hx : x < 256) (hy : y < 240) :
    let drawn := ppu.after (ppu.dotsTo y (x + 1)) board
    drawn.scanline = y ∧ drawn.dot = x + 1 ∧
      drawn.backgroundPixel =
        (if x < 8 ∧ ppu.mask.leftBackground = false then {}
        else ppu.pictureBackground board x y) ∧
      drawn.spritePixel.zero =
        if x < 8 ∧ ppu.mask.leftSprites = false then false
        else ppu.firstSpriteSolid board x y := by
  intro drawn
  have hdots := ppu.lineDots_bounds
  have hrendering : ppu.mask.rendering = true := by
    rw [Mask.rendering, hbackground, Bool.true_or]
  obtain ⟨hscanline, hposition⟩ :=
    after_dotsTo hline (by omega) board (by omega : y ≤ 260) (by omega : x + 1 < 341)
  have hsame : SameMemory ppu drawn := ppu.after_sameMemory _ board
  have hshifter : drawn.shifter.pixel ppu.scroll.x = ppu.pictureBackground board x y :=
    picture_background hline (by omega) hrendering board hx hy
  have hzero : drawn.sprites.pixel.zero = ppu.firstSpriteSolid board x y :=
    picture_spriteZero hline hdot hrendering board hx hy
  change drawn.dot = x + 1 at hposition
  have hleft : (drawn.dot ≤ 8) = (x < 8) := by
    rw [hposition]
    exact propext (by omega)
  refine ⟨hscanline, hposition, ?_, ?_⟩
  · rw [backgroundPixel, hsame.mask, hsame.x, hbackground, hshifter]
    simp only [hleft, Bool.not_true, Bool.false_or, Bool.and_eq_true, decide_eq_true_eq,
      Bool.not_eq_true']
  · rw [spritePixel, hsame.mask, hsprites, ← hzero]
    simp only [hleft, Bool.not_true, Bool.false_or, Bool.and_eq_true, decide_eq_true_eq,
      Bool.not_eq_true']
    split <;> rfl

/-- On the picture the condition is the one that is looked up. -/
theorem meets_iff (hline : ppu.scanline = 261) (hdot : ppu.dot ≤ 1) (board : Board)
    (hx : x < 256) (hy : y < 240) :
    (ppu.after (ppu.dotsTo y (x + 1)) board).meets = true ↔ ppu.MeetsAt board x y := by
  have hsame : SameMemory ppu (ppu.after (ppu.dotsTo y (x + 1)) board) :=
    ppu.after_sameMemory _ board
  by_cases hlayers : ppu.mask.showBackground = true ∧ ppu.mask.showSprites = true
  · obtain ⟨hbackground, hsprites⟩ := hlayers
    obtain ⟨-, hposition, hpixel, hzero⟩ :=
      picture_pixels hline hdot hbackground hsprites board hx hy
    have hrendering : ppu.mask.rendering = true := by
      rw [Mask.rendering, hbackground, Bool.true_or]
    rw [meets, hsame.mask, hrendering, Bool.true_and, hitsSpriteZero, hpixel, hzero, hposition,
      hsame.mask]
    simp only [Bool.and_eq_true, Bool.or_eq_true, decide_eq_true_eq, bne_iff_ne]
    constructor
    · rintro ⟨⟨⟨hzero, hpixel⟩, hcolumn⟩, hleft⟩
      split at hzero
      · contradiction
      · split at hpixel
        · contradiction
        · have hrow : 1 ≤ y := by
            simp only [firstSpriteSolid, Bool.and_eq_true, decide_eq_true_eq] at hzero
            exact hzero.1.1
          exact ⟨⟨hbackground, hsprites⟩, by omega, ⟨hrow, hy⟩, hzero, hpixel,
            hleft.imp_left fun hright => by omega⟩
    · intro h
      have hcolumn := h.column
      have hshown : ∀ {layer : Bool}, (8 ≤ x ∨ layer = true) → ¬(x < 8 ∧ layer = false) := by
        rintro layer (hright | hleft) ⟨hinside, hhidden⟩
        · omega
        · rw [hleft] at hhidden
          contradiction
      rw [if_neg (hshown (h.left.imp_right And.right)), if_neg (hshown (h.left.imp_right And.left))]
      exact ⟨⟨⟨h.sprite, h.background⟩, by omega⟩, h.left.imp_left fun hright => by omega⟩
  · rw [meets_of_hidden (hsame.mask ▸ hlayers)]
    exact ⟨fun h => absurd h Bool.false_ne_true, fun h => absurd h.layers hlayers⟩

/-- The positions on the way from the line before the picture to the end of the picture. -/
theorem place_cases {dots : Nat} (hfirst : 2 - ppu.dot ≤ dots) (hlast : dots < ppu.dotsTo 240 0) :
    (2 ≤ ppu.dot + dots ∧ ppu.dot + dots < ppu.lineDots) ∨
      ∃ y < 240, ∃ d < 341, dots = ppu.dotsTo y d := by
  have hdots := ppu.lineDots_bounds
  simp only [dotsTo, Schedule.dots] at hlast ⊢
  by_cases hbefore : ppu.dot + dots < ppu.lineDots
  · exact .inl ⟨by omega, hbefore⟩
  · refine .inr ⟨(dots - (ppu.lineDots - ppu.dot)) / 341, by omega,
      (dots - (ppu.lineDots - ppu.dot)) % 341, by omega, by omega⟩

/-- The flag is cleared on the line before the picture. -/
theorem spriteZeroHit_cleared (hline : ppu.scanline = 261) (hdot : ppu.dot ≤ 1) (board : Board) :
    (ppu.after (2 - ppu.dot) board).status.spriteZeroHit = false := by
  have hdots := ppu.lineDots_bounds
  obtain ⟨hscanline, hposition, -⟩ :=
    after_within (by omega : ppu.dot + (1 - ppu.dot) < ppu.lineDots) board
  have hends : (ppu.after (1 - ppu.dot) board).endsVblank = true := by
    simp only [endsVblank, Bool.and_eq_true, beq_iff_eq, Schedule.prerenderScanline]
    omega
  rw [(by omega : 2 - ppu.dot = 1 - ppu.dot + 1), after_succ_eq_tick, tick_spriteZeroHit,
    if_pos hends]

/-- A dot sets the flag where it meets the condition. -/
theorem spriteZeroHit_succ (hline : ppu.scanline = 261) (hdot : ppu.dot ≤ 1) (board : Board)
    {dots : Nat} (hfirst : 2 - ppu.dot ≤ dots) (hlast : dots < ppu.dotsTo 240 0) :
    (ppu.after (dots + 1) board).status.spriteZeroHit = true ↔
      (ppu.after dots board).status.spriteZeroHit = true ∨
        ∃ x y, ppu.MeetsAt board x y ∧ ppu.dotsTo y (x + 1) = dots := by
  have hdots := ppu.lineDots_bounds
  rw [after_succ_eq_tick, tick_spriteZeroHit]
  rcases place_cases hfirst hlast with ⟨hcleared, hbefore⟩ | ⟨y, hy, d, hd, rfl⟩
  · -- the line before the picture
    obtain ⟨hscanline, hposition, -⟩ := after_within hbefore board
    have hends : ¬(ppu.after dots board).endsVblank = true := by
      simp only [endsVblank, Bool.and_eq_true, beq_iff_eq]
      omega
    have hpicture : ¬Schedule.OnPicture (ppu.after dots board).scanline
        (ppu.after dots board).dot := by
      simp only [Schedule.OnPicture]
      omega
    rw [if_neg hends, if_neg hpicture]
    refine ⟨.inl, fun h => h.resolve_right ?_⟩
    rintro ⟨x, y, -, hplace⟩
    simp only [dotsTo] at hplace
    omega
  · obtain ⟨hscanline, hposition⟩ :=
      after_dotsTo hline (by omega) board (by omega : y ≤ 260) hd
    have hends : ¬(ppu.after (ppu.dotsTo y d) board).endsVblank = true := by
      simp only [endsVblank, Bool.and_eq_true, beq_iff_eq, Schedule.prerenderScanline]
      omega
    have hplace : ∀ x y', ppu.MeetsAt board x y' →
        (ppu.dotsTo y' (x + 1) = ppu.dotsTo y d ↔ x + 1 = d ∧ y' = y) := by
      intro x y' hmeets
      have hcolumn := hmeets.column
      simp only [dotsTo, Schedule.dots]
      omega
    rw [if_neg hends, hscanline, hposition]
    split
    · next hpicture =>
      obtain ⟨-, hleft, hright⟩ := hpicture
      obtain ⟨x, rfl⟩ : ∃ x, d = x + 1 := ⟨d - 1, by omega⟩
      rw [Bool.or_eq_true, meets_iff hline hdot board (by omega) hy]
      refine or_congr_right ⟨fun h => ⟨x, y, h, rfl⟩, ?_⟩
      rintro ⟨x', y', h, heq⟩
      obtain ⟨hx, rfl⟩ := (hplace x' y' h).mp heq
      obtain rfl : x' = x := by omega
      exact h
    · next hpicture =>
      refine ⟨.inl, fun h => h.resolve_right ?_⟩
      rintro ⟨x, y', h, heq⟩
      have hcolumn := h.column
      have hx := ((hplace x y' h).mp heq).1
      exact hpicture ⟨hy, by omega, by omega⟩

/-- After the dot that clears it, the flag is set exactly when a dot worked through has met the
condition. -/
theorem spriteZeroHit_iff (hline : ppu.scanline = 261) (hdot : ppu.dot ≤ 1) (board : Board)
    {dots : Nat} (hfirst : 2 - ppu.dot ≤ dots) (hlast : dots ≤ ppu.dotsTo 240 0) :
    (ppu.after dots board).status.spriteZeroHit = true ↔
      ∃ x y, ppu.MeetsAt board x y ∧ ppu.dotsTo y (x + 1) < dots := by
  have hdots := ppu.lineDots_bounds
  -- counted from the dot that clears the flag
  obtain ⟨more, rfl⟩ : ∃ more, dots = 2 - ppu.dot + more := ⟨dots - (2 - ppu.dot), by omega⟩
  induction more with
  | zero =>
    rw [Nat.add_zero, spriteZeroHit_cleared hline hdot board]
    refine ⟨fun h => absurd h Bool.false_ne_true, ?_⟩
    rintro ⟨x, y, -, hplace⟩
    simp only [dotsTo] at hplace
    omega
  | succ more ih =>
    have hbefore := ih (by omega) (by omega)
    have hstep := spriteZeroHit_succ hline hdot board (by omega : 2 - ppu.dot ≤ 2 - ppu.dot + more)
      (by omega)
    rw [← Nat.add_assoc]
    refine hstep.trans ((or_congr_left hbefore).trans ?_)
    simp only [Nat.lt_succ_iff_lt_or_eq, and_or_left, exists_or]

end Picture

end Ppu

namespace PpuSide

variable {side : PpuSide}

/-- Only dots and resets move the flag of the first sprite. -/
theorem after_spriteZeroHit (side : PpuSide) {use : PpuUse} (hdot : use ≠ .dot)
    (hreset : use ≠ .reset) :
    (side.after use).ppu.status.spriteZeroHit = side.ppu.status.spriteZeroHit := by
  rw [side.after_status hdot hreset]
  split <;> rfl

/-- From the end of the picture to the line before the next one the flag stays as it is, whatever
programs do. -/
theorem spriteZeroHit_stays {uses : List PpuUse} (hgrid : side.ppu.OnGrid)
    (hreset : .reset ∉ uses) (hfirst : Schedule.dots * 240 ≤ side.ppu.position)
    (hlast : side.ppu.position + uses.count .dot ≤ Ppu.vblankLast) :
    (side.afterAll uses).ppu.status.spriteZeroHit = side.ppu.status.spriteZeroHit := by
  induction uses generalizing side with
  | nil => rfl
  | cons use rest ih =>
    rw [List.mem_cons, not_or] at hreset
    have hgrid' := after_onGrid hgrid use
    by_cases hdot : use = .dot
    · subst hdot
      rw [List.count_cons_self] at hlast
      have hnext : (side.after .dot).ppu.position = side.ppu.position + 1 :=
        Ppu.tick_position_of_lt (by rw [Ppu.frameDots_eq]; rw [Ppu.vblankLast_eq] at hlast; omega)
          side.board
      have hends : ¬side.ppu.endsVblank = true := by
        rw [hgrid.endsVblank_iff]
        omega
      have hpicture : ¬Schedule.OnPicture side.ppu.scanline side.ppu.dot := by
        have hinside := hgrid.dot_lt
        simp only [Ppu.position, Schedule.dots] at hfirst hinside
        rintro ⟨hline, -⟩
        omega
      have hstays : (side.after .dot).ppu.status.spriteZeroHit =
          side.ppu.status.spriteZeroHit := by
        change (side.ppu.tick side.board).2.1.status.spriteZeroHit = _
        rw [Ppu.tick_spriteZeroHit, if_neg hends, if_neg hpicture]
      exact (ih hgrid' hreset.2 (by omega) (by omega)).trans hstays
    · rw [List.count_cons_of_ne hdot] at hlast
      have hnext := (side.after_samePicture hdot (Ne.symm hreset.1)).position
      have hstays := side.after_spriteZeroHit hdot (Ne.symm hreset.1)
      exact (ih hgrid' hreset.2 (by omega) (by omega)).trans hstays

end PpuSide

namespace Ppu

/-- When the flag of the first sprite is set. Left to itself from the line before the picture, the
unit sets it with the first dot at which the first sprite is solid on a solid background, as both
are looked up in the memories, wherever else the pixel comes from; both pipelines put out just what
is looked up. From the end of the picture on the flag stays as it is, whatever programs do, until
the dot that clears it. -/
theorem spriteZeroHit_at_first_meeting (ppu : Ppu) (board : Board) (hline : ppu.scanline = 261)
    (hdot : ppu.dot ≤ 1) :
    (∀ dots, 2 - ppu.dot ≤ dots → dots ≤ ppu.dotsTo 240 0 →
      ((ppu.after dots board).status.spriteZeroHit = true ↔
        ∃ x y, ppu.MeetsAt board x y ∧ ppu.dotsTo y (x + 1) < dots)) ∧
    (ppu.mask.showBackground = true → ppu.mask.showSprites = true → ∀ x < 256, ∀ y < 240,
      let drawn := ppu.after (ppu.dotsTo y (x + 1)) board
      drawn.scanline = y ∧ drawn.dot = x + 1 ∧
        drawn.backgroundPixel =
          (if x < 8 ∧ ppu.mask.leftBackground = false then {}
          else ppu.pictureBackground board x y) ∧
        drawn.spritePixel.zero =
          if x < 8 ∧ ppu.mask.leftSprites = false then false
          else ppu.firstSpriteSolid board x y) ∧
    ∀ uses : List PpuUse, .reset ∉ uses →
      let shown : PpuSide := { ppu := ppu.after (ppu.dotsTo 240 0) board, board }
      let later := shown.afterAll uses
      (uses.count .dot ≤ Schedule.dots * 21 + 1 →
        later.ppu.status.spriteZeroHit = shown.ppu.status.spriteZeroHit) ∧
      (uses.count .dot = Schedule.dots * 21 + 1 →
        (later.after .dot).ppu.status.spriteZeroHit = false) := by
  refine ⟨?_, ?_, ?_⟩
  · intro dots hfirst hlast
    exact spriteZeroHit_iff hline hdot board hfirst hlast
  · intro hbackground hsprites x hx y hy
    exact picture_pixels hline hdot hbackground hsprites board hx hy
  · intro uses hreset shown later
    have hdots := ppu.lineDots_bounds
    obtain ⟨hscanline, hcolumn⟩ := after_dotsTo_line hline (by omega) board (by omega : 240 ≤ 261)
    have hgrid : shown.ppu.OnGrid := by
      constructor
      · change (ppu.after _ board).scanline < _
        rw [hscanline]
        decide
      · change (ppu.after _ board).dot < _
        rw [hcolumn]
        decide
    have hposition : shown.ppu.position = Schedule.dots * 240 := by
      rw [position, hscanline, hcolumn, Nat.add_zero]
    have hend : vblankLast = Schedule.dots * 240 + (Schedule.dots * 21 + 1) := rfl
    constructor
    · intro hcount
      exact PpuSide.spriteZeroHit_stays hgrid hreset (by omega) (by omega)
    · intro hcount
      have hreached := PpuSide.afterAll_position hreset
        (by rw [hposition, hcount]; decide : shown.ppu.position + uses.count .dot + 1 < frameDots)
      have hends : later.ppu.endsVblank = true := by
        rw [(PpuSide.afterAll_onGrid hgrid uses).endsVblank_iff, hreached]
        omega
      change (later.ppu.tick later.board).2.1.status.spriteZeroHit = false
      rw [tick_spriteZeroHit, if_pos hends]

/-- A first sprite at the top left corner of solid patterns is met at its first pixel, in the second
row of the picture, and not before. -/
theorem spriteZeroHit_at_first_meeting_solid :
    let ppu : Ppu := { scanline := 261, dot := 0, mask := { bits := 0x1E } }
    let board := Board.ofBytes .nrom #[] #[0xFF] .vertical
    (ppu.scanline = 261 ∧ ppu.dot ≤ 1) ∧
      (ppu.after (ppu.dotsTo 1 1) board).status.spriteZeroHit = false ∧
      (ppu.after (ppu.dotsTo 1 1 + 1) board).status.spriteZeroHit = true := by
  intro ppu board
  have hflag := (spriteZeroHit_at_first_meeting ppu board rfl (by decide)).1
  have hbyte (address : Nat) : ppu.oam.get address = 0 := Memory.get_filled _ _
  have hvram (address : Nat) : ppu.vram.get address = 0 := Memory.get_filled _ _
  have hpattern (address : UInt16) : board.readPattern address = 0xFF := by
    simp [board, Board.readPattern, Board.ofBytes, Chr.ofBytes, Chr.read, Nat.mod_one]
  have hmeets : ppu.MeetsAt board 0 1 := by
    refine ⟨by decide, by decide, by decide, ?_, ?_, .inr (by decide)⟩
    · simp only [firstSpriteSolid, Sprite.touches, oamEntry, hbyte, hpattern]
      decide
    · simp only [pictureBackground, nametablePixel, tableByte, hvram, hpattern]
      decide
  refine ⟨⟨rfl, by decide⟩, ?_, ?_⟩
  · rw [Bool.eq_false_iff]
    intro hset
    obtain ⟨x, y, h, hplace⟩ := (hflag _ (by decide) (by decide)).mp hset
    have hrow := h.row
    simp only [dotsTo, Schedule.dots] at hplace
    omega
  · exact (hflag _ (by decide) (by decide)).mpr ⟨0, 1, hmeets, Nat.lt_succ_self _⟩

end Ppu

end Famicom
