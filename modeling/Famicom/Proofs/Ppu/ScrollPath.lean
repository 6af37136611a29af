import Famicom.Proofs.Ppu.Lines
import Famicom.Proofs.Ppu.ScrollFields

/-!
# The way of the picture address through a frame

While a layer shows, the schedule alone moves the picture address. On the line before the
picture both parts of it are taken over from the top left corner. From then on each line steps
to the right for every tile fetched, goes one line down, and returns to the left edge; the two
tiles fetched ahead put the address two columns to the right of it when the next line begins.
So at the start of a line the address is known, however the frame before it ended.
-/

namespace Famicom.Ppu

open PictureAddress

/-- What a part of the work of a dot does to the picture address, for a picture that starts from
`t`. -/
def movedBy (t v : UInt16) : DotOperation → UInt16
  | .incrementX => incrementX v
  | .incrementY => incrementY v
  | .copyHorizontal => copyHorizontal v t
  | .copyVertical => copyVertical v t
  | _ => v

/-- The picture address is moved by the operations of the dots alone. -/
theorem follows_address (source : Ppu) (board : Board) :
    Follows (fun ppu => ppu.scroll.v) (fun _ _ => movedBy source.scroll.t) source board := by
  constructor
  · intro ppu hsame operation
    cases operation with
    | renderPixel =>
      obtain ⟨drawing, hit, heq⟩ := ppu.renderPixel_eq
      change ppu.renderPixel.scroll.v = _
      rw [heq]
      rfl
    | copyHorizontal | copyVertical =>
      simp only [perform, movedBy, Scroll.copyHorizontal, Scroll.copyVertical, hsame.t]
    | _ => rfl
  · intro ppu
    unfold nextDot
    split
    · rfl
    · split <;> rfl

/-- The fetches of a tile end with a step to the right. -/
theorem fetches_address (t v : UInt16) (dot : Nat) :
    (Schedule.fetches dot).foldl (movedBy t) v = if dot % 8 = 0 then incrementX v else v := by
  unfold Schedule.fetches
  split
  case h_5 h => rw [if_pos h]; rfl
  case h_6 h => rw [if_neg h]; rfl
  all_goals
    next h =>
      rw [if_neg (by omega)]
      rfl

/-- The picture address after the work of a dot. -/
def addressAfter (t : UInt16) (scanline dot : Nat) (v : UInt16) : UInt16 :=
  dotWork (fun _ _ => movedBy t) scanline dot v

section Dots

variable {t v : UInt16} {scanline dot : Nat}

/-- The dots of the picture step to the right at the end of each tile. -/
theorem addressAfter_picture (hline : scanline < 240) (hfirst : 1 ≤ dot) (hlast : dot ≤ 255) :
    addressAfter t scanline dot v = if dot % 8 = 0 then incrementX v else v := by
  rw [addressAfter, dotWork, work_picture hline hfirst hlast, List.foldl_append,
    ← fetches_address t v dot]
  split <;> rfl

/-- The last dot of the picture steps to the right and down. -/
theorem addressAfter_turn (hline : scanline < 240) :
    addressAfter t scanline 256 v = incrementY (incrementX v) := by
  rw [addressAfter, dotWork, work_turn hline]
  rfl

/-- The dot after the picture returns to the left edge. -/
theorem addressAfter_return (hline : FetchesOn scanline) :
    addressAfter t scanline 257 v = copyHorizontal v t := by
  rw [addressAfter, dotWork]
  rcases hline.line with ⟨heq, -⟩ | heq
  · rw [Schedule.work, heq]
    rfl
  · rw [Schedule.work, heq]
    rfl

/-- The fetching of sprites leaves the address alone. -/
theorem addressAfter_sprites (hline : scanline < 240) (hfirst : 258 ≤ dot) (hlast : dot ≤ 320) :
    addressAfter t scanline dot v = v := by
  rw [addressAfter, dotWork, work_sprites hline (by omega) hlast, Schedule.lineEnd,
    if_neg (by omega)]
  split <;> rfl

/-- On the line before the picture, the address is returned to the top edge meanwhile. -/
theorem addressAfter_prerender (hfirst : 258 ≤ dot) (hlast : dot ≤ 320) :
    addressAfter t 261 dot v =
      if 280 ≤ dot ∧ dot ≤ 304 then copyVertical v t else v := by
  rw [addressAfter, dotWork, work_prerender_sprites (by omega) hlast, Schedule.lineEnd,
    if_neg (by omega : ¬dot = 257)]
  split <;> split <;> rfl

/-- The tiles fetched ahead step to the right. -/
theorem addressAfter_prefetch (hline : FetchesOn scanline) (hfirst : 321 ≤ dot)
    (hlast : dot ≤ 336) :
    addressAfter t scanline dot v = if dot % 8 = 0 then incrementX v else v := by
  rw [addressAfter, dotWork, work_prefetch hline hfirst hlast, ← fetches_address t v dot]
  rfl

/-- Between two lines the address stays. -/
theorem addressAfter_between (hline : FetchesOn scanline) (hdot : dot = 0 ∨ 337 ≤ dot) :
    addressAfter t scanline dot v = v := by
  rw [addressAfter, dotWork, work_between hline hdot]
  rfl

/-- The address is a number of tiles to the right of the left edge. -/
def TilesRight (t : UInt16) (tiles : Nat) (v : UInt16) : Prop :=
  (fields v).column = ((fields t).column + tiles) % 64

/-- The address is a number of lines below the top edge. -/
def LinesDown (t : UInt16) (lines : Nat) (v : UInt16) : Prop :=
  (fields (linesDown t lines)).SameLine (fields v)

variable {tiles lines : Nat}

/-- A step to the right is one tile more, on the same line. -/
theorem TilesRight.incrementX (h : TilesRight t tiles v) :
    TilesRight t (tiles + 1) (incrementX v) := by
  unfold TilesRight at *
  rw [fields_incrementX, (fields_fit v).column_right, h]
  omega

theorem LinesDown.incrementX (h : LinesDown t lines v) : LinesDown t lines (incrementX v) := by
  unfold LinesDown at *
  rw [fields_incrementX]
  exact h.trans (Fields.sameLine_right _)

/-- A step down is one line more, in the same column. -/
theorem TilesRight.incrementY (h : TilesRight t tiles v) : TilesRight t tiles (incrementY v) := by
  unfold TilesRight at *
  rw [fields_incrementY, (Fields.sameColumn_down _).column, h]

theorem LinesDown.incrementY (h : LinesDown t lines v) :
    LinesDown t (lines + 1) (incrementY v) := by
  unfold LinesDown at *
  rw [linesDown, fields_incrementY, fields_incrementY]
  exact h.down

/-- The horizontal copy returns to the left edge of the same line. -/
theorem tilesRight_copyHorizontal (t v : UInt16) : TilesRight t 0 (copyHorizontal v t) := by
  have hx := (fields_fit t).coarseX_lt
  have hn := (fields_fit t).nametableX_lt
  unfold TilesRight
  rw [fields_copyHorizontal]
  simp only [Fields.column]
  omega

theorem LinesDown.copyHorizontal (h : LinesDown t lines v) :
    LinesDown t lines (copyHorizontal v t) := by
  unfold LinesDown at *
  rw [fields_copyHorizontal]
  exact ⟨h.coarseY, h.nametableY, h.fineY⟩

/-- The vertical copy returns to the top edge in the same column. -/
theorem TilesRight.copyVertical (h : TilesRight t tiles v) :
    TilesRight t tiles (copyVertical v t) := by
  unfold TilesRight at *
  rw [fields_copyVertical]
  exact h

theorem linesDown_copyVertical (t v : UInt16) : LinesDown t 0 (copyVertical v t) := by
  unfold LinesDown
  rw [fields_copyVertical]
  exact ⟨rfl, rfl, rfl⟩

/-- The address is a number of tiles to the right of the left edge, and a number of lines below
the top edge. -/
structure At (t : UInt16) (tiles lines : Nat) (v : UInt16) : Prop where
  tilesRight : TilesRight t tiles v
  linesDown : LinesDown t lines v

/-- The tiles between the left edge and the address before a dot of a line. -/
def tilesBefore (dot : Nat) : Nat := if dot ≤ 257 then 2 + (dot - 1) / 8 else (dot - 321) / 8

/-- The lines between the top edge and the address before a dot of a line of the picture. -/
def linesBefore (scanline dot : Nat) : Nat := if dot ≤ 256 then scanline else scanline + 1

/-- Among the dots that fetch, the last one of each tile moves the address on. -/
theorem At.fetch (h : At t (tilesBefore dot) lines v) (hfirst : 1 ≤ dot)
    (hdot : dot ≤ 255 ∨ 321 ≤ dot) :
    At t (tilesBefore (dot + 1)) lines (if dot % 8 = 0 then PictureAddress.incrementX v else v) := by
  split
  · next hlast =>
    have htiles : tilesBefore (dot + 1) = tilesBefore dot + 1 := by
      unfold tilesBefore
      split <;> split <;> omega
    rw [htiles]
    exact ⟨h.tilesRight.incrementX, h.linesDown.incrementX⟩
  · next hlast =>
    have htiles : tilesBefore (dot + 1) = tilesBefore dot := by
      unfold tilesBefore
      split <;> split <;> omega
    rw [htiles]
    exact h

/-- At the end of a line two tiles are fetched ahead. -/
theorem At.fetchAhead (h : At t (tilesBefore dot) lines v) (hline : FetchesOn scanline)
    (hfirst : 321 ≤ dot) (hlast : dot < 341) :
    At t (tilesBefore (dot + 1)) lines (addressAfter t scanline dot v) := by
  by_cases hfetches : dot ≤ 336
  · rw [addressAfter_prefetch hline hfirst hfetches]
    exact h.fetch (by omega) (.inr hfirst)
  · have htiles : tilesBefore (dot + 1) = tilesBefore dot := by
      unfold tilesBefore
      split <;> split <;> omega
    rw [addressAfter_between hline (.inr (by omega)), htiles]
    exact h

/-- The work of a dot of the picture keeps the address on its path. -/
theorem At.next (h : At t (tilesBefore dot) (linesBefore scanline dot) v) (hline : scanline < 240)
    (hdot : dot < 341) :
    At t (tilesBefore (dot + 1)) (linesBefore scanline (dot + 1))
      (addressAfter t scanline dot v) := by
  have hfetches : FetchesOn scanline := .inl hline
  have hcases : dot = 0 ∨ (1 ≤ dot ∧ dot ≤ 255) ∨ dot = 256 ∨ dot = 257 ∨
      (258 ≤ dot ∧ dot ≤ 320) ∨ 321 ≤ dot := by omega
  rcases hcases with rfl | ⟨hfirst, hlast⟩ | rfl | rfl | ⟨hfirst, hlast⟩ | hrest
  · rw [addressAfter_between hfetches (.inl rfl)]
    exact h
  · rw [linesBefore, if_pos (by omega)] at h
    rw [addressAfter_picture hline hfirst hlast, linesBefore, if_pos (by omega)]
    exact h.fetch hfirst (.inl hlast)
  · rw [addressAfter_turn hline]
    exact ⟨h.tilesRight.incrementX.incrementY, h.linesDown.incrementX.incrementY⟩
  · rw [addressAfter_return hfetches]
    exact ⟨tilesRight_copyHorizontal t v, h.linesDown.copyHorizontal⟩
  · have htiles : tilesBefore (dot + 1) = tilesBefore dot := by
      unfold tilesBefore
      split <;> split <;> omega
    rw [linesBefore, if_neg (by omega)] at h
    rw [addressAfter_sprites hline hfirst hlast, htiles, linesBefore, if_neg (by omega)]
    exact h
  · rw [linesBefore, if_neg (by omega)] at h
    rw [linesBefore, if_neg (by omega)]
    exact h.fetchAhead hfetches hrest hdot

/-- Before a dot of the line before the picture, the address is counted from the left edge once
the horizontal copy is made, and from the top edge once the vertical copy is made. -/
structure Returning (t : UInt16) (dot : Nat) (v : UInt16) : Prop where
  tilesRight : 258 ≤ dot → TilesRight t (tilesBefore dot) v
  linesDown : 281 ≤ dot → LinesDown t 0 v

/-- The work of a dot returns the address to the top left corner. -/
theorem Returning.next (h : Returning t dot v) (hfirst : 257 ≤ dot) (hdot : dot < 341) :
    Returning t (dot + 1) (addressAfter t 261 dot v) := by
  have hcases : dot = 257 ∨ (258 ≤ dot ∧ dot ≤ 320) ∨ 321 ≤ dot := by omega
  rcases hcases with rfl | ⟨hfirst, hlast⟩ | hrest
  · rw [addressAfter_return (.inr rfl)]
    exact ⟨fun _ => tilesRight_copyHorizontal t v, fun h => absurd h (by decide)⟩
  · have htiles : tilesBefore (dot + 1) = tilesBefore dot := by
      unfold tilesBefore
      split <;> split <;> omega
    have hright : TilesRight t (tilesBefore dot) v := h.tilesRight hfirst
    rw [addressAfter_prerender hfirst hlast]
    split
    · exact ⟨fun _ => htiles ▸ hright.copyVertical, fun _ => linesDown_copyVertical t v⟩
    · exact ⟨fun _ => htiles ▸ hright, fun _ => h.linesDown (by omega)⟩
  · have hat : At t (tilesBefore dot) 0 v := ⟨h.tilesRight (by omega), h.linesDown (by omega)⟩
    have hnext := hat.fetchAhead (.inr rfl : FetchesOn 261) hrest hdot
    exact ⟨fun _ => hnext.tilesRight, fun _ => hnext.linesDown⟩

end Dots

variable {ppu source : Ppu} {board : Board}

/-- The line before the picture ends two tiles to the right of the top left corner. -/
theorem at_firstLine (hline : ppu.scanline = 261) (hdot : ppu.dot = 257)
    (hrendering : ppu.mask.rendering = true) (board : Board) :
    At ppu.scroll.t 2 0 (ppu.after (ppu.lineDots - 257) board).scroll.v := by
  have hdots := ppu.lineDots_bounds
  have hstart : Returning ppu.scroll.t ppu.dot ppu.scroll.v := by
    constructor <;> omega
  have hend := (follows_address ppu board).after (.refl ppu) hrendering
    (Returning ppu.scroll.t) (by omega : ppu.dot + (ppu.lineDots - 257) ≤ ppu.lineDots) hstart
    fun dot v hfirst hlast h => by
      rw [hline]
      exact h.next (by omega) (by omega)
  have htiles : tilesBefore (ppu.dot + (ppu.lineDots - 257)) = 2 := by
    unfold tilesBefore
    split <;> omega
  exact ⟨htiles ▸ hend.tilesRight (by omega), hend.linesDown (by omega)⟩

/-- A line of the picture ends at its last dot. -/
theorem lineDots_picture (hline : ppu.scanline < 240) : ppu.lineDots = 341 := by
  have hskips : ¬ppu.SkipsLast := fun h => absurd h.1 (by omega)
  rw [lineDots, if_neg hskips]

/-- A line of the picture leads to the next one, one line further down. -/
theorem At.line (h : At source.scroll.t 2 ppu.scanline ppu.scroll.v) (hsame : SameMemory source ppu)
    (hrendering : source.mask.rendering = true) (hline : ppu.scanline < 240) (hdot : ppu.dot = 0) :
    (ppu.after 341 board).scanline = ppu.scanline + 1 ∧ (ppu.after 341 board).dot = 0 ∧
      At source.scroll.t 2 (ppu.scanline + 1) (ppu.after 341 board).scroll.v := by
  have hdots := lineDots_picture hline
  have hnext := after_line (by omega : ppu.dot < ppu.lineDots) board
  have hend := (follows_address source board).after hsame hrendering
    (fun dot => At source.scroll.t (tilesBefore dot) (linesBefore ppu.scanline dot))
    (by omega : ppu.dot + 341 ≤ ppu.lineDots) (by rw [hdot]; exact h)
    fun dot v hfirst hlast hat => hat.next hline (by omega)
  rw [hdots, hdot, nextLine, if_neg (by omega)] at hnext
  rw [hdot] at hend
  exact ⟨hnext.1, hnext.2, hend⟩

/-- Where the picture address is when a line begins. Left to itself from the return to the left
edge on the line before the picture, the unit reaches line `y` with the address two tiles to the
right of the top left corner and `y` lines below it, in a frame of either length. Where the
corner lies above the attributes, the lines are counted modulo two screens. The corner, the
column within the tile and the toggle stay. -/
theorem address_at_line (ppu : Ppu) (board : Board) (hline : ppu.scanline = 261)
    (hdot : ppu.dot = 257) (hrendering : ppu.mask.rendering = true) {y : Nat} (hy : y ≤ 240) :
    let reached := ppu.after (ppu.lineDots - 257 + 341 * y) board
    let corner := ppu.scroll.t
    reached.scanline = y ∧ reached.dot = 0 ∧
      (fields reached.scroll.v).column = ((fields corner).column + 2) % 64 ∧
      (fields (linesDown corner y)).SameLine (fields reached.scroll.v) ∧
      ((fields corner).coarseY ≤ 29 →
        (fields reached.scroll.v).line = ((fields corner).line + y) % 480) ∧
      reached.scroll.t = corner ∧ reached.scroll.x = ppu.scroll.x ∧
      reached.scroll.w = ppu.scroll.w := by
  intro reached corner
  have hpath : reached.scanline = y ∧ reached.dot = 0 ∧ At corner 2 y reached.scroll.v := by
    induction y with
    | zero =>
      have hdots := ppu.lineDots_bounds
      have hend := after_line (by omega : ppu.dot < ppu.lineDots) board
      have hreached : reached = ppu.after (ppu.lineDots - 257) board := by
        change ppu.after (ppu.lineDots - 257 + 341 * 0) board = _
        rw [Nat.mul_zero, Nat.add_zero]
      rw [hdot, hline] at hend
      rw [hreached]
      exact ⟨hend.1, hend.2, at_firstLine hline hdot hrendering board⟩
    | succ y ih =>
      obtain ⟨hscanline, hposition, hat⟩ := ih (by omega)
      have hsame := ppu.after_sameMemory (ppu.lineDots - 257 + 341 * y) board
      have hsplit : reached =
          (ppu.after (ppu.lineDots - 257 + 341 * y) board).after 341 board := by
        rw [← after_add, Nat.add_assoc, ← Nat.mul_succ]
      rw [hsplit]
      generalize ppu.after (ppu.lineDots - 257 + 341 * y) board = start at *
      rw [← hscanline] at hat ⊢
      exact hat.line hsame hrendering (by omega) hposition
  obtain ⟨hscanline, hposition, hright, hdown⟩ := hpath
  have hsame : SameMemory ppu reached := ppu.after_sameMemory _ board
  refine ⟨hscanline, hposition, hright, hdown, fun hpicture => ?_, hsame.t, hsame.x, hsame.w⟩
  rw [← (line_linesDown hpicture y).1, Fields.line, Fields.line, hdown.coarseY, hdown.nametableY,
    hdown.fineY]

/-- From the last line and column of the four nametables, the first line of the picture begins
in the second column, and the second one at their top. -/
theorem address_at_line_wraps :
    let ppu : Ppu :=
      { scanline := 261, dot := 257, oddFrame := true, mask := { bits := 0x08 }
        scroll := { t := 0x7FBF, x := 5 } }
    let board := Board.ofBytes .nrom #[] #[] .vertical
    (ppu.scanline = 261 ∧ ppu.dot = 257 ∧ ppu.mask.rendering = true ∧ 1 ≤ 240) ∧
      (ppu.after (ppu.lineDots - 257 + 341 * 1) board).scanline = 1 ∧
      (ppu.after (ppu.lineDots - 257 + 341 * 1) board).dot = 0 ∧
      (fields (ppu.after (ppu.lineDots - 257 + 341 * 1) board).scroll.v).column = 1 ∧
      (fields (ppu.after (ppu.lineDots - 257 + 341 * 1) board).scroll.v).line = 0 := by
  intro ppu board
  have hrendering : ppu.mask.rendering = true := by decide
  have hcorner : (fields ppu.scroll.t).coarseY ≤ 29 := by decide
  obtain ⟨hscanline, hdot, hcolumn, -, hline, -⟩ :=
    address_at_line ppu board rfl rfl hrendering (by decide : 1 ≤ 240)
  exact ⟨⟨rfl, rfl, hrendering, by decide⟩, hscanline, hdot, hcolumn.trans (by decide),
    (hline hcorner).trans (by decide)⟩

end Famicom.Ppu
