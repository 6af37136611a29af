import Famicom.Proofs.Ppu.Background
import Famicom.Proofs.Ppu.Drawing
import Famicom.Proofs.Ppu.Foreground
import Famicom.Proofs.Ppu.ScrollPath

/-!
# The picture as a whole

Left to itself from the line before the picture, the unit works through the picture with what it
finds in its memories. Each line begins to fetch at the picture address that lies as many lines
below the top edge as it does, and the sprites of each line but the first are found on the line
above it. The first line shows no sprites, since the line before the picture finds none. So the
pixels that the two pipelines put out are looked up directly, for every point of the picture.
-/

namespace Famicom.Ppu

open PictureAddress

variable {ppu : Ppu} {board : Board}

/-- Only the line before the picture can be shorter. -/
theorem lineDots_of_ne (h : ppu.scanline ≠ 261) : ppu.lineDots = 341 := by
  have hskips : ¬ppu.SkipsLast := fun hskips => h hskips.1
  rw [lineDots, if_neg hskips]

/-- The dots up to a dot of a line of the picture, from the line before it on. -/
def dotsTo (ppu : Ppu) (scanline dot : Nat) : Nat :=
  ppu.lineDots - ppu.dot + (Schedule.dots * scanline + dot)

/-- A line of the picture has all its dots. -/
theorem dotsTo_succ (ppu : Ppu) (y : Nat) : ppu.dotsTo (y + 1) 0 = ppu.dotsTo y 0 + 341 := by
  simp only [dotsTo, Schedule.dots]
  omega

/-- The dots up to a dot of a line are those up to the line and those on it. -/
theorem dotsTo_eq_add (ppu : Ppu) (y d : Nat) : ppu.dotsTo y d = ppu.dotsTo y 0 + d := by
  simp only [dotsTo]
  omega

/-- The lines after the line before the picture follow each other. -/
theorem after_dotsTo_line (hline : ppu.scanline = 261) (hdot : ppu.dot < ppu.lineDots)
    (board : Board) {y : Nat} (hy : y ≤ 261) :
    (ppu.after (ppu.dotsTo y 0) board).scanline = y ∧
      (ppu.after (ppu.dotsTo y 0) board).dot = 0 := by
  induction y with
  | zero =>
    have hcorner := after_line hdot board
    rw [hline] at hcorner
    exact hcorner
  | succ y ih =>
    obtain ⟨hscanline, hposition⟩ := ih (by omega)
    rw [dotsTo_succ, after_add]
    generalize ppu.after (ppu.dotsTo y 0) board = start at *
    have hdots : start.lineDots = 341 := lineDots_of_ne (by omega)
    have hnext := after_line (by omega : start.dot < start.lineDots) board
    rw [hdots, hposition, hscanline, nextLine, if_neg (by omega)] at hnext
    exact hnext

/-- The dots of each line follow each other. -/
theorem after_dotsTo (hline : ppu.scanline = 261) (hdot : ppu.dot < ppu.lineDots)
    (board : Board) {y d : Nat} (hy : y ≤ 260) (hd : d < 341) :
    (ppu.after (ppu.dotsTo y d) board).scanline = y ∧
      (ppu.after (ppu.dotsTo y d) board).dot = d := by
  obtain ⟨hscanline, hposition⟩ := after_dotsTo_line hline hdot board (by omega : y ≤ 261)
  rw [dotsTo_eq_add, after_add]
  generalize ppu.after (ppu.dotsTo y 0) board = start at *
  have hdots : start.lineDots = 341 := lineDots_of_ne (by omega)
  obtain ⟨hscanline', hposition', -⟩ :=
    after_within (by omega : start.dot + d < start.lineDots) board
  exact ⟨hscanline'.trans hscanline, by omega⟩

section Address

/-- The line before the picture ends two tiles to the right of the top left corner, from wherever
before the return to the left edge it is begun. -/
theorem at_corner (hline : ppu.scanline = 261) (hdot : ppu.dot ≤ 257)
    (hrendering : ppu.mask.rendering = true) (board : Board) :
    At ppu.scroll.t 2 0 (ppu.after (ppu.dotsTo 0 0) board).scroll.v := by
  have hdots := ppu.lineDots_bounds
  obtain ⟨hscanline, hposition, hlength⟩ :=
    after_within (by omega : ppu.dot + (257 - ppu.dot) < ppu.lineDots) board
  have hsame := ppu.after_sameMemory (257 - ppu.dot) board
  have hsplit : ppu.dotsTo 0 0 = 257 - ppu.dot + (ppu.lineDots - 257) := by
    simp only [dotsTo, Schedule.dots]
    omega
  rw [hsplit, after_add, ← hlength, ← hsame.t]
  rw [← hsame.mask] at hrendering
  exact at_firstLine (hscanline.trans hline) (by omega) hrendering board

/-- Each line of the picture begins at its address. -/
theorem at_line (hline : ppu.scanline = 261) (hdot : ppu.dot ≤ 257)
    (hrendering : ppu.mask.rendering = true) (board : Board) {y : Nat} (hy : y ≤ 240) :
    At ppu.scroll.t 2 y (ppu.after (ppu.dotsTo y 0) board).scroll.v := by
  have hdots := ppu.lineDots_bounds
  induction y with
  | zero => exact at_corner hline hdot hrendering board
  | succ y ih =>
    obtain ⟨hscanline, hposition⟩ :=
      after_dotsTo_line hline (by omega) board (by omega : y ≤ 261)
    have hat := ih (by omega)
    have hsame := ppu.after_sameMemory (ppu.dotsTo y 0) board
    rw [dotsTo_succ, after_add]
    generalize ppu.after (ppu.dotsTo y 0) board = start at *
    rw [← hscanline] at hat ⊢
    exact (hat.line hsame hrendering (by omega) hposition).2.2

/-- The fetching for the first line begins at the top left corner. -/
theorem at_fetch_first (hline : ppu.scanline = 261) (hdot : ppu.dot = 257)
    (hrendering : ppu.mask.rendering = true) (board : Board) :
    At ppu.scroll.t 0 0 (ppu.after 64 board).scroll.v := by
  have hdots := ppu.lineDots_bounds
  have hstart : Returning ppu.scroll.t ppu.dot ppu.scroll.v := by
    constructor <;> omega
  have hend := (follows_address ppu board).after (.refl ppu) hrendering
    (Returning ppu.scroll.t) (by omega : ppu.dot + 64 ≤ ppu.lineDots) hstart
    fun dot v hfirst hlast h => by
      rw [hline]
      exact h.next (by omega) (by omega)
  rw [hdot] at hend
  exact ⟨hend.tilesRight (by decide), hend.linesDown (by decide)⟩

/-- The fetching for a line begins at the left edge of it, on the line above. -/
theorem at_fetch_next {source : Ppu} (hsame : SameMemory source ppu)
    (hrendering : source.mask.rendering = true) (hline : ppu.scanline < 240) (hdot : ppu.dot = 0)
    (h : At source.scroll.t 2 ppu.scanline ppu.scroll.v) :
    At source.scroll.t 0 (ppu.scanline + 1) (ppu.after 321 board).scroll.v := by
  have hdots := lineDots_picture hline
  have hend := (follows_address source board).after hsame hrendering
    (fun dot => At source.scroll.t (tilesBefore dot) (linesBefore ppu.scanline dot))
    (by omega : ppu.dot + 321 ≤ ppu.lineDots) (by rw [hdot]; exact h)
    fun dot v hfirst hlast hat => hat.next hline (by omega)
  rw [hdot] at hend
  exact hend

/-- Where the fetching for a line of the picture begins. -/
theorem at_fetch (hline : ppu.scanline = 261) (hdot : ppu.dot ≤ 257)
    (hrendering : ppu.mask.rendering = true) (board : Board) {y : Nat} (hy : y < 240) :
    ∃ dots, FetchesOn (ppu.after dots board).scanline ∧ (ppu.after dots board).dot = 321 ∧
      nextLine (ppu.after dots board).scanline = y ∧
      At ppu.scroll.t 0 y (ppu.after dots board).scroll.v ∧
      dots + ((ppu.after dots board).lineDots - 321) = ppu.dotsTo y 0 := by
  have hdots := ppu.lineDots_bounds
  cases y with
  | zero =>
    obtain ⟨hscanline, hposition, hlength⟩ :=
      after_within (by omega : ppu.dot + (257 - ppu.dot) < ppu.lineDots) board
    have hsame := ppu.after_sameMemory (257 - ppu.dot) board
    refine ⟨257 - ppu.dot + 64, ?_⟩
    rw [after_add]
    rw [← hsame.mask] at hrendering
    rw [← hsame.t]
    generalize ppu.after (257 - ppu.dot) board = start at *
    have hat := at_fetch_first (hscanline.trans hline) (by omega) hrendering board
    obtain ⟨hscanline', hposition', hlength'⟩ :=
      after_within (by omega : start.dot + 64 < start.lineDots) board
    have hprerender := hscanline'.trans (hscanline.trans hline)
    refine ⟨.inr hprerender, by omega, ?_, hat, ?_⟩
    · rw [nextLine, if_pos hprerender]
    · simp only [dotsTo, Schedule.dots]
      omega
  | succ y =>
    obtain ⟨hscanline, hposition⟩ :=
      after_dotsTo_line hline (by omega) board (by omega : y ≤ 261)
    have hat := at_line hline hdot hrendering board (by omega : y ≤ 240)
    have hsame := ppu.after_sameMemory (ppu.dotsTo y 0) board
    refine ⟨ppu.dotsTo y 0 + 321, ?_⟩
    rw [after_add]
    generalize ppu.after (ppu.dotsTo y 0) board = start at *
    have hpicture : start.scanline < 240 := by omega
    have hlength := lineDots_picture hpicture
    rw [← hscanline] at hat
    have hfetch : At ppu.scroll.t 0 (start.scanline + 1) (start.after 321 board).scroll.v :=
      at_fetch_next hsame hrendering hpicture hposition hat
    obtain ⟨hscanline', hposition', hlength'⟩ :=
      after_within (by omega : start.dot + 321 < start.lineDots) board
    refine ⟨.inl (by omega), by omega, ?_, ?_, ?_⟩
    · rw [nextLine, if_neg (by omega)]
      omega
    · rw [← hscanline]
      exact hfetch
    · simp only [dotsTo, Schedule.dots]
      omega

end Address

section Background

/-- The pixel of the background in column `x` of row `y` of the picture, looked up directly. -/
def pictureBackground (ppu : Ppu) (board : Board) (x y : Nat) : LayerPixel :=
  ({ ppu with scroll := { ppu.scroll with v := linesDown ppu.scroll.t y } }).nametablePixel board x

/-- What is looked up in the nametables depends on memories and on the fields of the address. -/
theorem nametablePixel_congr {left right : Ppu} (hsame : SameMemory left right)
    (hcolumn : (fields right.scroll.v).column = (fields left.scroll.v).column)
    (hline : (fields left.scroll.v).SameLine (fields right.scroll.v)) (board : Board) (x : Nat) :
    right.nametablePixel board x = left.nametablePixel board x := by
  have hcoarse : right.scroll.v.toNat / 0x20 % 0x20 = left.scroll.v.toNat / 0x20 % 0x20 :=
    hline.coarseY
  have htable : right.scroll.v.toNat / 0x800 % 2 = left.scroll.v.toNat / 0x800 % 2 :=
    hline.nametableY
  have hfine : right.scroll.v.toNat / 0x1000 % 8 = left.scroll.v.toNat / 0x1000 % 8 :=
    hline.fineY
  have hcolumn' : PictureAddress.column right.scroll.v.toNat =
      PictureAddress.column left.scroll.v.toNat := by
    simp only [Fields.column, fields] at hcolumn
    simp only [PictureAddress.column]
    omega
  simp only [nametablePixel, tableByte, hsame.vram, hsame.control, hsame.x, hcoarse, htable, hfine,
    hcolumn']

/-- Going down does not leave the column. -/
theorem tilesRight_linesDown (t : UInt16) (lines : Nat) : TilesRight t 0 (linesDown t lines) := by
  induction lines with
  | zero =>
    have hfit := fields_fit t
    have hx := hfit.coarseX_lt
    have hn := hfit.nametableX_lt
    simp only [TilesRight, linesDown, Fields.column]
    omega
  | succ lines ih => exact ih.incrementY

/-- At every dot of the picture the background pipeline puts out the pixel of the nametables. -/
theorem picture_background (hline : ppu.scanline = 261) (hdot : ppu.dot ≤ 257)
    (hrendering : ppu.mask.rendering = true) (board : Board) {x y : Nat} (hx : x < 256)
    (hy : y < 240) :
    (ppu.after (ppu.dotsTo y (x + 1)) board).shifter.pixel ppu.scroll.x =
      ppu.pictureBackground board x y := by
  obtain ⟨dots, hfetches, hposition, hnext, hat, hlength⟩ :=
    at_fetch hline hdot hrendering board hy
  have hsame := ppu.after_sameMemory dots board
  have hsplit : ppu.dotsTo y (x + 1) =
      dots + ((ppu.after dots board).lineDots - 321 + (x + 1)) := by
    simp only [dotsTo] at hlength ⊢
    omega
  rw [hsplit, after_add, ← hsame.x]
  generalize ppu.after dots board = start at *
  rw [← hsame.mask] at hrendering
  obtain ⟨-, -, hshown⟩ :=
    background_shown hfetches hposition (by omega) hrendering board hx
  rw [hshown, pixelRight_eq, pictureBackground]
  apply nametablePixel_congr
  · exact { hsame with }
  · exact hat.tilesRight.trans (tilesRight_linesDown ppu.scroll.t y).symm
  · exact hat.linesDown

end Background

section Sprites

/-- No sprites are picked or shown. -/
structure Foreground.NoSprites (state : Foreground) : Prop where
  picked : state.picked = 0
  count : state.units.count = 0

/-- Only the search picks sprites. -/
theorem Foreground.perform_picked {operation : DotOperation} (h : operation ≠ .evaluateSprites)
    {source : Ppu} {scanline dot : Nat} {state : Foreground} (hpicked : state.picked = 0) :
    (state.perform source board scanline dot operation).picked = 0 := by
  cases operation with
  | evaluateSprites => contradiction
  | clearFlags => rfl
  | _ => exact hpicked

/-- Without a search the units stay empty. -/
theorem Foreground.NoSprites.perform {operation : DotOperation} (h : operation ≠ .evaluateSprites)
    {source : Ppu} {scanline dot : Nat} {state : Foreground} (hempty : state.NoSprites) :
    (state.perform source board scanline dot operation).NoSprites := by
  refine ⟨perform_picked h hempty.picked, ?_⟩
  cases operation with
  | evaluateSprites => contradiction
  | fillSpriteUnit =>
    change (state.unitsFrom _).count = 0
    unfold unitsFrom
    split
    · exact hempty.picked
    · exact hempty.count
  | _ => exact hempty.count

/-- What every operation but the search keeps up, dots without a search keep up. -/
theorem dotWork_of_no_search {source : Ppu} {scanline dot : Nat} (kept : Foreground → Prop)
    (hsearch : .evaluateSprites ∉ Schedule.work scanline dot)
    (hkept : ∀ operation state, operation ≠ .evaluateSprites → kept state →
      kept (state.perform source board scanline dot operation))
    {state : Foreground} (h : kept state) :
    kept (dotWork (Foreground.perform source board) scanline dot state) := by
  unfold dotWork
  generalize Schedule.work scanline dot = operations at *
  induction operations generalizing state with
  | nil => exact h
  | cons operation rest ih =>
    rw [List.mem_cons, not_or] at hsearch
    exact ih (hkept operation state (Ne.symm hsearch.1) h) hsearch.2

/-- Nothing is searched for on the line before the picture. -/
theorem no_search_prerender (dot : Nat) : .evaluateSprites ∉ Schedule.work 261 dot := by
  have hfetches : .evaluateSprites ∉ Schedule.fetches dot :=
    fun hmem => by simpa using Schedule.fetches_subset dot hmem
  have hlineEnd : .evaluateSprites ∉ Schedule.lineEnd dot :=
    fun hmem => by simpa using Schedule.lineEnd_subset dot hmem
  exact Schedule.not_mem_prerender hfetches hlineEnd (by decide)

/-- The search comes last on the picture part of a line. -/
theorem no_search_picture {dot : Nat} (hdot : dot ≤ 255) :
    .evaluateSprites ∉ Schedule.work 0 dot := by
  by_cases hfirst : dot = 0
  · rw [work_between (.inl (by decide)) (.inl hfirst)]
    simp
  · have hfetches : .evaluateSprites ∉ Schedule.fetches dot :=
      fun hmem => by simpa using Schedule.fetches_subset dot hmem
    rw [work_picture (by decide) (by omega) hdot]
    split <;> simp [hfetches]

/-- The line before the picture forgets the sprites picked, and then empties the units. -/
theorem prerender_noSprites (hline : ppu.scanline = 261) (hdot : ppu.dot ≤ 1)
    (hrendering : ppu.mask.rendering = true) (board : Board) {dots : Nat}
    (hlast : ppu.dot + dots ≤ ppu.lineDots) :
    (2 ≤ ppu.dot + dots → (ppu.after dots board).foreground.picked = 0) ∧
      (258 ≤ ppu.dot + dots → (ppu.after dots board).foreground.NoSprites) :=
  (follows_foreground ppu board).after (.refl ppu) hrendering
    (fun dot state => (2 ≤ dot → state.picked = 0) ∧ (258 ≤ dot → state.NoSprites)) hlast
    ⟨by omega, by omega⟩
    fun dot state hfirst hlast h => by
      rw [hline]
      have hsearch := no_search_prerender dot
      refine ⟨fun hpicked => ?_, fun hfilled => ?_⟩
      · by_cases hone : dot = 1
        · rw [hone]
          rfl
        · exact dotWork_of_no_search (fun state => state.picked = 0) hsearch
            (fun operation state hother hkept => Foreground.perform_picked hother hkept)
            (h.1 (by omega))
      · by_cases hreturn : dot = 257
        · have hpicked := h.1 (by omega)
          rw [hreturn]
          exact ⟨hpicked, hpicked⟩
        · exact dotWork_of_no_search Foreground.NoSprites hsearch
            (fun operation state hother hkept => hkept.perform hother) (h.2 (by omega))

/-- The line before the picture leaves the units empty. -/
theorem noSprites_corner (hline : ppu.scanline = 261) (hdot : ppu.dot ≤ 1)
    (hrendering : ppu.mask.rendering = true) (board : Board) :
    (ppu.after (ppu.dotsTo 0 0) board).foreground.NoSprites := by
  have hdots := ppu.lineDots_bounds
  exact (prerender_noSprites hline hdot hrendering board
    (by omega : ppu.dot + (ppu.lineDots - ppu.dot) ≤ ppu.lineDots)).2 (by omega)

/-- The first line of the picture shows no sprites. -/
theorem noSprites_first (hline : ppu.scanline = 261) (hdot : ppu.dot ≤ 1)
    (hrendering : ppu.mask.rendering = true) (board : Board) {dot : Nat} (hlast : dot ≤ 256) :
    (ppu.after (ppu.dotsTo 0 dot) board).foreground.NoSprites := by
  have hdots := ppu.lineDots_bounds
  obtain ⟨hscanline, hposition⟩ := after_dotsTo_line hline (by omega) board (by omega : 0 ≤ 261)
  have hempty := noSprites_corner hline hdot hrendering board
  have hsame := ppu.after_sameMemory (ppu.dotsTo 0 0) board
  rw [dotsTo_eq_add, after_add]
  generalize ppu.after (ppu.dotsTo 0 0) board = start at *
  have hlength := lineDots_of_ne (by omega : start.scanline ≠ 261)
  exact (follows_foreground ppu board).after hsame hrendering (fun _ state => state.NoSprites)
    (by omega : start.dot + dot ≤ start.lineDots) hempty
    fun dot' state hfirst hlast' h => by
      rw [hscanline]
      exact dotWork_of_no_search Foreground.NoSprites (no_search_picture (by omega))
        (fun operation state hother hkept => hkept.perform hother) h

/-- Units that are not in use put out nothing. -/
theorem pixel_of_count_zero {units : SpriteUnits} (h : units.count = 0) : units.pixel = {} := by
  have hnone : ∀ slot, units.pixelAt slot = 0 := by
    intro slot
    rw [SpriteUnits.pixelAt, h]
    exact if_neg (Nat.not_lt_zero _)
  have hfind : SpriteUnits.slots.find? (fun slot => units.pixelAt slot != 0) = none := by
    apply List.find?_eq_none.mpr
    intro slot _
    simp [hnone slot]
  rw [SpriteUnits.pixel, hfind]

/-- Whether the first sprite of object memory is solid in column `x` of row `y` of the picture,
looked up directly. A sprite is shown one line below its row, so no sprite reaches the top. -/
def firstSpriteSolid (ppu : Ppu) (board : Board) (x y : Nat) : Bool :=
  decide (1 ≤ y) && Sprite.touches ppu.oam (y - 1) ppu.control.spriteHeight 0 &&
    ({ ppu with scanline := y - 1 } : Ppu).oamEntry board 0 x != 0

/-- The first sprite is among those that a line shows exactly when it touches the line. -/
theorem contains_zero_candidates (oam : Memory 8) (scanline height : Nat) :
    (Sprite.candidates oam scanline height).contains 0 =
      Sprite.touches oam scanline height 0 := by
  cases htouches : Sprite.touches oam scanline height 0 with
  | true =>
    rw [Sprite.candidates, Sprite.total, List.range_succ_eq_map,
      List.filter_cons_of_pos htouches, Sprite.perLine]
    rfl
  | false =>
    rw [Bool.eq_false_iff]
    intro hcontains
    have hmem := Sprite.touches_of_mem_candidates (List.contains_iff_mem.mp hcontains)
    rw [htouches] at hmem
    contradiction

/-- What is looked up in object memory depends on memories and on the line. -/
theorem oamEntry_congr {left right : Ppu} (hsame : SameMemory left right)
    (hline : right.scanline = left.scanline) (board : Board) (n x : Nat) :
    right.oamEntry board n x = left.oamEntry board n x := by
  simp only [oamEntry, hsame.oam, hsame.control, hline]

/-- At every dot of the picture the sprite units tell where the first sprite is solid. -/
theorem picture_spriteZero (hline : ppu.scanline = 261) (hdot : ppu.dot ≤ 1)
    (hrendering : ppu.mask.rendering = true) (board : Board) {x y : Nat} (hx : x < 256)
    (hy : y < 240) :
    (ppu.after (ppu.dotsTo y (x + 1)) board).sprites.pixel.zero =
      ppu.firstSpriteSolid board x y := by
  have hdots := ppu.lineDots_bounds
  cases y with
  | zero =>
    have hempty := noSprites_first hline hdot hrendering board (by omega : x + 1 ≤ 256)
    have hpixel := congrArg SpritePixel.zero (pixel_of_count_zero hempty.count)
    exact hpixel
  | succ y =>
    obtain ⟨hscanline, hposition⟩ := after_dotsTo hline (by omega) board
      (by omega : y ≤ 260) (by omega : 256 < 341)
    have hsame := ppu.after_sameMemory (ppu.dotsTo y 256) board
    have hsplit : ppu.dotsTo (y + 1) (x + 1) = ppu.dotsTo y 256 + (85 + (x + 1)) := by
      simp only [dotsTo, Schedule.dots]
      omega
    rw [hsplit, after_add]
    generalize ppu.after (ppu.dotsTo y 256) board = start at *
    rw [← hsame.mask] at hrendering
    obtain ⟨-, -, hshows⟩ := foreground_shown (by omega) hposition hrendering board hx
    have hmemory : SameMemory { ppu with scanline := y } start := { hsame with }
    have hentry := oamEntry_congr hmemory hscanline board 0 x
    rw [hshows.pixel]
    change (start.shownSprites.contains 0 && start.oamEntry board 0 x != 0) = _
    rw [hentry, shownSprites, contains_zero_candidates, hsame.oam, hsame.control, hscanline]
    rfl

end Sprites

end Famicom.Ppu
