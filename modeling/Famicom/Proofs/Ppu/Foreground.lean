import Famicom.Proofs.Ppu.Lines
import Famicom.Proofs.Ppu.SpriteSearch
import Famicom.Proofs.Ppu.SpriteUnits

/-!
# The sprites of a line

At the end of the picture part of a line the unit finds the sprites of the next one, and fetches
their lines into the sprite units before that line begins. Followed dot by dot, the units put out
the sprites of object memory where they lie: the first eight that touch the line, and among them
the first one with a pixel in the column.
-/

namespace Famicom

namespace Ppu

/-- The part of the unit that draws the sprites. -/
structure Foreground where
  secondary : Memory 5
  picked : Nat
  zero : Bool
  units : SpriteUnits

/-- The sprite side of a unit. -/
def foreground (ppu : Ppu) : Foreground :=
  { secondary := ppu.secondaryOam, picked := ppu.pickedCount, zero := ppu.pickedZero,
    units := ppu.sprites }

/-- The sprite unit for four bytes of object memory, on the line after `scanline`. -/
def unitFor (source : Ppu) (board : Board) (scanline : Nat) (bytes : Nat → UInt8) : SpriteUnit :=
  let row := Sprite.row scanline source.control.spriteHeight (bytes 0) (bytes 2)
  let address := Sprite.patternAddress source.control (bytes 1) row
  .ofPattern (bytes 3) (bytes 2) (board.readPattern (UInt16.ofNat address))
    (board.readPattern (UInt16.ofNat (address + 8)))

namespace Foreground

/-- The units once the fetching has reached a slot. -/
def unitsFrom (state : Foreground) (slot : Fin 8) : SpriteUnits :=
  if slot.val = 0 then { state.units with count := state.picked, zeroFirst := state.zero }
  else state.units

/-- The unit that is fetched for a slot. -/
def fetched (source : Ppu) (board : Board) (scanline : Nat) (slot : Fin 8)
    (state : Foreground) : SpriteUnit :=
  if slot.val < (state.unitsFrom slot).count then
    source.unitFor board scanline fun byte => state.secondary.get (slot.val * 4 + byte)
  else {}

/-- Fetch the sprite of a slot. -/
def fill (source : Ppu) (board : Board) (scanline : Nat) (slot : Fin 8)
    (state : Foreground) : Foreground :=
  { state with units := (state.unitsFrom slot).fill slot (state.fetched source board scanline slot) }

/-- What a part of the work of a dot does to the sprites of a unit with the memories of
`source`. -/
def perform (source : Ppu) (board : Board) (scanline dot : Nat) (state : Foreground) :
    DotOperation → Foreground
  | .shiftSprites => { state with units := state.units.shift }
  | .clearSecondaryOam => { state with secondary := Memory.filled 5 0xFF }
  | .evaluateSprites =>
    let found :=
      Sprite.evaluate source.oam scanline source.control.spriteHeight state.secondary
    { state with secondary := found.secondary, picked := found.found, zero := found.zero }
  | .fillSpriteUnit => state.fill source board scanline (SpriteUnits.slotOf ((dot - 257) / 8))
  | .clearFlags => { state with picked := 0, zero := false }
  | _ => state

end Foreground

/-- Fetching the sprite of a slot does to the sprites what it does there. -/
theorem fillSpriteUnit_foreground {source ppu : Ppu} (h : SameMemory source ppu) (slot : Fin 8)
    (board : Board) :
    (ppu.fillSpriteUnit slot board).1.foreground =
      ppu.foreground.fill source board ppu.scanline slot := by
  have hunits : ppu.spritesFrom slot = ppu.foreground.unitsFrom slot := rfl
  have hfetched : ppu.foreground.fetched source board ppu.scanline slot =
      if slot.val < (ppu.spritesFrom slot).count then
        SpriteUnit.ofPattern (ppu.secondaryOam.get (slot.val * 4 + 3))
          (ppu.secondaryOam.get (slot.val * 4 + 2))
          (board.readPattern (UInt16.ofNat (ppu.spriteRowAddress slot)))
          (board.readPattern (UInt16.ofNat (ppu.spriteRowAddress slot + 8)))
      else {} := by
    rw [Foreground.fetched, ← hunits]
    split
    · next hslot =>
      rw [spriteRowAddress, if_pos hslot, h.control]
      rfl
    · rfl
  rw [Foreground.fill, hfetched]
  rfl

/-- The sprites are worked by the operations of the dots alone. -/
theorem follows_foreground (source : Ppu) (board : Board) :
    Follows foreground (Foreground.perform source board) source board := by
  refine ⟨fun {ppu} hsame operation => ?_, fun ppu => ?_⟩
  · cases operation with
    | renderPixel =>
      obtain ⟨drawing, hit, heq⟩ := ppu.renderPixel_eq
      change ppu.renderPixel.foreground = _
      rw [heq]
      rfl
    | evaluateSprites =>
      simp only [perform, Foreground.perform, foreground, evaluateSprites, hsame.oam,
        hsame.control]
    | fillSpriteUnit => exact fillSpriteUnit_foreground hsame _ board
    | _ => rfl
  · unfold nextDot
    split
    · rfl
    · split <;> rfl

/-- The sprites that the next line shows. -/
def shownSprites (ppu : Ppu) : List Nat :=
  Sprite.candidates ppu.oam ppu.scanline ppu.control.spriteHeight

/-- The unit for a sprite of object memory on the next line. -/
def unitOf (ppu : Ppu) (board : Board) (n : Nat) : SpriteUnit :=
  ppu.unitFor board ppu.scanline fun byte => ppu.oam.get (n * 4 + byte)

namespace Foreground

variable {source : Ppu} {board : Board} {state : Foreground} {units : SpriteUnits}

/-- The sprites of the next line are found. -/
structure Found (source : Ppu) (state : Foreground) : Prop where
  picked : state.picked = source.shownSprites.length
  zero : state.zero = source.shownSprites.contains 0
  copied : ∀ slot n, source.shownSprites[slot]? = some n → ∀ byte < 4,
    state.secondary.get (slot * 4 + byte) = source.oam.get (n * 4 + byte)

/-- The sprites of the next line are found, and the slots before `slots` hold theirs. -/
structure Filled (source : Ppu) (board : Board) (slots : Nat) (state : Foreground) : Prop
    extends Found source state where
  count : 0 < slots → state.units.count = source.shownSprites.length
  zeroFirst : 0 < slots → state.units.zeroFirst = source.shownSprites.contains 0
  filled : ∀ (slot : Fin 8) (n : Nat), slot.val < slots →
    source.shownSprites[slot.val]? = some n → state.units.unit slot = source.unitOf board n

/-- The units show the sprites of the next line from column `dots` on. -/
structure Shows (source : Ppu) (board : Board) (dots : Nat) (units : SpriteUnits) : Prop where
  count : units.count = source.shownSprites.length
  zeroFirst : units.zeroFirst = source.shownSprites.contains 0
  attributes : ∀ (slot : Fin 8) (n : Nat), source.shownSprites[slot.val]? = some n →
    (units.unit slot).attributes = source.oam.get (n * 4 + 2)
  entries : ∀ (slot : Fin 8) (n : Nat), source.shownSprites[slot.val]? = some n → ∀ later,
    (units.unit slot).pixelAt later = (source.unitOf board n).pixelAt (dots + later)

/-- The search finds the sprites that the next line shows. -/
theorem found_evaluate (source : Ppu) (board : Board) (dot : Nat) (state : Foreground) :
    Found source (state.perform source board source.scanline dot .evaluateSprites) := by
  obtain ⟨hfound, hcopied, hzero⟩ := Sprite.evaluate_holds source.oam source.scanline
    source.control.spriteHeight state.secondary
  refine ⟨hfound, hzero, fun slot n hslot byte hbyte => ?_⟩
  obtain ⟨hlength, hn⟩ := List.getElem?_eq_some_iff.mp hslot
  exact (hcopied slot hlength byte hbyte).trans (by rw [← hn]; rfl)

/-- The copy of a sprite gives the same unit as the sprite. -/
theorem Found.unitFor_eq (h : Found source state) {slot n : Nat}
    (hslot : source.shownSprites[slot]? = some n) :
    (source.unitFor board source.scanline fun byte => state.secondary.get (slot * 4 + byte)) =
      source.unitOf board n := by
  have hcopied := h.copied slot n hslot
  simp only [unitOf, unitFor, hcopied 0 (by decide), hcopied 1 (by decide),
    hcopied 2 (by decide), hcopied 3 (by decide)]

/-- Before anything is fetched no slot is asked for. -/
theorem Found.filled (h : Found source state) (board : Board) : Filled source board 0 state := by
  refine ⟨h, ?_, ?_, ?_⟩
  · exact fun hslots => absurd hslots (Nat.lt_irrefl 0)
  · exact fun hslots => absurd hslots (Nat.lt_irrefl 0)
  · exact fun _ _ hslot => absurd hslot (Nat.not_lt_zero _)

/-- Once the fetching has reached a slot, the units count the sprites of the next line. -/
theorem Filled.count_unitsFrom {slot : Fin 8} (h : Filled source board slot.val state) :
    (state.unitsFrom slot).count = source.shownSprites.length := by
  unfold unitsFrom
  split
  · exact h.picked
  · next hslot => exact h.count (Nat.pos_of_ne_zero hslot)

/-- A fetch fills the next slot. -/
theorem Filled.next {slot : Fin 8} (h : Filled source board slot.val state) :
    Filled source board (slot.val + 1) (state.fill source board source.scanline slot) := by
  have hcount := h.count_unitsFrom
  have hzero : (state.unitsFrom slot).zeroFirst = source.shownSprites.contains 0 := by
    unfold unitsFrom
    split
    · exact h.zero
    · next hslot => exact h.zeroFirst (Nat.pos_of_ne_zero hslot)
  have hunit (other : Fin 8) : (state.unitsFrom slot).unit other = state.units.unit other := by
    unfold unitsFrom
    split <;> rfl
  refine ⟨⟨h.picked, h.zero, h.copied⟩, fun _ => hcount, fun _ => hzero, ?_⟩
  intro other n hother hn
  change ((state.unitsFrom slot).fill slot _).unit other = _
  rw [SpriteUnits.unit_fill]
  split
  · next heq =>
    subst heq
    rw [fetched, hcount, if_pos (List.getElem?_eq_some_iff.mp hn).1]
    exact h.toFound.unitFor_eq hn
  · next hne =>
    have hbefore : other.val < slot.val := by
      have := Fin.val_ne_of_ne hne
      omega
    rw [hunit]
    exact h.filled other n hbefore hn

/-- Filled units show the whole line. -/
theorem Filled.shows (h : Filled source board 8 state) : Shows source board 0 state.units := by
  refine ⟨h.count (by decide), h.zeroFirst (by decide), fun slot n hn => ?_,
    fun slot n hn later => ?_⟩
  · rw [h.filled slot n slot.isLt hn]
    exact SpriteUnit.attributes_ofPattern _ _ _ _
  · rw [h.filled slot n slot.isLt hn, Nat.zero_add]

/-- A dot brings the units one column forward. -/
theorem Shows.shift {dots : Nat} (h : Shows source board dots units) :
    Shows source board (dots + 1) units.shift := by
  refine ⟨h.count, h.zeroFirst, fun slot n hn => ?_, fun slot n hn later => ?_⟩
  · rw [SpriteUnits.unit_shift, SpriteUnit.attributes_shift, h.attributes slot n hn]
  · rw [SpriteUnits.unit_shift, SpriteUnit.pixelAt_shift, h.entries slot n hn]
    congr 1
    omega

end Foreground

section Line

variable {start : Ppu} {board : Board}

/-- The fetches for the background leave the sprites alone. -/
theorem fetches_foreground (source : Ppu) (board : Board) (scanline dot : Nat)
    (state : Foreground) :
    (Schedule.fetches dot).foldl (Foreground.perform source board scanline dot) state = state := by
  unfold Schedule.fetches
  split <;> rfl

/-- At the last dot of the picture part the sprites of the next line are found. -/
theorem foreground_turn (hline : start.scanline < 240) (hdot : start.dot = 256)
    (hrendering : start.mask.rendering = true) (board : Board) :
    Foreground.Found start (start.after 1 board).foreground := by
  change Foreground.Found start (start.tick board).2.1.foreground
  rw [(follows_foreground start board).tick (.refl start) hrendering, dotWork, hdot,
    work_turn hline, List.foldl_append, List.foldl_append, fetches_foreground]
  exact Foreground.found_evaluate start board 256 _

/-- Every eighth dot after the picture part fetches a sprite, and the others do nothing. -/
theorem dotWork_sprites (hline : start.scanline < 240) {dot : Nat} (hfirst : 257 ≤ dot)
    (hlast : dot ≤ 320) (state : Foreground) :
    dotWork (Foreground.perform start board) start.scanline dot state =
      if (dot - 257) % 8 = 0 then
        state.fill start board start.scanline (SpriteUnits.slotOf ((dot - 257) / 8))
      else state := by
  rw [dotWork, work_sprites hline hfirst hlast, Schedule.lineEnd]
  by_cases hbegin : dot = 257
  · subst hbegin
    rfl
  · rw [if_neg hbegin]
    by_cases hslot : (dot - 257) % 8 = 0
    · rw [if_pos ⟨hfirst, hlast, hslot⟩, if_pos hslot]
      rfl
    · rw [if_neg fun h => hslot h.2.2, if_neg hslot]
      rfl

/-- The dots after the picture part of a line fill the slots, one in eight dots. -/
theorem foreground_filling (hline : start.scanline < 240) (hdot : start.dot = 256)
    (hrendering : start.mask.rendering = true) (board : Board) {dots : Nat} (hlast : dots ≤ 64) :
    Foreground.Filled start board ((dots + 7) / 8) (start.after (1 + dots) board).foreground := by
  have hdots := start.lineDots_bounds
  obtain ⟨hscanline, hposition, hlength⟩ :=
    after_within (by omega : start.dot + 1 < start.lineDots) board
  have hfound := foreground_turn hline hdot hrendering board
  have hsame := start.after_sameMemory 1 board
  rw [after_add]
  generalize start.after 1 board = turned at *
  have hfilled := (follows_foreground start board).after hsame hrendering
    (fun dot => Foreground.Filled start board ((dot - 257 + 7) / 8))
    (by omega : turned.dot + dots ≤ turned.lineDots)
    (by rw [hposition, hdot]; exact hfound.filled board)
    (fun dot state hfirst hlast h => by
      rw [hscanline, dotWork_sprites hline (by omega) (by omega)]
      split
      · next hslot =>
        have hval : (SpriteUnits.slotOf ((dot - 257) / 8)).val = (dot - 257 + 7) / 8 := by
          change (dot - 257) / 8 % 8 = _
          omega
        rw [← hval] at h
        have hnext := h.next
        rw [hval, (by omega : (dot - 257 + 7) / 8 + 1 = (dot + 1 - 257 + 7) / 8)] at hnext
        exact hnext
      · next hslot =>
        rw [(by omega : (dot + 1 - 257 + 7) / 8 = (dot - 257 + 7) / 8)]
        exact h)
  rw [(by omega : turned.dot + dots - 257 + 7 = dots + 7)] at hfilled
  exact hfilled

/-- At the first pixel of the next line the units show it. -/
theorem foreground_nextLine (hline : start.scanline ≤ 238) (hdot : start.dot = 256)
    (hrendering : start.mask.rendering = true) (board : Board) :
    (start.after 86 board).scanline = start.scanline + 1 ∧
      (start.after 86 board).dot = 1 ∧
      Foreground.Shows start board 0 (start.after 86 board).sprites := by
  have hdots : start.lineDots = 341 := by
    rw [lineDots, if_neg]
    exact fun hskips => absurd hskips.1 (by omega)
  obtain ⟨hscanline, hposition, hlength⟩ :=
    after_within (by omega : start.dot + 65 < start.lineDots) board
  have hfilled := foreground_filling (by omega) hdot hrendering board (Nat.le_refl 64)
  have hsame := start.after_sameMemory 65 board
  have hsplit : 86 = 65 + (start.lineDots - (start.dot + 65) + 1) := by omega
  rw [hsplit, after_add, ← hlength, ← hposition]
  generalize start.after 65 board = filled at *
  have hnext : nextLine filled.scanline = start.scanline + 1 := by
    rw [nextLine, hscanline, if_neg (by omega)]
  -- the rest of the line works on the background only
  have hrest (dot : Nat) (state : Foreground) (hrest : filled.dot ≤ dot) :
      dotWork (Foreground.perform start board) filled.scanline dot state = state := by
    rw [dotWork, hscanline]
    by_cases hprefetch : dot ≤ 336
    · rw [work_prefetch (.inl (by omega)) (by omega) hprefetch, List.foldl_cons]
      exact fetches_foreground start board _ dot state
    · rw [work_between (.inl (by omega)) (by omega)]
      rfl
  have hfirst (state : Foreground) :
      dotWork (Foreground.perform start board) (nextLine filled.scanline) 0 state = state := by
    rw [dotWork, work_between (.inl (by omega)) (.inl rfl)]
    rfl
  obtain ⟨hscanline', hposition', hforeground⟩ := (follows_foreground start board).nextLine hsame
    hrendering (by omega) hrest hfirst
  refine ⟨hscanline'.trans hnext, hposition', ?_⟩
  change Foreground.Shows start board 0 (Ppu.foreground _).units
  rw [hforeground]
  exact hfilled.shows

/-- At every dot of the next line the units show its sprites. -/
theorem foreground_shown (hline : start.scanline ≤ 238) (hdot : start.dot = 256)
    (hrendering : start.mask.rendering = true) (board : Board) {x : Nat} (hx : x < 256) :
    (start.after (85 + (x + 1)) board).scanline = start.scanline + 1 ∧
      (start.after (85 + (x + 1)) board).dot = x + 1 ∧
      Foreground.Shows start board x (start.after (85 + (x + 1)) board).sprites := by
  obtain ⟨hscanline, hposition, hshows⟩ := foreground_nextLine hline hdot hrendering board
  have hsame := start.after_sameMemory 86 board
  rw [(by omega : 85 + (x + 1) = 86 + x), after_add]
  generalize start.after 86 board = first at *
  have hinside : first.dot + x < first.lineDots := by
    have := first.lineDots_bounds
    omega
  obtain ⟨hscanline', hposition', -⟩ := after_within hinside board
  refine ⟨hscanline'.trans hscanline, by rw [hposition', hposition, Nat.add_comm], ?_⟩
  have hpicture := (follows_foreground start board).after hsame hrendering
    (fun dot state => Foreground.Shows start board (dot - 1) state.units)
    (Nat.le_of_lt hinside) (by rw [hposition]; exact hshows)
    (fun dot state hbegun hlast h => by
      have hshift := h.shift
      rw [(by omega : dot - 1 + 1 = dot + 1 - 1)] at hshift
      rw [dotWork, hscanline, work_picture (by omega) (by omega) (by omega), List.foldl_append,
        List.foldl_append, fetches_foreground]
      split
      · exact hshift
      · exact hshift)
  rw [hposition, Nat.add_sub_cancel_left] at hpicture
  exact hpicture

end Line

/-- The entry of sprite `n` in column `x` of the next line, looked up directly: 0 where the sprite
does not reach or is transparent. -/
def oamEntry (ppu : Ppu) (board : Board) (n x : Nat) : UInt8 :=
  let y := (ppu.oam.get (n * 4)).toNat
  let tile := (ppu.oam.get (n * 4 + 1)).toNat
  let attributes := ppu.oam.get (n * 4 + 2)
  let left := (ppu.oam.get (n * 4 + 3)).toNat
  let height := ppu.control.spriteHeight
  let row := if Byte.bit attributes 0x80 then height - 1 - (ppu.scanline - y) else ppu.scanline - y
  let place := if Byte.bit attributes 0x40 then x - left else 7 - (x - left)
  let line :=
    if height = 16 then tile % 2 * 0x1000 + (tile / 2 * 2 + row / 8) * 16 + row % 8
    else ppu.control.spriteTable + tile * 16 + row
  let bit (address : Nat) : Bool := (board.readPattern (UInt16.ofNat address)).toNat.testBit place
  if left ≤ x ∧ x - left < 8 then twoBits (bit (line + 8)) (bit line) else 0

/-- The pixel of the sprites in column `x` of the next line, looked up directly. -/
def oamPixel (ppu : Ppu) (board : Board) (x : Nat) : SpritePixel :=
  Sprite.winner ppu.shownSprites (fun n => ppu.oam.get (n * 4 + 2)) fun n => ppu.oamEntry board n x

/-- The row of a sprite that touches the next line is its distance from the top. -/
theorem row_of_touches {ppu : Ppu} {n : Nat} (attributes : UInt8)
    (h : Sprite.touches ppu.oam ppu.scanline ppu.control.spriteHeight n = true) :
    Sprite.row ppu.scanline ppu.control.spriteHeight (ppu.oam.get (n * 4)) attributes =
      if Byte.bit attributes 0x80 then
        ppu.control.spriteHeight - 1 - (ppu.scanline - (ppu.oam.get (n * 4)).toNat)
      else ppu.scanline - (ppu.oam.get (n * 4)).toNat := by
  obtain ⟨habove, hinside⟩ := of_decide_eq_true h
  have hheight : ppu.control.spriteHeight = 8 ∨ ppu.control.spriteHeight = 16 := by
    rw [Control.spriteHeight]
    split
    · exact .inr rfl
    · exact .inl rfl
  have hrow : (ppu.scanline + 0x100 - (ppu.oam.get (n * 4)).toNat) % ppu.control.spriteHeight =
      ppu.scanline - (ppu.oam.get (n * 4)).toNat := by
    rcases hheight with hheight | hheight
    · rw [hheight] at hinside ⊢
      omega
    · rw [hheight] at hinside ⊢
      omega
  rw [Sprite.row, hrow]

/-- The unit for a sprite that touches the next line shows its entries. -/
theorem unitOf_pixelAt {ppu : Ppu} {n : Nat} (board : Board) (x : Nat)
    (h : Sprite.touches ppu.oam ppu.scanline ppu.control.spriteHeight n = true) :
    (ppu.unitOf board n).pixelAt x = ppu.oamEntry board n x := by
  have hrow := row_of_touches (ppu.oam.get (n * 4 + 2)) h
  simp only [unitOf, unitFor, SpriteUnit.pixelAt_ofPattern, oamEntry, Sprite.patternAddress,
    Nat.add_zero, hrow]

/-- Units that show the sprites of the next line put out the pixel of object memory. -/
theorem Foreground.Shows.pixel {source : Ppu} {board : Board} {x : Nat} {units : SpriteUnits}
    (h : Foreground.Shows source board x units) : units.pixel = source.oamPixel board x := by
  refine SpriteUnits.pixel_eq_winner h.count (Sprite.length_candidates_le _ _ _) h.zeroFirst
    (Sprite.zero_mem_candidates_iff _ _ _).mp h.attributes fun slot n hn => ?_
  have htouches := Sprite.touches_of_mem_candidates (List.mem_of_getElem? hn)
  rw [SpriteUnit.pixel_eq, h.entries slot n hn, Nat.add_zero]
  exact unitOf_pixelAt board x htouches

/-- At every dot of a line of the picture the sprites are those of object memory, as it was at the
last dot of the picture part of the line before. -/
theorem spritePixel_after (ppu : Ppu) (board : Board) (hline : ppu.scanline ≤ 238)
    (hdot : ppu.dot = 256) (hrendering : ppu.mask.rendering = true) {x : Nat} (hx : x < 256) :
    let drawn := ppu.after (85 + (x + 1)) board
    drawn.scanline = ppu.scanline + 1 ∧ drawn.dot = x + 1 ∧
      drawn.spritePixel =
        if ppu.mask.showSprites = false ∨ (x < 8 ∧ ppu.mask.leftSprites = false) then {}
        else ppu.oamPixel board x := by
  intro drawn
  obtain ⟨hscanline, hposition, hshows⟩ := foreground_shown hline hdot hrendering board hx
  have hsame : SameMemory ppu drawn := ppu.after_sameMemory _ board
  refine ⟨hscanline, hposition, ?_⟩
  change drawn.dot = x + 1 at hposition
  have hleft : (drawn.dot ≤ 8) = (x < 8) := by
    rw [hposition]
    exact propext (by omega)
  rw [spritePixel, hsame.mask, hshows.pixel]
  simp only [hleft, Bool.or_eq_true, Bool.and_eq_true, decide_eq_true_eq, Bool.not_eq_true']

/-- Sprites of solid patterns at the left edge show their eight columns, the first one in front. -/
theorem spritePixel_after_solid :
    let ppu : Ppu := { scanline := 0, dot := 256, mask := { bits := 0x14 } }
    let board := Board.ofBytes .nrom #[] #[0xFF] .vertical
    (ppu.scanline ≤ 238 ∧ ppu.dot = 256 ∧ ppu.mask.rendering = true) ∧
      (ppu.after (85 + 8) board).spritePixel = { pixel := 3, inFront := true, zero := true } ∧
      (ppu.after (85 + 9) board).spritePixel = {} := by
  intro ppu board
  have hrendering : ppu.mask.rendering = true := by decide
  have hinside := spritePixel_after ppu board (by decide) rfl hrendering (by decide : 7 < 256)
  have houtside := spritePixel_after ppu board (by decide) rfl hrendering (by decide : 8 < 256)
  refine ⟨⟨by decide, rfl, hrendering⟩, hinside.2.2.trans ?_, houtside.2.2.trans ?_⟩
  all_goals
    have hbyte (address : Nat) : ppu.oam.get address = 0 := Memory.get_filled _ _
    have hpattern (address : UInt16) : board.readPattern address = 0xFF := by
      simp [board, Board.readPattern, Board.ofBytes, Chr.ofBytes, Chr.read, Nat.mod_one]
    rw [if_neg (by decide)]
    simp only [oamPixel, shownSprites, Sprite.candidates, oamEntry, hbyte, hpattern]
    decide

end Ppu

end Famicom
