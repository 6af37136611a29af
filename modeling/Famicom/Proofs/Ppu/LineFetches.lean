import Famicom.Proofs.Ppu.FramePath
import Famicom.Proofs.Ppu.PatternTraffic
import Famicom.Proofs.Safety.Picture
import Mathlib.Data.List.Basic

/-!
# The fetches of a line

A line of the picture, and the line before it, fetch the same number of patterns at the same dots
whatever they show: a tile in every eight dots of the picture part, a sprite for each of the eight
slots, and two tiles of the next line. A slot without a sprite fetches all the same. The rows are
looked up directly here, in the nametables and in object memory, and none of them reaches beyond its
pattern table.
-/

namespace Famicom.Ppu

open PictureAddress (tilesRight)

/-- What a dot of the cycle of a tile asks for, when the tile shows a line at `row`. -/
def tileAsks (row place : Nat) : List Access :=
  match place with
  | 5 => [.read (UInt16.ofNat row)]
  | 7 => [.read (UInt16.ofNat (row + 8))]
  | _ => []

/-- What a dot of a line asks for. There is a tile for every eight dots, and a slot for every eight
dots between the picture part and the tiles of the next line. -/
def lineAsks (tile slot : Nat → Nat) (dot : Nat) : List Access :=
  if 1 ≤ dot ∧ dot ≤ 256 ∨ 321 ≤ dot ∧ dot ≤ 336 then tileAsks (tile (dot / 8)) (dot % 8)
  else if 257 ≤ dot ∧ dot ≤ 320 ∧ (dot - 257) % 8 = 0 then readRow (slot ((dot - 257) / 8))
  else []

/-- The line that a picture address names in the pattern of the tile under it. -/
def tileRow (ppu : Ppu) (board : Board) (v : UInt16) : Nat :=
  FetchedTile.patternAddress ppu.control.backgroundTable (ppu.tileNumber board v)
    (PictureAddress.fineY v).toNat

/-- The line of a tile that is fetched in the `n`-th eight dots of a line: to the right of where the
line begins, or of where the fetching for the next line begins. -/
def lineTile (ppu : Ppu) (board : Board) (n : Nat) : Nat :=
  if n < 32 then ppu.tileRow board (tilesRight ppu.scroll.v n)
  else ppu.tileRow board (tilesRight (ppu.after 321 board).scroll.v (n - 40))

/-- The line of sprite `n` that shows on the next line: as far from the top of its pattern, or from
the bottom where the sprite stands upside down, as the line is from the sprite's row. -/
def spriteRow (ppu : Ppu) (n : Nat) : Nat :=
  let height := ppu.control.spriteHeight
  let distance := ppu.scanline - (ppu.oam.get (n * 4)).toNat
  let flipped := Byte.bit (ppu.oam.get (n * 4 + 2)) 0x80
  Sprite.patternAddress ppu.control (ppu.oam.get (n * 4 + 1))
    (if flipped then height - 1 - distance else distance)

/-- What a slot fetches when it is filled from a list of sprites: without one, the last tile. -/
def slotRow (ppu : Ppu) (sprites : List Nat) (slot : Nat) : Nat :=
  match sprites[slot]? with
  | some n => ppu.spriteRow n
  | none => ppu.control.spriteTable + 0xFF * 16

/-- What a slot fetches on a line: its sprite of the next line, but none before the picture. -/
def lineSlot (ppu : Ppu) (slot : Nat) : Nat :=
  ppu.slotRow (if ppu.scanline < 240 then ppu.shownSprites else []) slot

section Congruence

variable {left right : Ppu}

/-- The rows of tiles depend on memories and registers. -/
theorem tileRow_congr (h : SameMemory left right) (board : Board) (v : UInt16) :
    right.tileRow board v = left.tileRow board v := by
  simp only [tileRow, tileNumber, nametableByte, h.vram, h.control]

/-- The sprites of the next line depend on memories, registers and the line. -/
theorem shownSprites_congr (h : SameMemory left right) (hline : right.scanline = left.scanline) :
    right.shownSprites = left.shownSprites := by
  simp only [shownSprites, h.oam, h.control, hline]

/-- So do the rows that the slots fetch. -/
theorem slotRow_congr (h : SameMemory left right) (hline : right.scanline = left.scanline)
    (sprites : List Nat) (slot : Nat) : right.slotRow sprites slot = left.slotRow sprites slot := by
  simp only [slotRow, spriteRow, h.oam, h.control, hline]

end Congruence

section Dot

variable {ppu source : Ppu} {board : Board}

/-- Shifting and putting out a pixel do not change which row a tile shows. -/
theorem tileRowAddress_performAll {operations : List DotOperation}
    (h : operations ⊆ [.renderPixel, .shiftBackground, .shiftSprites]) :
    (performAll true operations ppu board).1.tileRowAddress = ppu.tileRowAddress := by
  refine performAll_keeps (·.tileRowAddress = ppu.tileRowAddress)
    (fun operation hmem _ other bus hkept => ?_) rfl board
  have hcases := h hmem
  simp only [List.mem_cons, List.not_mem_nil, or_false] at hcases
  rcases hcases with rfl | rfl | rfl
  · obtain ⟨drawing, hit, heq⟩ := other.renderPixel_eq
    change other.renderPixel.tileRowAddress = _
    rw [heq]
    exact hkept
  · exact hkept
  · exact hkept

/-- The fetches of a tile ask for the two bytes of its row. -/
theorem asksAll_fetches (ppu : Ppu) (board : Board) (dot : Nat) :
    asksAll true board (Schedule.fetches dot) ppu = tileAsks ppu.tileRowAddress (dot % 8) := by
  unfold Schedule.fetches
  split
  case h_6 hother =>
    unfold tileAsks
    split
    · contradiction
    · contradiction
    · rfl
  all_goals
    next h =>
      rw [h]
      rfl

/-- What is done around the fetches of a tile does not change what they ask for. -/
theorem asksAll_around {before behind : List DotOperation}
    (hbefore : before ⊆ [.renderPixel, .shiftBackground, .shiftSprites])
    (hbehind : behind ⊆ [.clearSecondaryOam, .incrementY, .evaluateSprites, .clearFlags])
    (dot : Nat) :
    asksAll true board (before ++ Schedule.fetches dot ++ behind) ppu =
      tileAsks ppu.tileRowAddress (dot % 8) := by
  have hquiet {operation : DotOperation}
      (hmem : operation ∈ before ∨ operation ∈ behind) (other : Ppu) :
      other.asks operation = [] := by
    have hcases := hmem.imp (hbefore ·) (hbehind ·)
    simp only [List.mem_cons, List.not_mem_nil, or_false] at hcases
    rcases hcases with (rfl | rfl | rfl) | (rfl | rfl | rfl | rfl) <;> rfl
  rw [asksAll_append, asksAll_append, asksAll_of_quiet fun operation h => hquiet (.inl h),
    asksAll_of_quiet fun operation h => hquiet (.inr h), asksAll_fetches,
    tileRowAddress_performAll hbefore, List.nil_append, List.append_nil]

/-- The dots that fetch tiles ask for the row of the tile fetched. -/
theorem asked_tile (hline : FetchesOn ppu.scanline) (hrendering : ppu.mask.rendering = true)
    (hdot : 1 ≤ ppu.dot ∧ ppu.dot ≤ 256 ∨ 321 ≤ ppu.dot ∧ ppu.dot ≤ 336) (board : Board) :
    ppu.asked board = tileAsks ppu.tileRowAddress (ppu.dot % 8) := by
  rw [asked, hrendering]
  rcases hdot with ⟨hfirst, hlast⟩ | ⟨hfirst, hlast⟩
  · rcases hline with hvisible | hprerender
    · by_cases hturn : ppu.dot = 256
      · rw [hturn, work_turn hvisible]
        exact asksAll_around (by simp) (by simp) 256
      · rw [work_picture hvisible hfirst (by omega)]
        refine asksAll_around (by simp) ?_ ppu.dot
        split <;> simp
    · rw [hprerender, work_prerender_picture hfirst hlast]
      refine asksAll_around (by simp) ?_ ppu.dot
      split
      · simp
      · split <;> simp
  · have hshift : asksAll true board ([.shiftBackground] ++ Schedule.fetches ppu.dot ++ []) ppu =
        tileAsks ppu.tileRowAddress (ppu.dot % 8) := asksAll_around (by simp) (by simp) ppu.dot
    rw [List.append_nil] at hshift
    rw [work_prefetch hline hfirst hlast]
    exact hshift

/-- The work at the end of a line asks for the row of a slot, one in eight dots. -/
theorem asksAll_lineEnd (hfirst : 257 ≤ ppu.dot) (hlast : ppu.dot ≤ 320) :
    asksAll true board (Schedule.lineEnd ppu.dot) ppu =
      if (ppu.dot - 257) % 8 = 0 then
        readRow (ppu.spriteRowAddress (SpriteUnits.slotOf ((ppu.dot - 257) / 8)))
      else [] := by
  rw [Schedule.lineEnd]
  by_cases hreturn : ppu.dot = 257
  · rw [if_pos hreturn, if_pos (by omega)]
    rfl
  · rw [if_neg hreturn]
    by_cases hslot : (ppu.dot - 257) % 8 = 0
    · rw [if_pos ⟨hfirst, hlast, hslot⟩, if_pos hslot]
      rfl
    · rw [if_neg fun h => hslot h.2.2, if_neg hslot]
      rfl

/-- The dots that fetch sprites ask for the rows of the slots. -/
theorem asked_slot (hline : FetchesOn ppu.scanline) (hrendering : ppu.mask.rendering = true)
    (hfirst : 257 ≤ ppu.dot) (hlast : ppu.dot ≤ 320) (board : Board) :
    ppu.asked board =
      if (ppu.dot - 257) % 8 = 0 then
        readRow (ppu.spriteRowAddress (SpriteUnits.slotOf ((ppu.dot - 257) / 8)))
      else [] := by
  rw [asked, hrendering]
  rcases hline with hvisible | hprerender
  · rw [work_sprites hvisible hfirst hlast]
    exact asksAll_lineEnd hfirst hlast
  · rw [hprerender, work_prerender_sprites hfirst hlast]
    split
    · -- the row of a slot does not depend on the picture address
      let returned : Ppu := { ppu with scroll := ppu.scroll.copyVertical }
      change asksAll true board (Schedule.lineEnd returned.dot) returned = _
      exact asksAll_lineEnd hfirst hlast
    · exact asksAll_lineEnd hfirst hlast

/-- Between two lines nothing is asked for. -/
theorem asked_between (hline : FetchesOn ppu.scanline) (hdot : ppu.dot = 0 ∨ 337 ≤ ppu.dot)
    (board : Board) : ppu.asked board = [] := by
  rw [asked, work_between hline hdot]
  rfl

end Dot

section Pipelines

variable {ppu source : Ppu} {board : Board}

/-- On the picture part of a line a dot shifts the background and fetches. -/
theorem dotWork_background {scanline dot : Nat} (hline : FetchesOn scanline) (hfirst : 1 ≤ dot)
    (hlast : dot ≤ 255) (pipeline : Background) :
    dotWork (fun _ _ => Background.perform source board) scanline dot pipeline =
      Background.dot source board dot pipeline := by
  rw [dotWork]
  rcases hline with hvisible | rfl
  · rw [work_picture hvisible hfirst hlast, List.foldl_append]
    split <;> rfl
  · rw [work_prerender_picture hfirst (by omega), List.foldl_append]
    split
    · rfl
    · rw [if_neg (by omega)]
      rfl

/-- Before a dot of the picture part, the tiles of the line are fetched up to the dot before. -/
theorem background_picture (hline : FetchesOn ppu.scanline) (hdot : ppu.dot = 0)
    (hrendering : ppu.mask.rendering = true) (board : Board) {dot : Nat} (hlast : dot ≤ 256) :
    Background.FetchedFor ppu board ppu.scroll.v (dot - 1) (ppu.after dot board).background := by
  have hdots := ppu.lineDots_bounds
  have hfetched := (follows_background ppu board).after (.refl ppu) hrendering
    (fun dot => Background.FetchedFor ppu board ppu.scroll.v (dot - 1))
    (by omega : ppu.dot + dot ≤ ppu.lineDots)
    (by rw [hdot]; exact Background.Fetched.start ppu board ppu.background)
    fun earlier pipeline hfirst hearlier h => by
      by_cases hbegin : earlier = 0
      · rw [dotWork, work_between hline (.inl hbegin), hbegin]
        rw [hbegin] at h
        exact h
      · rw [dotWork_background hline (by omega) (by omega),
          (by omega : earlier + 1 - 1 = earlier - 1 + 1)]
        exact h.next (by omega)
  rw [hdot, Nat.zero_add] at hfetched
  exact hfetched

/-- Once its number is fetched, a tile shows the row that the picture address names. -/
theorem tileRowAddress_of_fetchedFor {v : UInt16} {dots : Nat} (hsame : SameMemory source ppu)
    (h : Background.FetchedFor source board v dots ppu.background) (hcolumn : 1 ≤ dots % 8) :
    ppu.tileRowAddress = source.tileRow board (tilesRight v (dots / 8)) := by
  have htile : ppu.next.tile = source.tileNumber board (tilesRight v (dots / 8)) := h.tile hcolumn
  have hv : ppu.scroll.v = tilesRight v (dots / 8) := h.v_eq
  rw [tileRowAddress, tileRow, htile, Scroll.fineY, hv, hsame.control]

/-- Once the fetching has reached a slot, the slot fetches the row of its sprite. -/
theorem spriteRowAddress_of_filled {slot : Fin 8} (hsame : SameMemory source ppu)
    (hscanline : ppu.scanline = source.scanline)
    (h : Foreground.Filled source board slot.val ppu.foreground) :
    ppu.spriteRowAddress slot = source.slotRow source.shownSprites slot.val := by
  have hcount : (ppu.spritesFrom slot).count = source.shownSprites.length := h.count_unitsFrom
  rw [spriteRowAddress, slotRow, hcount, hsame.control, hscanline]
  by_cases hslot : slot.val < source.shownSprites.length
  · have hn := List.getElem?_eq_getElem hslot
    generalize source.shownSprites[slot.val] = n at hn
    have hcopied := h.copied slot.val n hn
    have hy : ppu.secondaryOam.get (slot.val * 4) = source.oam.get (n * 4) := hcopied 0 (by decide)
    have htile : ppu.secondaryOam.get (slot.val * 4 + 1) = source.oam.get (n * 4 + 1) :=
      hcopied 1 (by decide)
    have hattributes : ppu.secondaryOam.get (slot.val * 4 + 2) = source.oam.get (n * 4 + 2) :=
      hcopied 2 (by decide)
    have htouches := Sprite.touches_of_mem_candidates (List.mem_of_getElem? hn)
    rw [if_pos hslot, hn, hy, htile, hattributes]
    dsimp only
    rw [row_of_touches _ htouches]
    rfl
  · rw [if_neg hslot, List.getElem?_eq_none (Nat.le_of_not_lt hslot)]

/-- A slot that is not in use fetches the last tile. -/
theorem spriteRowAddress_of_unused {slot : Fin 8} (h : (ppu.spritesFrom slot).count = 0) :
    ppu.spriteRowAddress slot = ppu.control.spriteTable + 0xFF * 16 := by
  rw [spriteRowAddress, h, if_neg (Nat.not_lt_zero _)]

end Pipelines

section Line

variable {ppu : Ppu}

/-- On the picture part of a line the tiles from its beginning on are fetched, and before the next
line the first two of that. -/
theorem tileRowAddress_after (hline : FetchesOn ppu.scanline) (hdot : ppu.dot = 0)
    (hrendering : ppu.mask.rendering = true) (board : Board) {dot : Nat}
    (hfetches : 1 ≤ dot ∧ dot ≤ 256 ∨ 321 ≤ dot ∧ dot ≤ 336)
    (hplace : dot % 8 = 5 ∨ dot % 8 = 7) :
    (ppu.after dot board).tileRowAddress = ppu.lineTile board (dot / 8) := by
  have hdots := ppu.lineDots_bounds
  rcases hfetches with ⟨hfirst, hlast⟩ | ⟨hfirst, hlast⟩
  · have hfetched := background_picture hline hdot hrendering board hlast
    rw [tileRowAddress_of_fetchedFor (ppu.after_sameMemory dot board) hfetched (by omega), lineTile,
      if_pos (by omega), (by omega : (dot - 1) / 8 = dot / 8)]
  · obtain ⟨hscanline, hposition, -⟩ :=
      after_within (by omega : ppu.dot + 321 < ppu.lineDots) board
    have hsame := ppu.after_sameMemory 321 board
    rw [lineTile, if_neg (by omega), (by omega : dot = 321 + (dot - 321)), after_add]
    generalize ppu.after 321 board = ahead at *
    have hfetched := background_prefetch (by rw [hscanline]; exact hline) (by omega)
      (by rw [hsame.mask]; exact hrendering) board (by omega : dot - 321 ≤ 16)
    rw [tileRowAddress_of_fetchedFor (ahead.after_sameMemory _ board) hfetched (by omega),
      tileRow_congr hsame, (by omega : (321 + (dot - 321)) / 8 - 40 = (dot - 321) / 8)]

/-- After the picture part of a line the slots fetch the sprites of the next line. -/
theorem spriteRowAddress_after (hline : FetchesOn ppu.scanline) (hdot : ppu.dot = 0)
    (hrendering : ppu.mask.rendering = true) (board : Board) {slot : Nat} (hslot : slot < 8) :
    (ppu.after (257 + 8 * slot) board).spriteRowAddress (SpriteUnits.slotOf slot) =
      ppu.lineSlot slot := by
  have hdots := ppu.lineDots_bounds
  have hval : (SpriteUnits.slotOf slot).val = slot := Nat.mod_eq_of_lt hslot
  rw [lineSlot]
  by_cases hvisible : ppu.scanline < 240
  · obtain ⟨hscanline, hposition, -⟩ :=
      after_within (by omega : ppu.dot + 256 < ppu.lineDots) board
    have hsame := ppu.after_sameMemory 256 board
    rw [if_pos hvisible, ← shownSprites_congr hsame hscanline, ← slotRow_congr hsame hscanline,
      (by omega : 257 + 8 * slot = 256 + (1 + 8 * slot)), after_add]
    generalize ppu.after 256 board = turn at *
    have hlength := turn.lineDots_bounds
    obtain ⟨hscanline', -, -⟩ :=
      after_within (by omega : turn.dot + (1 + 8 * slot) < turn.lineDots) board
    have hfilled := foreground_filling (by omega : turn.scanline < 240) (by omega)
      (by rw [hsame.mask]; exact hrendering) board (by omega : 8 * slot ≤ 64)
    rw [(by omega : (8 * slot + 7) / 8 = (SpriteUnits.slotOf slot).val)] at hfilled
    rw [spriteRowAddress_of_filled (turn.after_sameMemory _ board) hscanline' hfilled, hval]
  · have hprerender : ppu.scanline = 261 := hline.resolve_left hvisible
    obtain ⟨hpicked, hempty⟩ := prerender_noSprites hprerender (by omega) hrendering board
      (by omega : ppu.dot + (257 + 8 * slot) ≤ ppu.lineDots)
    have hsame := ppu.after_sameMemory (257 + 8 * slot) board
    rw [if_neg hvisible]
    generalize ppu.after (257 + 8 * slot) board = now at *
    have hunused : (now.spritesFrom (SpriteUnits.slotOf slot)).count = 0 := by
      rw [spritesFrom, hval]
      split
      · exact hpicked (by omega)
      · exact (hempty (by omega)).count
    rw [spriteRowAddress_of_unused hunused, hsame.control]
    rfl

/-- Each dot of a line asks for its part of the line. -/
theorem asked_after (hline : FetchesOn ppu.scanline) (hdot : ppu.dot = 0)
    (hrendering : ppu.mask.rendering = true) (board : Board) {dot : Nat}
    (hlast : dot < ppu.lineDots) :
    (ppu.after dot board).asked board = lineAsks (ppu.lineTile board) ppu.lineSlot dot := by
  obtain ⟨hscanline, hposition, -⟩ := after_within (by omega : ppu.dot + dot < ppu.lineDots) board
  rw [hdot, Nat.zero_add] at hposition
  have hline' : FetchesOn (ppu.after dot board).scanline := by rw [hscanline]; exact hline
  have hrendering' : (ppu.after dot board).mask.rendering = true := by
    rw [(ppu.after_sameMemory dot board).mask]
    exact hrendering
  by_cases htile : 1 ≤ dot ∧ dot ≤ 256 ∨ 321 ≤ dot ∧ dot ≤ 336
  · rw [lineAsks, if_pos htile, asked_tile hline' hrendering' (by rw [hposition]; exact htile),
      hposition]
    by_cases hplace : dot % 8 = 5 ∨ dot % 8 = 7
    · rw [tileRowAddress_after hline hdot hrendering board htile hplace]
    · unfold tileAsks
      split
      · omega
      · omega
      · rfl
  · rw [lineAsks, if_neg htile]
    by_cases hsprites : 257 ≤ dot ∧ dot ≤ 320
    · rw [asked_slot hline' hrendering' (by omega) (by omega), hposition]
      by_cases hslot : (dot - 257) % 8 = 0
      · have hrow := spriteRowAddress_after hline hdot hrendering board
          (by omega : (dot - 257) / 8 < 8)
        rw [(by omega : 257 + 8 * ((dot - 257) / 8) = dot)] at hrow
        rw [if_pos hslot, if_pos ⟨hsprites.1, hsprites.2, hslot⟩, hrow]
      · rw [if_neg hslot, if_neg fun h => hslot h.2.2]
    · rw [asked_between hline' (by omega), if_neg fun h => hsprites ⟨h.1, h.2.1⟩]

end Line

section WholeLine

variable {tile slot : Nat → Nat}

/-- Dots taken eight at a time. -/
theorem flatMap_octets {asks octet : Nat → List Access} {first : Nat} (octets : Nat)
    (h : ∀ n < octets, (List.range' (first + 8 * n) 8).flatMap asks = octet n) :
    (List.range' first (8 * octets)).flatMap asks = (List.range octets).flatMap octet := by
  induction octets with
  | zero => rfl
  | succ octets ih =>
    rw [Nat.mul_succ, ← List.range'_append_1, List.flatMap_append,
      ih fun n hn => h n (Nat.lt_succ_of_lt hn), h octets (Nat.lt_succ_self octets),
      List.range_succ, List.flatMap_append, List.flatMap_singleton]

/-- Eight dots that fetch a tile ask for its row. -/
theorem flatMap_lineAsks_tile {n : Nat} (h : n < 32 ∨ n = 40 ∨ n = 41) :
    (List.range' (1 + 8 * n) 8).flatMap (lineAsks tile slot) = readRow (tile n) := by
  have hdot : ∀ place ∈ List.range 8, lineAsks tile slot (1 + 8 * n + place) =
      if place < 7 then tileAsks (tile n) (place + 1) else [] := by
    intro place hplace
    have hlast := List.mem_range.mp hplace
    rw [lineAsks, if_pos (by omega)]
    split
    · rw [(by omega : (1 + 8 * n + place) / 8 = n),
        (by omega : (1 + 8 * n + place) % 8 = place + 1)]
    · rw [(by omega : (1 + 8 * n + place) % 8 = 0)]
      rfl
  rw [List.range'_eq_map_range, List.flatMap_map, List.flatMap_congr hdot]
  rfl

/-- Eight dots that fetch a sprite ask for its row. -/
theorem flatMap_lineAsks_slot {n : Nat} (h : n < 8) :
    (List.range' (257 + 8 * n) 8).flatMap (lineAsks tile slot) = readRow (slot n) := by
  have hdot : ∀ place ∈ List.range 8, lineAsks tile slot (257 + 8 * n + place) =
      if place = 0 then readRow (slot n) else [] := by
    intro place hplace
    have hlast := List.mem_range.mp hplace
    rw [lineAsks, if_neg (by omega)]
    split
    · rw [if_pos (by omega), (by omega : (257 + 8 * n + place - 257) / 8 = n)]
    · rw [if_neg (by omega)]
  rw [List.range'_eq_map_range, List.flatMap_map, List.flatMap_congr hdot]
  rfl

/-- The rows that a line fetches, in order. -/
def lineRows (tile slot : Nat → Nat) : List Nat :=
  (List.range 32).map tile ++ (List.range 8).map slot ++ [tile 40, tile 41]

/-- The dots of a line together ask for the rows of the line. -/
theorem flatMap_lineAsks {dots : Nat} (h : 337 ≤ dots) :
    (List.range dots).flatMap (lineAsks tile slot) = (lineRows tile slot).flatMap readRow := by
  have hpicture : (List.range' 1 256).flatMap (lineAsks tile slot) =
      (List.range 32).flatMap fun n => readRow (tile n) :=
    flatMap_octets 32 fun n hn => flatMap_lineAsks_tile (.inl hn)
  have hsprites : (List.range' 257 64).flatMap (lineAsks tile slot) =
      (List.range 8).flatMap fun n => readRow (slot n) :=
    flatMap_octets 8 fun n hn => flatMap_lineAsks_slot hn
  have hahead : (List.range' 321 16).flatMap (lineAsks tile slot) =
      (List.range 2).flatMap fun n => readRow (tile (40 + n)) :=
    flatMap_octets 2 fun n hn => by
      rw [(by omega : 321 + 8 * n = 1 + 8 * (40 + n))]
      exact flatMap_lineAsks_tile (by omega)
  have hrest : (List.range' 337 (dots - 337)).flatMap (lineAsks tile slot) = [] := by
    refine List.flatMap_eq_nil_iff.mpr fun dot hdot => ?_
    have hfirst := (List.mem_range'_1.mp hdot).1
    rw [lineAsks, if_neg (by omega), if_neg (by omega)]
  have hsplit : List.range dots = List.range' 0 1 ++ List.range' 1 256 ++ List.range' 257 64 ++
      List.range' 321 16 ++ List.range' 337 (dots - 337) := by
    rw [List.range'_append_1, List.range'_append_1, List.range'_append_1, List.range'_append_1,
      List.range_eq_range', (by omega : 1 + 256 + 64 + 16 + (dots - 337) = dots)]
  rw [hsplit, List.flatMap_append, List.flatMap_append, List.flatMap_append, List.flatMap_append,
    hpicture, hsprites, hahead, hrest, lineRows, List.flatMap_append, List.flatMap_append,
    List.flatMap_map, List.flatMap_map, List.append_nil]
  rfl

/-- Two reads for each of the 42 rows. -/
theorem length_lineRows (tile slot : Nat → Nat) :
    ((lineRows tile slot).flatMap readRow).length = 84 := by
  simp [lineRows, readRow, Function.comp_def]

end WholeLine

section Rows

/-- A row lies in a pattern table with both its bytes: among the sixteen bytes of a tile the low
ones come first. -/
structure RowIn (table row : Nat) : Prop where
  table_le : table ≤ row
  high_lt : row + 8 < table + 0x1000
  low : row % 16 < 8

/-- The pattern table of a sprite: tall sprites choose it themselves. -/
def spriteTableOf (control : Control) (tile : UInt8) : Nat :=
  if control.spriteHeight = 16 then tile.toNat % 2 * 0x1000 else control.spriteTable

/-- The eight rows of a tile lie in its table, if that begins with a whole tile. -/
theorem rowIn_tile {table row : Nat} (htable : table % 16 = 0) (tile : UInt8) (hrow : row < 8) :
    RowIn table (FetchedTile.patternAddress table tile row) := by
  have htile := tile.toNat_lt
  rw [FetchedTile.patternAddress]
  constructor <;> omega

theorem backgroundTable_mod (control : Control) : control.backgroundTable % 16 = 0 := by
  rw [Control.backgroundTable]
  split <;> rfl

theorem spriteTable_mod (control : Control) : control.spriteTable % 16 = 0 := by
  rw [Control.spriteTable]
  split <;> rfl

/-- The rows of tiles lie in the pattern table of the background. -/
theorem rowIn_tileRow (ppu : Ppu) (board : Board) (v : UInt16) :
    RowIn ppu.control.backgroundTable (ppu.tileRow board v) := by
  have hrow : (PictureAddress.fineY v).toNat < 8 := by
    rw [PictureAddress.fineY, UInt16.toNat_mod]
    exact Nat.mod_lt _ (by decide)
  exact rowIn_tile (backgroundTable_mod _) _ hrow

/-- The rows of a sprite lie in its pattern table. -/
theorem rowIn_patternAddress (control : Control) (tile : UInt8) {row : Nat}
    (hrow : row < control.spriteHeight) :
    RowIn (spriteTableOf control tile) (Sprite.patternAddress control tile row) := by
  rw [spriteTableOf, Sprite.patternAddress]
  split
  · have htile := tile.toNat_lt
    constructor <;> omega
  · next hsmall =>
    rw [Control.spriteHeight_of_small hsmall] at hrow
    exact rowIn_tile (spriteTable_mod control) tile hrow

/-- The rows of the sprites that the next line shows lie in their pattern tables. -/
theorem rowIn_spriteRow {ppu : Ppu} {n : Nat} (h : n ∈ ppu.shownSprites) :
    RowIn (spriteTableOf ppu.control (ppu.oam.get (n * 4 + 1))) (ppu.spriteRow n) := by
  obtain ⟨-, hinside⟩ := of_decide_eq_true (Sprite.touches_of_mem_candidates h)
  refine rowIn_patternAddress ppu.control _ ?_
  split <;> omega

/-- Whatever a slot fetches lies in one of the two pattern tables. -/
theorem rowIn_lineSlot (ppu : Ppu) (slot : Nat) :
    ∃ table ≤ 0x1000, RowIn table (ppu.lineSlot slot) := by
  rw [lineSlot, slotRow]
  split
  · next n hn =>
    have hmem := List.mem_of_getElem? hn
    split at hmem
    · refine ⟨_, ?_, rowIn_spriteRow hmem⟩
      have htable := ppu.control.spriteTable_le
      rw [spriteTableOf]
      split <;> omega
    · exact absurd hmem List.not_mem_nil
  · exact ⟨_, ppu.control.spriteTable_le, rowIn_tile (spriteTable_mod _) 0xFF (by decide : 0 < 8)⟩

/-- Both bytes of a row in one of the two tables are read from the patterns. -/
theorem RowIn.reads {table row : Nat} (h : RowIn table row) (htable : table ≤ 0x1000)
    {access : Access} (hmem : access ∈ readRow row) :
    ∃ address : UInt16, access = .read address ∧ address.toNat < 0x2000 := by
  obtain ⟨-, hhigh, -⟩ := h
  have hinside {address : Nat} (h : address < 0x2000) : (UInt16.ofNat address).toNat < 0x2000 := by
    rw [UInt16.toNat_ofNat', Nat.mod_eq_of_lt (by omega)]
    exact h
  rcases List.mem_cons.mp hmem with rfl | hmem
  · exact ⟨_, rfl, hinside (by omega)⟩
  · rw [List.mem_singleton.mp hmem]
    exact ⟨_, rfl, hinside (by omega)⟩

end Rows

/-- Below the picture nothing is fetched. -/
theorem asked_of_idle {ppu : Ppu} (hfirst : 240 ≤ ppu.scanline) (hlast : ppu.scanline ≤ 260)
    (board : Board) : ppu.asked board = [] := by
  have hwork : Schedule.work ppu.scanline ppu.dot ⊆ [.setVblank] := by
    rw [Schedule.work, Schedule.Line.ofScanline, if_neg (by omega)]
    split
    · rw [Schedule.operations]
      split <;> simp
    · rw [if_neg (by rw [Schedule.prerenderScanline]; omega), Schedule.operations]
      simp
  refine asksAll_of_quiet fun operation hmem other => ?_
  rw [List.mem_singleton.mp (hwork hmem)]
  rfl

/-- **The fetches of a line.** A line of the picture or the line before it, begun with a visible
layer, reads 84 bytes of patterns and writes none: the low and the high byte of 42 rows, at dots
that are the same for every line. 34 of the rows belong to tiles, those under the picture address
and two of the next line, and lie in the pattern table of the background; 8 belong to the slots,
which fetch the rows of their sprites, or the last tile where there is none. Low bytes stand in the
first half of a tile, and no row reaches beyond its table. While both layers are hidden, and on the
lines below the picture, nothing is read or written. -/
theorem line_fetches (ppu : Ppu) (board : Board) :
    let tile := ppu.lineTile board
    let slot := ppu.lineSlot
    let traffic := ppu.patternTraffic board ppu.lineDots
    (FetchesOn ppu.scanline → ppu.dot = 0 → ppu.mask.rendering = true →
        traffic = (lineRows tile slot).flatMap readRow ∧ traffic.length = 84 ∧
        (∀ access ∈ traffic, ∃ address : UInt16, access = .read address ∧
          address.toNat < 0x2000) ∧
        ∀ dot < ppu.lineDots,
          (ppu.after dot board).patternTraffic board 1 = lineAsks tile slot dot) ∧
      (∀ n, RowIn ppu.control.backgroundTable (tile n)) ∧
      (∀ n ∈ ppu.shownSprites,
        RowIn (spriteTableOf ppu.control (ppu.oam.get (n * 4 + 1))) (ppu.spriteRow n)) ∧
      (∀ n, slot n % 16 < 8 ∧ slot n + 8 < 0x2000) ∧
      (ppu.mask.rendering = false → ∀ dots, ppu.patternTraffic board dots = []) ∧
      (240 ≤ ppu.scanline → ppu.scanline ≤ 260 → ∀ dots, ppu.dot + dots ≤ 341 →
        ppu.patternTraffic board dots = []) := by
  intro tile slot traffic
  have htile (n : Nat) : RowIn ppu.control.backgroundTable (tile n) := by
    change RowIn _ (ppu.lineTile board n)
    rw [lineTile]
    split <;> exact rowIn_tileRow _ _ _
  have hslot (n : Nat) : ∃ table ≤ 0x1000, RowIn table (slot n) := rowIn_lineSlot ppu n
  refine ⟨fun hline hdot hrendering => ?_, htile, fun n => rowIn_spriteRow, fun n => ?_,
    patternTraffic_of_hidden, fun hfirst hlast dots hdots => ?_⟩
  · have hlength := ppu.lineDots_bounds
    have htraffic : traffic = (lineRows tile slot).flatMap readRow := by
      rw [← flatMap_lineAsks (by omega : 337 ≤ ppu.lineDots)]
      change ppu.patternTraffic board ppu.lineDots = _
      rw [patternTraffic_eq]
      refine List.flatMap_congr fun dot hdots => ?_
      exact asked_after hline hdot hrendering board (List.mem_range.mp hdots)
    refine ⟨htraffic, ?_, fun access hmem => ?_, fun dot hlast => ?_⟩
    · rw [htraffic, length_lineRows]
    · rw [htraffic] at hmem
      obtain ⟨row, hrow, hread⟩ := List.mem_flatMap.mp hmem
      have hin : ∃ table ≤ 0x1000, RowIn table row := by
        have htiles (n : Nat) : ∃ table ≤ 0x1000, RowIn table (tile n) :=
          ⟨_, ppu.control.backgroundTable_le, htile n⟩
        simp only [lineRows, List.mem_append, List.mem_map, List.mem_cons, List.not_mem_nil,
          or_false] at hrow
        rcases hrow with (⟨n, -, rfl⟩ | ⟨n, -, rfl⟩) | rfl | rfl
        · exact htiles n
        · exact hslot n
        · exact htiles 40
        · exact htiles 41
      obtain ⟨table, htable, hin⟩ := hin
      exact hin.reads htable hread
    · rw [patternTraffic_one]
      exact asked_after hline hdot hrendering board hlast
  · obtain ⟨table, htable, hin⟩ := hslot n
    have hhigh := hin.high_lt
    exact ⟨hin.low, by omega⟩
  · rw [patternTraffic_eq]
    refine List.flatMap_eq_nil_iff.mpr fun dot hmem => ?_
    have hdot := List.mem_range.mp hmem
    have hlength : ppu.lineDots = 341 := lineDots_of_ne (by omega)
    obtain ⟨hscanline, -, -⟩ := after_within (by omega : ppu.dot + dot < ppu.lineDots) board
    exact asked_of_idle (by omega) (by omega) board

/-- A line with tall sprites in all slots: the sprites stand six lines above the next one, and the
background uses the second pattern table. -/
theorem line_fetches_of_tall :
    let ppu : Ppu := { scanline := 5, mask := { bits := 0x18 }, control := { bits := 0x30 } }
    let board := Board.ofBytes .nrom #[] #[] .vertical
    (FetchesOn ppu.scanline ∧ ppu.dot = 0 ∧ ppu.mask.rendering = true) ∧
      (ppu.patternTraffic board 341).length = 84 ∧
      (ppu.after 13 board).patternTraffic board 1 =
        [.read (UInt16.ofNat (ppu.lineTile board 1))] ∧
      0x1000 ≤ ppu.lineTile board 1 ∧
      (ppu.after 313 board).patternTraffic board 1 = [.read 0x0005, .read 0x000D] := by
  intro ppu board
  have hline : FetchesOn ppu.scanline := .inl (by decide)
  have hrendering : ppu.mask.rendering = true := by decide
  obtain ⟨hline', htiles, -⟩ := line_fetches ppu board
  obtain ⟨-, hlength, -, hdots⟩ := hline' hline rfl hrendering
  have hall : ppu.lineDots = 341 := by decide
  have hslot : ppu.lineSlot 7 = 5 := by decide +kernel
  have htable : ppu.control.backgroundTable = 0x1000 := by decide
  have htile : RowIn 0x1000 (ppu.lineTile board 1) := htable ▸ htiles 1
  rw [hall] at hlength hdots
  refine ⟨⟨hline, rfl, hrendering⟩, hlength, hdots 13 (by decide), htile.table_le, ?_⟩
  rw [hdots 313 (by decide)]
  change readRow (ppu.lineSlot 7) = _
  rw [hslot]
  rfl

end Famicom.Ppu
