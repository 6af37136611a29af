import Famicom.Proofs.Ppu.Lines
import Famicom.Proofs.Ppu.PictureAddress
import Famicom.Proofs.Ppu.PixelStream

/-!
# The background of a line

Two tiles are fetched at the end of a line, and one more every eight dots of the next line, so
the shift registers always hold the pixels that come next. Followed dot by dot, they put out the
tiles of the nametables in order, from the picture address at which the fetching began and from
the column that fine scrolling names.
-/

namespace Famicom

namespace Ppu

open PictureAddress (tilesRight)

/-- Number of the tile under a picture address. -/
def tileNumber (ppu : Ppu) (board : Board) (v : UInt16) : UInt8 :=
  ppu.nametableByte board.wiring ({ v } : Scroll).tileAddress

/-- Palette of the tile under a picture address. -/
def tilePalette (ppu : Ppu) (board : Board) (v : UInt16) : UInt8 :=
  FetchedTile.paletteOf (ppu.nametableByte board.wiring ({ v } : Scroll).attributeAddress)
    (PictureAddress.coarseX v) (PictureAddress.coarseY v)

/-- One of the two pattern bytes of a tile, in the line that a picture address names. -/
def tilePlane (ppu : Ppu) (board : Board) (tile : UInt8) (v : UInt16) (plane : Nat) : UInt8 :=
  board.readPattern (UInt16.ofNat (FetchedTile.patternAddress ppu.control.backgroundTable tile
    (PictureAddress.fineY v).toNat + plane))

/-- The tile under a picture address. -/
def tileUnder (ppu : Ppu) (board : Board) (v : UInt16) : FetchedTile :=
  { tile := ppu.tileNumber board v
    palette := ppu.tilePalette board v
    low := ppu.tilePlane board (ppu.tileNumber board v) v 0
    high := ppu.tilePlane board (ppu.tileNumber board v) v 8 }

/-- The pixel a number of columns to the right of the left edge of the tile under `v`. -/
def pixelRight (ppu : Ppu) (board : Board) (v : UInt16) (columns : Nat) : LayerPixel :=
  (ppu.tileUnder board (tilesRight v (columns / 8))).pixelAt (columns % 8)

/-- The part of the unit that draws the background. -/
structure Background where
  next : FetchedTile
  shifter : PixelShifter
  v : UInt16

/-- The background pipeline of a unit. -/
def background (ppu : Ppu) : Background :=
  { next := ppu.next, shifter := ppu.shifter, v := ppu.scroll.v }

namespace Background

/-- What a part of the work of a dot does to the pipeline of a unit with the memories of
`source`. -/
def perform (source : Ppu) (board : Board) (pipeline : Background) :
    DotOperation → Background
  | .shiftBackground => { pipeline with shifter := pipeline.shifter.shift }
  | .fetchNametable =>
    { pipeline with next := { pipeline.next with tile := source.tileNumber board pipeline.v } }
  | .fetchAttribute =>
    { pipeline with
      next := { pipeline.next with palette := source.tilePalette board pipeline.v } }
  | .fetchPatternLow =>
    { pipeline with
      next := { pipeline.next with
        low := source.tilePlane board pipeline.next.tile pipeline.v 0 } }
  | .fetchPatternHigh =>
    { pipeline with
      next := { pipeline.next with
        high := source.tilePlane board pipeline.next.tile pipeline.v 8 } }
  | .loadBackground => { pipeline with shifter := pipeline.shifter.load pipeline.next }
  | .incrementX => { pipeline with v := PictureAddress.incrementX pipeline.v }
  | .incrementY => { pipeline with v := PictureAddress.incrementY pipeline.v }
  | .copyHorizontal =>
    { pipeline with v := PictureAddress.copyHorizontal pipeline.v source.scroll.t }
  | .copyVertical =>
    { pipeline with v := PictureAddress.copyVertical pipeline.v source.scroll.t }
  | _ => pipeline

end Background

/-- Each part of the work of a dot does to the pipeline what it does there. -/
theorem perform_background {source ppu : Ppu} (h : SameMemory source ppu)
    (operation : DotOperation) (board : Board) :
    (ppu.perform operation board).1.background =
      Background.perform source board ppu.background operation := by
  cases operation with
  | renderPixel =>
    obtain ⟨drawing, hit, heq⟩ := ppu.renderPixel_eq
    change ppu.renderPixel.background = _
    rw [heq]
    rfl
  | fetchNametable | fetchAttribute =>
    simp only [perform, Background.perform, background, fetchNametable, fetchAttribute,
      tileNumber, tilePalette, nametableByte, h.vram]
    rfl
  | fetchPatternLow | fetchPatternHigh =>
    simp only [perform, Background.perform, background, fetchPatternLow, fetchPatternHigh,
      tileRowAddress, tilePlane, h.control]
    rfl
  | copyHorizontal | copyVertical =>
    simp only [perform, Background.perform, background, Scroll.copyHorizontal,
      Scroll.copyVertical, h.t]
  | _ => rfl

namespace Background

variable {source : Ppu} {board : Board} {v : UInt16} {tiles column : Nat} {pipeline : Background}

/-- The pipeline once it has fetched and loaded a number of tiles from `v` on, and worked through
`column` dots of the next one. -/
structure Fetched (source : Ppu) (board : Board) (v : UInt16) (tiles column : Nat)
    (pipeline : Background) : Prop where
  v_eq : pipeline.v = tilesRight v tiles
  tile : 1 ≤ column → pipeline.next.tile = (source.tileUnder board (tilesRight v tiles)).tile
  palette : 3 ≤ column →
    pipeline.next.palette = (source.tileUnder board (tilesRight v tiles)).palette
  low : 5 ≤ column → pipeline.next.low = (source.tileUnder board (tilesRight v tiles)).low
  high : 7 ≤ column → pipeline.next.high = (source.tileUnder board (tilesRight v tiles)).high
  -- what has moved in since the last tile was loaded is replaced by the next one
  shown : ∀ place, place + column < 16 → 16 ≤ 8 * tiles + column + place →
    pipeline.shifter.pixelAt place =
      source.pixelRight board v (8 * tiles + column + place - 16)

/-- Before the first dot nothing is asked of the pipeline but its address. -/
theorem Fetched.start (source : Ppu) (board : Board) (pipeline : Background) :
    Fetched source board pipeline.v 0 0 pipeline := by
  refine ⟨rfl, ?_, ?_, ?_, ?_, ?_⟩
  all_goals omega

/-- Shifting keeps the pixels shown. -/
theorem Fetched.shown_shift (h : Fetched source board v tiles column pipeline) {place : Nat}
    (hplace : place + (column + 1) < 16) (hfirst : 16 ≤ 8 * tiles + (column + 1) + place) :
    pipeline.shifter.shift.pixelAt place =
      source.pixelRight board v (8 * tiles + (column + 1) + place - 16) := by
  rw [PixelShifter.pixelAt_shift _ (by omega), h.shown (place + 1) (by omega) (by omega)]
  congr 1
  omega

/-- The work of a dot on the pipeline: it shifts, and then fetches. -/
def dot (source : Ppu) (board : Board) (dot : Nat) (pipeline : Background) : Background :=
  (Schedule.fetches dot).foldl (perform source board)
    { pipeline with shifter := pipeline.shifter.shift }

/-- The work of a dot depends on its place in the cycle of a tile. -/
theorem dot_mod (source : Ppu) (board : Board) (position : Nat) (pipeline : Background) :
    dot source board (position % 8) pipeline = dot source board position pipeline := by
  simp only [dot, Schedule.fetches, Nat.mod_mod]

/-- A dot before the last one of a tile fetches the next part of it. -/
theorem Fetched.next (h : Fetched source board v tiles column pipeline) (hcolumn : column < 7)
    {position : Nat} (hposition : position % 8 = column + 1) :
    Fetched source board v tiles (column + 1) (dot source board position pipeline) := by
  rw [← dot_mod, hposition]
  have hcases : column = 0 ∨ column = 1 ∨ column = 2 ∨ column = 3 ∨ column = 4 ∨ column = 5 ∨
      column = 6 := by omega
  rcases hcases with rfl | rfl | rfl | rfl | rfl | rfl | rfl
  · refine ⟨h.v_eq, fun _ => congrArg (source.tileNumber board) h.v_eq, ?_, ?_, ?_,
      fun _ => h.shown_shift⟩ <;> omega
  · refine ⟨h.v_eq, fun _ => h.tile (by omega), ?_, ?_, ?_, fun _ => h.shown_shift⟩ <;> omega
  · refine ⟨h.v_eq, fun _ => h.tile (by omega),
      fun _ => congrArg (source.tilePalette board) h.v_eq, ?_, ?_, fun _ => h.shown_shift⟩ <;> omega
  · refine ⟨h.v_eq, fun _ => h.tile (by omega), fun _ => h.palette (by omega), ?_, ?_,
      fun _ => h.shown_shift⟩ <;> omega
  · refine ⟨h.v_eq, fun _ => h.tile (by omega), fun _ => h.palette (by omega), fun _ => ?_, ?_,
      fun _ => h.shown_shift⟩
    · change source.tilePlane board pipeline.next.tile pipeline.v 0 = _
      rw [h.v_eq, h.tile (by omega)]
      rfl
    · omega
  · refine ⟨h.v_eq, fun _ => h.tile (by omega), fun _ => h.palette (by omega),
      fun _ => h.low (by omega), ?_, fun _ => h.shown_shift⟩
    omega
  · refine ⟨h.v_eq, fun _ => h.tile (by omega), fun _ => h.palette (by omega),
      fun _ => h.low (by omega), fun _ => ?_, fun _ => h.shown_shift⟩
    change source.tilePlane board pipeline.next.tile pipeline.v 8 = _
    rw [h.v_eq, h.tile (by omega)]
    rfl

/-- The last dot of a tile loads it and moves on to the next one. -/
theorem Fetched.load (h : Fetched source board v tiles 7 pipeline) {position : Nat}
    (hposition : position % 8 = 0) :
    Fetched source board v (tiles + 1) 0 (dot source board position pipeline) := by
  rw [← dot_mod, hposition]
  have hnext : pipeline.next = source.tileUnder board (tilesRight v tiles) := by
    change FetchedTile.mk pipeline.next.tile pipeline.next.palette pipeline.next.low
      pipeline.next.high = _
    rw [h.tile (by omega), h.palette (by omega), h.low (by omega), h.high (by omega)]
  refine ⟨congrArg PictureAddress.incrementX h.v_eq, ?_, ?_, ?_, ?_, ?_⟩
  iterate 4 omega
  intro place hplace hfirst
  change (pipeline.shifter.shift.load pipeline.next).pixelAt place = _
  by_cases hold : place < 8
  · rw [PixelShifter.pixelAt_load_of_lt _ _ hold, h.shown_shift (by omega) (by omega)]
    rfl
  · rw [PixelShifter.pixelAt_load_of_ge _ _ (by omega) (by omega), hnext, pixelRight,
      (by omega : (8 * (tiles + 1) + 0 + place - 16) / 8 = tiles),
      (by omega : (8 * (tiles + 1) + 0 + place - 16) % 8 = place - 8)]

/-- The pipeline a number of dots after it began to fetch, at whole tiles and the dots of the
current one. -/
def FetchedFor (source : Ppu) (board : Board) (v : UInt16) (dots : Nat)
    (pipeline : Background) : Prop :=
  Fetched source board v (dots / 8) (dots % 8) pipeline

/-- A dot goes on with the fetching. -/
theorem FetchedFor.next {dots position : Nat} (h : FetchedFor source board v dots pipeline)
    (hposition : position % 8 = (dots + 1) % 8) :
    FetchedFor source board v (dots + 1) (dot source board position pipeline) := by
  unfold FetchedFor at h ⊢
  by_cases hlast : dots % 8 = 7
  · rw [hlast] at h
    rw [(by omega : (dots + 1) / 8 = dots / 8 + 1), (by omega : (dots + 1) % 8 = 0)]
    exact h.load (by omega)
  · rw [(by omega : (dots + 1) / 8 = dots / 8), (by omega : (dots + 1) % 8 = dots % 8 + 1)]
    exact h.next (by omega) (by omega)

end Background

/-- The pipeline is worked by the operations of the dots alone. -/
theorem follows_background (source : Ppu) (board : Board) :
    Follows background (fun _ _ => Background.perform source board) source board := by
  refine ⟨fun hsame operation => perform_background hsame operation board, fun ppu => ?_⟩
  unfold nextDot
  split
  · rfl
  · split <;> rfl

section Line

variable {start : Ppu}

/-- The dots after the sprites of a line fetch two tiles. -/
theorem background_prefetch (hline : FetchesOn start.scanline) (hdot : start.dot = 321)
    (hrendering : start.mask.rendering = true) (board : Board) {dots : Nat} (hlast : dots ≤ 16) :
    Background.FetchedFor start board start.scroll.v dots (start.after dots board).background := by
  have hdots := start.lineDots_bounds
  have hfetched := (follows_background start board).after (.refl start) hrendering
    (fun dot => Background.FetchedFor start board start.scroll.v (dot - 321))
    (by omega : start.dot + dots ≤ start.lineDots)
    (by rw [hdot]; exact Background.Fetched.start start board start.background)
    (fun dot pipeline hfirst hlast h => by
      rw [(by omega : dot + 1 - 321 = dot - 321 + 1), dotWork,
        work_prefetch hline (by omega) (by omega)]
      exact h.next (by omega))
  rw [(by omega : start.dot + dots - 321 = dots)] at hfetched
  exact hfetched

/-- At the first pixel of the next line two tiles are fetched. -/
theorem background_nextLine (hline : FetchesOn start.scanline) (hdot : start.dot = 321)
    (hnext : nextLine start.scanline < 240) (hrendering : start.mask.rendering = true)
    (board : Board) :
    (start.after (start.lineDots - 321 + 1) board).scanline = nextLine start.scanline ∧
      (start.after (start.lineDots - 321 + 1) board).dot = 1 ∧
      Background.FetchedFor start board start.scroll.v 16
        (start.after (start.lineDots - 321 + 1) board).background := by
  have hdots := start.lineDots_bounds
  obtain ⟨hscanline, hposition, hlength⟩ :=
    after_within (by omega : start.dot + 16 < start.lineDots) board
  have hfetched := background_prefetch hline hdot hrendering board (Nat.le_refl 16)
  have hsame := start.after_sameMemory 16 board
  have hsplit : start.lineDots - 321 + 1 = 16 + (start.lineDots - (start.dot + 16) + 1) := by omega
  rw [hsplit, after_add, ← hlength, ← hposition]
  generalize start.after 16 board = fetched at *
  -- nothing is fetched between the two tiles and the first pixel
  have hrest (dot : Nat) (pipeline : Background) (hrest : fetched.dot ≤ dot) :
      dotWork (fun _ _ => Background.perform start board) fetched.scanline dot pipeline =
        pipeline := by
    rw [dotWork, hscanline, work_between hline (by omega)]
    rfl
  have hfirst (pipeline : Background) :
      dotWork (fun _ _ => Background.perform start board) (nextLine fetched.scanline) 0 pipeline =
        pipeline := by
    rw [dotWork, work_between (.inl (by rw [hscanline]; exact hnext)) (.inl rfl)]
    rfl
  obtain ⟨hscanline', hposition', hbackground⟩ := (follows_background start board).nextLine hsame
    hrendering (by omega) hrest hfirst
  rw [hscanline] at hscanline'
  rw [hbackground]
  exact ⟨hscanline', hposition', hfetched⟩

/-- At every dot of the picture the pipeline puts out the next pixel of the tiles. -/
theorem background_shown (hline : FetchesOn start.scanline) (hdot : start.dot = 321)
    (hnext : nextLine start.scanline < 240) (hrendering : start.mask.rendering = true)
    (board : Board) {x : Nat} (hx : x < 256) :
    (start.after (start.lineDots - 321 + (x + 1)) board).scanline = nextLine start.scanline ∧
      (start.after (start.lineDots - 321 + (x + 1)) board).dot = x + 1 ∧
      (start.after (start.lineDots - 321 + (x + 1)) board).shifter.pixel start.scroll.x =
        start.pixelRight board start.scroll.v (x + start.scroll.x.toNat % 8) := by
  obtain ⟨hscanline, hposition, hfetched⟩ :=
    background_nextLine hline hdot hnext hrendering board
  have hsame := start.after_sameMemory (start.lineDots - 321 + 1) board
  rw [Nat.add_comm x 1, ← Nat.add_assoc, after_add]
  generalize start.after (start.lineDots - 321 + 1) board = first at *
  have hinside : first.dot + x < first.lineDots := by
    have := first.lineDots_bounds
    omega
  obtain ⟨hscanline', hposition', -⟩ := after_within hinside board
  have hpicture := (follows_background start board).after hsame hrendering
    (fun dot => Background.FetchedFor start board start.scroll.v (15 + dot))
    (Nat.le_of_lt hinside) (by rw [hposition]; exact hfetched)
    (fun dot pipeline hbegun hlast h => by
      have hfetched := h.next (by omega : dot % 8 = (15 + dot + 1) % 8)
      rw [dotWork, hscanline, work_picture hnext (by omega) (by omega), List.foldl_append]
      split
      · exact hfetched
      · exact hfetched)
  refine ⟨hscanline'.trans hscanline, by rw [hposition', hposition, Nat.add_comm], ?_⟩
  have hshown := hpicture.shown (start.scroll.x.toNat % 8) (by omega) (by omega)
  rw [PixelShifter.pixel_eq]
  refine hshown.trans ?_
  congr 1
  omega

end Line

/-- A byte of the nametables, by its table and its place there. -/
def tableByte (ppu : Ppu) (board : Board) (table place : Nat) : UInt8 :=
  ppu.vram.get (board.wiring.physicalTable table * 0x400 + place)

/-- The pixel of the nametables looked up directly, `x` columns to the right of the picture
address and of the column that fine scrolling names. -/
def nametablePixel (ppu : Ppu) (board : Board) (x : Nat) : LayerPixel :=
  let v := ppu.scroll.v.toNat
  let fineX := ppu.scroll.x.toNat % 8
  let column := (PictureAddress.column v + (x + fineX) / 8) % 64
  let row := v / 0x20 % 0x20
  let table := v / 0x800 % 2 * 2 + column / 32
  let tile := ppu.tableByte board table (row * 32 + column % 32)
  let attributes := ppu.tableByte board table (0x3C0 + row / 4 * 8 + column % 32 / 4)
  let quarter := row / 2 % 2 * 2 + column / 2 % 2
  let line := ppu.control.backgroundTable + tile.toNat * 16 + v / 0x1000 % 8
  let bit (address : Nat) : Bool :=
    (board.readPattern (UInt16.ofNat address)).toNat.testBit (7 - (x + fineX) % 8)
  { palette := UInt8.ofNat (attributes.toNat >>> (2 * quarter) % 4)
    pixel := twoBits (bit (line + 8)) (bit line) }

/-- The tile under a picture address lies in the nametable and at the place that the address
names. -/
theorem tileNumber_eq (ppu : Ppu) (board : Board) (v : UInt16) :
    ppu.tileNumber board v = ppu.tableByte board (v.toNat / 0x400 % 4) (v.toNat % 0x400) := by
  have haddress : ({ v } : Scroll).tileAddress.toNat = 0x2000 + v.toNat % 0x1000 := by
    rw [Scroll.tileAddress, UInt16.toNat_add, UInt16.toNat_mod]
    simp only [UInt16.reduceToNat]
    omega
  rw [tileNumber, nametableByte, haddress, Wiring.cell, tableByte,
    (by omega : (0x2000 + v.toNat % 0x1000) % 0x1000 / 0x400 = v.toNat / 0x400 % 4),
    (by omega : (0x2000 + v.toNat % 0x1000) % 0x400 = v.toNat % 0x400)]

/-- The attributes under a picture address lie behind the tiles of the nametable, a byte for
four by four tiles. -/
theorem attributes_eq (ppu : Ppu) (board : Board) (v : UInt16) :
    ppu.nametableByte board.wiring ({ v } : Scroll).attributeAddress =
      ppu.tableByte board (v.toNat / 0x400 % 4)
        (0x3C0 + v.toNat / 0x20 % 0x20 / 4 * 8 + v.toNat % 0x20 / 4) := by
  have haddress : ({ v } : Scroll).attributeAddress.toNat =
      0x23C0 + v.toNat / 0x400 % 4 * 0x400 +
        (v.toNat / 0x20 % 0x20 / 4 * 8 + v.toNat % 0x20 / 4) := by
    simp only [Scroll.attributeAddress, PictureAddress.coarseX, PictureAddress.coarseY,
      UInt16.toNat_add, UInt16.toNat_mul, UInt16.toNat_mod, UInt16.toNat_div, UInt16.reduceToNat]
    omega
  have htable : v.toNat / 0x400 % 4 < 4 := Nat.mod_lt _ (by decide)
  have hblock : v.toNat / 0x20 % 0x20 / 4 * 8 + v.toNat % 0x20 / 4 < 0x40 := by omega
  rw [nametableByte, haddress, Wiring.cell, tableByte, Nat.add_assoc 0x3C0]
  generalize v.toNat / 0x400 % 4 = table at htable ⊢
  generalize v.toNat / 0x20 % 0x20 / 4 * 8 + v.toNat % 0x20 / 4 = block at hblock ⊢
  rw [(by omega : (0x23C0 + table * 0x400 + block) % 0x1000 / 0x400 = table),
    (by omega : (0x23C0 + table * 0x400 + block) % 0x400 = 0x3C0 + block)]

/-- A two-bit number is made of its two bits. -/
theorem twoBits_ofNat (number : Nat) :
    twoBits (UInt8.ofNat (number % 4) / 2 % 2 == 1) (UInt8.ofNat (number % 4) % 2 == 1) =
      UInt8.ofNat (number % 4) := by
  have hcases : number % 4 = 0 ∨ number % 4 = 1 ∨ number % 4 = 2 ∨ number % 4 = 3 := by omega
  rcases hcases with h | h | h | h
  all_goals
    rw [h]
    rfl

/-- The palette of a tile is the pair of attribute bits of its quarter. -/
theorem paletteOf_eq (attributes : UInt8) (v : UInt16) :
    FetchedTile.paletteOf attributes (PictureAddress.coarseX v) (PictureAddress.coarseY v) =
      UInt8.ofNat (attributes.toNat >>>
        (2 * (v.toNat / 0x20 % 0x20 / 2 % 2 * 2 + v.toNat % 0x20 / 2 % 2)) % 4) := by
  have hquarter : v.toNat / 0x20 % 0x20 / 2 % 2 * 2 + v.toNat % 0x20 / 2 % 2 < 4 := by omega
  have hamount : ((PictureAddress.coarseY v / 2 % 2 * 2 + PictureAddress.coarseX v / 2 % 2) * 2
      ).toUInt8.toNat = 2 * (v.toNat / 0x20 % 0x20 / 2 % 2 * 2 + v.toNat % 0x20 / 2 % 2) := by
    simp only [PictureAddress.coarseX, PictureAddress.coarseY, UInt16.toNat_toUInt8,
      UInt16.toNat_add, UInt16.toNat_mul, UInt16.toNat_mod, UInt16.toNat_div, UInt16.reduceToNat]
    omega
  generalize v.toNat / 0x20 % 0x20 / 2 % 2 * 2 + v.toNat % 0x20 / 2 % 2 = quarter at *
  rw [← UInt8.toNat_inj, FetchedTile.paletteOf, UInt8.toNat_mod, UInt8.toNat_shiftRight, hamount,
    Nat.mod_eq_of_lt (by omega : 2 * quarter < 8), UInt8.toNat_ofNat']
  change attributes.toNat >>> (2 * quarter) % 4 = attributes.toNat >>> (2 * quarter) % 4 % 256
  omega

/-- The pixels of the fetched tiles are those of the nametables. -/
theorem pixelRight_eq (ppu : Ppu) (board : Board) (x : Nat) :
    ppu.pixelRight board ppu.scroll.v (x + ppu.scroll.x.toNat % 8) =
      ppu.nametablePixel board x := by
  simp only [pixelRight, nametablePixel]
  generalize x + ppu.scroll.x.toNat % 8 = place
  have hcolumn := PictureAddress.column_tilesRight ppu.scroll.v (place / 8)
  obtain ⟨hrow, htable, hline⟩ := PictureAddress.sameRow_tilesRight ppu.scroll.v (place / 8)
  rw [← hcolumn, ← hrow, ← htable, ← hline]
  generalize tilesRight ppu.scroll.v (place / 8) = v
  have htable : v.toNat / 0x400 % 4 =
      v.toNat / 0x800 % 2 * 2 + PictureAddress.column v.toNat / 32 := by
    rw [PictureAddress.column]
    omega
  have hcoarse : PictureAddress.column v.toNat % 32 = v.toNat % 32 := by
    rw [PictureAddress.column]
    omega
  have htile : v.toNat % 0x400 = v.toNat / 0x20 % 0x20 * 32 + v.toNat % 32 := by omega
  have hquarter : PictureAddress.column v.toNat / 2 % 2 = v.toNat % 32 / 2 % 2 := by omega
  have hfineY : (PictureAddress.fineY v).toNat = v.toNat / 0x1000 % 8 := by
    rw [PictureAddress.fineY, UInt16.toNat_mod, UInt16.toNat_div]
    rfl
  simp only [tileUnder, FetchedTile.pixelAt, tilePalette, tilePlane, tileNumber_eq, attributes_eq,
    paletteOf_eq, twoBits_ofNat, FetchedTile.patternAddress, hfineY, ← htable, hcoarse, hquarter,
    htile, Nat.add_zero]

/-- At every dot of a line of the picture the background is the pixel of the nametables in its
place, from the picture address with which the line before began to fetch. -/
theorem backgroundPixel_after (ppu : Ppu) (board : Board)
    (hline : ppu.scanline = 261 ∨ ppu.scanline ≤ 238) (hdot : ppu.dot = 321)
    (hshow : ppu.mask.showBackground = true) {x : Nat} (hx : x < 256) :
    let drawn := ppu.after (ppu.lineDots - 321 + (x + 1)) board
    drawn.scanline = nextLine ppu.scanline ∧ drawn.dot = x + 1 ∧
      drawn.backgroundPixel =
        if x < 8 ∧ ppu.mask.leftBackground = false then {} else ppu.nametablePixel board x := by
  intro drawn
  have hfetches : FetchesOn ppu.scanline := by
    rcases hline with hline | hline
    · exact .inr hline
    · exact .inl (by omega)
  have hnext : nextLine ppu.scanline < 240 := by
    rw [nextLine]
    split <;> omega
  have hrendering : ppu.mask.rendering = true := by rw [Mask.rendering, hshow, Bool.true_or]
  obtain ⟨hscanline, hposition, hshown⟩ := background_shown hfetches hdot hnext hrendering board hx
  have hsame : SameMemory ppu drawn := ppu.after_sameMemory _ board
  refine ⟨hscanline, hposition, ?_⟩
  change drawn.dot = x + 1 at hposition
  have hleft : (drawn.dot ≤ 8) = (x < 8) := by
    rw [hposition]
    exact propext (by omega)
  rw [backgroundPixel, hsame.mask, hsame.x, hshow, hshown, pixelRight_eq]
  simp only [hleft, Bool.not_true, Bool.false_or, Bool.and_eq_true, decide_eq_true_eq,
    Bool.not_eq_true']

/-- A picture of solid patterns is solid where the left columns end, but not before. -/
theorem backgroundPixel_after_solid :
    let ppu : Ppu := { scanline := 261, dot := 321, mask := { bits := 0x08 } }
    let board := Board.ofBytes .nrom #[] #[0xFF] .vertical
    ((ppu.scanline = 261 ∨ ppu.scanline ≤ 238) ∧ ppu.dot = 321 ∧
        ppu.mask.showBackground = true) ∧
      (ppu.after (ppu.lineDots - 321 + 8) board).backgroundPixel = {} ∧
      (ppu.after (ppu.lineDots - 321 + 9) board).backgroundPixel = { pixel := 3 } := by
  intro ppu board
  have hshow : ppu.mask.showBackground = true := by decide
  have hleft := backgroundPixel_after ppu board (.inl rfl) rfl hshow (by decide : 7 < 256)
  have hright := backgroundPixel_after ppu board (.inl rfl) rfl hshow (by decide : 8 < 256)
  refine ⟨⟨.inl rfl, rfl, hshow⟩, hleft.2.2.trans (if_pos (by decide)), hright.2.2.trans ?_⟩
  have hbyte (table place : Nat) : ppu.tableByte board table place = 0 := Memory.get_filled _ _
  have hpattern (address : UInt16) : board.readPattern address = 0xFF := by
    simp [board, Board.readPattern, Board.ofBytes, Chr.ofBytes, Chr.read, Nat.mod_one]
  rw [if_neg (by decide)]
  simp only [nametablePixel, hbyte, hpattern]
  decide

end Ppu

end Famicom
