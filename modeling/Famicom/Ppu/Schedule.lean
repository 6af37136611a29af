/-!
# The dot schedule

The unit works through 262 lines of 341 dots. What it does at a dot depends on the position
alone; most of it is done only while a layer shows.
-/

namespace Famicom

/-- The parts of the work of a dot. -/
inductive DotOperation where
  /-- Put out one pixel. -/
  | renderPixel
  /-- Move the background shift registers. -/
  | shiftBackground
  /-- Move or count down the sprite units. -/
  | shiftSprites
  | fetchNametable
  | fetchAttribute
  | fetchPatternLow
  | fetchPatternHigh
  /-- Take the fetched tile into the shift registers. -/
  | loadBackground
  | incrementX
  | incrementY
  | copyHorizontal
  | copyVertical
  /-- Forget the sprites found for the line before. -/
  | clearSecondaryOam
  /-- Find the sprites of the next line. -/
  | evaluateSprites
  /-- Fetch one sprite of the next line. -/
  | fillSpriteUnit
  | setVblank
  | clearFlags
deriving DecidableEq, Repr

/-- Whether the work is skipped while both layers are hidden. -/
def DotOperation.needsRendering : DotOperation → Bool
  | renderPixel | setVblank | clearFlags => false
  | _ => true

namespace Schedule

/-- Dots in a line. -/
def dots : Nat := 341

/-- Lines in a frame. -/
def scanlines : Nat := 262

/-- The line in which vertical blank is announced. -/
def vblankScanline : Nat := 241

/-- The line before the picture. -/
def prerenderScanline : Nat := 261

/-- The kinds of lines that differ in their work. -/
inductive Line where
  /-- A line of the picture. -/
  | visible
  /-- The line in which vertical blank is announced. -/
  | vblankStart
  /-- The line before the picture. -/
  | prerender
  /-- All other lines. -/
  | idle
deriving DecidableEq, Repr

/-- The kind of a line. -/
def Line.ofScanline (scanline : Nat) : Line :=
  if scanline < 240 then .visible
  else if scanline = vblankScanline then .vblankStart
  else if scanline = prerenderScanline then .prerender
  else .idle

/-- The fetch that falls on a dot of the eight-dot cycle of a tile. -/
def fetches (dot : Nat) : List DotOperation :=
  match dot % 8 with
  | 1 => [.fetchNametable]
  | 3 => [.fetchAttribute]
  | 5 => [.fetchPatternLow]
  | 7 => [.fetchPatternHigh]
  | 0 => [.loadBackground, .incrementX]
  | _ => []

/-- The scrolling and sprite work at the end of a line that fetches. -/
def lineEnd (dot : Nat) : List DotOperation :=
  if dot = 257 then [.copyHorizontal, .fillSpriteUnit]
  else if 257 ≤ dot ∧ dot ≤ 320 ∧ (dot - 257) % 8 = 0 then [.fillSpriteUnit]
  else []

/-- The work of a dot, in order. -/
def operations : Line → Nat → List DotOperation
  | .visible, dot =>
    if 1 ≤ dot ∧ dot ≤ 256 then
      [.renderPixel, .shiftBackground, .shiftSprites] ++ fetches dot ++
        (if dot = 64 then [.clearSecondaryOam]
        else if dot = 256 then [.incrementY, .evaluateSprites]
        else [])
    else if 321 ≤ dot ∧ dot ≤ 336 then [.shiftBackground] ++ fetches dot
    else lineEnd dot
  | .prerender, dot =>
    if 1 ≤ dot ∧ dot ≤ 256 then
      [.shiftBackground] ++ fetches dot ++
        (if dot = 1 then [.clearFlags] else if dot = 256 then [.incrementY] else [])
    else if 321 ≤ dot ∧ dot ≤ 336 then [.shiftBackground] ++ fetches dot
    else if dot = 257 then lineEnd dot
    else (if 280 ≤ dot ∧ dot ≤ 304 then [.copyVertical] else []) ++ lineEnd dot
  | .vblankStart, dot => if dot = 1 then [.setVblank] else []
  | .idle, _ => []

/-- The work at a position. -/
def work (scanline dot : Nat) : List DotOperation := operations (Line.ofScanline scanline) dot

end Schedule

end Famicom
