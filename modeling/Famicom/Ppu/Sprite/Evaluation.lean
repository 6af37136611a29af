import Famicom.Memory

/-!
# Finding the sprites of a line

Object memory describes 64 sprites by four bytes each: row, tile, attributes and column. During
a line the unit goes through them once and copies those that touch the next line to a small
second memory, which has room for eight. From the ninth on it only looks for one more, and does
so with a counter that also steps through the bytes of a sprite, so that it takes bytes for
rows that are none.
-/

namespace Famicom

namespace Sprite

/-- The number of sprites. -/
def total : Nat := 64

/-- The number of sprites that a line can show. -/
def perLine : Nat := 8

/-- Whether a sprite whose row byte is `y` touches the line after `scanline`. -/
def inRange (scanline height : Nat) (y : UInt8) : Bool :=
  decide (y.toNat ≤ scanline ∧ scanline - y.toNat < height)

/-- What the search has found. -/
structure Evaluation where
  /-- The second memory, with the sprites found in its first places. -/
  secondary : Memory 5
  /-- How many sprites were found. -/
  found : Nat := 0
  /-- The first sprite of object memory is among them. -/
  zero : Bool := false
  /-- One more sprite seemed to be there. -/
  overflow : Bool := false
deriving DecidableEq

/-- Copy the four bytes of sprite `n` to place `slot` of the second memory. -/
def copy (oam : Memory 8) (n slot : Nat) (secondary : Memory 5) : Memory 5 :=
  secondary.load (slot * 4) (oam.read (n * 4) 4)

/-- Look for one more sprite among the last `left`, starting with byte `column`. -/
def searchOverflow (oam : Memory 8) (scanline height : Nat) : (left column : Nat) → Bool
  | 0, _ => false
  | left + 1, column =>
    inRange scanline height (oam.get ((total - (left + 1)) * 4 + column)) ||
      searchOverflow oam scanline height left ((column + 1) % 4)

/-- Go on with the search through the last `left` sprites. -/
def search (oam : Memory 8) (scanline height : Nat) : (left : Nat) → Evaluation → Evaluation
  | 0, evaluation => evaluation
  | left + 1, evaluation =>
    let n := total - (left + 1)
    if evaluation.found = perLine then
      { evaluation with overflow := searchOverflow oam scanline height (left + 1) 0 }
    else if inRange scanline height (oam.get (n * 4)) then
      search oam scanline height left
        { evaluation with
          secondary := copy oam n evaluation.found evaluation.secondary
          found := evaluation.found + 1
          zero := evaluation.zero || n == 0 }
    else search oam scanline height left evaluation

/-- Search object memory for the line after `scanline`. -/
def evaluate (oam : Memory 8) (scanline height : Nat) (secondary : Memory 5) : Evaluation :=
  search oam scanline height total { secondary }

end Sprite

end Famicom
