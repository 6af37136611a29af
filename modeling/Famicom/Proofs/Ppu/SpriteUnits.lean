import Famicom.Ppu.Sprite.Unit
import Famicom.Proofs.Ppu.PixelStream

/-!
# The sprite units as streams of pixels

A unit counts down to the column of its sprite and then puts out the eight pixels of its line.
Seen from the first dot of a line it holds the pixels of all columns, most of them transparent,
and every dot brings them one column forward. Among the units in use, the first one with a pixel
to show decides.
-/

namespace Famicom

namespace Byte

/-- A bit of a byte, put into another place. -/
theorem toNat_ofBit_bit (byte weight place : UInt8) :
    (ofBit place (bit byte weight)).toNat = byte.toNat / weight.toNat % 2 * place.toNat := by
  rw [toNat_ofBit, bit_eq_decide]
  by_cases h : byte.toNat / weight.toNat % 2 = 1
  · rw [decide_eq_true h, h, Nat.mul_comm]
    rfl
  · rw [decide_eq_false h, (by omega : byte.toNat / weight.toNat % 2 = 0), Nat.mul_comm]
    rfl

/-- A byte turned around, as a number. -/
theorem toNat_reversed (byte : UInt8) :
    (reversed byte).toNat =
      byte.toNat / 1 % 2 * 128 + byte.toNat / 2 % 2 * 64 + byte.toNat / 4 % 2 * 32 +
        byte.toNat / 8 % 2 * 16 + byte.toNat / 16 % 2 * 8 + byte.toNat / 32 % 2 * 4 +
        byte.toNat / 64 % 2 * 2 + byte.toNat / 128 % 2 := by
  simp only [reversed, UInt8.toNat_add, toNat_ofBit_bit, UInt8.reduceToNat]
  omega

/-- Turning a byte around exchanges its bits. -/
theorem testBit_reversed (byte : UInt8) {place : Nat} (h : place < 8) :
    (reversed byte).toNat.testBit place = byte.toNat.testBit (7 - place) := by
  have hplace : place = 0 ∨ place = 1 ∨ place = 2 ∨ place = 3 ∨ place = 4 ∨ place = 5 ∨
      place = 6 ∨ place = 7 := by omega
  have hbit (weight : Nat) : byte.toNat / weight % 2 < 2 := Nat.mod_lt _ (by decide)
  rw [Nat.testBit_eq_decide_div_mod_eq, Nat.testBit_eq_decide_div_mod_eq, toNat_reversed]
  congr 2
  have h₀ := hbit 1
  have h₁ := hbit 2
  have h₂ := hbit 4
  have h₃ := hbit 8
  have h₄ := hbit 16
  have h₅ := hbit 32
  have h₆ := hbit 64
  have h₇ := hbit 128
  -- the bits are independent of each other, so each of them stands for itself
  rcases hplace with rfl | rfl | rfl | rfl | rfl | rfl | rfl | rfl
  all_goals
    simp only [Nat.reducePow, Nat.reduceSub]
    generalize byte.toNat / 1 % 2 = b₀, byte.toNat / 2 % 2 = b₁, byte.toNat / 4 % 2 = b₂,
      byte.toNat / 8 % 2 = b₃, byte.toNat / 16 % 2 = b₄, byte.toNat / 32 % 2 = b₅,
      byte.toNat / 64 % 2 = b₆, byte.toNat / 128 % 2 = b₇ at *
    omega

/-- The top bit of a byte. -/
theorem div_topBit (byte : UInt8) :
    byte / 0x80 = if byte.toNat.testBit 7 then 1 else 0 := by
  have hbyte := byte.toNat_lt
  rw [Nat.testBit_eq_decide_div_mod_eq, ← UInt8.toNat_inj, UInt8.toNat_div]
  change byte.toNat / 128 = _
  by_cases h : byte.toNat / 2 ^ 7 % 2 = 1
  · rw [decide_eq_true h, if_pos rfl]
    change _ = 1
    omega
  · rw [decide_eq_false h, if_neg Bool.false_ne_true]
    change _ = 0
    omega

/-- Moving a byte on brings the next bit into its place. -/
theorem testBit_moved (byte : UInt8) {place : Nat} (h : place < 8) :
    (byte <<< 1).toNat.testBit place = (decide (1 ≤ place) && byte.toNat.testBit (place - 1)) := by
  have hmoved : (byte <<< 1).toNat = byte.toNat <<< 1 % 2 ^ 8 := UInt8.toNat_shiftLeft byte 1
  rw [hmoved, Nat.testBit_mod_two_pow, Nat.testBit_shiftLeft, decide_eq_true h, Bool.true_and]

end Byte

namespace SpriteUnit

/-- The entry that a unit puts out a number of dots later. -/
def pixelAt (unit : SpriteUnit) (dots : Nat) : UInt8 :=
  let column := dots - unit.x.toNat
  if unit.x.toNat ≤ dots ∧ column < 8 then
    twoBits (unit.high.toNat.testBit (7 - column)) (unit.low.toNat.testBit (7 - column))
  else 0

/-- The entry put out is the first one. -/
theorem pixel_eq (unit : SpriteUnit) : unit.pixel = unit.pixelAt 0 := by
  have hzero : unit.x = 0 ↔ unit.x.toNat ≤ 0 := by
    rw [← UInt8.toNat_inj, Nat.le_zero]
    rfl
  rw [pixel, pixelAt, Byte.div_topBit, Byte.div_topBit, twoBits, Nat.zero_sub]
  by_cases h : unit.x = 0
  · rw [if_pos h]
    exact (if_pos ⟨hzero.mp h, by decide⟩).symm
  · rw [if_neg h]
    exact (if_neg fun hbegun => h (hzero.mpr hbegun.1)).symm

/-- A dot brings the entries one column forward. -/
theorem pixelAt_shift (unit : SpriteUnit) (dots : Nat) :
    unit.shift.pixelAt dots = unit.pixelAt (dots + 1) := by
  unfold shift
  split
  · next hx =>
    have hcolumn (n : Nat) : n - unit.x.toNat = n := by rw [hx]; rfl
    have hbegun (n : Nat) : unit.x.toNat ≤ n := by rw [hx]; exact Nat.zero_le n
    simp only [pixelAt, hcolumn, hbegun, true_and]
    by_cases hlast : dots + 1 < 8
    · rw [if_pos (by omega), if_pos hlast, Byte.testBit_moved _ (by omega),
        Byte.testBit_moved _ (by omega), decide_eq_true (by omega), Bool.true_and, Bool.true_and]
      rfl
    · rw [if_neg hlast]
      by_cases hend : dots < 8
      · rw [if_pos hend, Byte.testBit_moved _ (by omega), Byte.testBit_moved _ (by omega),
          decide_eq_false (by omega), Bool.false_and, Bool.false_and]
        rfl
      · rw [if_neg hend]
  · next hx =>
    have hpositive : 1 ≤ unit.x.toNat := by
      rw [← UInt8.toNat_inj] at hx
      change ¬unit.x.toNat = 0 at hx
      omega
    have hcount : (unit.x - 1).toNat = unit.x.toNat - 1 :=
      UInt8.toNat_sub_of_le _ _ (UInt8.le_iff_toNat_le.mpr hpositive)
    have hcolumn : dots - (unit.x.toNat - 1) = dots + 1 - unit.x.toNat := by omega
    have hbegun : unit.x.toNat - 1 ≤ dots ↔ unit.x.toNat ≤ dots + 1 := by omega
    simp only [pixelAt, hcount, hcolumn, hbegun]

/-- A unit with a fetched line shows the columns of the pattern from the sprite's column on, in
the order that the attributes ask for. -/
theorem pixelAt_ofPattern (x attributes low high : UInt8) (dots : Nat) :
    (ofPattern x attributes low high).pixelAt dots =
      let column := dots - x.toNat
      let place := if Byte.bit attributes 0x40 then column else 7 - column
      if x.toNat ≤ dots ∧ column < 8 then
        twoBits (high.toNat.testBit place) (low.toNat.testBit place)
      else 0 := by
  unfold ofPattern
  split
  · simp only [pixelAt]
    split
    · next h =>
      rw [Byte.testBit_reversed _ (by omega), Byte.testBit_reversed _ (by omega),
        Nat.sub_sub_self (by omega)]
    · rfl
  · rfl

/-- A unit with a fetched line keeps the attributes. -/
theorem attributes_ofPattern (x attributes low high : UInt8) :
    (ofPattern x attributes low high).attributes = attributes := by
  unfold ofPattern
  split <;> rfl

/-- A dot leaves the attributes alone. -/
theorem attributes_shift (unit : SpriteUnit) : unit.shift.attributes = unit.attributes := by
  unfold shift
  split <;> rfl

end SpriteUnit

/-- What a list of sprites shows: the first one with an entry other than 0 decides. -/
def Sprite.winner (sprites : List Nat) (attributes entry : Nat → UInt8) : SpritePixel :=
  let shown : SpritePixel :=
    match sprites.find? fun n => entry n != 0 with
    | none => {}
    | some n =>
      { palette := attributes n % 4
        pixel := entry n
        inFront := !Byte.bit (attributes n) 0x20 }
  { shown with zero := sprites.contains 0 && entry 0 != 0 }

namespace SpriteUnits

/-- The unit in a slot after a dot. -/
theorem unit_shift (sprites : SpriteUnits) (slot : Fin 8) :
    sprites.shift.unit slot = (sprites.unit slot).shift := by
  simp only [unit, shift, Fin.getElem_fin, Vector.getElem_map]

/-- A filled slot holds the new unit, and the others what they held. -/
theorem unit_fill (sprites : SpriteUnits) (slot other : Fin 8) (filled : SpriteUnit) :
    (sprites.fill slot filled).unit other =
      if slot = other then filled else sprites.unit other := by
  simp only [unit, fill, Fin.getElem_fin, Vector.getElem_set, Fin.ext_iff]

/-- Reading a list place by place gives the list. -/
theorem filterMap_places (picked : List Nat) {places : Nat} (h : picked.length ≤ places) :
    ((List.range places).filterMap fun place => picked[place]?) = picked := by
  induction picked generalizing places with
  | nil => exact List.filterMap_eq_nil_iff.mpr fun _ _ => rfl
  | cons n rest ih =>
    cases places with
    | zero => exact absurd h (Nat.not_succ_le_zero _)
    | succ places =>
      rw [List.range_succ_eq_map, List.filterMap_cons, List.filterMap_map]
      change n :: (List.range places).filterMap (fun place => rest[place]?) = n :: rest
      rw [ih (Nat.le_of_succ_le_succ h)]

/-- The slots read a list of sprites place by place. -/
theorem filterMap_slots {picked : List Nat} (h : picked.length ≤ 8) :
    (slots.filterMap fun slot => picked[slot.val]?) = picked := by
  have hslots : slots.map Fin.val = List.range 8 := rfl
  have hplaces := filterMap_places picked h
  rw [← hslots, List.filterMap_map] at hplaces
  exact hplaces

variable {sprites : SpriteUnits} {picked : List Nat} {attributes entry : Nat → UInt8}

/-- A unit puts out a pixel when it is in use and its sprite has one. -/
theorem pixelAt_ne_zero (hcount : sprites.count = picked.length)
    (hentry : ∀ (slot : Fin 8) (n : Nat), picked[slot.val]? = some n →
      (sprites.unit slot).pixel = entry n) (slot : Fin 8) :
    (sprites.pixelAt slot != 0) = (picked[slot.val]?).any fun n => entry n != 0 := by
  rw [pixelAt, hcount]
  by_cases h : slot.val < picked.length
  · rw [if_pos h, hentry slot _ (List.getElem?_eq_getElem h), List.getElem?_eq_getElem h]
    rfl
  · rw [if_neg h, List.getElem?_eq_none (Nat.le_of_not_lt h)]
    rfl

/-- The first unit that puts out a pixel holds the sprite that decides. -/
theorem pixel_eq_winner (hcount : sprites.count = picked.length) (hlength : picked.length ≤ 8)
    (hzero : sprites.zeroFirst = picked.contains 0)
    (hfirst : 0 ∈ picked → picked.head? = some 0)
    (hattributes : ∀ (slot : Fin 8) (n : Nat), picked[slot.val]? = some n →
      (sprites.unit slot).attributes = attributes n)
    (hentry : ∀ (slot : Fin 8) (n : Nat), picked[slot.val]? = some n →
      (sprites.unit slot).pixel = entry n) :
    sprites.pixel = Sprite.winner picked attributes entry := by
  have hpixel := pixelAt_ne_zero hcount hentry
  have hfind : (picked.find? fun n => entry n != 0) =
      (slots.find? fun slot => sprites.pixelAt slot != 0).bind fun slot => picked[slot.val]? := by
    have hplaces := congrArg (List.find? fun n => entry n != 0) (filterMap_slots hlength)
    simp only [List.find?_filterMap, ← hpixel] at hplaces
    exact hplaces.symm
  have hzero' : (sprites.zeroFirst && sprites.pixelAt 0 != 0) =
      (picked.contains 0 && entry 0 != 0) := by
    rw [hzero]
    by_cases hmem : 0 ∈ picked
    · have hhead : picked[(0 : Fin 8).val]? = some 0 :=
        List.head?_eq_getElem?.symm.trans (hfirst hmem)
      rw [hpixel, hhead]
      rfl
    · rw [Bool.eq_false_iff.mpr fun h => hmem (List.contains_iff_mem.mp h), Bool.false_and,
        Bool.false_and]
  rw [pixel, Sprite.winner, hfind, ← hzero']
  cases hslot : slots.find? fun slot => sprites.pixelAt slot != 0 with
  | none =>
    have hnone := List.find?_eq_none.mp hslot 0 List.mem_cons_self
    rw [Bool.eq_false_iff.mpr hnone, Bool.and_false]
    rfl
  | some slot =>
    have hshown := List.find?_some hslot
    rw [hpixel] at hshown
    cases hn : picked[slot.val]? with
    | none =>
      rw [hn] at hshown
      exact absurd hshown Bool.false_ne_true
    | some n =>
      have hpixelAt : sprites.pixelAt slot = entry n := by
        rw [pixelAt, if_pos, hentry slot n hn]
        rw [hcount]
        exact (List.getElem?_eq_some_iff.mp hn).1
      simp only [Option.bind_some, hn, hattributes slot n hn, hpixelAt]

end SpriteUnits

end Famicom
