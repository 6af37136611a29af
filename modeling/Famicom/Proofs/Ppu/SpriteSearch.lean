import Famicom.Ppu.Sprite.Evaluation

/-!
# What the sprite search finds

The search goes through object memory in order and keeps a copy of every sprite that touches the
next line, until it has eight. It finds the first eight such sprites, in the order of object
memory, whatever was in the second memory before.
-/

namespace Famicom

namespace Memory

variable {bits : Nat}

/-- Loading bytes leaves the other cells alone. -/
theorem get_load_outside (memory : Memory bits) {start address : Nat} {bytes : List UInt8}
    (hfits : start + bytes.length ≤ chipSize bits) (haddress : address < chipSize bits)
    (houtside : address < start ∨ start + bytes.length ≤ address) :
    (memory.load start bytes).get address = memory.get address := by
  induction bytes generalizing memory start with
  | nil => rfl
  | cons byte rest ih =>
    rw [List.length_cons] at hfits houtside
    have hother : ¬start % chipSize bits = address % chipSize bits := by
      rw [Nat.mod_eq_of_lt (by omega), Nat.mod_eq_of_lt haddress]
      omega
    rw [load, ih _ (by omega) (by omega), get_set, if_neg hother]

/-- Loading bytes places them one after the other. -/
theorem get_load (memory : Memory bits) {start offset : Nat} {bytes : List UInt8}
    (hfits : start + bytes.length ≤ chipSize bits) (hoffset : offset < bytes.length) :
    (memory.load start bytes).get (start + offset) = bytes[offset] := by
  induction bytes generalizing memory start offset with
  | nil => exact absurd hoffset (Nat.not_lt_zero _)
  | cons byte rest ih =>
    rw [List.length_cons] at hfits hoffset
    rw [load]
    cases offset with
    | zero =>
      rw [get_load_outside _ (by omega) (by omega) (by omega), Nat.add_zero, get_set_self]
      rfl
    | succ offset =>
      rw [(by omega : start + (offset + 1) = start + 1 + offset), List.getElem_cons_succ]
      exact ih _ (by omega) (by omega)

/-- Two chips that agree in a cell still do after loading the same bytes. -/
theorem get_load_congr {left right : Memory bits} {address : Nat}
    (h : right.get address = left.get address) (start : Nat) (bytes : List UInt8) :
    (right.load start bytes).get address = (left.load start bytes).get address := by
  induction bytes generalizing left right start with
  | nil => exact h
  | cons byte rest ih =>
    apply ih
    rw [get_set, get_set, h]

end Memory

namespace Sprite

variable {oam : Memory 8} {scanline height n slot : Nat} {secondary : Memory 5}
  {picked : List Nat} {evaluation : Evaluation}

/-- Whether sprite `n` touches the line after `scanline`. -/
def touches (oam : Memory 8) (scanline height n : Nat) : Bool :=
  let y := (oam.get (n * 4)).toNat
  decide (y ≤ scanline ∧ scanline - y < height)

/-- The sprites that the line after `scanline` shows: the first eight that touch it. -/
def candidates (oam : Memory 8) (scanline height : Nat) : List Nat :=
  ((List.range total).filter (touches oam scanline height)).take perLine

/-- A line shows no more than eight sprites. -/
theorem length_candidates_le (oam : Memory 8) (scanline height : Nat) :
    (candidates oam scanline height).length ≤ perLine :=
  List.length_take_le _ _

/-- A sprite that is shown touches the line. -/
theorem touches_of_mem_candidates (h : n ∈ candidates oam scanline height) :
    touches oam scanline height n = true :=
  (List.mem_filter.mp (List.mem_of_mem_take h)).2

/-- The first sprite of object memory is shown in the first place or not at all. -/
theorem zero_mem_candidates_iff (oam : Memory 8) (scanline height : Nat) :
    0 ∈ candidates oam scanline height ↔ (candidates oam scanline height).head? = some 0 := by
  constructor
  · intro hmem
    have htouches := touches_of_mem_candidates hmem
    rw [candidates, total, List.range_succ_eq_map, List.filter_cons_of_pos htouches, perLine]
    rfl
  · exact List.mem_of_mem_head?

/-- A sprite is copied to its place in the second memory. -/
theorem get_copy (oam : Memory 8) (n : Nat) (secondary : Memory 5) (hslot : slot < perLine)
    {byte : Nat} (hbyte : byte < 4) :
    (copy oam n slot secondary).get (slot * 4 + byte) = oam.get (n * 4 + byte) := by
  have hlength : (oam.read (n * 4) 4).length = 4 := by
    rw [Memory.read, List.length_map, List.length_range]
  have hsize : chipSize 5 = 32 := rfl
  rw [perLine] at hslot
  rw [copy, Memory.get_load _ (by omega) (by omega)]
  simp only [Memory.read, List.getElem_map, List.getElem_range]

/-- Copying a sprite leaves the places before it alone. -/
theorem get_copy_before (oam : Memory 8) (n : Nat) (secondary : Memory 5)
    (hslot : slot < perLine) {before byte : Nat} (hbefore : before < slot) (hbyte : byte < 4) :
    (copy oam n slot secondary).get (before * 4 + byte) = secondary.get (before * 4 + byte) := by
  have hlength : (oam.read (n * 4) 4).length = 4 := by
    rw [Memory.read, List.length_map, List.length_range]
  have hsize : chipSize 5 = 32 := rfl
  rw [perLine] at hslot
  rw [copy, Memory.get_load_outside _ (by omega) (by omega) (by omega)]

/-- The search holds exactly the sprites of a list, in their order. -/
structure Holds (oam : Memory 8) (picked : List Nat) (evaluation : Evaluation) : Prop where
  found : evaluation.found = picked.length
  copied : ∀ slot (h : slot < picked.length), ∀ byte < 4,
    evaluation.secondary.get (slot * 4 + byte) = oam.get (picked[slot] * 4 + byte)
  zero : evaluation.zero = picked.contains 0

/-- Before the search nothing is held. -/
theorem Holds.start (oam : Memory 8) (secondary : Memory 5) : Holds oam [] { secondary } :=
  ⟨rfl, fun _ h => absurd h (Nat.not_lt_zero _), rfl⟩

/-- A copied sprite is held behind the others. -/
theorem Holds.copy (h : Holds oam picked evaluation) (hroom : picked.length < perLine) (n : Nat) :
    Holds oam (picked ++ [n])
      { evaluation with
        secondary := Sprite.copy oam n evaluation.found evaluation.secondary
        found := evaluation.found + 1
        zero := evaluation.zero || n == 0 } := by
  refine ⟨?_, ?_, ?_⟩
  · rw [List.length_append, List.length_singleton, h.found]
  · intro slot hslot byte hbyte
    change (Sprite.copy oam n evaluation.found evaluation.secondary).get _ = _
    rw [h.found]
    rw [List.length_append, List.length_singleton] at hslot
    by_cases hlast : slot = picked.length
    · subst hlast
      rw [get_copy oam n _ hroom hbyte, List.getElem_concat_length rfl]
    · have hslot' : slot < picked.length := by omega
      rw [get_copy_before oam n _ hroom hslot' hbyte, h.copied slot hslot' byte hbyte,
        List.getElem_append_left hslot']
  · rw [List.contains_append, h.zero, List.contains_cons, List.contains_nil, Bool.or_false,
      BEq.comm]

/-- Going on with the search adds the sprites that touch the line, up to eight. -/
theorem Holds.search (h : Holds oam picked evaluation) (hlength : picked.length ≤ perLine)
    (scanline height : Nat) {left : Nat} (hleft : left ≤ total) :
    Holds oam
      ((picked ++ (List.range' (total - left) left).filter
        (touches oam scanline height)).take perLine)
      (Sprite.search oam scanline height left evaluation) := by
  induction left generalizing picked evaluation with
  | zero =>
    rw [List.range'_zero, List.filter_nil, List.append_nil, List.take_of_length_le hlength]
    exact h
  | succ left ih =>
    have hnext : total - (left + 1) + 1 = total - left := by omega
    rw [List.range'_succ, hnext]
    unfold Sprite.search
    by_cases hfull : evaluation.found = perLine
    · have hall : picked.length = perLine := h.found.symm.trans hfull
      rw [if_pos hfull, List.take_append_of_le_length (Nat.le_of_eq hall.symm),
        List.take_of_length_le hlength]
      exact ⟨h.found, h.copied, h.zero⟩
    · rw [if_neg hfull]
      have hroom : picked.length < perLine := by
        rw [h.found] at hfull
        omega
      split
      · next htouches =>
        change touches oam scanline height _ = true at htouches
        rw [List.filter_cons_of_pos htouches, List.append_cons]
        refine ih (h.copy hroom _) ?_ (by omega)
        rw [List.length_append, List.length_singleton]
        exact hroom
      · next htouches =>
        change ¬touches oam scanline height _ = true at htouches
        rw [List.filter_cons_of_neg htouches]
        exact ih h hlength (by omega)

/-- The search finds the sprites that the line shows. -/
theorem evaluate_holds (oam : Memory 8) (scanline height : Nat) (secondary : Memory 5) :
    Holds oam (candidates oam scanline height) (evaluate oam scanline height secondary) := by
  have hsearch := (Holds.start oam secondary).search (Nat.zero_le _) scanline height
    (Nat.le_refl total)
  rw [Nat.sub_self, List.nil_append, ← List.range_eq_range'] at hsearch
  exact hsearch

/-- The search finds no more sprites than a line can show. -/
theorem found_evaluate_le (oam : Memory 8) (scanline height : Nat) (secondary : Memory 5) :
    (evaluate oam scanline height secondary).found ≤ perLine := by
  rw [(evaluate_holds oam scanline height secondary).found]
  exact length_candidates_le oam scanline height

/-- Two searches that have found the same so far, with second memories that agree where sprites
are copied to and in the first `places` places. -/
structure Evaluation.Close (places : Nat) (left right : Evaluation) : Prop where
  found : right.found = left.found
  zero : right.zero = left.zero
  overflow : right.overflow = left.overflow
  found_le : left.found ≤ perLine
  secondary : ∀ cell < 4 * max left.found places,
    right.secondary.get cell = left.secondary.get cell

/-- Two searches copy the same sprite. -/
theorem Evaluation.Close.copy {places : Nat} {left right : Evaluation}
    (h : left.Close places right) (hroom : left.found < perLine) (oam : Memory 8) (n : Nat) :
    Close places
      { left with
        secondary := Sprite.copy oam n left.found left.secondary
        found := left.found + 1
        zero := left.zero || n == 0 }
      { right with
        secondary := Sprite.copy oam n right.found right.secondary
        found := right.found + 1
        zero := right.zero || n == 0 } := by
  refine ⟨?_, ?_, h.overflow, hroom, ?_⟩
  · rw [h.found]
  · rw [h.zero]
  · intro cell hcell
    dsimp only at hcell ⊢
    rw [h.found]
    by_cases hcopied : left.found * 4 ≤ cell ∧ cell < left.found * 4 + 4
    · obtain ⟨byte, rfl⟩ := Nat.exists_eq_add_of_le hcopied.1
      have hbyte : byte < 4 := by omega
      rw [get_copy oam n _ hroom hbyte, get_copy oam n _ hroom hbyte]
    · exact Memory.get_load_congr (h.secondary cell (by omega)) _ _

/-- What a search finds does not depend on the second memory before. -/
theorem Evaluation.Close.search {places : Nat} {left right : Evaluation}
    (h : left.Close places right) (oam : Memory 8) (scanline height count : Nat) :
    (Sprite.search oam scanline height count left).Close places
      (Sprite.search oam scanline height count right) := by
  induction count generalizing left right with
  | zero => exact h
  | succ count ih =>
    unfold Sprite.search
    dsimp only
    rw [h.found]
    by_cases hfull : left.found = perLine
    · rw [if_pos hfull, if_pos hfull]
      exact ⟨rfl, h.zero, rfl, h.found_le, h.secondary⟩
    · rw [if_neg hfull, if_neg hfull]
      split
      · have hroom : left.found < perLine := Nat.lt_of_le_of_ne h.found_le hfull
        have hcopy := h.copy hroom oam (total - (count + 1))
        rw [h.found] at hcopy
        exact ih hcopy
      · exact ih h

end Sprite

end Famicom
