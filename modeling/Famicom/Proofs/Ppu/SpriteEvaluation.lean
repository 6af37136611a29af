import Famicom.Ppu.Dot
import Famicom.Proofs.Ppu.SpriteSearch

/-!
# The sprite search, its overflow flag included

The search keeps the first eight sprites that touch the next line and leaves the other places of
the second memory alone. Behind the eighth one it goes on along a diagonal of object memory, so the
flag tells what lies on that diagonal and not whether a ninth sprite touches the line: it can rise
where there is none, and stay low where there is one. The search looks at each sprite once, and is
over at the latest when it has looked at all of them.
-/

namespace Famicom

namespace Sprite

variable {oam : Memory 8} {scanline height : Nat} {picked : List Nat} {evaluation : Evaluation}

/-- The sprites that touch the line after `scanline`, in the order of object memory. -/
def touching (oam : Memory 8) (scanline height : Nat) : List Nat :=
  (List.range total).filter (touches oam scanline height)

/-- A sprite touches the line by its row. -/
theorem mem_touching_iff (oam : Memory 8) (scanline height n : Nat) :
    n ∈ touching oam scanline height ↔
      n < total ∧ (oam.get (n * 4)).toNat ≤ scanline ∧
        scanline - (oam.get (n * 4)).toNat < height := by
  rw [touching, List.mem_filter, List.mem_range, touches, decide_eq_true_eq]

/-- The sprites that touch a line are listed in ascending order. -/
theorem touching_ascends (oam : Memory 8) (scanline height : Nat) :
    (touching oam scanline height).Pairwise (· < ·) :=
  List.pairwise_lt_range.filter _

/-- The first sprite of object memory comes first or does not touch the line. -/
theorem head_touching (h : 0 ∈ touching oam scanline height) :
    (touching oam scanline height)[0]? = some 0 := by
  have htouches := (List.mem_filter.mp h).2
  rw [touching, total, List.range_succ_eq_map, List.filter_cons_of_pos htouches]
  rfl

/-- The line shows the first eight of the sprites that touch it. -/
theorem candidates_eq (oam : Memory 8) (scanline height : Nat) :
    candidates oam scanline height = (touching oam scanline height).take perLine := rfl

/-- The first sprite of object memory is shown when it touches the line. -/
theorem zero_mem_candidates_iff_touching (oam : Memory 8) (scanline height : Nat) :
    0 ∈ candidates oam scanline height ↔ 0 ∈ touching oam scanline height := by
  constructor
  · exact List.mem_of_mem_take
  · intro h
    refine List.mem_of_getElem? (i := 0) ?_
    rw [candidates_eq, List.getElem?_take_of_lt (by decide)]
    exact head_touching h

/-- Copying a sprite leaves the places behind it alone. -/
theorem get_copy_behind (oam : Memory 8) (n slot : Nat) (secondary : Memory 5) {cell : Nat}
    (hbehind : (slot + 1) * 4 ≤ cell) (hcell : cell < 32) :
    (copy oam n slot secondary).get cell = secondary.get cell := by
  have hlength : (oam.read (n * 4) 4).length = 4 := by
    rw [Memory.read, List.length_map, List.length_range]
  have hsize : chipSize 5 = 32 := rfl
  rw [copy, Memory.get_load_outside _ (by omega) (by omega) (by omega)]

/-- What has been found with sprite `n` kept as well. -/
def Evaluation.keep (evaluation : Evaluation) (oam : Memory 8) (n : Nat) : Evaluation :=
  { evaluation with
    secondary := copy oam n evaluation.found evaluation.secondary
    found := evaluation.found + 1
    zero := evaluation.zero || n == 0 }

/-- What has been found with the overflow flag as it turned out. -/
def Evaluation.withOverflow (evaluation : Evaluation) (overflow : Bool) : Evaluation :=
  { evaluation with overflow }

/-- Before eight sprites are found, the search keeps each sprite that touches the line. -/
theorem search_of_room {left : Nat} (hroom : evaluation.found < perLine) :
    search oam scanline height (left + 1) evaluation =
      search oam scanline height left
        (if touches oam scanline height (total - (left + 1)) then
          evaluation.keep oam (total - (left + 1)) else evaluation) := by
  rw [search, if_neg (Nat.ne_of_lt hroom)]
  change (if touches oam scanline height (total - (left + 1)) then _ else _) = _
  split <;> rfl

/-- With eight sprites found the search only looks for one more. -/
theorem search_of_full (hfull : evaluation.found = perLine) (hlow : evaluation.overflow = false)
    (oam : Memory 8) (scanline height left : Nat) :
    search oam scanline height left evaluation =
      evaluation.withOverflow (searchOverflow oam scanline height left 0) := by
  cases left with
  | zero =>
    rw [search, searchOverflow, ← hlow]
    rfl
  | succ left =>
    rw [search, if_pos hfull]
    rfl

/-- The search only adds to what it has found, and leaves the places behind it alone. -/
theorem search_leaves (hroom : evaluation.found ≤ perLine) (hlow : evaluation.overflow = false)
    (oam : Memory 8) (scanline height left : Nat) :
    evaluation.found ≤ (search oam scanline height left evaluation).found ∧
      ∀ cell, (search oam scanline height left evaluation).found * 4 ≤ cell → cell < 32 →
        (search oam scanline height left evaluation).secondary.get cell =
          evaluation.secondary.get cell := by
  induction left generalizing evaluation with
  | zero => exact ⟨Nat.le_refl _, fun _ _ _ => rfl⟩
  | succ left ih =>
    by_cases hfull : evaluation.found = perLine
    · rw [search_of_full hfull hlow]
      exact ⟨Nat.le_refl _, fun _ _ _ => rfl⟩
    · have hroom' : evaluation.found < perLine := Nat.lt_of_le_of_ne hroom hfull
      rw [search_of_room hroom']
      split
      · have hkept : (evaluation.keep oam (total - (left + 1))).found ≤ perLine := hroom'
        obtain ⟨hfound, hleaves⟩ := ih hkept hlow
        refine ⟨Nat.le_of_succ_le hfound, fun cell hbehind hcell => ?_⟩
        rw [hleaves cell hbehind hcell]
        exact get_copy_behind _ _ _ _ (Nat.le_trans (Nat.mul_le_mul_right 4 hfound) hbehind) hcell
      · exact ih hroom hlow

/-- The search for one more sprite goes down the diagonal from its first byte. -/
theorem searchOverflow_iff (oam : Memory 8) (scanline height : Nat) {left : Nat}
    (hleft : left ≤ total) (column : Nat) (hcolumn : column < 4) :
    searchOverflow oam scanline height left column = true ↔
      ∃ k < left, inRange scanline height
        (oam.get ((total - left + k) * 4 + (column + k) % 4)) = true := by
  induction left generalizing column with
  | zero =>
    exact ⟨fun h => absurd h Bool.false_ne_true,
      fun ⟨k, hk, _⟩ => absurd hk (Nat.not_lt_zero k)⟩
  | succ left ih =>
    have hfirst : (total - (left + 1) + 0) * 4 + (column + 0) % 4 =
        (total - (left + 1)) * 4 + column := by omega
    have hlater (k : Nat) : (total - (left + 1) + (k + 1)) * 4 + (column + (k + 1)) % 4 =
        (total - left + k) * 4 + ((column + 1) % 4 + k) % 4 := by omega
    rw [searchOverflow, Bool.or_eq_true, ih (by omega) _ (Nat.mod_lt _ (by decide))]
    constructor
    · rintro (hbyte | ⟨k, hk, hbyte⟩)
      · exact ⟨0, by omega, hfirst ▸ hbyte⟩
      · exact ⟨k + 1, by omega, hlater k ▸ hbyte⟩
    · rintro ⟨k, hk, hbyte⟩
      cases k with
      | zero => exact .inl (hfirst ▸ hbyte)
      | succ k => exact .inr ⟨k, by omega, hlater k ▸ hbyte⟩

/-- Some byte on the diagonal that begins behind sprite `e` would be the row of a sprite that
touches the line. -/
def Diagonal (oam : Memory 8) (scanline height e : Nat) : Prop :=
  ∃ k, e + 1 + k < total ∧
    inRange scanline height (oam.get ((e + 1 + k) * 4 + k % 4)) = true

/-- The overflow flag of a search that has not found eight sprites yet. -/
theorem search_overflow_iff (hroom : evaluation.found < perLine)
    (hfound : evaluation.found = picked.length) (hlow : evaluation.overflow = false)
    {left : Nat} (hleft : left ≤ total) :
    (search oam scanline height left evaluation).overflow = true ↔
      ∃ e, (picked ++ (List.range' (total - left) left).filter
        (touches oam scanline height))[perLine - 1]? = some e ∧
        Diagonal oam scanline height e := by
  induction left generalizing picked evaluation with
  | zero =>
    rw [search, hlow, List.range'_zero, List.filter_nil, List.append_nil,
      List.getElem?_eq_none (by omega)]
    exact ⟨fun h => absurd h Bool.false_ne_true, fun ⟨_, h, _⟩ => nomatch h⟩
  | succ left ih =>
    have hnext : total - (left + 1) + 1 = total - left := by omega
    rw [List.range'_succ, hnext, search_of_room hroom]
    split
    · next htouches =>
      rw [List.filter_cons_of_pos htouches, List.append_cons]
      by_cases hlast : evaluation.found + 1 = perLine
      · -- this is the eighth sprite, and the diagonal begins behind it
        have heighth (rest : List Nat) :
            (picked ++ [total - (left + 1)] ++ rest)[perLine - 1]? =
              some (total - (left + 1)) := by
          rw [List.getElem?_append_left (by
              rw [List.length_append, List.length_singleton]; omega),
            List.getElem?_append_right (by omega), (by omega : perLine - 1 - picked.length = 0)]
          rfl
        have hfull : (evaluation.keep oam (total - (left + 1))).found = perLine := hlast
        rw [search_of_full hfull hlow, heighth]
        change searchOverflow oam scanline height left 0 = true ↔ _
        rw [searchOverflow_iff oam scanline height (by omega) 0 (by decide)]
        simp only [Nat.zero_add]
        constructor
        · rintro ⟨k, hk, hbyte⟩
          refine ⟨_, rfl, k, by omega, ?_⟩
          rw [hnext]
          exact hbyte
        · rintro ⟨e, heq, k, hk, hbyte⟩
          obtain rfl := Option.some.inj heq
          rw [hnext] at hbyte
          exact ⟨k, by omega, hbyte⟩
      · have hroom' : (evaluation.keep oam (total - (left + 1))).found < perLine :=
          Nat.lt_of_le_of_ne hroom hlast
        refine ih hroom' ?_ hlow (by omega)
        rw [List.length_append, List.length_singleton, ← hfound]
        rfl
    · next htouches =>
      rw [List.filter_cons_of_neg htouches]
      exact ih hroom hfound hlow (by omega)

/-- The overflow flag of a whole search. -/
theorem overflow_evaluate_iff (oam : Memory 8) (scanline height : Nat) (secondary : Memory 5) :
    (evaluate oam scanline height secondary).overflow = true ↔
      ∃ e, (touching oam scanline height)[7]? = some e ∧ Diagonal oam scanline height e := by
  have hoverflow : (evaluate oam scanline height secondary).overflow = true ↔
      ∃ e, ([] ++ (List.range' (total - total) total).filter
        (touches oam scanline height))[perLine - 1]? = some e ∧ Diagonal oam scanline height e :=
    search_overflow_iff (Nat.succ_pos 7) rfl rfl (Nat.le_refl total)
  rw [Nat.sub_self, List.nil_append, ← List.range_eq_range'] at hoverflow
  exact hoverflow

/-- The search between two of its steps. -/
structure Scan where
  /-- The sprite that is looked at next. -/
  n : Nat := 0
  /-- The byte of it that is taken for a row once eight sprites are found. -/
  column : Nat := 0
  /-- What has been found. -/
  evaluation : Evaluation

namespace Scan

/-- The search is over when it has looked at all sprites or at one more than fit. -/
def ended (scan : Scan) : Bool := decide (total ≤ scan.n) || scan.evaluation.overflow

/-- Look at one sprite. -/
def step (oam : Memory 8) (scanline height : Nat) (scan : Scan) : Scan :=
  if scan.evaluation.found < perLine then
    { scan with
      n := scan.n + 1
      evaluation :=
        if touches oam scanline height scan.n then scan.evaluation.keep oam scan.n
        else scan.evaluation }
  else if inRange scanline height (oam.get (scan.n * 4 + scan.column)) then
    { scan with evaluation := scan.evaluation.withOverflow true }
  else { scan with n := scan.n + 1, column := (scan.column + 1) % 4 }

/-- Go on for at most a number of steps. -/
def run (oam : Memory 8) (scanline height : Nat) : (steps : Nat) → Scan → Scan
  | 0, scan => scan
  | steps + 1, scan =>
    if scan.ended then scan else run oam scanline height steps (scan.step oam scanline height)

variable {scan : Scan} {left : Nat}

/-- A search that is over stays as it is. -/
theorem run_of_ended (h : scan.ended = true) (steps : Nat) :
    scan.run oam scanline height steps = scan := by
  cases steps with
  | zero => rfl
  | succ steps => rw [run, if_pos h]

/-- Before all sprites are looked at, a search without overflow goes on. -/
theorem run_succ (hn : scan.n < total) (hlow : scan.evaluation.overflow = false) (steps : Nat) :
    scan.run oam scanline height (steps + 1) =
      (scan.step oam scanline height).run oam scanline height steps := by
  have hopen : scan.ended = false := by
    rw [ended, hlow, Bool.or_false, decide_eq_false (Nat.not_le.mpr hn)]
  rw [run, hopen, if_neg Bool.false_ne_true]

/-- A search that has looked at all sprites is over. -/
theorem ended_of_total (h : total ≤ scan.n) : scan.ended = true := by
  rw [ended, decide_eq_true h, Bool.true_or]

/-- With eight sprites found, each step goes one place further down the diagonal. -/
theorem run_of_full (hfull : scan.evaluation.found = perLine)
    (hlow : scan.evaluation.overflow = false) (hleft : left ≤ total) (hn : scan.n = total - left) :
    (scan.run oam scanline height left).ended = true ∧
      (scan.run oam scanline height left).evaluation =
        scan.evaluation.withOverflow (searchOverflow oam scanline height left scan.column) := by
  induction left generalizing scan with
  | zero =>
    rw [run, searchOverflow, ← hlow]
    exact ⟨ended_of_total (by omega), rfl⟩
  | succ left ih =>
    rw [run_succ (by omega) hlow, step, if_neg (by omega), searchOverflow, ← hn]
    split
    · next hbyte =>
      have hended : ({ scan with evaluation := scan.evaluation.withOverflow true } :
          Scan).ended = true := Bool.or_true _
      rw [run_of_ended hended, hbyte]
      exact ⟨hended, rfl⟩
    · next hbyte =>
      rw [Bool.eq_false_iff.mpr hbyte, Bool.false_or]
      exact ih hfull hlow (by omega) (by dsimp only; omega)

/-- The steps of the search find what the search finds, and are over when each sprite has been
looked at once. -/
theorem run_eq_search (hroom : scan.evaluation.found ≤ perLine)
    (hlow : scan.evaluation.overflow = false) (hcolumn : scan.column = 0) (hleft : left ≤ total)
    (hn : scan.n = total - left) :
    (scan.run oam scanline height left).ended = true ∧
      (scan.run oam scanline height left).evaluation =
        search oam scanline height left scan.evaluation := by
  induction left generalizing scan with
  | zero => exact ⟨ended_of_total (by rw [run]; omega), rfl⟩
  | succ left ih =>
    by_cases hfull : scan.evaluation.found = perLine
    · rw [search_of_full hfull hlow, ← hcolumn]
      exact run_of_full hfull hlow hleft hn
    · have hroom' : scan.evaluation.found < perLine := Nat.lt_of_le_of_ne hroom hfull
      rw [run_succ (by omega) hlow, step, if_pos hroom', search_of_room hroom', ← hn]
      split
      · exact ih hroom' hlow hcolumn (by omega) (by dsimp only; omega)
      · exact ih hroom hlow hcolumn (by omega) (by dsimp only; omega)

end Scan

end Sprite

namespace Ppu

open Sprite

/-- **The sprite search, its overflow flag included.** With the sprites that touch the next line in
the order of object memory: the bytes of the first eight are copied to consecutive places of the
second memory, whose other places stay as they are; they are counted, and the first sprite of object
memory is noted when it is among them, in the first place. The overflow flag stays as it is, unless
there are eight and a byte on the diagonal behind the eighth one would be the row of a sprite that
touches the line; then it rises. Nothing else changes. The search looks at one sprite in each step
and is over after at most 64 of them. -/
theorem evaluateSprites_exact (ppu : Ppu) :
    let height := ppu.control.spriteHeight
    let found := touching ppu.oam ppu.scanline height
    let after := ppu.evaluateSprites
    let scan := Scan.run ppu.oam ppu.scanline height total
      { evaluation := { secondary := ppu.secondaryOam } }
    (found.Pairwise (· < ·) ∧ ∀ n, n ∈ found ↔ n < 64 ∧
      (ppu.oam.get (n * 4)).toNat ≤ ppu.scanline ∧
        ppu.scanline - (ppu.oam.get (n * 4)).toNat < height) ∧
      after.pickedCount = min 8 found.length ∧
      (∀ slot n, slot < 8 → found[slot]? = some n → ∀ byte < 4,
        after.secondaryOam.get (slot * 4 + byte) = ppu.oam.get (n * 4 + byte)) ∧
      (∀ slot < 8, found.length ≤ slot → ∀ byte < 4,
        after.secondaryOam.get (slot * 4 + byte) = ppu.secondaryOam.get (slot * 4 + byte)) ∧
      (after.pickedZero = true ↔ 0 ∈ found) ∧ (0 ∈ found → found[0]? = some 0) ∧
      (after.status.spriteOverflow = true ↔ ppu.status.spriteOverflow = true ∨
        ∃ e, found[7]? = some e ∧ ∃ k, e + 1 + k < 64 ∧
          inRange ppu.scanline height (ppu.oam.get ((e + 1 + k) * 4 + k % 4)) = true) ∧
      after = { ppu with
        secondaryOam := after.secondaryOam
        pickedCount := after.pickedCount
        pickedZero := after.pickedZero
        status := { ppu.status with spriteOverflow := after.status.spriteOverflow } } ∧
      scan.ended = true ∧
      (after.secondaryOam = scan.evaluation.secondary ∧ after.pickedCount = scan.evaluation.found ∧
        after.pickedZero = scan.evaluation.zero ∧
        after.status.spriteOverflow = (ppu.status.spriteOverflow || scan.evaluation.overflow)) := by
  intro height found after scan
  obtain ⟨hcount, hcopied, hzero⟩ :=
    evaluate_holds ppu.oam ppu.scanline height ppu.secondaryOam
  have hempty : ({ secondary := ppu.secondaryOam } : Evaluation).found ≤ perLine := Nat.zero_le _
  obtain ⟨-, hleaves⟩ := search_leaves hempty rfl ppu.oam ppu.scanline height total
  obtain ⟨hended, hscan⟩ : scan.ended = true ∧ scan.evaluation =
      search ppu.oam ppu.scanline height total { secondary := ppu.secondaryOam } :=
    Scan.run_eq_search hempty rfl rfl (Nat.le_refl total) (Nat.sub_self total).symm
  have hshown : candidates ppu.oam ppu.scanline height = found.take 8 := rfl
  have hcount' : after.pickedCount = min 8 found.length := by
    rw [← List.length_take, ← hshown]
    exact hcount
  refine ⟨⟨touching_ascends _ _ _, mem_touching_iff _ _ _⟩, hcount', ?_, ?_, ?_, head_touching, ?_,
    rfl, hended, ?_⟩
  · intro slot n hslot hn byte hbyte
    have hplace : (candidates ppu.oam ppu.scanline height)[slot]? = some n := by
      rw [hshown, List.getElem?_take_of_lt hslot, hn]
    obtain ⟨hlength, heq⟩ := List.getElem?_eq_some_iff.mp hplace
    rw [← heq]
    exact hcopied slot hlength byte hbyte
  · intro slot hslot hbehind byte hbyte
    refine hleaves (slot * 4 + byte) ?_ (by omega)
    change after.pickedCount * 4 ≤ slot * 4 + byte
    omega
  · change (evaluate ppu.oam ppu.scanline height ppu.secondaryOam).zero = true ↔ _
    rw [hzero, List.contains_iff_mem, zero_mem_candidates_iff_touching]
  · change (ppu.status.spriteOverflow ||
      (evaluate ppu.oam ppu.scanline height ppu.secondaryOam).overflow) = true ↔ _
    rw [Bool.or_eq_true, overflow_evaluate_iff]
    rfl
  · change scan.evaluation = evaluate ppu.oam ppu.scanline height ppu.secondaryOam at hscan
    rw [hscan]
    exact ⟨rfl, rfl, rfl, rfl⟩

/-- A false alarm: eight sprites touch the line and no more, but the tile number of the tenth one
lies on the diagonal behind them and would be a row of the line. -/
theorem evaluateSprites_exact_of_false_alarm :
    let rows : Memory 8 :=
      (List.range 8).foldl (fun oam n => oam.set (n * 4) 0) (Memory.filled 8 0xFF)
    let ppu : Ppu := { oam := rows.set (9 * 4 + 1) 0 }
    let found := touching ppu.oam ppu.scanline ppu.control.spriteHeight
    (found.length = 8 ∧ found[7]? = some 7) ∧
      ppu.evaluateSprites.pickedCount = 8 ∧ ppu.evaluateSprites.status.spriteOverflow = true := by
  intro rows ppu found
  have hfound : found = [0, 1, 2, 3, 4, 5, 6, 7] := by decide +kernel
  obtain ⟨-, hcount, -, -, -, -, hoverflow, -⟩ := evaluateSprites_exact ppu
  have hlast : found[7]? = some 7 := by rw [hfound]; rfl
  have hdiagonal : inRange ppu.scanline ppu.control.spriteHeight
      (ppu.oam.get ((7 + 1 + 1) * 4 + 1 % 4)) = true := by decide +kernel
  refine ⟨⟨by rw [hfound]; rfl, hlast⟩, hcount.trans ?_, ?_⟩
  · change min 8 found.length = 8
    rw [hfound]
    rfl
  · exact hoverflow.mpr (.inr ⟨7, hlast, 1, by decide, hdiagonal⟩)

end Ppu

end Famicom
