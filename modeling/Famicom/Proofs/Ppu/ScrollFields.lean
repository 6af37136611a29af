import Famicom.Ppu.Scroll

/-!
# The fields of a picture address

A picture address packs five fields into one word. Taken apart, the fields are plain numbers,
and exchanging one of them leaves the others alone. So the two steps and the two copies of the
scroll registers are changes of a record, and what they add up to is arithmetic on its fields:
steps to the right walk around 64 columns, steps down around 480 lines.
-/

namespace Famicom.PictureAddress

/-- The fields that a picture address packs. -/
@[ext] structure Fields where
  /-- Column of the tile. -/
  coarseX : Nat
  /-- Row of the tile; rows 30 and 31 hold attributes. -/
  coarseY : Nat
  /-- Which of two nametables side by side. -/
  nametableX : Nat
  /-- Which of two nametables one above the other. -/
  nametableY : Nat
  /-- Line within the tile. -/
  fineY : Nat
deriving DecidableEq, Repr

/-- An address taken apart. -/
def fields (v : UInt16) : Fields :=
  { coarseX := v.toNat % 0x20
    coarseY := v.toNat / 0x20 % 0x20
    nametableX := v.toNat / 0x400 % 2
    nametableY := v.toNat / 0x800 % 2
    fineY := v.toNat / 0x1000 % 8 }

/-- The numbers that fit into the fields. -/
structure Fields.Fit (f : Fields) : Prop where
  coarseX_lt : f.coarseX < 32
  coarseY_lt : f.coarseY < 32
  nametableX_lt : f.nametableX < 2
  nametableY_lt : f.nametableY < 2
  fineY_lt : f.fineY < 8

/-- The fields of an address fit. -/
theorem fields_fit (v : UInt16) : (fields v).Fit := by
  constructor <;> exact Nat.mod_lt _ (by decide)

theorem toNat_coarseX (v : UInt16) : (coarseX v).toNat = (fields v).coarseX := by
  rw [coarseX, UInt16.toNat_mod]
  rfl

theorem toNat_coarseY (v : UInt16) : (coarseY v).toNat = (fields v).coarseY := by
  rw [coarseY, UInt16.toNat_mod, UInt16.toNat_div]
  rfl

theorem toNat_nametableX (v : UInt16) : (nametableX v).toNat = (fields v).nametableX := by
  rw [nametableX, UInt16.toNat_mod, UInt16.toNat_div]
  rfl

theorem toNat_nametableY (v : UInt16) : (nametableY v).toNat = (fields v).nametableY := by
  rw [nametableY, UInt16.toNat_mod, UInt16.toNat_div]
  rfl

theorem toNat_fineY (v : UInt16) : (fineY v).toNat = (fields v).fineY := by
  rw [fineY, UInt16.toNat_mod, UInt16.toNat_div]
  rfl

/-- The address with another column, as arithmetic. -/
theorem toNat_withCoarseX (v x : UInt16) :
    (withCoarseX v x).toNat = v.toNat - v.toNat % 0x20 + x.toNat % 0x20 := by
  have hv := v.toNat_lt
  simp only [withCoarseX, UInt16.toNat_add, UInt16.toNat_sub, UInt16.toNat_mod, toNat_coarseX,
    fields, UInt16.reduceToNat]
  omega

/-- The address with another row, as arithmetic. -/
theorem toNat_withCoarseY (v y : UInt16) :
    (withCoarseY v y).toNat =
      v.toNat - v.toNat / 0x20 % 0x20 * 0x20 + y.toNat % 0x20 * 0x20 := by
  have hv := v.toNat_lt
  simp only [withCoarseY, UInt16.toNat_add, UInt16.toNat_sub, UInt16.toNat_mul, UInt16.toNat_mod,
    toNat_coarseY, fields, UInt16.reduceToNat]
  omega

/-- The address with another horizontal nametable bit, as arithmetic. -/
theorem toNat_withNametableX (v n : UInt16) :
    (withNametableX v n).toNat =
      v.toNat - v.toNat / 0x400 % 2 * 0x400 + n.toNat % 2 * 0x400 := by
  have hv := v.toNat_lt
  simp only [withNametableX, UInt16.toNat_add, UInt16.toNat_sub, UInt16.toNat_mul,
    UInt16.toNat_mod, toNat_nametableX, fields, UInt16.reduceToNat]
  omega

/-- The address with another vertical nametable bit, as arithmetic. -/
theorem toNat_withNametableY (v n : UInt16) :
    (withNametableY v n).toNat =
      v.toNat - v.toNat / 0x800 % 2 * 0x800 + n.toNat % 2 * 0x800 := by
  have hv := v.toNat_lt
  simp only [withNametableY, UInt16.toNat_add, UInt16.toNat_sub, UInt16.toNat_mul,
    UInt16.toNat_mod, toNat_nametableY, fields, UInt16.reduceToNat]
  omega

/-- The address with another line within the tile, as arithmetic. -/
theorem toNat_withFineY (v y : UInt16) :
    (withFineY v y).toNat =
      v.toNat - v.toNat / 0x1000 % 8 * 0x1000 + y.toNat % 8 * 0x1000 := by
  have hv := v.toNat_lt
  simp only [withFineY, UInt16.toNat_add, UInt16.toNat_sub, UInt16.toNat_mul, UInt16.toNat_mod,
    toNat_fineY, fields, UInt16.reduceToNat]
  omega

/-- Exchanging the column changes no other field. -/
theorem fields_withCoarseX (v x : UInt16) :
    fields (withCoarseX v x) = { fields v with coarseX := x.toNat % 0x20 } := by
  have hv := v.toNat_lt
  ext <;> simp only [fields, toNat_withCoarseX] <;> omega

/-- Exchanging the row changes no other field. -/
theorem fields_withCoarseY (v y : UInt16) :
    fields (withCoarseY v y) = { fields v with coarseY := y.toNat % 0x20 } := by
  have hv := v.toNat_lt
  ext <;> simp only [fields, toNat_withCoarseY] <;> omega

/-- Exchanging the horizontal nametable bit changes no other field. -/
theorem fields_withNametableX (v n : UInt16) :
    fields (withNametableX v n) = { fields v with nametableX := n.toNat % 2 } := by
  have hv := v.toNat_lt
  ext <;> simp only [fields, toNat_withNametableX] <;> omega

/-- Exchanging the vertical nametable bit changes no other field. -/
theorem fields_withNametableY (v n : UInt16) :
    fields (withNametableY v n) = { fields v with nametableY := n.toNat % 2 } := by
  have hv := v.toNat_lt
  ext <;> simp only [fields, toNat_withNametableY] <;> omega

/-- Exchanging the line within the tile changes no other field. -/
theorem fields_withFineY (v y : UInt16) :
    fields (withFineY v y) = { fields v with fineY := y.toNat % 8 } := by
  have hv := v.toNat_lt
  ext <;> simp only [fields, toNat_withFineY] <;> omega

namespace Fields

/-- One tile to the right, from the last column into the neighbouring nametable. -/
def right (f : Fields) : Fields :=
  if f.coarseX = 31 then { f with coarseX := 0, nametableX := (f.nametableX + 1) % 2 }
  else { f with coarseX := f.coarseX + 1 }

/-- One line down. Row 29 is followed by the neighbouring nametable, row 31 by the top of the
same one. -/
def down (f : Fields) : Fields :=
  if f.fineY ≠ 7 then { f with fineY := f.fineY + 1 }
  else if f.coarseY = 29 then
    { f with fineY := 0, coarseY := 0, nametableY := (f.nametableY + 1) % 2 }
  else { f with fineY := 0, coarseY := (f.coarseY + 1) % 32 }

/-- The column, counted through two nametables side by side. -/
def column (f : Fields) : Nat := 32 * f.nametableX + f.coarseX

/-- The line, counted through the 30 rows of two nametables one above the other. -/
def line (f : Fields) : Nat := 240 * f.nametableY + 8 * f.coarseY + f.fineY

/-- The vertical part of the position is the same. -/
structure SameLine (f g : Fields) : Prop where
  coarseY : g.coarseY = f.coarseY
  nametableY : g.nametableY = f.nametableY
  fineY : g.fineY = f.fineY

/-- The horizontal part of the position is the same. -/
structure SameColumn (f g : Fields) : Prop where
  coarseX : g.coarseX = f.coarseX
  nametableX : g.nametableX = f.nametableX

theorem SameLine.trans {f g h : Fields} (first : SameLine f g) (second : SameLine g h) :
    SameLine f h :=
  ⟨second.coarseY.trans first.coarseY, second.nametableY.trans first.nametableY,
    second.fineY.trans first.fineY⟩

/-- The counted column depends on the horizontal part alone. -/
theorem SameColumn.column {f g : Fields} (h : SameColumn f g) : g.column = f.column := by
  rw [Fields.column, Fields.column, h.coarseX, h.nametableX]

/-- A step to the right stays on the line. -/
theorem sameLine_right (f : Fields) : SameLine f f.right := by
  unfold right
  split <;> exact ⟨rfl, rfl, rfl⟩

/-- A step down stays in the column. -/
theorem sameColumn_down (f : Fields) : SameColumn f f.down := by
  unfold down
  split
  · exact ⟨rfl, rfl⟩
  · split <;> exact ⟨rfl, rfl⟩

/-- Where a step down leads depends on the vertical part alone. -/
theorem SameLine.down {f g : Fields} (h : SameLine f g) : SameLine f.down g.down := by
  unfold Fields.down
  rw [h.fineY, h.coarseY]
  split
  · exact ⟨rfl, h.nametableY, rfl⟩
  · split
    · exact ⟨rfl, congrArg (fun n => (n + 1) % 2) h.nametableY, rfl⟩
    · exact ⟨rfl, h.nametableY, rfl⟩

/-- A step to the right counts the column up, through two nametables and round again. -/
theorem Fit.column_right {f : Fields} (h : f.Fit) : f.right.column = (f.column + 1) % 64 := by
  have hx := h.coarseX_lt
  have hn := h.nametableX_lt
  unfold right column
  split
  · dsimp only
    omega
  · dsimp only
    omega

/-- Above the attributes a step down counts the line up, through two nametables and round again,
and stays above the attributes. -/
theorem Fit.line_down {f : Fields} (h : f.Fit) (hpicture : f.coarseY ≤ 29) :
    f.down.line = (f.line + 1) % 480 ∧ f.down.coarseY ≤ 29 := by
  have hn := h.nametableY_lt
  have hy := h.fineY_lt
  unfold down line
  split
  · dsimp only
    omega
  · split
    · dsimp only
      omega
    · dsimp only
      omega

end Fields

/-- A step to the right on the fields. -/
theorem fields_incrementX (v : UInt16) : fields (incrementX v) = (fields v).right := by
  have hn := (fields_fit v).nametableX_lt
  have hx := (fields_fit v).coarseX_lt
  have hlast : coarseX v = 31 ↔ (fields v).coarseX = 31 := by
    rw [← UInt16.toNat_inj, toNat_coarseX]
    rfl
  unfold incrementX Fields.right
  by_cases h : (fields v).coarseX = 31
  · rw [if_pos (hlast.mpr h), if_pos h, fields_withNametableX, fields_withCoarseX,
      UInt16.toNat_add, toNat_nametableX]
    ext <;> simp only [UInt16.reduceToNat]
    omega
  · rw [if_neg (fun heq => h (hlast.mp heq)), if_neg h, fields_withCoarseX, UInt16.toNat_add,
      toNat_coarseX]
    ext <;> simp only [UInt16.reduceToNat]
    omega

/-- A step down on the fields. -/
theorem fields_incrementY (v : UInt16) : fields (incrementY v) = (fields v).down := by
  have hn := (fields_fit v).nametableY_lt
  have hc := (fields_fit v).coarseY_lt
  have hy := (fields_fit v).fineY_lt
  have hbottom : fineY v = 7 ↔ (fields v).fineY = 7 := by
    rw [← UInt16.toNat_inj, toNat_fineY]
    rfl
  have hlast : coarseY v = 29 ↔ (fields v).coarseY = 29 := by
    rw [← UInt16.toNat_inj, toNat_coarseY]
    rfl
  unfold incrementY Fields.down
  simp only [ne_eq, hbottom, hlast]
  split
  · rw [fields_withFineY, UInt16.toNat_add, toNat_fineY]
    ext <;> simp only [UInt16.reduceToNat]
    omega
  · split
    · rw [fields_withNametableY, fields_withCoarseY, fields_withFineY, UInt16.toNat_add,
        toNat_nametableY]
      ext <;> simp only [UInt16.reduceToNat]
      omega
    · rw [fields_withCoarseY, fields_withFineY, UInt16.toNat_add, toNat_coarseY]
      ext <;> simp only [UInt16.reduceToNat]
      omega

/-- The horizontal copy takes over the horizontal part and keeps the vertical part. -/
theorem fields_copyHorizontal (v t : UInt16) :
    fields (copyHorizontal v t) =
      { fields v with coarseX := (fields t).coarseX, nametableX := (fields t).nametableX } := by
  have ht := fields_fit t
  rw [copyHorizontal, fields_withNametableX, fields_withCoarseX, toNat_nametableX, toNat_coarseX,
    Nat.mod_eq_of_lt ht.nametableX_lt, Nat.mod_eq_of_lt ht.coarseX_lt]

/-- The vertical copy takes over the vertical part and keeps the horizontal part. -/
theorem fields_copyVertical (v t : UInt16) :
    fields (copyVertical v t) =
      { fields v with
        coarseY := (fields t).coarseY
        nametableY := (fields t).nametableY
        fineY := (fields t).fineY } := by
  have ht := fields_fit t
  rw [copyVertical, fields_withFineY, fields_withNametableY, fields_withCoarseY, toNat_fineY,
    toNat_nametableY, toNat_coarseY, Nat.mod_eq_of_lt ht.fineY_lt,
    Nat.mod_eq_of_lt ht.nametableY_lt, Nat.mod_eq_of_lt ht.coarseY_lt]

/-- The picture address a number of lines further down. -/
def linesDown (v : UInt16) : Nat → UInt16
  | 0 => v
  | lines + 1 => incrementY (linesDown v lines)

/-- From a row of the picture, steps down count the line up, through two nametables and round
again. -/
theorem line_linesDown {v : UInt16} (h : (fields v).coarseY ≤ 29) (lines : Nat) :
    (fields (linesDown v lines)).line = ((fields v).line + lines) % 480 ∧
      (fields (linesDown v lines)).coarseY ≤ 29 := by
  induction lines with
  | zero =>
    have hn := (fields_fit v).nametableY_lt
    have hy := (fields_fit v).fineY_lt
    refine ⟨?_, h⟩
    change (fields v).line = ((fields v).line + 0) % 480
    rw [Fields.line]
    omega
  | succ lines ih =>
    obtain ⟨hline, hpicture⟩ := ih
    obtain ⟨hline', hpicture'⟩ := (fields_fit (linesDown v lines)).line_down hpicture
    rw [linesDown, fields_incrementY, hline', hline]
    refine ⟨?_, hpicture'⟩
    omega

end Famicom.PictureAddress
