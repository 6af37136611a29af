import Famicom.Ppu.Control
import Famicom.Proofs.Ppu.ScrollFields
import Mathlib.Data.List.Induction

/-!
# Histories of the scroll registers

Programs write the scroll registers through three ports, and the picture moves them on. Whatever
the order, the packed registers behave as a record of fields would: each use replaces the fields
that it names, and only counting through memory carries from one field into the next. The bit above
the fields stays clear, so that no sum on an address leaves sixteen bits.
-/

namespace Famicom

namespace PictureAddress

/-- The bit above the fields, which no register has. -/
def spare (v : UInt16) : Nat := v.toNat / 0x8000

@[simp] theorem spare_withCoarseX (v x : UInt16) : spare (withCoarseX v x) = spare v := by
  have hv := v.toNat_lt
  rw [spare, spare, toNat_withCoarseX]
  omega

@[simp] theorem spare_withCoarseY (v y : UInt16) : spare (withCoarseY v y) = spare v := by
  have hv := v.toNat_lt
  rw [spare, spare, toNat_withCoarseY]
  omega

@[simp] theorem spare_withNametableX (v n : UInt16) : spare (withNametableX v n) = spare v := by
  have hv := v.toNat_lt
  rw [spare, spare, toNat_withNametableX]
  omega

@[simp] theorem spare_withNametableY (v n : UInt16) : spare (withNametableY v n) = spare v := by
  have hv := v.toNat_lt
  rw [spare, spare, toNat_withNametableY]
  omega

@[simp] theorem spare_withFineY (v y : UInt16) : spare (withFineY v y) = spare v := by
  have hv := v.toNat_lt
  rw [spare, spare, toNat_withFineY]
  omega

/-- A step to the right leaves the spare bit alone. -/
@[simp] theorem spare_incrementX (v : UInt16) : spare (incrementX v) = spare v := by
  unfold incrementX
  split <;> simp only [spare_withNametableX, spare_withCoarseX]

/-- A step down leaves the spare bit alone. -/
@[simp] theorem spare_incrementY (v : UInt16) : spare (incrementY v) = spare v := by
  unfold incrementY
  split
  · exact spare_withFineY v _
  · split <;> simp only [spare_withNametableY, spare_withCoarseY, spare_withFineY]

@[simp] theorem spare_copyHorizontal (v t : UInt16) : spare (copyHorizontal v t) = spare v := by
  simp only [copyHorizontal, spare_withNametableX, spare_withCoarseX]

@[simp] theorem spare_copyVertical (v t : UInt16) : spare (copyVertical v t) = spare v := by
  simp only [copyVertical, spare_withFineY, spare_withNametableY, spare_withCoarseY]

@[simp] theorem spare_copyNametables (v t : UInt16) : spare (copyNametables v t) = spare v := by
  simp only [copyNametables, spare_withNametableY, spare_withNametableX]

/-- Addresses of fifteen bits leave the spare bit clear. -/
theorem spare_eq_zero_iff (v : UInt16) : spare v = 0 ↔ v.toNat < 0x8000 := by
  unfold spare
  omega

namespace Fields

/-- The fields put together, the finest position at the top. -/
def packed (f : Fields) : Nat :=
  (((f.fineY * 2 + f.nametableY) * 2 + f.nametableX) * 32 + f.coarseY) * 32 + f.coarseX

/-- The next row of tiles in memory, from the last one on into the fields above. -/
def nextRow (f : Fields) : Fields :=
  if f.coarseY < 31 then { f with coarseY := f.coarseY + 1 }
  else if f.nametableX = 0 then { f with coarseY := 0, nametableX := 1 }
  else if f.nametableY = 0 then { f with coarseY := 0, nametableX := 0, nametableY := 1 }
  else { f with coarseY := 0, nametableX := 0, nametableY := 0, fineY := (f.fineY + 1) % 8 }

/-- The next tile in memory, from the last one of a row on to the next row. -/
def nextTile (f : Fields) : Fields :=
  if f.coarseX < 31 then { f with coarseX := f.coarseX + 1 }
  else { f with coarseX := 0 }.nextRow

end Fields

/-- An address is its spare bit above its fields. -/
theorem toNat_eq_packed (v : UInt16) : v.toNat = spare v * 0x8000 + (fields v).packed := by
  simp only [spare, fields, Fields.packed]
  omega

/-- Addresses with the same fields and the same spare bit are the same. -/
theorem eq_of_fields {v w : UInt16} (hfields : fields v = fields w) (hspare : spare v = spare w) :
    v = w := by
  rw [← UInt16.toNat_inj, toNat_eq_packed, toNat_eq_packed w, hfields, hspare]

/-- The nametable copy takes over both nametable bits. -/
theorem fields_copyNametables (v t : UInt16) :
    fields (copyNametables v t) =
      { fields v with
        nametableX := (fields t).nametableX
        nametableY := (fields t).nametableY } := by
  have ht := fields_fit t
  rw [copyNametables, fields_withNametableY, fields_withNametableX, toNat_nametableX,
    toNat_nametableY, Nat.mod_eq_of_lt ht.nametableX_lt, Nat.mod_eq_of_lt ht.nametableY_lt]

/-- The address that a pair of halves makes: six bits of the high one above the low one. -/
def ofHalves (high low : UInt8) : UInt16 := (high.toUInt16 &&& 0x3F) <<< 8 ||| low.toUInt16

/-- The address that a pair of halves makes, as arithmetic. -/
theorem toNat_ofHalves (high low : UInt8) :
    (ofHalves high low).toNat = high.toNat % 64 * 256 + low.toNat := by
  have hlow := low.toNat_lt
  have hmask : (high.toUInt16 &&& 0x3F).toNat = high.toNat % 64 := by
    rw [UInt16.toNat_and, UInt8.toNat_toUInt16]
    exact Nat.and_two_pow_sub_one_eq_mod high.toNat 6
  have hplaced : ((high.toUInt16 &&& 0x3F) <<< 8).toNat = high.toNat % 64 * 256 := by
    have hshifted := UInt16.toNat_shiftLeft (high.toUInt16 &&& 0x3F) 8
    rw [hmask, Nat.shiftLeft_eq] at hshifted
    change _ = high.toNat % 64 * 256 % 65536 at hshifted
    omega
  have hjoined := Nat.shiftLeft_add_eq_or_of_lt hlow (high.toNat % 64)
  rw [Nat.shiftLeft_eq] at hjoined
  rw [ofHalves, UInt16.toNat_or, hplaced, UInt8.toNat_toUInt16]
  exact hjoined.symm

/-- Counting an address up by a row of tiles carries through the fields above. -/
theorem fields_add_row (v : UInt16) : fields ((v + 32) % 0x8000) = (fields v).nextRow := by
  have hv := v.toNat_lt
  have hsum : ((v + 32) % 0x8000).toNat = (v.toNat + 32) % 0x8000 := by
    simp only [UInt16.toNat_mod, UInt16.toNat_add, UInt16.reduceToNat]
    omega
  unfold Fields.nextRow
  split
  · ext <;> simp only [fields, hsum] at * <;> omega
  · split
    · ext <;> simp only [fields, hsum] at * <;> omega
    · split
      · ext <;> simp only [fields, hsum] at * <;> omega
      · ext <;> simp only [fields, hsum] at * <;> omega

/-- Counting an address up by one tile carries from the last column into the next row. -/
theorem fields_add_tile (v : UInt16) : fields ((v + 1) % 0x8000) = (fields v).nextTile := by
  have hv := v.toNat_lt
  have hsum : ((v + 1) % 0x8000).toNat = (v.toNat + 1) % 0x8000 := by
    simp only [UInt16.toNat_mod, UInt16.toNat_add, UInt16.reduceToNat]
    omega
  unfold Fields.nextTile
  split
  · ext <;> simp only [fields, hsum] at * <;> omega
  · next hlast =>
    -- with the last column taken off, the carry is a step by one row
    have hlast' : v.toNat % 32 = 31 := by
      simp only [fields] at hlast
      omega
    have hbegin : (v - 31).toNat = v.toNat - 31 := by
      simp only [UInt16.toNat_sub, UInt16.reduceToNat]
      omega
    have hrow : (v + 1) % 0x8000 = (v - 31 + 32) % 0x8000 := by
      rw [← UInt16.toNat_inj, hsum]
      simp only [UInt16.toNat_mod, UInt16.toNat_add, hbegin, UInt16.reduceToNat]
      omega
    have hfields : fields (v - 31) = { fields v with coarseX := 0 } := by
      ext <;> simp only [fields, hbegin] <;> omega
    rw [hrow, fields_add_row, hfields]

end PictureAddress

open PictureAddress

/-- A use of the scroll registers. -/
inductive ScrollUse where
  /-- A write of the control register, which chooses the nametable. -/
  | selectNametable (control : Control)
  /-- A write of the scroll register. -/
  | writeScroll (value : UInt8)
  /-- A write of the address register. -/
  | writeAddress (value : UInt8)
  /-- A read of the status, which begins a new pair of writes. -/
  | resetToggle
  /-- A data access, after which the address moves on as the control register says. -/
  | advance (control : Control)
  | incrementX
  | incrementY
  | copyHorizontal
  | copyVertical
deriving DecidableEq, Repr

/-- Whether a use writes one half of a pair. -/
def ScrollUse.writesHalf : ScrollUse → Bool
  | writeScroll _ | writeAddress _ => true
  | _ => false

/-- The halves of pairs written since the toggle was reset last. -/
def ScrollUse.halves (uses : List ScrollUse) : Nat :=
  (uses.reverse.takeWhile (· ≠ .resetToggle)).countP writesHalf

/-- The scroll registers after a use. -/
def Scroll.afterUse (scroll : Scroll) : ScrollUse → Scroll
  | .selectNametable control => scroll.selectNametable control.nametableBits
  | .writeScroll value => scroll.writeScroll value
  | .writeAddress value => scroll.writeAddress value
  | .resetToggle => scroll.resetToggle
  | .advance control => scroll.advance control.addressStep
  | .incrementX => scroll.incrementX
  | .incrementY => scroll.incrementY
  | .copyHorizontal => scroll.copyHorizontal
  | .copyVertical => scroll.copyVertical

/-- The scroll registers after uses, one after the other. -/
def Scroll.afterAll (scroll : Scroll) (uses : List ScrollUse) : Scroll :=
  uses.foldl afterUse scroll

/-- The scroll registers with their addresses taken apart. -/
structure ScrollFields where
  /-- Fields of the current address. -/
  v : Fields := ⟨0, 0, 0, 0, 0⟩
  /-- Fields of the top left corner. -/
  t : Fields := ⟨0, 0, 0, 0, 0⟩
  /-- Column within the tile. -/
  x : Nat := 0
  /-- The next write is the second of a pair. -/
  w : Bool := false
deriving DecidableEq, Repr

namespace ScrollFields

/-- The fields after a use: which of them are replaced, and by what. -/
def afterUse (state : ScrollFields) : ScrollUse → ScrollFields
  | .selectNametable control =>
    let bits := control.bits.toNat
    { state with t := { state.t with nametableX := bits % 2, nametableY := bits / 2 % 2 } }
  | .writeScroll value =>
    let position := value.toNat
    if state.w then
      { state with
        t := { state.t with coarseY := position / 8, fineY := position % 8 }
        w := false }
    else
      { state with
        t := { state.t with coarseX := position / 8 }
        x := position % 8
        w := true }
  | .writeAddress value =>
    let byte := value.toNat
    if state.w then
      let t := { state.t with
        coarseX := byte % 32
        coarseY := state.t.coarseY / 8 * 8 + byte / 32 }
      { state with t, v := t, w := false }
    else
      { state with
        t := { state.t with
          coarseY := byte % 4 * 8 + state.t.coarseY % 8
          nametableX := byte / 4 % 2
          nametableY := byte / 8 % 2
          fineY := byte / 16 % 4 }
        w := true }
  | .resetToggle => { state with w := false }
  | .advance control =>
    if Byte.bit control.bits 0x04 then { state with v := state.v.nextRow }
    else { state with v := state.v.nextTile }
  | .incrementX => { state with v := state.v.right }
  | .incrementY => { state with v := state.v.down }
  | .copyHorizontal =>
    { state with
      v := { state.v with coarseX := state.t.coarseX, nametableX := state.t.nametableX } }
  | .copyVertical =>
    { state with
      v := { state.v with
        coarseY := state.t.coarseY
        nametableY := state.t.nametableY
        fineY := state.t.fineY } }

/-- The fields after uses, one after the other. -/
def afterAll (state : ScrollFields) (uses : List ScrollUse) : ScrollFields :=
  uses.foldl afterUse state

end ScrollFields

namespace Scroll

/-- Uses, followed by one more. -/
theorem afterAll_concat (scroll : Scroll) (uses : List ScrollUse) (use : ScrollUse) :
    scroll.afterAll (uses ++ [use]) = (scroll.afterAll uses).afterUse use :=
  List.foldl_append

/-- The registers taken apart. -/
def unpacked (scroll : Scroll) : ScrollFields :=
  { v := fields scroll.v, t := fields scroll.t, x := scroll.x.toNat, w := scroll.w }

/-- The bits of the control register choose the nametable of the top left corner. -/
theorem unpacked_selectNametable (scroll : Scroll) (control : Control) :
    (scroll.selectNametable control.nametableBits).unpacked =
      scroll.unpacked.afterUse (.selectNametable control) := by
  have hbits := control.bits.toNat_lt
  have hplaced : control.nametableBits.toNat = control.bits.toNat % 4 * 0x400 := by
    simp only [Control.nametableBits, UInt16.toNat_mul, UInt16.toNat_mod, UInt8.toNat_toUInt16,
      UInt16.reduceToNat]
    omega
  have hx : (fields control.nametableBits).nametableX = control.bits.toNat % 2 := by
    simp only [fields, hplaced]
    omega
  have hy : (fields control.nametableBits).nametableY = control.bits.toNat / 2 % 2 := by
    simp only [fields, hplaced]
    omega
  simp only [unpacked, selectNametable, PictureAddress.fields_copyNametables, hx, hy,
    ScrollFields.afterUse]

/-- A write of the scroll register replaces the horizontal or the vertical position. -/
theorem unpacked_writeScroll (scroll : Scroll) (value : UInt8) :
    (scroll.writeScroll value).unpacked = scroll.unpacked.afterUse (.writeScroll value) := by
  have hvalue := value.toNat_lt
  have hcoarse : (value.toUInt16 / 8).toNat % 32 = value.toNat / 8 := by
    simp only [UInt16.toNat_div, UInt8.toNat_toUInt16, UInt16.reduceToNat]
    omega
  have hfine : (value.toUInt16 % 8).toNat % 8 = value.toNat % 8 := by
    simp only [UInt16.toNat_mod, UInt8.toNat_toUInt16, UInt16.reduceToNat]
    omega
  have hx : (value % 8).toNat = value.toNat % 8 := UInt8.toNat_mod value 8
  cases hw : scroll.w with
  | true =>
    simp only [unpacked, writeScroll, ScrollFields.afterUse, hw, if_true,
      PictureAddress.fields_withFineY, PictureAddress.fields_withCoarseY, hcoarse, hfine]
  | false =>
    simp only [unpacked, writeScroll, ScrollFields.afterUse, hw, Bool.false_eq_true, if_false,
      PictureAddress.fields_withCoarseX, hcoarse, hx]

/-- A write of the address register replaces the bits of the fields that lie in its half. -/
theorem unpacked_writeAddress (scroll : Scroll) (value : UInt8) :
    (scroll.writeAddress value).unpacked = scroll.unpacked.afterUse (.writeAddress value) := by
  have hvalue := value.toNat_lt
  have ht := scroll.t.toNat_lt
  cases hw : scroll.w with
  | true =>
    have hlow : (scroll.t / 0x100 % 0x80 * 0x100 + value.toUInt16).toNat =
        scroll.t.toNat / 0x100 % 0x80 * 0x100 + value.toNat := by
      simp only [UInt16.toNat_add, UInt16.toNat_mul, UInt16.toNat_mod, UInt16.toNat_div,
        UInt8.toNat_toUInt16, UInt16.reduceToNat]
      omega
    have hfields : fields (scroll.t / 0x100 % 0x80 * 0x100 + value.toUInt16) =
        { fields scroll.t with
          coarseX := value.toNat % 32
          coarseY := (fields scroll.t).coarseY / 8 * 8 + value.toNat / 32 } := by
      ext <;> simp only [fields, hlow] <;> omega
    simp only [unpacked, writeAddress, ScrollFields.afterUse, hw, if_true, hfields]
  | false =>
    have hhigh : (value.toUInt16 % 0x40 * 0x100 + scroll.t % 0x100).toNat =
        value.toNat % 0x40 * 0x100 + scroll.t.toNat % 0x100 := by
      simp only [UInt16.toNat_add, UInt16.toNat_mul, UInt16.toNat_mod, UInt8.toNat_toUInt16,
        UInt16.reduceToNat]
      omega
    have hfields : fields (value.toUInt16 % 0x40 * 0x100 + scroll.t % 0x100) =
        { fields scroll.t with
          coarseY := value.toNat % 4 * 8 + (fields scroll.t).coarseY % 8
          nametableX := value.toNat / 4 % 2
          nametableY := value.toNat / 8 % 2
          fineY := value.toNat / 16 % 4 } := by
      ext <;> simp only [fields, hhigh] <;> omega
    simp only [unpacked, writeAddress, ScrollFields.afterUse, hw, Bool.false_eq_true, if_false,
      hfields]

/-- Moving the address on counts it up by a row of tiles or by one tile. -/
theorem unpacked_advance (scroll : Scroll) (control : Control) :
    (scroll.advance control.addressStep).unpacked =
      scroll.unpacked.afterUse (.advance control) := by
  unfold Control.addressStep
  simp only [ScrollFields.afterUse]
  split
  · simp only [unpacked, advance, PictureAddress.fields_add_row]
  · simp only [unpacked, advance, PictureAddress.fields_add_tile]

/-- Each use does to the packed registers what it does to the fields. -/
theorem unpacked_afterUse (scroll : Scroll) (use : ScrollUse) :
    (scroll.afterUse use).unpacked = scroll.unpacked.afterUse use := by
  cases use with
  | selectNametable control => exact scroll.unpacked_selectNametable control
  | writeScroll value => exact scroll.unpacked_writeScroll value
  | writeAddress value => exact scroll.unpacked_writeAddress value
  | resetToggle => rfl
  | advance control => exact scroll.unpacked_advance control
  | incrementX =>
    simp only [afterUse, incrementX, unpacked, PictureAddress.fields_incrementX,
      ScrollFields.afterUse]
  | incrementY =>
    simp only [afterUse, incrementY, unpacked, PictureAddress.fields_incrementY,
      ScrollFields.afterUse]
  | copyHorizontal =>
    simp only [afterUse, copyHorizontal, unpacked, PictureAddress.fields_copyHorizontal,
      ScrollFields.afterUse]
  | copyVertical =>
    simp only [afterUse, copyVertical, unpacked, PictureAddress.fields_copyVertical,
      ScrollFields.afterUse]

/-- Uses do to the packed registers what they do to the fields. -/
theorem unpacked_afterAll (scroll : Scroll) (uses : List ScrollUse) :
    (scroll.afterAll uses).unpacked = scroll.unpacked.afterAll uses := by
  induction uses generalizing scroll with
  | nil => rfl
  | cons use rest ih =>
    change ((scroll.afterUse use).afterAll rest).unpacked =
      (scroll.unpacked.afterUse use).afterAll rest
    rw [ih, unpacked_afterUse]

/-- The registers are as wide as they are drawn: fifteen bits for each address, three for the
column within the tile. -/
structure Fits (scroll : Scroll) : Prop where
  v_lt : scroll.v.toNat < 0x8000
  t_lt : scroll.t.toNat < 0x8000
  x_lt : scroll.x.toNat < 8

/-- The registers are as wide as they are drawn when the spare bits are clear. -/
theorem fits_iff (scroll : Scroll) :
    scroll.Fits ↔ spare scroll.v = 0 ∧ spare scroll.t = 0 ∧ scroll.x.toNat < 8 := by
  rw [spare_eq_zero_iff, spare_eq_zero_iff]
  exact ⟨fun h => ⟨h.v_lt, h.t_lt, h.x_lt⟩, fun h => ⟨h.1, h.2.1, h.2.2⟩⟩

/-- Writes of the address register leave the top left corner fifteen bits wide. -/
theorem spare_writeAddress (scroll : Scroll) (value : UInt8) :
    spare (scroll.writeAddress value).t = 0 := by
  have hvalue := value.toNat_lt
  rw [spare_eq_zero_iff, writeAddress]
  split
  · simp only [UInt16.toNat_add, UInt16.toNat_mul, UInt16.toNat_mod, UInt16.toNat_div,
      UInt8.toNat_toUInt16, UInt16.reduceToNat]
    omega
  · simp only [UInt16.toNat_add, UInt16.toNat_mul, UInt16.toNat_mod, UInt8.toNat_toUInt16,
      UInt16.reduceToNat]
    omega

/-- No use widens the registers. -/
theorem Fits.afterUse {scroll : Scroll} (h : scroll.Fits) (use : ScrollUse) :
    (scroll.afterUse use).Fits := by
  rw [fits_iff] at h ⊢
  obtain ⟨hv, ht, hx⟩ := h
  cases use with
  | selectNametable control => exact ⟨hv, (spare_copyNametables _ _).trans ht, hx⟩
  | writeScroll value =>
    have hfine : (value % 8).toNat < 8 := by
      rw [UInt8.toNat_mod]
      exact Nat.mod_lt _ (by decide)
    simp only [Scroll.afterUse, writeScroll]
    split
    · exact ⟨hv, by rw [spare_withFineY, spare_withCoarseY, ht], hx⟩
    · exact ⟨hv, (spare_withCoarseX _ _).trans ht, hfine⟩
  | writeAddress value =>
    have ht' := scroll.spare_writeAddress value
    simp only [Scroll.afterUse, writeAddress] at ht' ⊢
    split
    · next hw =>
      rw [if_pos hw] at ht'
      exact ⟨ht', ht', hx⟩
    · next hw =>
      rw [if_neg hw] at ht'
      exact ⟨hv, ht', hx⟩
  | resetToggle => exact ⟨hv, ht, hx⟩
  | advance control =>
    refine ⟨?_, ht, hx⟩
    rw [spare_eq_zero_iff, Scroll.afterUse, Scroll.advance, UInt16.toNat_mod]
    exact Nat.mod_lt _ (by decide)
  | incrementX => exact ⟨(spare_incrementX _).trans hv, ht, hx⟩
  | incrementY => exact ⟨(spare_incrementY _).trans hv, ht, hx⟩
  | copyHorizontal => exact ⟨(spare_copyHorizontal _ _).trans hv, ht, hx⟩
  | copyVertical => exact ⟨(spare_copyVertical _ _).trans hv, ht, hx⟩

/-- Histories do not widen the registers. -/
theorem Fits.afterAll {scroll : Scroll} (h : scroll.Fits) (uses : List ScrollUse) :
    (scroll.afterAll uses).Fits := by
  induction uses generalizing scroll with
  | nil => exact h
  | cons use rest ih => exact ih (h.afterUse use)

/-- The toggle after a use: half a pair turns it over, a reset clears it. -/
theorem w_afterUse (scroll : Scroll) (use : ScrollUse) :
    (scroll.afterUse use).w = (!decide (use = .resetToggle) && (scroll.w ^^ use.writesHalf)) := by
  cases use with
  | writeScroll value | writeAddress value =>
    simp only [afterUse, writeScroll, writeAddress, ScrollUse.writesHalf]
    cases scroll.w <;> rfl
  | resetToggle => rfl
  | _ => exact (Bool.xor_false _).symm

/-- From a clear toggle on, the toggle is the parity of the halves written since the last reset. -/
theorem w_afterAll {scroll : Scroll} (h : scroll.w = false) (uses : List ScrollUse) :
    (scroll.afterAll uses).w = decide (ScrollUse.halves uses % 2 = 1) := by
  induction uses using List.reverseRecOn with
  | nil => exact h
  | append_singleton uses use ih =>
    rw [afterAll_concat, w_afterUse, ih, ScrollUse.halves, ScrollUse.halves, List.reverse_append,
      List.reverse_singleton, List.singleton_append, List.takeWhile_cons]
    by_cases hreset : use = .resetToggle
    · subst hreset
      rfl
    · have hkeep : decide (use ≠ .resetToggle) = true := decide_eq_true hreset
      simp only [hkeep, if_true, List.countP_cons, decide_eq_false hreset, Bool.not_false,
        Bool.true_and]
      generalize List.countP ScrollUse.writesHalf _ = halves
      cases use.writesHalf with
      | false => rw [Bool.xor_false]; rfl
      | true =>
        rw [Bool.xor_true, if_pos rfl, ← decide_not, decide_eq_decide]
        omega

/-- A pair of writes of the scroll register sets the position and keeps the nametable. -/
theorem unpacked_writeScroll_pair {scroll : Scroll} (h : scroll.w = false) (first second : UInt8) :
    ((scroll.writeScroll first).writeScroll second).unpacked =
      { v := fields scroll.v
        t := { fields scroll.t with
          coarseX := first.toNat / 8, coarseY := second.toNat / 8, fineY := second.toNat % 8 }
        x := first.toNat % 8
        w := false } := by
  rw [unpacked_writeScroll, unpacked_writeScroll]
  simp only [ScrollFields.afterUse, unpacked, h, Bool.false_eq_true, if_false, if_true]

/-- A write of the scroll register leaves the current address alone. -/
theorem v_writeScroll (scroll : Scroll) (value : UInt8) :
    (scroll.writeScroll value).v = scroll.v := by
  unfold writeScroll
  split <;> rfl

/-- A pair of writes of the address register sets both addresses. -/
theorem writeAddress_pair_eq {scroll : Scroll} (h : scroll.w = false) (high low : UInt8) :
    (scroll.writeAddress high).writeAddress low =
      { scroll with v := ofHalves high low, t := ofHalves high low } := by
  have hhigh := high.toNat_lt
  have hlow := low.toNat_lt
  have hpair : (high.toUInt16 % 0x40 * 0x100 + scroll.t % 0x100) / 0x100 % 0x80 * 0x100 +
      low.toUInt16 = ofHalves high low := by
    rw [← UInt16.toNat_inj, toNat_ofHalves]
    simp only [UInt16.toNat_add, UInt16.toNat_mul, UInt16.toNat_mod, UInt16.toNat_div,
      UInt8.toNat_toUInt16, UInt16.reduceToNat]
    omega
  simp only [writeAddress, h, Bool.false_eq_true, if_false, if_true, hpair]

/-- Inside a row of tiles a step to the right counts the address up by one. -/
theorem toNat_incrementX_of_ne {scroll : Scroll} (h : (fields scroll.v).coarseX ≠ 31) :
    scroll.incrementX.v.toNat = scroll.v.toNat + 1 := by
  rw [incrementX, toNat_eq_packed, toNat_eq_packed scroll.v, spare_incrementX, fields_incrementX,
    Fields.right, if_neg h]
  simp only [Fields.packed]
  omega

/-- Inside a tile a step down counts the address up by one line. -/
theorem toNat_incrementY_of_ne {scroll : Scroll} (h : (fields scroll.v).fineY ≠ 7) :
    scroll.incrementY.v.toNat = scroll.v.toNat + 0x1000 := by
  rw [incrementY, toNat_eq_packed, toNat_eq_packed scroll.v, spare_incrementY, fields_incrementY,
    Fields.down, if_pos h]
  simp only [Fields.packed]
  omega

/-- **The packed scroll registers are a record of fields.** After any uses from power-on, the
registers taken apart are what the same uses make of the fields, and the next use does to the fields
what it says; nothing else is in the registers. From a clear toggle, a pair of writes of the scroll
register gives the position in both directions and keeps the nametable, and a pair of writes of the
address register gives both addresses. The toggle is the parity of the halves written since the
last reset. The addresses stay within fifteen bits and the column within the tile within three, so
that the sums of the two steps stay within sixteen. -/
theorem refines_fields (uses : List ScrollUse) :
    let scroll := ({} : Scroll).afterAll uses
    scroll.unpacked = ({} : ScrollFields).afterAll uses ∧
      (∀ use, (scroll.afterUse use).unpacked = scroll.unpacked.afterUse use) ∧
      (scroll.v.toNat = (fields scroll.v).packed ∧ scroll.t.toNat = (fields scroll.t).packed) ∧
      (scroll.w = false → ∀ first second : UInt8,
        let written := (scroll.writeScroll first).writeScroll second
        8 * (fields written.t).coarseX + written.x.toNat = first.toNat ∧
          8 * (fields written.t).coarseY + (fields written.t).fineY = second.toNat ∧
          (fields written.t).nametableX = (fields scroll.t).nametableX ∧
          (fields written.t).nametableY = (fields scroll.t).nametableY ∧
          written.v = scroll.v ∧ written.w = false) ∧
      (scroll.w = false → ∀ high low : UInt8,
        let written := (scroll.writeAddress high).writeAddress low
        written.v = ofHalves high low ∧ written.t = ofHalves high low ∧
          written.x = scroll.x ∧ written.w = false) ∧
      scroll.w = decide (ScrollUse.halves uses % 2 = 1) ∧
      scroll.Fits ∧
      (scroll.v.toNat + 1 < 0x10000 ∧ scroll.v.toNat + 0x1000 < 0x10000 ∧
        ((fields scroll.v).coarseX ≠ 31 → scroll.incrementX.v.toNat = scroll.v.toNat + 1) ∧
        ((fields scroll.v).fineY ≠ 7 →
          scroll.incrementY.v.toNat = scroll.v.toNat + 0x1000)) := by
  intro scroll
  have hfits : scroll.Fits := Fits.afterAll ⟨by decide, by decide, by decide⟩ uses
  obtain ⟨hv, ht, -⟩ := scroll.fits_iff.mp hfits
  have hv_lt := hfits.v_lt
  refine ⟨?_, scroll.unpacked_afterUse, ⟨?_, ?_⟩, ?_, ?_, w_afterAll rfl uses, hfits, ?_⟩
  · exact unpacked_afterAll {} uses
  · rw [toNat_eq_packed, hv, Nat.zero_mul, Nat.zero_add]
  · rw [toNat_eq_packed, ht, Nat.zero_mul, Nat.zero_add]
  · intro hclear first second written
    have hpair := unpacked_writeScroll_pair hclear first second
    have hfields : fields written.t = _ := congrArg ScrollFields.t hpair
    have hx : written.x.toNat = _ := congrArg ScrollFields.x hpair
    have hv : written.v = scroll.v := (v_writeScroll _ second).trans (v_writeScroll _ first)
    rw [hfields, hx]
    exact ⟨Nat.div_add_mod _ 8, Nat.div_add_mod _ 8, rfl, rfl, hv, congrArg ScrollFields.w hpair⟩
  · intro hclear high low written
    have hpair : written = _ := writeAddress_pair_eq hclear high low
    rw [hpair]
    exact ⟨rfl, rfl, rfl, hclear⟩
  · exact ⟨by omega, by omega, toNat_incrementX_of_ne, toNat_incrementY_of_ne⟩

/-- In the middle of a picture both ports are used in turn, so that the last half takes over a
whole position: nametable 2, column 43 and line 93. -/
theorem refines_fields_of_split :
    let uses : List ScrollUse :=
      [.writeAddress 0x08, .writeScroll 93, .writeScroll 43, .writeAddress 0x65]
    let position : Fields :=
      { coarseX := 5, coarseY := 11, nametableX := 0, nametableY := 1, fineY := 5 }
    (({} : Scroll).afterAll uses).unpacked = { v := position, t := position, x := 3, w := false } ∧
      ∀ high low : UInt8,
        (((({} : Scroll).afterAll uses).writeAddress high).writeAddress low).v =
          ofHalves high low := by
  intro uses position
  obtain ⟨hunpacked, -, -, -, haddress, -⟩ := refines_fields uses
  exact ⟨hunpacked.trans (by decide), fun high low => (haddress rfl high low).1⟩

end Scroll

end Famicom
