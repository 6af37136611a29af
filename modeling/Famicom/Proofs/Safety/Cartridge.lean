import Famicom.Cartridge.Image
import Famicom.Proofs.Safety.Checked

/-!
# Checked cartridges

Loading an image and using its board, with every index, slice and remainder checked. The loader
admits only program sizes that the board's logic can address, and that is what the board needs:
a loaded board is never read outside its image, whatever the address and the banks selected.
-/

namespace Famicom

open Checked

namespace ImageHeader

/-- Read the fields out of a raw image, with every index checked. -/
def ofBytesChecked (raw : Array UInt8) : Checked ImageHeader := do
  let prgBanks ← element raw 4
  let chrBanks ← element raw 5
  let flags ← element raw 6
  let extendedFlags ← element raw 7
  .ok { prgBanks, chrBanks, flags, extendedFlags }

theorem ofBytesChecked_eq {raw : Array UInt8} (h : size ≤ raw.size) :
    ofBytesChecked raw = .ok (ofBytes raw) := by
  have hbyte {index : Nat} (hindex : index < size) :
      element raw index = .ok (raw.getD index 0) :=
    element_eq (Nat.lt_of_lt_of_le hindex h) 0
  rw [ofBytesChecked, hbyte (by decide), hbyte (by decide), hbyte (by decide),
    hbyte (by decide)]
  rfl

end ImageHeader

namespace Image

/-- Split a raw image, with every byte and slice checked. -/
def parseChecked (raw : Array UInt8) : Checked (Except ImageError Image) :=
  if raw.size < ImageHeader.size then .ok (.error .notInes)
  else do
    let signature ← slice raw 0 4
    let header ← ImageHeader.ofBytesChecked raw
    if signature ≠ ImageHeader.signature then .ok (.error .notInes)
    else if header.version ≠ 0 then .ok (.error (.unsupportedVersion header.version))
    else if header.prgSize = 0 then .ok (.error .noProgram)
    else if raw.size < header.imageSize then
      .ok (.error (.truncated header.imageSize raw.size))
    else do
      let prg ← slice raw header.prgStart header.chrStart
      let chr ← slice raw header.chrStart header.imageSize
      .ok (.ok { mapper := header.mapper, wiring := header.wiring, prg, chr })

/-- No image leads the loader outside its bytes. -/
theorem parseChecked_eq (raw : Array UInt8) : parseChecked raw = .ok (parse raw) := by
  unfold parseChecked parse
  by_cases hshort : raw.size < ImageHeader.size
  · rw [if_pos hshort, if_pos (.inl hshort)]
  · have hheader : ImageHeader.size ≤ raw.size := Nat.le_of_not_lt hshort
    have hsignature : 4 ≤ raw.size := Nat.le_trans (by decide) hheader
    rw [if_neg hshort, slice_eq (Nat.zero_le 4) hsignature, ok_bind,
      ImageHeader.ofBytesChecked_eq hheader, ok_bind]
    dsimp only
    generalize ImageHeader.ofBytes raw = header
    have hprg : header.prgStart ≤ header.chrStart := Nat.le_add_right _ _
    have hchr : header.chrStart ≤ header.imageSize := Nat.le_add_right _ _
    -- past the size check both slices lie inside the image
    by_cases hsize : raw.size < header.imageSize
    · simp only [hshort, hsize, false_or, if_true, apply_ite Except.ok]
    · have himage : header.imageSize ≤ raw.size := Nat.le_of_not_lt hsize
      simp only [hshort, hsize, false_or, if_false, slice_eq hprg (Nat.le_trans hchr himage),
        slice_eq hchr himage, ok_bind, apply_ite Except.ok]

end Image

namespace Board

/-- Read a raw image and put it onto its board, with all reading checked. -/
def ofImageChecked (raw : Array UInt8) : Checked (Except ImageError Board) := do
  match ← Image.parseChecked raw with
  | .error error => .ok (.error error)
  | .ok image => .ok image.board

theorem ofImageChecked_eq (raw : Array UInt8) : ofImageChecked raw = .ok (ofImage raw) := by
  rw [ofImageChecked, Image.parseChecked_eq, ok_bind, ofImage]
  cases Image.parse raw <;> rfl

end Board

/-- Pattern storage that has bytes to show. -/
def Chr.Sound : Chr → Prop
  | .rom bytes => bytes.size ≠ 0
  | .ram _ => True

/-- The type of a board by its logic. -/
def BoardLatch.kind : BoardLatch → BoardKind
  | .nrom _ => .nrom
  | .uxrom _ => .uxrom
  | .cnrom _ => .cnrom

/-- A board whose logic fits its image. -/
structure Board.Sound (board : Board) : Prop where
  prg : board.latch.kind.AcceptsProgram board.prg.size
  chr : board.chr.Sound

namespace Chr

/-- The storage for an image's patterns has bytes to show. -/
theorem sound_ofBytes (bytes : Array UInt8) : (ofBytes bytes).Sound := by
  unfold ofBytes
  split
  · exact trivial
  · next hempty =>
    intro hsize
    exact hempty (Array.isEmpty_iff_size_eq_zero.mpr hsize)

/-- A write keeps the storage. -/
theorem Sound.write {chr : Chr} (h : chr.Sound) (address : Nat) (value : UInt8) :
    (chr.write address value).Sound := by
  cases chr with
  | rom bytes => exact h
  | ram memory => exact trivial

theorem bankCount_ne_zero (chr : Chr) : chr.bankCount ≠ 0 := by
  cases chr with
  | rom bytes =>
    have := Nat.le_max_right (bytes.size / 0x2000) 1
    change max (bytes.size / 0x2000) 1 ≠ 0
    omega
  | ram memory => exact Nat.one_ne_zero

/-- The byte of the pattern window, checked. -/
def readChecked (chr : Chr) (bank address : Nat) : Checked UInt8 := do
  let shown ← remainder bank chr.bankCount
  let offset := shown * 0x2000 + address % 0x2000
  match chr with
  | .rom bytes =>
    let cell ← remainder offset bytes.size
    element bytes cell
  | .ram memory =>
    let cell ← remainder offset (chipSize 13)
    memory.getChecked cell

theorem readChecked_eq {chr : Chr} (h : chr.Sound) (bank address : Nat) :
    chr.readChecked bank address = .ok (chr.read bank address) := by
  rw [readChecked, remainder_eq chr.bankCount_ne_zero, ok_bind]
  cases chr with
  | rom bytes =>
    have hsize : 0 < bytes.size := Nat.pos_of_ne_zero h
    dsimp only
    rw [remainder_eq h, ok_bind, element_eq (Nat.mod_lt _ hsize) 0]
    rfl
  | ram memory =>
    have hcell : (bank % 1 * 0x2000 + address % 0x2000) % chipSize 13 =
        address % chipSize 13 := by
      change (bank % 1 * 0x2000 + address % 0x2000) % 0x2000 = address % 0x2000
      omega
    dsimp only
    rw [remainder_eq (Nat.ne_of_gt (chipSize_pos 13)), ok_bind, memory.getChecked_mod]
    exact congrArg Except.ok (memory.get_congr hcell)

/-- Replace a byte of the pattern window, checked. -/
def writeChecked (chr : Chr) (address : Nat) (value : UInt8) : Checked Chr :=
  match chr with
  | .rom bytes => .ok (.rom bytes)
  | .ram memory => do
    let memory ← memory.setChecked (address % 0x2000) value
    .ok (.ram memory)

theorem writeChecked_eq (chr : Chr) (address : Nat) (value : UInt8) :
    chr.writeChecked address value = .ok (chr.write address value) := by
  cases chr with
  | rom bytes => rfl
  | ram memory =>
    have hwrite : memory.setChecked (address % 0x2000) value = .ok (memory.set address value) :=
      memory.setChecked_mod address value
    rw [writeChecked, hwrite, ok_bind]
    rfl

end Chr

namespace Board

/-- A loaded board is sound. -/
theorem sound_ofImage {raw : Array UInt8} {board : Board} (h : ofImage raw = .ok board) :
    board.Sound := by
  unfold ofImage Image.board at h
  split at h
  · cases h
  · split at h
    · cases h
    · next kind _ =>
      split at h
      · next haccepts =>
        cases h
        refine ⟨?_, Chr.sound_ofBytes _⟩
        cases kind <;> exact haccepts
      · cases h

/-- A program byte of the 32 KB area, checked. -/
def prgByteChecked (board : Board) (address : Nat) : Checked UInt8 := do
  let offset ← difference address 0x8000
  let index ← remainder offset board.prg.size
  element board.prg index

theorem prgByteChecked_eq {board : Board} (h : board.prg.size ≠ 0) {address : Nat}
    (haddress : 0x8000 ≤ address) :
    board.prgByteChecked address = .ok (board.prgByte (address - 0x8000)) := by
  have hindex : (address - 0x8000) % board.prg.size < board.prg.size :=
    Nat.mod_lt _ (Nat.pos_of_ne_zero h)
  rw [prgByteChecked, difference_eq haddress, ok_bind, remainder_eq h, ok_bind,
    element_eq hindex 0]
  rfl

/-- A byte of a 16 KB program bank that is shown from `start` on, checked. -/
def bankByteChecked (board : Board) (bank start address : Nat) : Checked UInt8 := do
  let offset ← difference address start
  element board.prg (bank * 0x4000 + offset)

theorem bankByteChecked_eq {board : Board} {bank start address : Nat}
    (hbank : (bank + 1) * 0x4000 ≤ board.prg.size) (hstart : start ≤ address)
    (haddress : address < start + 0x4000) :
    board.bankByteChecked bank start address =
      .ok (board.prg.getD (bank * 0x4000 + (address - start)) 0) := by
  have hindex : bank * 0x4000 + (address - start) < board.prg.size := by omega
  rw [bankByteChecked, difference_eq hstart, ok_bind, element_eq hindex 0]

/-- A read by the processor, checked. -/
def readChecked (board : Board) (address : UInt16) : Checked (Option UInt8) :=
  let address := address.toNat
  match board.latch with
  | .nrom programRam =>
    if 0x8000 ≤ address then do
      let value ← board.prgByteChecked address
      .ok (some value)
    else if 0x6000 ≤ address then do
      let cell ← difference address 0x6000
      let value ← programRam.getChecked cell
      .ok (some value)
    else .ok none
  | .uxrom selected =>
    if 0xC000 ≤ address then do
      let bank ← difference board.prgBankCount 1
      let value ← board.bankByteChecked bank 0xC000 address
      .ok (some value)
    else if 0x8000 ≤ address then do
      let bank ← remainder selected board.prgBankCount
      let value ← board.bankByteChecked bank 0x8000 address
      .ok (some value)
    else .ok none
  | .cnrom _ =>
    if 0x8000 ≤ address then do
      let value ← board.prgByteChecked address
      .ok (some value)
    else .ok none

/-- A program that a board accepts is not empty. -/
theorem Sound.prg_ne_zero {board : Board} (h : board.Sound) : board.prg.size ≠ 0 := by
  have hprg := h.prg
  cases hkind : board.latch.kind with
  | nrom | cnrom =>
    rw [hkind] at hprg
    rcases hprg with hsize | hsize <;> rw [hsize] <;> decide
  | uxrom =>
    rw [hkind] at hprg
    exact hprg.1

/-- The banks of a switchable program fill it exactly. -/
theorem Sound.prgBankCount {board : Board} (h : board.Sound)
    (hkind : board.latch.kind = .uxrom) :
    board.prgBankCount ≠ 0 ∧ board.prgBankCount * 0x4000 = board.prg.size := by
  have hprg := h.prg
  rw [hkind] at hprg
  obtain ⟨hsize, hwhole⟩ := hprg
  have hcount : board.prgBankCount = board.prg.size / 0x4000 :=
    Nat.max_eq_left (by omega)
  rw [hcount]
  omega

/-- A sound board is never read outside its image. -/
theorem readChecked_eq {board : Board} (h : board.Sound) (address : UInt16) :
    board.readChecked address = .ok (board.read address) := by
  have haddress : address.toNat < 0x10000 := address.toNat_lt
  unfold readChecked read
  cases hlatch : board.latch with
  | nrom programRam =>
    dsimp only
    split
    · next hupper => rw [prgByteChecked_eq h.prg_ne_zero hupper, ok_bind]
    · split
      · next hupper hram =>
        have hcell : address.toNat - 0x6000 < chipSize 13 := by
          change address.toNat - 0x6000 < 0x2000
          omega
        rw [difference_eq hram, ok_bind, programRam.getChecked_eq hcell, ok_bind]
      · rfl
  | uxrom selected =>
    obtain ⟨hcount, hbanks⟩ := h.prgBankCount (by rw [hlatch]; rfl)
    dsimp only
    split
    · next hfixed =>
      rw [difference_eq (Nat.pos_of_ne_zero hcount), ok_bind,
        bankByteChecked_eq (by omega) hfixed (by omega), ok_bind]
    · split
      · next hfixed hupper =>
        have hbank : selected % board.prgBankCount < board.prgBankCount :=
          Nat.mod_lt _ (Nat.pos_of_ne_zero hcount)
        rw [remainder_eq hcount, ok_bind, bankByteChecked_eq (by omega) hupper (by omega), ok_bind]
      · rfl
  | cnrom selected =>
    dsimp only
    split
    · next hupper => rw [prgByteChecked_eq h.prg_ne_zero hupper, ok_bind]
    · rfl

/-- A processor write, checked. -/
def writeChecked (board : Board) (address : UInt16) (value : UInt8) : Checked Board :=
  match board.latch with
  | .nrom programRam =>
    if 0x6000 ≤ address ∧ address < 0x8000 then do
      let cell ← difference address.toNat 0x6000
      let programRam ← programRam.setChecked cell value
      .ok { board with latch := .nrom programRam }
    else .ok board
  | .uxrom _ | .cnrom _ => .ok (board.write address value)

/-- No write leaves the program memory. -/
theorem writeChecked_eq (board : Board) (address : UInt16) (value : UInt8) :
    board.writeChecked address value = .ok (board.write address value) := by
  obtain ⟨prg, chr, wiring, latch⟩ := board
  cases latch with
  | nrom programRam =>
    simp only [writeChecked, write]
    split
    · next hram =>
      have hlower : 0x6000 ≤ address.toNat := UInt16.le_iff_toNat_le.mp hram.1
      have hupper : address.toNat < 0x8000 := UInt16.lt_iff_toNat_lt.mp hram.2
      have hcell : address.toNat - 0x6000 < chipSize 13 := by
        change address.toNat - 0x6000 < 0x2000
        omega
      rw [difference_eq hlower, ok_bind, programRam.setChecked_eq hcell, ok_bind]
    · rfl
  | uxrom selected | cnrom selected => rfl

/-- A write keeps a board sound. -/
theorem Sound.write {board : Board} (h : board.Sound) (address : UInt16) (value : UInt8) :
    (board.write address value).Sound := by
  obtain ⟨prg, chr, wiring, latch⟩ := board
  cases latch with
  | nrom programRam =>
    simp only [Board.write]
    split <;> exact ⟨h.prg, h.chr⟩
  | uxrom selected | cnrom selected => exact ⟨h.prg, h.chr⟩

/-- A write of a pattern byte keeps a board sound. -/
theorem Sound.writePattern {board : Board} (h : board.Sound) (address : UInt16) (value : UInt8) :
    (board.writePattern address value).Sound :=
  ⟨h.prg, h.chr.write _ _⟩

/-- A pattern byte, checked. -/
def readPatternChecked (board : Board) (address : UInt16) : Checked UInt8 :=
  board.chr.readChecked board.patternBank address.toNat

theorem readPatternChecked_eq {board : Board} (h : board.Sound) (address : UInt16) :
    board.readPatternChecked address = .ok (board.readPattern address) :=
  Chr.readChecked_eq h.chr _ _

/-- Write a pattern byte, checked. -/
def writePatternChecked (board : Board) (address : UInt16) (value : UInt8) : Checked Board := do
  let chr ← board.chr.writeChecked address.toNat value
  .ok { board with chr }

theorem writePatternChecked_eq (board : Board) (address : UInt16) (value : UInt8) :
    board.writePatternChecked address value = .ok (board.writePattern address value) := by
  rw [writePatternChecked, Chr.writeChecked_eq, ok_bind]
  rfl

end Board

end Famicom
