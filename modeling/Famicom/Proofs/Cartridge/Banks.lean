import Famicom.Ppu.Bus
import Famicom.Proofs.Cartridge.Format
import Mathlib.Data.List.Induction

/-!
# Boards and their banks

A board is used from two sides: the processor reads and writes it, and so does the picture unit
in the pattern range. What it answers depends on its image and on the last write that reached the
cell or the latch in question, however many other uses came in between. Reads leave no trace.
-/

namespace Famicom

namespace Access

/-- The value that an access writes at an address which a test picks. -/
def writtenWhere (picks : UInt16 → Bool) : Access → Option UInt8
  | read _ => none
  | write address value => if picks address then some value else none

/-- The value written last at an address which a test picks, the accesses being listed oldest
first. -/
def lastWritten (picks : UInt16 → Bool) (accesses : List Access) : Option UInt8 :=
  accesses.reverse.findSome? (writtenWhere picks)

variable (picks : UInt16 → Bool) (accesses : List Access)

@[simp] theorem lastWritten_nil : lastWritten picks [] = none := rfl

@[simp] theorem lastWritten_append_read (address : UInt16) :
    lastWritten picks (accesses ++ [.read address]) = lastWritten picks accesses := by
  rw [lastWritten, List.reverse_append]
  rfl

@[simp] theorem lastWritten_append_write (address : UInt16) (value : UInt8) :
    lastWritten picks (accesses ++ [.write address value]) =
      if picks address then some value else lastWritten picks accesses := by
  cases hpicks : picks address <;>
    simp [lastWritten, writtenWhere, hpicks]

end Access

/-- One use of a board. -/
inductive BoardUse where
  /-- By the processor. -/
  | processor (access : Access)
  /-- In the pattern range, by the picture unit. -/
  | pattern (access : Access)
deriving DecidableEq, Repr

namespace BoardUse

/-- The access by the processor, if it is one. -/
def onProcessor : BoardUse → Option Access
  | processor access => some access
  | pattern _ => none

/-- The access in the pattern range, if it is one. -/
def onPattern : BoardUse → Option Access
  | processor _ => none
  | pattern access => some access

/-- The use writes. -/
def writes : BoardUse → Bool
  | processor (.write _ _) | pattern (.write _ _) => true
  | processor (.read _) | pattern (.read _) => false

end BoardUse

namespace Board

/-- The board after a use. -/
def after (board : Board) : BoardUse → Board
  | .processor (.read _) => board
  | .processor (.write address value) => board.write address value
  | .pattern (.read address) => (PatternBus.read board address).2
  | .pattern (.write address value) => PatternBus.write board address value

/-- The board after a list of uses. -/
def afterAll (board : Board) (uses : List BoardUse) : Board := uses.foldl after board

/-- Reads leave no trace. -/
theorem afterAll_filter_writes (board : Board) (uses : List BoardUse) :
    board.afterAll (uses.filter BoardUse.writes) = board.afterAll uses := by
  induction uses generalizing board with
  | nil => rfl
  | cons use rest ih =>
    rcases use with (_ | _) | (_ | _)
    all_goals exact ih _

end Board

/-- A cartridge as its image, its type and all uses so far, oldest first. -/
structure BankModel where
  kind : BoardKind
  image : Image
  uses : List BoardUse

namespace BankModel

variable (model : BankModel)

/-- The accesses by the processor. -/
def processorSide : List Access := model.uses.filterMap BoardUse.onProcessor

/-- The accesses in the pattern range. -/
def patternSide : List Access := model.uses.filterMap BoardUse.onPattern

/-- The bank selected last: the low four bits of the last write to the program area. -/
def selected : Nat :=
  ((Access.lastWritten (0x8000 ≤ ·) model.processorSide).getD 0 &&& 0x0F).toNat

/-- What a processor read finds. -/
def read (address : UInt16) : Option UInt8 :=
  let prg := model.image.prg
  let banks := prg.size / 0x4000
  let place := address.toNat
  match model.kind with
  | .nrom =>
    if 0x8000 ≤ place then prg[(place - 0x8000) % prg.size]?
    else if 0x6000 ≤ place then
      some ((Access.lastWritten (· = address) model.processorSide).getD 0)
    else none
  | .uxrom =>
    if 0xC000 ≤ place then prg[(banks - 1) * 0x4000 + (place - 0xC000)]?
    else if 0x8000 ≤ place then prg[model.selected % banks * 0x4000 + (place - 0x8000)]?
    else none
  | .cnrom => if 0x8000 ≤ place then prg[(place - 0x8000) % prg.size]? else none

/-- The pattern bank that shows. -/
def shownBank : Nat :=
  match model.kind with
  | .cnrom => model.selected
  | .nrom | .uxrom => 0

/-- What a read in the pattern range finds: memory where the image has no patterns. -/
def pattern (address : UInt16) : Option UInt8 :=
  let chr := model.image.chr
  let banks := chr.size / 0x2000
  if chr.isEmpty then
    some ((Access.lastWritten (· % 0x2000 = address % 0x2000) model.patternSide).getD 0)
  else chr[model.shownBank % banks * 0x2000 + address.toNat % 0x2000]?

/-- What a latch holds after the uses so far. -/
def LatchAgrees (model : BankModel) : BoardLatch → Prop
  | .nrom programRam => model.kind = .nrom ∧ ∀ address : UInt16,
      0x6000 ≤ address.toNat → address.toNat < 0x8000 →
        programRam.get (address.toNat - 0x6000) =
          (Access.lastWritten (· = address) model.processorSide).getD 0
  | .uxrom bank => model.kind = .uxrom ∧ bank = model.selected
  | .cnrom bank => model.kind = .cnrom ∧ bank = model.selected

/-- What the pattern storage holds after the uses so far. -/
def ChrAgrees (model : BankModel) : Chr → Prop
  | .rom bytes => bytes = model.image.chr ∧ bytes.isEmpty = false
  | .ram memory => model.image.chr.isEmpty = true ∧ ∀ address : UInt16,
      memory.get address.toNat =
        (Access.lastWritten (· % 0x2000 = address % 0x2000) model.patternSide).getD 0

/-- A board that has been used as the model tells. -/
structure Agrees (model : BankModel) (board : Board) : Prop where
  prg : board.prg = model.image.prg
  wiring : board.wiring = model.image.wiring
  chr : model.ChrAgrees board.chr
  latch : model.LatchAgrees board.latch

/-- The model after one more use. -/
def extend (use : BoardUse) : BankModel := { model with uses := model.uses ++ [use] }

@[simp] theorem extend_kind (use : BoardUse) : (model.extend use).kind = model.kind := rfl

@[simp] theorem extend_image (use : BoardUse) : (model.extend use).image = model.image := rfl

@[simp] theorem processorSide_extend_processor (access : Access) :
    (model.extend (.processor access)).processorSide = model.processorSide ++ [access] := by
  simp [processorSide, extend, BoardUse.onProcessor]

@[simp] theorem processorSide_extend_pattern (access : Access) :
    (model.extend (.pattern access)).processorSide = model.processorSide := by
  simp [processorSide, extend, BoardUse.onProcessor]

@[simp] theorem patternSide_extend_processor (access : Access) :
    (model.extend (.processor access)).patternSide = model.patternSide := by
  simp [patternSide, extend, BoardUse.onPattern]

@[simp] theorem patternSide_extend_pattern (access : Access) :
    (model.extend (.pattern access)).patternSide = model.patternSide ++ [access] := by
  simp [patternSide, extend, BoardUse.onPattern]

/-- The low four bits of a byte. -/
theorem lowBits_eq (value : UInt8) : (value &&& 0x0F).toNat = value.toNat % 16 := by
  rw [UInt8.toNat_and]
  exact Nat.and_two_pow_sub_one_eq_mod value.toNat 4

/-- A write to the program area selects a bank. -/
theorem selected_extend_write (address : UInt16) (value : UInt8) :
    (model.extend (.processor (.write address value))).selected =
      if 0x8000 ≤ address then value.toNat % 16 else model.selected := by
  by_cases hupper : 0x8000 ≤ address <;> simp [selected, hupper, ← lowBits_eq]

variable {model : BankModel} {board : Board}

/-- A fresh board agrees with the model of its image. -/
theorem agrees_ofBytes (kind : BoardKind) (image : Image) :
    Agrees ⟨kind, image, []⟩ (Board.ofBytes kind image.prg image.chr image.wiring) := by
  constructor
  · rfl
  · rfl
  · simp only [Board.ofBytes, Chr.ofBytes]
    cases hempty : image.chr.isEmpty
    · exact ⟨rfl, hempty⟩
    · exact ⟨hempty, fun address => Memory.get_filled _ _⟩
  · cases kind with
    | nrom => exact ⟨rfl, fun address _ _ => Memory.get_filled _ _⟩
    | uxrom | cnrom => exact ⟨rfl, by simp [selected, processorSide]⟩

/-- Uses that the processor does not see, and its reads, leave the latch as it is. -/
theorem LatchAgrees.quiet {latch : BoardLatch} (h : model.LatchAgrees latch) {use : BoardUse}
    (hquiet : ∀ address value, use ≠ .processor (.write address value)) :
    (model.extend use).LatchAgrees latch := by
  rcases use with (_ | ⟨address, value⟩) | _
  case processor.write => exact absurd rfl (hquiet address value)
  all_goals cases latch <;> simpa [LatchAgrees, selected] using h

/-- Program memory answers with the byte written last at the same address. -/
theorem get_set_programRam (programRam : Memory 13) (value : UInt8) {address other : UInt16}
    (hlow : 0x6000 ≤ address.toNat) (hhigh : address.toNat < 0x8000)
    (hotherLow : 0x6000 ≤ other.toNat) (hotherHigh : other.toNat < 0x8000) :
    (programRam.set (address.toNat - 0x6000) value).get (other.toNat - 0x6000) =
      if address = other then value else programRam.get (other.toNat - 0x6000) := by
  have hsize : chipSize 13 = 0x2000 := rfl
  have hcell : (address.toNat - 0x6000) % chipSize 13 = (other.toNat - 0x6000) % chipSize 13 ↔
      address = other := by
    rw [← UInt16.toNat_inj, hsize]
    omega
  rw [Memory.get_set]
  simp only [hcell]

/-- A write by the processor reaches the latch. -/
theorem LatchAgrees.write (h : model.LatchAgrees board.latch) (address : UInt16) (value : UInt8) :
    (model.extend (.processor (.write address value))).LatchAgrees
      (board.write address value).latch := by
  obtain ⟨prg, chr, wiring, latch⟩ := board
  cases latch with
  | nrom programRam =>
    obtain ⟨hkind, hram⟩ := h
    have hbounds : 0x6000 ≤ address ∧ address < 0x8000 ↔
        0x6000 ≤ address.toNat ∧ address.toNat < 0x8000 := by
      rw [UInt16.le_iff_toNat_le, UInt16.lt_iff_toNat_lt]
      rfl
    simp only [Board.write, hbounds]
    split
    · next hreached =>
      refine ⟨hkind, fun other hlow hhigh => ?_⟩
      rw [get_set_programRam programRam value hreached.1 hreached.2 hlow hhigh,
        hram other hlow hhigh]
      by_cases hsame : address = other <;> simp [hsame]
    · next hmissed =>
      refine ⟨hkind, fun other hlow hhigh => ?_⟩
      have hother : address ≠ other := by
        rintro rfl
        exact hmissed ⟨hlow, hhigh⟩
      rw [hram other hlow hhigh]
      simp [hother]
  | uxrom bank | cnrom bank =>
    obtain ⟨hkind, rfl⟩ := h
    exact ⟨hkind, (selected_extend_write _ address value).symm⟩

/-- A write in the pattern range reaches writable patterns. -/
theorem ChrAgrees.write {chr : Chr} (h : model.ChrAgrees chr) (address : UInt16) (value : UInt8) :
    (model.extend (.pattern (.write address value))).ChrAgrees
      (chr.write address.toNat value) := by
  cases chr with
  | rom bytes => exact h
  | ram memory =>
    obtain ⟨hempty, hram⟩ := h
    refine ⟨hempty, fun other => ?_⟩
    have hcell : address.toNat % chipSize 13 = other.toNat % chipSize 13 ↔
        address % 0x2000 = other % 0x2000 := by
      rw [← UInt16.toNat_inj, UInt16.toNat_mod, UInt16.toNat_mod]
      rfl
    rw [Memory.get_set, hram other]
    by_cases hsame : address % 0x2000 = other % 0x2000 <;> simp [hcell, hsame]

/-- Uses that do not write patterns leave the patterns as they are. -/
theorem ChrAgrees.quiet {chr : Chr} (h : model.ChrAgrees chr) {use : BoardUse}
    (hquiet : ∀ address value, use ≠ .pattern (.write address value)) :
    (model.extend use).ChrAgrees chr := by
  rcases use with _ | (_ | ⟨address, value⟩)
  case pattern.write => exact absurd rfl (hquiet address value)
  all_goals cases chr <;> simpa [ChrAgrees] using h

/-- A write by the processor changes the latch alone. -/
theorem write_image (board : Board) (address : UInt16) (value : UInt8) :
    (board.write address value).prg = board.prg ∧ (board.write address value).chr = board.chr ∧
      (board.write address value).wiring = board.wiring := by
  obtain ⟨prg, chr, wiring, latch⟩ := board
  cases latch with
  | nrom programRam =>
    simp only [Board.write]
    split <;> exact ⟨rfl, rfl, rfl⟩
  | uxrom bank | cnrom bank => exact ⟨rfl, rfl, rfl⟩

/-- One more use keeps the agreement. -/
theorem Agrees.after (h : Agrees model board) (use : BoardUse) :
    Agrees (model.extend use) (board.after use) := by
  cases use with
  | processor access =>
    cases access with
    | read address =>
      exact ⟨h.prg, h.wiring, h.chr.quiet (by simp), h.latch.quiet (by simp)⟩
    | write address value =>
      obtain ⟨hprg, hchr, hwiring⟩ := write_image board address value
      refine ⟨hprg.trans h.prg, hwiring.trans h.wiring, ?_, h.latch.write address value⟩
      change ChrAgrees _ (board.write address value).chr
      rw [hchr]
      exact h.chr.quiet (by simp)
  | pattern access =>
    cases access with
    | read address =>
      exact ⟨h.prg, h.wiring, h.chr.quiet (by simp), h.latch.quiet (by simp)⟩
    | write address value =>
      exact ⟨h.prg, h.wiring, h.chr.write address value, h.latch.quiet (by simp)⟩

/-- A board that has been used at will agrees with the model of its uses. -/
theorem agrees_afterAll (kind : BoardKind) (image : Image) (uses : List BoardUse) :
    Agrees ⟨kind, image, uses⟩
      ((Board.ofBytes kind image.prg image.chr image.wiring).afterAll uses) := by
  induction uses using List.reverseRecOn with
  | nil => exact agrees_ofBytes kind image
  | append_singleton uses use ih =>
    rw [Board.afterAll, List.foldl_append]
    exact ih.after use

/-- A byte inside the image. -/
theorem some_getD {bytes : Array UInt8} {index : Nat} (h : index < bytes.size) :
    some (bytes.getD index 0) = bytes[index]? := by
  simp [h]

/-- A place in one of the banks that fill the image. -/
theorem bankPlace_lt {size bankSize bank place : Nat} (hwhole : size % bankSize = 0)
    (hsize : size ≠ 0) (hplace : place < bankSize) :
    bank % (size / bankSize) * bankSize + place < size := by
  have hfill : size / bankSize * bankSize = size :=
    Nat.div_mul_cancel (Nat.dvd_of_mod_eq_zero hwhole)
  have hcount : size / bankSize ≠ 0 := by
    intro hzero
    rw [hzero, Nat.zero_mul] at hfill
    exact hsize hfill.symm
  have hbank : bank % (size / bankSize) + 1 ≤ size / bankSize :=
    Nat.mod_lt _ (Nat.pos_of_ne_zero hcount)
  calc
    bank % (size / bankSize) * bankSize + place <
        (bank % (size / bankSize) + 1) * bankSize := by
      rw [Nat.succ_mul]
      omega
    _ ≤ size / bankSize * bankSize := Nat.mul_le_mul_right _ hbank
    _ = size := hfill

/-- What the processor reads is what the model tells. -/
theorem Agrees.read (h : Agrees model board)
    (haccepts : model.kind.AcceptsProgram model.image.prg.size) (address : UInt16) :
    board.read address = model.read address := by
  have haddress : address.toNat < 0x10000 := address.toNat_lt
  have hlatch := h.latch
  unfold Board.read BankModel.read Board.prgByte Board.prgBankCount
  rw [h.prg]
  cases hboard : board.latch with
  | nrom programRam =>
    rw [hboard] at hlatch
    obtain ⟨hkind, hram⟩ := hlatch
    rw [hkind] at haccepts ⊢
    have hsize : 0 < model.image.prg.size := by
      rcases haccepts with hsize | hsize <;> omega
    dsimp only
    split
    · exact some_getD (Nat.mod_lt _ hsize)
    · split
      · next hlow hhigh => rw [hram address hhigh (Nat.lt_of_not_le hlow)]
      · rfl
  | uxrom bank =>
    rw [hboard] at hlatch
    obtain ⟨hkind, rfl⟩ := hlatch
    rw [hkind] at haccepts ⊢
    obtain ⟨hsize, hwhole⟩ := haccepts
    have hbanks : max (model.image.prg.size / 0x4000) 1 = model.image.prg.size / 0x4000 :=
      Nat.max_eq_left (by omega)
    dsimp only
    rw [hbanks]
    split
    · next hfixed =>
      have hlast : (model.image.prg.size / 0x4000 - 1) * 0x4000 + (address.toNat - 0xC000) <
          model.image.prg.size := by omega
      exact some_getD hlast
    · split
      · next hlow hhigh => exact some_getD (bankPlace_lt hwhole hsize (by omega))
      · rfl
  | cnrom bank =>
    rw [hboard] at hlatch
    rw [hlatch.1] at haccepts ⊢
    have hsize : 0 < model.image.prg.size := by
      rcases haccepts with hsize | hsize <;> omega
    dsimp only
    split
    · exact some_getD (Nat.mod_lt _ hsize)
    · rfl

/-- What is read in the pattern range is what the model tells. -/
theorem Agrees.pattern (h : Agrees model board) (hwhole : model.image.chr.size % 0x2000 = 0)
    (address : UInt16) : some (board.readPattern address) = model.pattern address := by
  have hchr := h.chr
  have hlatch := h.latch
  have hbank : board.patternBank = model.shownBank := by
    unfold Board.patternBank shownBank
    cases hboard : board.latch with
    | nrom programRam | uxrom bank =>
      rw [hboard] at hlatch
      rw [hlatch.1]
    | cnrom bank =>
      rw [hboard] at hlatch
      rw [hlatch.1]
      exact hlatch.2
  unfold Board.readPattern BankModel.pattern Chr.read
  cases hboard : board.chr with
  | rom bytes =>
    rw [hboard] at hchr
    obtain ⟨rfl, hbytes⟩ := hchr
    have hsize : model.image.chr.size ≠ 0 := by
      simpa [Array.isEmpty_iff_size_eq_zero] using hbytes
    have hbanks : max (model.image.chr.size / 0x2000) 1 = model.image.chr.size / 0x2000 :=
      Nat.max_eq_left (by omega)
    have hindex : model.shownBank % (model.image.chr.size / 0x2000) * 0x2000 +
        address.toNat % 0x2000 < model.image.chr.size :=
      bankPlace_lt hwhole hsize (Nat.mod_lt _ (by decide))
    dsimp only
    rw [hbank, Chr.bankCount, hbanks, Nat.mod_eq_of_lt hindex, hbytes]
    exact some_getD hindex
  | ram memory =>
    rw [hboard] at hchr
    obtain ⟨hempty, hram⟩ := hchr
    simp [hempty, hram]

/-- An image that a board accepts, and the board that it gives. -/
theorem exists_kind {image : Image} {board : Board} (h : image.board = .ok board) :
    ∃ kind, BoardKind.ofMapper image.mapper = some kind ∧
      kind.AcceptsProgram image.prg.size ∧
      board = Board.ofBytes kind image.prg image.chr image.wiring := by
  unfold Image.board at h
  split at h
  · contradiction
  · next kind hkind =>
    split at h
    · next haccepts => exact ⟨kind, hkind, haccepts, (Except.ok.inj h).symm⟩
    · contradiction

end BankModel

namespace Board

/-- **Boards follow their banks.** For every accepted image and all uses of its board, in any order
and at any addresses, the bytes of the image stay as they are, every read of the processor and in
the pattern range finds what the model of the uses tells, and reads leave no trace. -/
theorem follows_banks {raw : Array UInt8} {image : Image} {board : Board}
    (hparse : Image.parse raw = .ok image) (hboard : image.board = .ok board) :
    ∃ kind, BoardKind.ofMapper image.mapper = some kind ∧ ∀ uses : List BoardUse,
      let model : BankModel := ⟨kind, image, uses⟩
      let used := board.afterAll uses
      used.prg = image.prg ∧ (image.chr.isEmpty = false → used.chr = .rom image.chr) ∧
        (∀ address, used.read address = model.read address) ∧
        (∀ address, some (used.readPattern address) = model.pattern address) ∧
        board.afterAll (uses.filter BoardUse.writes) = used := by
  obtain ⟨kind, hkind, haccepts, rfl⟩ := BankModel.exists_kind hboard
  have hwhole : image.chr.size % 0x2000 = 0 := by
    rw [(Image.sizes_of_parse hparse).2]
    exact Nat.mul_mod_left _ _
  refine ⟨kind, hkind, fun uses => ?_⟩
  have hagrees := BankModel.agrees_afterAll kind image uses
  refine ⟨hagrees.prg, ?_, hagrees.read haccepts, hagrees.pattern hwhole,
    afterAll_filter_writes _ uses⟩
  intro hrom
  have hchr := hagrees.chr
  revert hchr
  cases Board.chr _ with
  | rom bytes => exact fun hchr => congrArg Chr.rom hchr.1
  | ram memory => exact fun hchr => absurd hchr.1 (by simp [hrom])

/-- Three program banks, each filled with its number, and writable patterns. -/
def threeBanks : ImageParts where
  mapper := 2
  wiring := .vertical
  wiring_named := by decide
  battery := false
  spareWiring := false
  spareBits := 0
  padding := List.replicate 8 0
  padding_length := rfl
  trainer := []
  trainer_length := .inl rfl
  prgBanks := 3
  prgBanks_ne_zero := by decide
  prg := (List.range 0xC000).map fun place => UInt8.ofNat (place / 0x4000)
  prg_length := by
    rw [List.length_map, List.length_range]
    rfl
  chrBanks := 0
  chr := []
  chr_length := rfl
  trailing := []

/-- A program that selects bank 4 and stores a pattern byte. -/
def bankSwitches : List BoardUse :=
  [.processor (.write 0xC000 0xF4), .pattern (.write 0x2042 0x7E), .processor (.read 0x8000),
    .processor (.write 0x6000 1)]

/-- What the model tells after that program about any image of three numbered banks. -/
theorem model_bankSwitches {image : Image} (hsize : image.prg.size = 0xC000)
    (hbyte : ∀ place < 0xC000, image.prg[place]? = some (UInt8.ofNat (place / 0x4000)))
    (hempty : image.chr.isEmpty = true) :
    let model : BankModel := ⟨.uxrom, image, bankSwitches⟩
    model.read 0x8000 = some 1 ∧ model.read 0xFFFF = some 2 ∧ model.read 0x6000 = none ∧
      model.pattern 0x0042 = some 0x7E := by
  have hselected : BankModel.selected ⟨.uxrom, image, bankSwitches⟩ = 4 := by
    change ((Access.lastWritten (0x8000 ≤ ·)
      [.write 0xC000 0xF4, .read 0x8000, .write 0x6000 1]).getD 0 &&& 0x0F).toNat = 4
    decide
  have hstored : Access.lastWritten (· % 0x2000 = 0x0042)
      (BankModel.patternSide ⟨.uxrom, image, bankSwitches⟩) = some 0x7E := by
    change Access.lastWritten (· % 0x2000 = 0x0042) [.write 0x2042 0x7E] = some 0x7E
    decide
  refine ⟨?_, ?_, ?_, ?_⟩
  · simpa [BankModel.read, hselected, hsize] using hbyte 0x4000 (by decide)
  · simpa [BankModel.read, hsize] using hbyte 0xBFFF (by decide)
  · simp [BankModel.read]
  · simp [BankModel.pattern, hempty, hstored]

/-- With three banks, selecting bank 4 shows bank 1 in the lower half. The last bank stays in the
upper half, and pattern memory repeats every 8 KB. -/
theorem follows_banks_of_three :
    ∃ image board, Image.parse threeBanks.bytes.toArray = .ok image ∧
      image.board = .ok board ∧
      let used := board.afterAll bankSwitches
      used.read 0x8000 = some 1 ∧ used.read 0xFFFF = some 2 ∧ used.read 0x6000 = none ∧
        used.readPattern 0x0042 = 0x7E := by
  have hsize : threeBanks.image.prg.size = 0xC000 := by
    rw [threeBanks.size_prg_image]
    rfl
  have hbyte : ∀ place < 0xC000,
      threeBanks.image.prg[place]? = some (UInt8.ofNat (place / 0x4000)) := by
    intro place h
    rw [ImageParts.image, List.getElem?_toArray, threeBanks, List.getElem?_map,
      List.getElem?_range h]
    rfl
  have hmapper : BoardKind.ofMapper threeBanks.image.mapper = some .uxrom := rfl
  have haccepts : BoardKind.uxrom.AcceptsProgram threeBanks.image.prg.size := by
    rw [hsize]
    decide
  have hparse := threeBanks.parse_bytes
  have hboard : threeBanks.image.board = .ok (ofBytes .uxrom threeBanks.image.prg
      threeBanks.image.chr threeBanks.image.wiring) := by
    rw [Image.board, hmapper]
    exact if_pos haccepts
  obtain ⟨kind, hkind, hfollows⟩ := follows_banks hparse hboard
  obtain rfl : BoardKind.uxrom = kind := Option.some.inj (hmapper.symm.trans hkind)
  obtain ⟨-, -, hread, hpattern, -⟩ := hfollows bankSwitches
  obtain ⟨hlower, hupper, hnowhere, hstored⟩ := model_bankSwitches hsize hbyte rfl
  exact ⟨_, _, hparse, hboard, (hread _).trans hlower, (hread _).trans hupper,
    (hread _).trans hnowhere, Option.some.inj ((hpattern _).trans hstored)⟩

end Board

end Famicom
