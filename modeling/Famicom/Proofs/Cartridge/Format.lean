import Famicom.Byte
import Famicom.Cartridge.Image

/-!
# The image format

An image is laid out from a header, an optional trainer, the program, the patterns and whatever
follows. Laying out and reading are inverse to each other: every layout is read back to its parts,
and every image that is accepted is such a layout. Where an image is refused, the first check that
fails names the reason.
-/

namespace Famicom

/-- What an image is laid out from. -/
structure ImageParts where
  /-- Board number. -/
  mapper : UInt8
  /-- Connection of the nametables. -/
  wiring : Wiring
  /-- No header names a wiring that shows one table everywhere. -/
  wiring_named : wiring ≠ .single0 ∧ wiring ≠ .single1
  /-- The header bit for memory behind a battery, which nothing depends on. -/
  battery : Bool
  /-- The wiring bit, where four separate tables take precedence over it. -/
  spareWiring : Bool
  /-- The two lowest bits of the extended flags, which nothing depends on. -/
  spareBits : UInt8
  /-- The rest of the header, which nothing depends on. -/
  padding : List UInt8
  padding_length : padding.length = 8
  /-- The bytes before the program, or none. -/
  trainer : List UInt8
  trainer_length : trainer = [] ∨ trainer.length = 512
  /-- Program size in units of 16 KB. -/
  prgBanks : UInt8
  prgBanks_ne_zero : prgBanks ≠ 0
  /-- Program data. -/
  prg : List UInt8
  prg_length : prg.length = prgBanks.toNat * 0x4000
  /-- Pattern size in units of 8 KB. -/
  chrBanks : UInt8
  /-- Pattern data. -/
  chr : List UInt8
  chr_length : chr.length = chrBanks.toNat * 0x2000
  /-- The bytes after the declared banks. -/
  trailing : List UInt8

namespace ImageParts

/-- The wiring bit of the header. -/
def wiringBit (parts : ImageParts) : Bool :=
  decide (parts.wiring = .vertical) || decide (parts.wiring = .fourScreen) && parts.spareWiring

/-- Lower half of the board number above the four-screen, trainer, battery and wiring bits. -/
def flags (parts : ImageParts) : UInt8 :=
  parts.mapper % 16 * 16 + Byte.ofBit 8 (decide (parts.wiring = .fourScreen)) +
    Byte.ofBit 4 (!parts.trainer.isEmpty) + Byte.ofBit 2 parts.battery +
    Byte.ofBit 1 parts.wiringBit

/-- Upper half of the board number; the version bits are zero. -/
def extendedFlags (parts : ImageParts) : UInt8 :=
  parts.mapper / 16 * 16 + parts.spareBits % 4

/-- The sixteen bytes of the header. -/
def header (parts : ImageParts) : List UInt8 :=
  0x4E :: 0x45 :: 0x53 :: 0x1A :: parts.prgBanks :: parts.chrBanks :: parts.flags ::
    parts.extendedFlags :: parts.padding

/-- The image. -/
def bytes (parts : ImageParts) : List UInt8 :=
  parts.header ++ (parts.trainer ++ (parts.prg ++ (parts.chr ++ parts.trailing)))

/-- The parts that matter to a board. -/
def image (parts : ImageParts) : Image :=
  { mapper := parts.mapper
    wiring := parts.wiring
    prg := parts.prg.toArray
    chr := parts.chr.toArray }

/-- The program has its declared size. -/
theorem size_prg_image (parts : ImageParts) :
    parts.image.prg.size = parts.prgBanks.toNat * 0x4000 :=
  parts.prg_length

/-- The patterns have their declared size. -/
theorem size_chr_image (parts : ImageParts) :
    parts.image.chr.size = parts.chrBanks.toNat * 0x2000 :=
  parts.chr_length

/-- The header fields of a layout. -/
def fields (parts : ImageParts) : ImageHeader :=
  { prgBanks := parts.prgBanks
    chrBanks := parts.chrBanks
    flags := parts.flags
    extendedFlags := parts.extendedFlags }

variable (parts : ImageParts)

theorem header_length : parts.header.length = 16 := by
  simp [header, parts.padding_length]

theorem bytes_length :
    parts.bytes.length = 16 + parts.trainer.length + parts.prg.length + parts.chr.length +
      parts.trailing.length := by
  simp only [bytes, List.length_append, header_length]
  omega

/-- Reading finds the header fields that were laid out. -/
theorem ofBytes_bytes : ImageHeader.ofBytes parts.bytes.toArray = parts.fields := by
  simp [ImageHeader.ofBytes, bytes, header, fields]

/-- The flags are a sum of five fields. -/
theorem toNat_flags :
    parts.flags.toNat =
      parts.mapper.toNat % 16 * 16 + (decide (parts.wiring = .fourScreen)).toNat * 8 +
        (!parts.trainer.isEmpty).toNat * 4 + parts.battery.toNat * 2 + parts.wiringBit.toNat := by
  have hfour := Bool.toNat_le (decide (parts.wiring = .fourScreen))
  have htrainer := Bool.toNat_le (!parts.trainer.isEmpty)
  have hbattery := Bool.toNat_le parts.battery
  have hwiring := Bool.toNat_le parts.wiringBit
  simp only [flags, UInt8.toNat_add, UInt8.toNat_mul, UInt8.toNat_mod, Byte.toNat_ofBit,
    UInt8.reduceToNat]
  omega

/-- The fields that matter are read off the flags. -/
theorem flags_fields :
    parts.flags.toNat / 16 = parts.mapper.toNat % 16 ∧
      parts.flags.toNat / 8 % 2 = (decide (parts.wiring = .fourScreen)).toNat ∧
      parts.flags.toNat / 4 % 2 = (!parts.trainer.isEmpty).toNat ∧
      parts.flags.toNat % 2 = parts.wiringBit.toNat := by
  have hfour := Bool.toNat_le (decide (parts.wiring = .fourScreen))
  have htrainer := Bool.toNat_le (!parts.trainer.isEmpty)
  have hbattery := Bool.toNat_le parts.battery
  have hwiring := Bool.toNat_le parts.wiringBit
  rw [toNat_flags]
  omega

/-- The extended flags hold the upper half of the board number, and zero for the version. -/
theorem toNat_extendedFlags :
    parts.extendedFlags.toNat / 16 = parts.mapper.toNat / 16 ∧
      parts.extendedFlags.toNat / 4 % 4 = 0 := by
  have hmapper := parts.mapper.toNat_lt
  simp only [extendedFlags, UInt8.toNat_add, UInt8.toNat_mul, UInt8.toNat_mod, UInt8.toNat_div,
    UInt8.reduceToNat]
  omega

/-- A layout is of the only known version. -/
theorem fields_version : parts.fields.version = 0 := by
  apply UInt8.toNat_inj.mp
  simpa only [ImageHeader.version, fields, UInt8.toNat_mod, UInt8.toNat_div, UInt8.reduceToNat]
    using parts.toNat_extendedFlags.2

/-- The two halves of the board number are put together again. -/
theorem fields_mapper : parts.fields.mapper = parts.mapper := by
  have hmapper := parts.mapper.toNat_lt
  have hlower := parts.flags_fields.1
  have hupper := parts.toNat_extendedFlags.1
  apply UInt8.toNat_inj.mp
  simp only [ImageHeader.mapper, fields, UInt8.toNat_add, UInt8.toNat_mul, UInt8.toNat_div,
    UInt8.reduceToNat, hlower, hupper]
  omega

/-- The connection of the nametables is read back. -/
theorem fields_wiring : parts.fields.wiring = parts.wiring := by
  obtain ⟨-, hfour, -, hvertical⟩ := parts.flags_fields
  obtain ⟨hzero, hone⟩ := parts.wiring_named
  simp only [ImageHeader.wiring, fields, ← UInt8.toNat_inj, UInt8.toNat_mod, UInt8.toNat_div,
    UInt8.reduceToNat, hfour, hvertical]
  cases hwiring : parts.wiring with
  | single0 => contradiction
  | single1 => contradiction
  | _ => simp [wiringBit, hwiring]

/-- The trainer is skipped exactly where there is one. -/
theorem fields_trainerSize : parts.fields.trainerSize = parts.trainer.length := by
  have hbit := parts.flags_fields.2.2.1
  simp only [ImageHeader.trainerSize, fields, ← UInt8.toNat_inj, UInt8.toNat_mod, UInt8.toNat_div,
    UInt8.reduceToNat, hbit]
  rcases parts.trainer_length with hnone | hsome
  · simp [hnone]
  · have hne : parts.trainer ≠ [] := by
      intro hnone
      simp [hnone] at hsome
    simp [hne, hsome]

/-- What a layout holds is found where its header says. -/
theorem fields_places :
    parts.fields.prgStart = 16 + parts.trainer.length ∧
      parts.fields.chrStart = parts.fields.prgStart + parts.prg.length ∧
      parts.fields.imageSize = parts.fields.chrStart + parts.chr.length := by
  refine ⟨?_, ?_, ?_⟩
  · rw [ImageHeader.prgStart, fields_trainerSize]
    rfl
  · rw [parts.prg_length]
    rfl
  · rw [parts.chr_length]
    rfl

/-- The program is the slice after header and trainer. -/
theorem extract_prg :
    parts.bytes.toArray.extract parts.fields.prgStart parts.fields.chrStart =
      parts.prg.toArray := by
  obtain ⟨hprg, hchr, -⟩ := parts.fields_places
  have hbefore : parts.fields.prgStart = (parts.header ++ parts.trainer).length := by
    rw [hprg, List.length_append, header_length]
  rw [hchr, hbefore, bytes, ← List.append_assoc]
  simp

/-- The patterns are the slice after the program. -/
theorem extract_chr :
    parts.bytes.toArray.extract parts.fields.chrStart parts.fields.imageSize =
      parts.chr.toArray := by
  obtain ⟨hprg, hchr, hsize⟩ := parts.fields_places
  have hbefore : parts.fields.chrStart = (parts.header ++ parts.trainer ++ parts.prg).length := by
    rw [hchr, hprg, List.length_append, List.length_append, header_length]
  rw [hsize, hbefore, bytes, ← List.append_assoc, ← List.append_assoc]
  simp

/-- A layout is read back to its parts. -/
theorem parse_bytes : Image.parse parts.bytes.toArray = .ok parts.image := by
  obtain ⟨hprg, hchr, hsize⟩ := parts.fields_places
  have hlength := parts.bytes_length
  have hlong : ¬parts.bytes.toArray.size < ImageHeader.size := by
    simp only [List.size_toArray, ImageHeader.size]
    omega
  have hsigned : parts.bytes.toArray.extract 0 4 = ImageHeader.signature := by
    simp [bytes, header, ImageHeader.signature]
  have hprgSize : parts.fields.prgSize ≠ 0 := by
    have hbanks : parts.prgBanks.toNat ≠ 0 := fun hzero =>
      parts.prgBanks_ne_zero (UInt8.toNat_inj.mp hzero)
    simp only [ImageHeader.prgSize, fields]
    omega
  have hfits : ¬parts.bytes.toArray.size < parts.fields.imageSize := by
    simp only [List.size_toArray]
    omega
  simp only [Image.parse, ofBytes_bytes, hlong, hsigned, fields_version, hprgSize, hfits,
    extract_prg, extract_chr, fields_mapper, fields_wiring, image, if_false, ne_eq,
    not_true_eq_false, or_self]

end ImageParts

namespace ImageHeader

/-- The two version bits. -/
theorem shifted_version (value : UInt8) : value >>> 2 &&& 3 = (value / 4 % 4 : UInt8) := by
  obtain ⟨bits⟩ := value
  revert bits
  decide +kernel

/-- The trainer bit. -/
theorem shifted_trainer (value : UInt8) :
    512 * (value >>> 2 &&& 1).toNat = if value / 4 % 2 = 1 then 512 else 0 := by
  obtain ⟨bits⟩ := value
  revert bits
  decide +kernel

/-- The position of the program and the declared sizes, from the bytes that hold them. -/
theorem sizes_ofBytes (raw : Array UInt8) :
    (ofBytes raw).prgStart = 16 + 512 * (raw.getD 6 0 >>> 2 &&& 1).toNat ∧
      (ofBytes raw).prgSize = 16384 * (raw.getD 4 0).toNat ∧
      (ofBytes raw).chrSize = 8192 * (raw.getD 5 0).toNat := by
  rw [shifted_trainer]
  exact ⟨rfl, Nat.mul_comm _ _, Nat.mul_comm _ _⟩

end ImageHeader

namespace Image

/-- A condition on a raw image and the error where it fails. -/
structure Check where
  passes : Bool
  error : ImageError

/-- The conditions on a raw image, in the order in which they are checked. Bits 2 and 3 of byte 7
hold the header version, and bit 2 of byte 6 announces a trainer. -/
def checks (raw : Array UInt8) : List Check :=
  let byte := fun index => raw.getD index 0
  let version := byte 7 >>> 2 &&& 3
  let needed := 16 + 512 * (byte 6 >>> 2 &&& 1).toNat + 16384 * (byte 4).toNat +
    8192 * (byte 5).toNat
  [ ⟨decide (16 ≤ raw.size), .notInes⟩,
    ⟨raw.extract 0 4 == #[0x4E, 0x45, 0x53, 0x1A], .notInes⟩,
    ⟨version == 0, .unsupportedVersion version⟩,
    ⟨byte 4 != 0, .noProgram⟩,
    ⟨decide (needed ≤ raw.size), .truncated needed raw.size⟩ ]

/-- The error of the first condition that fails. -/
def firstError (checks : List Check) : Option ImageError :=
  (checks.find? fun check => !check.passes).map Check.error

theorem firstError_cons (check : Check) (rest : List Check) :
    firstError (check :: rest) = if check.passes then firstError rest else some check.error := by
  cases hpasses : check.passes <;> simp [firstError, hpasses]

/-- No condition fails exactly where all hold. -/
theorem firstError_eq_none_iff (checks : List Check) :
    firstError checks = none ↔ ∀ check ∈ checks, check.passes := by
  simp [firstError]

/-- The conditions, in terms of the header. -/
theorem checks_eq (raw : Array UInt8) :
    let header := ImageHeader.ofBytes raw
    checks raw =
      [ ⟨decide (16 ≤ raw.size), .notInes⟩,
        ⟨raw.extract 0 4 == ImageHeader.signature, .notInes⟩,
        ⟨header.version == 0, .unsupportedVersion header.version⟩,
        ⟨header.prgBanks != 0, .noProgram⟩,
        ⟨decide (header.imageSize ≤ raw.size), .truncated header.imageSize raw.size⟩ ] := by
  obtain ⟨hstart, hprg, hchr⟩ := ImageHeader.sizes_ofBytes raw
  simp only [checks, ← hstart, ← hprg, ← hchr, ImageHeader.shifted_version]
  rfl

/-- An image is refused for the first condition that fails, and accepted where none does. -/
theorem parse_eq_firstError (raw : Array UInt8) :
    parse raw = match firstError (checks raw) with
      | some error => .error error
      | none =>
        let header := ImageHeader.ofBytes raw
        .ok
          { mapper := header.mapper
            wiring := header.wiring
            prg := raw.extract header.prgStart header.chrStart
            chr := raw.extract header.chrStart header.imageSize } := by
  simp only [parse, checks_eq, firstError_cons]
  generalize ImageHeader.ofBytes raw = header
  have hprogram : header.prgSize = 0 ↔ header.prgBanks = 0 := by
    rw [ImageHeader.prgSize, ← UInt8.toNat_inj]
    change header.prgBanks.toNat * 0x4000 = 0 ↔ header.prgBanks.toNat = 0
    omega
  by_cases hlong : raw.size < ImageHeader.size
  · have hshort : ¬16 ≤ raw.size := Nat.not_le_of_lt hlong
    simp [hlong, hshort]
  · have hheader : 16 ≤ raw.size := Nat.le_of_not_lt hlong
    by_cases hsigned : raw.extract 0 4 = ImageHeader.signature
    · by_cases hfirst : header.version = 0
      · by_cases hbanks : header.prgBanks = 0
        · simp [hlong, hheader, hsigned, hfirst, hprogram, hbanks]
        · by_cases hfits : raw.size < header.imageSize
          · have hcut : ¬header.imageSize ≤ raw.size := Nat.not_le_of_lt hfits
            simp [hlong, hheader, hsigned, hfirst, hprogram, hbanks, hfits, hcut]
          · have hroom : header.imageSize ≤ raw.size := Nat.le_of_not_lt hfits
            simp [hlong, hheader, hsigned, hfirst, hprogram, hbanks, hfits, hroom, firstError]
      · simp [hlong, hheader, hsigned, hfirst]
    · simp [hlong, hheader, hsigned]

end Image

namespace ImageHeader

variable (header : ImageHeader)

/-- The flags are the lower half of the board number above four bits. -/
theorem flags_eq :
    header.flags = header.mapper % 16 * 16 + Byte.ofBit 8 (Byte.bit header.flags 8) +
      Byte.ofBit 4 (Byte.bit header.flags 4) + Byte.ofBit 2 (Byte.bit header.flags 2) +
      Byte.ofBit 1 (Byte.bit header.flags 1) := by
  have hlower : header.mapper % 16 * 16 = header.flags / 16 * 16 := by
    apply UInt8.toNat_inj.mp
    simp only [mapper, UInt8.toNat_add, UInt8.toNat_mul, UInt8.toNat_mod, UInt8.toNat_div,
      UInt8.reduceToNat]
    omega
  rw [hlower]
  obtain ⟨bits⟩ := header.flags
  revert bits
  decide +kernel

/-- The extended flags of the first version are the upper half of the board number above two bits
without a meaning. -/
theorem extendedFlags_eq (h : header.version = 0) :
    header.extendedFlags = header.mapper / 16 * 16 + header.extendedFlags % 4 := by
  have hversion : header.extendedFlags.toNat / 4 % 4 = 0 := by
    simpa only [version, ← UInt8.toNat_inj, UInt8.toNat_mod, UInt8.toNat_div, UInt8.reduceToNat]
      using h
  have hflags := header.flags.toNat_lt
  have hextended := header.extendedFlags.toNat_lt
  apply UInt8.toNat_inj.mp
  simp only [mapper, UInt8.toNat_add, UInt8.toNat_mul, UInt8.toNat_mod, UInt8.toNat_div,
    UInt8.reduceToNat]
  omega

/-- A header names the wiring by two bits. -/
theorem wiring_bits :
    decide (header.wiring = .fourScreen) = Byte.bit header.flags 8 ∧
      (decide (header.wiring = .vertical) ||
        decide (header.wiring = .fourScreen) && Byte.bit header.flags 1) =
          Byte.bit header.flags 1 ∧
      header.wiring ≠ .single0 ∧ header.wiring ≠ .single1 := by
  have hone : header.flags / 1 = header.flags := by simp
  simp only [wiring, Byte.bit, hone]
  by_cases hfour : header.flags / 8 % 2 = 1
  · simp [hfour]
  · by_cases hvertical : header.flags % 2 = 1
    · simp [hfour, hvertical]
    · simp [hfour, hvertical]

end ImageHeader

namespace Image

/-- A raw image that passes every check. -/
structure Accepted (raw : Array UInt8) : Prop where
  long : 16 ≤ raw.size
  signed : raw.extract 0 4 = ImageHeader.signature
  version : (ImageHeader.ofBytes raw).version = 0
  program : (ImageHeader.ofBytes raw).prgBanks ≠ 0
  fits : (ImageHeader.ofBytes raw).imageSize ≤ raw.size

variable {raw : Array UInt8} {image : Image}

/-- The trainer ends within the image. -/
theorem Accepted.trainer (h : Accepted raw) :
    16 + (ImageHeader.ofBytes raw).trainerSize ≤ raw.size :=
  Nat.le_trans (Nat.le_trans (Nat.le_add_right _ _) (Nat.le_add_right _ _)) h.fits

/-- An accepted image begins with the signature and the four header bytes that matter. -/
theorem Accepted.toList_eq (h : Accepted raw) :
    raw.toList = 0x4E :: 0x45 :: 0x53 :: 0x1A :: raw.getD 4 0 :: raw.getD 5 0 :: raw.getD 6 0 ::
      raw.getD 7 0 :: raw.toList.drop 8 := by
  have hbyte {index : Nat} (hindex : index < 8) :
      raw.toList.drop index = raw.getD index 0 :: raw.toList.drop (index + 1) := by
    have hlong := h.long
    have hsize : index < raw.size := by omega
    rw [List.drop_eq_getElem_cons (by simpa using hsize)]
    simp [hsize]
  calc
    raw.toList = raw.toList.take 4 ++ raw.toList.drop 4 := (List.take_append_drop 4 _).symm
    _ = (raw.extract 0 4).toList ++ raw.toList.drop 4 := by simp
    _ = _ := by
      rw [h.signed, hbyte (by decide : 4 < 8), hbyte (by decide : 5 < 8),
        hbyte (by decide : 6 < 8), hbyte (by decide : 7 < 8)]
      rfl

/-- What is read passes every check. -/
theorem accepted_of_parse (h : parse raw = .ok image) : Accepted raw := by
  rw [parse_eq_firstError] at h
  cases hfirst : firstError (checks raw) with
  | some error => simp [hfirst] at h
  | none =>
    have hchecks := (firstError_eq_none_iff _).mp hfirst
    simp only [checks_eq, List.forall_mem_cons, decide_eq_true_eq, beq_iff_eq, bne_iff_ne]
      at hchecks
    obtain ⟨hlong, hsigned, hversion, hprogram, hfits, -⟩ := hchecks
    exact ⟨hlong, hsigned, hversion, hprogram, hfits⟩

end Image

namespace ImageParts

theorem length_slice {raw : Array UInt8} {start count : Nat} (h : start + count ≤ raw.size) :
    ((raw.toList.drop start).take count).length = count := by
  rw [List.length_take, List.length_drop, Array.length_toList]
  omega

theorem slice_append (bytes : List UInt8) (start count : Nat) :
    (bytes.drop start).take count ++ bytes.drop (start + count) = bytes.drop start := by
  rw [← List.drop_drop, List.take_append_drop]

variable {raw : Array UInt8}

/-- The parts of a raw image that passes every check. -/
def ofRaw (raw : Array UInt8) (h : Image.Accepted raw) : ImageParts :=
  let header := ImageHeader.ofBytes raw
  have hsizes : header.prgStart + header.prgSize + header.chrSize ≤ raw.size := h.fits
  { mapper := header.mapper
    wiring := header.wiring
    wiring_named := header.wiring_bits.2.2
    battery := Byte.bit header.flags 2
    spareWiring := Byte.bit header.flags 1
    spareBits := header.extendedFlags
    padding := (raw.toList.drop 8).take 8
    padding_length := length_slice h.long
    trainer := (raw.toList.drop 16).take header.trainerSize
    trainer_length := by
      rw [length_slice h.trainer, ImageHeader.trainerSize]
      split <;> simp
    prgBanks := header.prgBanks
    prgBanks_ne_zero := h.program
    prg := (raw.toList.drop header.prgStart).take header.prgSize
    prg_length := length_slice (by omega)
    chrBanks := header.chrBanks
    chr := (raw.toList.drop header.chrStart).take header.chrSize
    chr_length := length_slice h.fits
    trailing := raw.toList.drop header.imageSize }

/-- A trainer is cut out exactly where it is announced. -/
theorem trainer_ofRaw (h : Image.Accepted raw) :
    (!(ofRaw raw h).trainer.isEmpty) = Byte.bit (ImageHeader.ofBytes raw).flags 4 := by
  have hlength : (ofRaw raw h).trainer.length = (ImageHeader.ofBytes raw).trainerSize :=
    length_slice h.trainer
  rw [Bool.eq_iff_iff, Bool.not_eq_true', List.isEmpty_eq_false_iff, ← List.length_pos_iff,
    hlength, ImageHeader.trainerSize, Byte.bit, beq_iff_eq]
  split <;> simp [*]

/-- The flags are laid out as they were read. -/
theorem flags_ofRaw (h : Image.Accepted raw) : (ofRaw raw h).flags = raw.getD 6 0 := by
  let read := ImageHeader.ofBytes raw
  obtain ⟨hfour, hwiring, -⟩ := read.wiring_bits
  rw [flags, wiringBit, trainer_ofRaw]
  change read.mapper % 16 * 16 + Byte.ofBit 8 (decide (read.wiring = .fourScreen)) + _ + _ +
    Byte.ofBit 1 (decide (read.wiring = .vertical) ||
      decide (read.wiring = .fourScreen) && Byte.bit read.flags 1) = _
  rw [hwiring, hfour]
  exact read.flags_eq.symm

/-- Cutting an image into parts loses nothing. -/
theorem bytes_ofRaw (h : Image.Accepted raw) : (ofRaw raw h).bytes = raw.toList := by
  let read := ImageHeader.ofBytes raw
  have hextended : (ofRaw raw h).extendedFlags = raw.getD 7 0 :=
    (read.extendedFlags_eq h.version).symm
  have hbody : (ofRaw raw h).trainer ++ ((ofRaw raw h).prg ++ ((ofRaw raw h).chr ++
      (ofRaw raw h).trailing)) = raw.toList.drop 16 := by
    have hchr := slice_append raw.toList read.chrStart read.chrSize
    have hprg := slice_append raw.toList read.prgStart read.prgSize
    have htrainer := slice_append raw.toList 16 read.trainerSize
    calc
      _ = _ ++ (_ ++ raw.toList.drop read.chrStart) := by rw [← hchr]; rfl
      _ = _ ++ raw.toList.drop read.prgStart := by rw [← hprg]; rfl
      _ = raw.toList.drop 16 := by rw [← htrainer]; rfl
  have hpadding := slice_append raw.toList 8 8
  rw [h.toList_eq, ← hpadding, bytes, hbody, header, flags_ofRaw, hextended]
  rfl

end ImageParts

namespace Image

variable {raw : Array UInt8} {image : Image}

/-- What is read is what the parts of the image hold. -/
theorem image_ofRaw (h : parse raw = .ok image) :
    (ImageParts.ofRaw raw (accepted_of_parse h)).image = image := by
  have hparse := (ImageParts.ofRaw raw (accepted_of_parse h)).parse_bytes
  rw [ImageParts.bytes_ofRaw, h] at hparse
  exact (Except.ok.inj hparse).symm

/-- The program and the patterns that are read are the declared slices. -/
theorem slices_of_parse (h : parse raw = .ok image) :
    let header := ImageHeader.ofBytes raw
    image.prg = raw.extract header.prgStart header.chrStart ∧
      image.chr = raw.extract header.chrStart header.imageSize := by
  rw [parse_eq_firstError] at h
  cases hfirst : firstError (checks raw) with
  | some error => simp [hfirst] at h
  | none =>
    rw [hfirst] at h
    obtain rfl := Except.ok.inj h
    exact ⟨rfl, rfl⟩

/-- The banks that are read have their declared sizes. -/
theorem sizes_of_parse (h : parse raw = .ok image) :
    image.prg.size = (ImageHeader.ofBytes raw).prgSize ∧
      image.chr.size = (ImageHeader.ofBytes raw).chrSize := by
  rw [← image_ofRaw h]
  exact ⟨ImageParts.size_prg_image _, ImageParts.size_chr_image _⟩

/-- **Images are read exactly as they are laid out.** A raw image is accepted exactly when it has
a header, the signature, version zero, at least one program bank and all declared bytes; otherwise
the first of these checks that fails names the error. What is accepted is split into the declared
slices behind header and trainer. The accepted images are exactly the layouts of parts, and each
is read back to its parts. -/
theorem parse_exact (raw : Array UInt8) :
    ((∃ image, parse raw = .ok image) ↔ ∀ check ∈ checks raw, check.passes) ∧
      (∀ error, parse raw = .error error ↔ firstError (checks raw) = some error) ∧
      (∀ image, parse raw = .ok image →
        let start := 16 + 512 * (raw.getD 6 0 >>> 2 &&& 1).toNat
        let prgSize := 16384 * (raw.getD 4 0).toNat
        let chrSize := 8192 * (raw.getD 5 0).toNat
        image.prg = raw.extract start (start + prgSize) ∧ image.prg.size = prgSize ∧
          image.chr = raw.extract (start + prgSize) (start + prgSize + chrSize) ∧
          image.chr.size = chrSize) ∧
      ∀ image, parse raw = .ok image ↔
        ∃ parts : ImageParts, parts.bytes.toArray = raw ∧ parts.image = image := by
  refine ⟨?_, ?_, ?_, ?_⟩
  · rw [← firstError_eq_none_iff, parse_eq_firstError]
    cases firstError (checks raw) <;> simp
  · intro error
    rw [parse_eq_firstError]
    cases firstError (checks raw) <;> simp
  · intro image h start prgSize chrSize
    obtain ⟨hstart, hprgBytes, hchrBytes⟩ := ImageHeader.sizes_ofBytes raw
    obtain ⟨hprg, hchr⟩ := slices_of_parse h
    obtain ⟨hprgSize, hchrSize⟩ := sizes_of_parse h
    simp only [ImageHeader.imageSize, ImageHeader.chrStart, hstart, hprgBytes, hchrBytes]
      at hprg hchr hprgSize hchrSize
    exact ⟨hprg, hprgSize, hchr, hchrSize⟩
  · intro image
    constructor
    · intro h
      refine ⟨ImageParts.ofRaw raw (accepted_of_parse h), ?_, image_ofRaw h⟩
      rw [ImageParts.bytes_ofRaw]
    · rintro ⟨parts, rfl, rfl⟩
      exact parts.parse_bytes

end Image

end Famicom
