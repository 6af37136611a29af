import Famicom.Cartridge.Board

/-!
# iNES images

An image is a 16-byte header, an optional 512-byte trainer, program banks of 16 KB and pattern
banks of 8 KB. Reading checks the signature, the header version, the bank count and the size,
in this order; inserting the image then checks that a board of the named type can hold it.
Bytes after the declared banks are ignored.
-/

namespace Famicom

/-- Why an image is refused. -/
inductive ImageError where
  /-- No header, or not the iNES signature. -/
  | notInes
  /-- A header version other than the first. -/
  | unsupportedVersion (version : UInt8)
  /-- The header declares no program bank. -/
  | noProgram
  /-- Fewer bytes than the header declares. -/
  | truncated (expected found : Nat)
  /-- No board is known under this number. -/
  | unsupportedMapper (mapper : UInt8)
  /-- The board has no room for a program of this size. -/
  | programSize (kind : BoardKind) (found : Nat)
deriving DecidableEq, Repr

/-- The text shown for a refused image. -/
def ImageError.message : ImageError → String
  | notInes => "Not an iNES file"
  | unsupportedVersion version => "Unsupported ROM version: v" ++ toString version.toNat
  | noProgram => "ROM declares no PRG-ROM banks"
  | truncated expected found =>
    "ROM image truncated: expected " ++ toString expected ++ " bytes, found " ++ toString found
  | unsupportedMapper mapper => "Unsupported Mapper: " ++ toString mapper.toNat
  | programSize .nrom found =>
    "NROM expects 16 KB or 32 KB of PRG-ROM, found " ++ toString found ++ " bytes"
  | programSize .cnrom found =>
    "CNROM expects 16 KB or 32 KB of PRG-ROM, found " ++ toString found ++ " bytes"
  | programSize .uxrom found =>
    "UxROM expects PRG-ROM in whole 16 KB banks, found " ++ toString found ++ " bytes"

/-- The header fields that matter. -/
structure ImageHeader where
  /-- Program size in units of 16 KB. -/
  prgBanks : UInt8
  /-- Pattern size in units of 8 KB; zero asks for writable patterns. -/
  chrBanks : UInt8
  /-- Lower half of the mapper number, four-screen bit, trainer bit and wiring bit. -/
  flags : UInt8
  /-- Upper half of the mapper number and header version. -/
  extendedFlags : UInt8
deriving DecidableEq, Repr

namespace ImageHeader

/-- The number of bytes before the trainer. -/
def size : Nat := 16

/-- The four bytes that open every image. -/
def signature : Array UInt8 := #[0x4E, 0x45, 0x53, 0x1A]

/-- The header version. -/
def version (header : ImageHeader) : UInt8 := header.extendedFlags / 4 % 4

/-- The board number. -/
def mapper (header : ImageHeader) : UInt8 :=
  header.extendedFlags / 16 * 16 + header.flags / 16

/-- Four separate nametables take precedence over the wiring bit. -/
def wiring (header : ImageHeader) : Wiring :=
  if header.flags / 8 % 2 = 1 then .fourScreen
  else if header.flags % 2 = 1 then .vertical
  else .horizontal

/-- Bytes between the header and the program. -/
def trainerSize (header : ImageHeader) : Nat :=
  if header.flags / 4 % 2 = 1 then 512 else 0

/-- Declared program size in bytes. -/
def prgSize (header : ImageHeader) : Nat := header.prgBanks.toNat * 0x4000

/-- Declared pattern size in bytes. -/
def chrSize (header : ImageHeader) : Nat := header.chrBanks.toNat * 0x2000

/-- Position of the first program byte. -/
def prgStart (header : ImageHeader) : Nat := size + header.trainerSize

/-- Position of the first pattern byte. -/
def chrStart (header : ImageHeader) : Nat := header.prgStart + header.prgSize

/-- The number of bytes that an image with this header needs. -/
def imageSize (header : ImageHeader) : Nat := header.chrStart + header.chrSize

/-- Read the fields out of a raw image; absent bytes count as zero. -/
def ofBytes (raw : Array UInt8) : ImageHeader :=
  { prgBanks := raw.getD 4 0
    chrBanks := raw.getD 5 0
    flags := raw.getD 6 0
    extendedFlags := raw.getD 7 0 }

end ImageHeader

/-- An image split into its banks. -/
structure Image where
  /-- Board number. -/
  mapper : UInt8
  /-- Connection of the nametables. -/
  wiring : Wiring
  /-- Program data. -/
  prg : Array UInt8
  /-- Pattern data; empty where the board has writable patterns. -/
  chr : Array UInt8
deriving DecidableEq

namespace Image

/-- Split a raw image; the first failing check decides the error. -/
def parse (raw : Array UInt8) : Except ImageError Image :=
  let header := ImageHeader.ofBytes raw
  if raw.size < ImageHeader.size ∨ raw.extract 0 4 ≠ ImageHeader.signature then .error .notInes
  else if header.version ≠ 0 then .error (.unsupportedVersion header.version)
  else if header.prgSize = 0 then .error .noProgram
  else if raw.size < header.imageSize then .error (.truncated header.imageSize raw.size)
  else .ok
    { mapper := header.mapper
      wiring := header.wiring
      prg := raw.extract header.prgStart header.chrStart
      chr := raw.extract header.chrStart header.imageSize }

end Image

namespace BoardKind

/-- The board behind a mapper number. -/
def ofMapper (mapper : UInt8) : Option BoardKind :=
  if mapper = 0 then some nrom
  else if mapper = 2 then some uxrom
  else if mapper = 3 then some cnrom
  else none

/-- Whether the board can hold a program of `size` bytes. -/
def AcceptsProgram (kind : BoardKind) (size : Nat) : Prop :=
  match kind with
  | nrom | cnrom => size = 0x4000 ∨ size = 0x8000
  | uxrom => size ≠ 0 ∧ size % 0x4000 = 0

instance (kind : BoardKind) (size : Nat) : Decidable (kind.AcceptsProgram size) := by
  cases kind <;> (simp only [AcceptsProgram]; infer_instance)

end BoardKind

/-- Put the image onto its board. -/
def Image.board (image : Image) : Except ImageError Board :=
  match BoardKind.ofMapper image.mapper with
  | none => .error (.unsupportedMapper image.mapper)
  | some kind =>
    if kind.AcceptsProgram image.prg.size then
      .ok (Board.ofBytes kind image.prg image.chr image.wiring)
    else .error (.programSize kind image.prg.size)

/-- Read a raw image and put it onto its board. -/
def Board.ofImage (raw : Array UInt8) : Except ImageError Board :=
  match Image.parse raw with
  | .error error => .error error
  | .ok image => image.board

end Famicom
