import Famicom.Proofs.Cpu.ListingLine

/-!
# The columns of a listing line

Listings are compared by columns, and the columns hold: every line has the same length, whatever
instruction it shows, and the address, the bytes, the mnemonic and the registers each have their
place in it. Nothing runs over into a neighbour, so that a line can be read back: two processors
that show the same line are about to run the same bytes at the same place with the same registers.
-/

namespace Famicom

namespace Text

/-- Four digits show one word. -/
theorem hexWord_injective {word other : UInt16} (h : hexWord word = hexWord other) :
    word = other := by
  have hnumbers (word : UInt16) : numbers (hexWord word) = [word.toNat] := by
    have hread := numbersFrom_hexWord word []
    rwa [List.append_nil] at hread
  have hword := congrArg numbers h
  rw [hnumbers, hnumbers] at hword
  exact UInt16.toNat_inj.mp (List.singleton_inj.mp hword)

end Text

namespace Cpu

open Text

/-- The registers as a line shows them, from their first letter on. -/
def registerBlock (registers : Registers) : String :=
  "A:" ++ hexByte registers.a ++ " X:" ++ hexByte registers.x ++ " Y:" ++ hexByte registers.y ++
    " P:" ++ hexByte registers.status.toByte ++ " SP:" ++ hexByte registers.sp

theorem registersText_eq (registers : Registers) :
    registersText registers = " " ++ registerBlock registers := by
  have hfirst : " " ++ "A:" = " A:" := rfl
  simp only [registersText, registerBlock, ← String.append_assoc, hfirst]

theorem length_registerBlock (registers : Registers) : (registerBlock registers).length = 25 := by
  simp only [registerBlock, String.length_append, hexByte_length]
  rfl

/-- The numbers in the registers of a line. The letter of the accumulator is a digit as well. -/
theorem numbers_registerBlock (registers : Registers) :
    numbers (registerBlock registers) =
      [0xA, registers.a.toNat, registers.x.toNat, registers.y.toNat,
        registers.status.toByte.toNat, registers.sp.toNat] := by
  have hletter (rest : List Char) :
      numbersFrom none ("A:".toList ++ rest) = 0xA :: numbersFrom none rest := rfl
  have hlast := numbersFrom_hexByte registers.sp []
  rw [List.append_nil] at hlast
  simp (disch := decide) only [numbers, registerBlock, String.toList_append, List.append_assoc,
    hletter, numbersFrom_hexByte, numbersFrom_separator, hlast]
  rfl

/-- Equal numbers in the registers of two lines are those of equal registers. -/
theorem registerBlock_injective {registers other : Registers}
    (h : registerBlock registers = registerBlock other) : registers = other := by
  have hnumbers := congrArg numbers h
  simp only [numbers_registerBlock, List.cons.injEq, UInt8.toNat_inj, true_and, and_true]
    at hnumbers
  obtain ⟨ha, hx, hy, hp, hsp⟩ := hnumbers
  have hstatus := congrArg Status.ofByte hp
  rw [Status.ofByte_toByte, Status.ofByte_toByte] at hstatus
  cases registers
  cases other
  rw [Registers.mk.injEq]
  exact ⟨ha, hx, hy, hsp, hstatus⟩

section Columns

variable {Bus : Type} [CpuBus Bus] (cpu : Cpu) (bus : Bus)

/-- The bytes of the instruction that a line shows. -/
def listedBytes : List UInt8 :=
  (List.range (cpu.listed bus).size).map fun offset =>
    CpuBus.look bus (cpu.pc + UInt16.ofNat offset)

/-- The bytes are read back from their columns. -/
theorem numbers_listedBytes :
    numbers (dumpPart (cpu.listing bus)) = (cpu.listedBytes bus).map UInt8.toNat := by
  rw [numbers_dumpPart, listedBytes, List.map_map]
  rfl

theorem length_listing : (cpu.listing bus).length = 73 := by
  rw [listing_eq, String.length_append, String.length_append, length_heading, length_operand,
    registersText_eq, String.length_append, length_registerBlock]
  rfl

/-- The address stands first. -/
theorem columns_address : columns 0 4 (cpu.listing bus) = hexWord cpu.pc := by
  rw [listing_eq, heading]
  simp only [String.append_assoc]
  exact columns_first (hexWord_length cpu.pc) _

/-- The mnemonic stands to the right of its columns. -/
theorem columns_name :
    columns 15 4 (cpu.listing bus) = alignRight 4 (cpu.listed bus).name := by
  have hgap : "  ".length = 2 := rfl
  have hblank : " ".length = 1 := rfl
  rw [listing_eq, heading]
  simp only [String.append_assoc]
  rw [columns_skip (hexWord_length cpu.pc), columns_skip hgap, columns_skip (cpu.length_dump bus),
    columns_skip hblank, columns_first (cpu.length_name bus)]

/-- The registers stand last. -/
theorem columns_registers :
    columns 48 25 (cpu.listing bus) = registerBlock cpu.registers := by
  have hblank : " ".length = 1 := rfl
  have hblock := columns_first (length_registerBlock cpu.registers) ""
  rw [String.append_empty] at hblock
  rw [listing_eq, registersText_eq, columns_skip (cpu.length_heading bus),
    columns_skip (cpu.length_operand bus), columns_skip hblank, hblock]

end Columns

/-- **The columns of a line hold, and nothing in them is lost**, whatever the processor is about to
run and wherever its operand leads. Every line has 73 characters: the address is in the first four,
the bytes begin behind two blanks, the mnemonic ends with the nineteenth character, and the
registers begin behind the forty-eighth. Two processors that show the same line, on whatever buses,
are at the same address, with the same bytes there and the same registers. -/
theorem listing_columns {Bus Other : Type} [CpuBus Bus] [CpuBus Other] (cpu other : Cpu) (bus : Bus)
    (otherBus : Other) :
    let line := cpu.listing bus
    let dump := " ".intercalate ((cpu.listedBytes bus).map hexByte)
    let name := (cpu.listed bus).name
    line.length = 73 ∧
      columns 0 4 line = hexWord cpu.pc ∧
      columns 6 8 line = dump ++ blanks (8 - dump.length) ∧
      columns 15 4 line = blanks (4 - name.length) ++ name ∧
      columns 48 25 line =
        "A:" ++ hexByte cpu.registers.a ++ " X:" ++ hexByte cpu.registers.x ++
          " Y:" ++ hexByte cpu.registers.y ++ " P:" ++ hexByte cpu.registers.status.toByte ++
          " SP:" ++ hexByte cpu.registers.sp ∧
      (line = other.listing otherBus →
        cpu.pc = other.pc ∧ cpu.listedBytes bus = other.listedBytes otherBus ∧
          cpu.registers = other.registers) := by
  intro line dump name
  have hdump : dump = bytesText cpu.pc (cpu.listed bus) bus := by
    simp only [dump, listedBytes, List.map_map]
    rfl
  refine ⟨cpu.length_listing bus, cpu.columns_address bus, ?_, cpu.columns_name bus,
    cpu.columns_registers bus, fun hline => ⟨?_, ?_, ?_⟩⟩
  · rw [hdump]
    exact cpu.dumpPart_listing bus
  · have haddress := congrArg (columns 0 4) hline
    rw [cpu.columns_address bus, other.columns_address otherBus] at haddress
    exact hexWord_injective haddress
  · have hbytes : numbers (dumpPart line) = numbers (dumpPart (other.listing otherBus)) :=
      congrArg (fun line => numbers (dumpPart line)) hline
    rw [cpu.numbers_listedBytes bus, other.numbers_listedBytes otherBus] at hbytes
    exact (List.map_inj_right fun _ _ => UInt8.toNat_inj.mp).mp hbytes
  · have hregisters := congrArg (columns 48 25) hline
    rw [cpu.columns_registers bus, other.columns_registers otherBus] at hregisters
    exact registerBlock_injective hregisters

/-- The line of an instruction that does nothing, at the start of the upper half of memory. -/
theorem listing_nop {cpu : Cpu} {bus : FlatBus} (hpc : cpu.pc = 0x8000)
    (hcode : bus.memory.get 0x8000 = 0xEA) :
    cpu.listing bus =
      alignLeft 47 (hexWord 0x8000 ++ "  " ++ alignLeft 8 (hexByte 0xEA) ++ " " ++
        alignRight 4 "NOP" ++ " ") ++ registersText cpu.registers := by
  have hlook : CpuBus.look bus 0x8000 = 0xEA := hcode
  have hdump (opcode : Opcode) (hsize : opcode.size = 1) :
      bytesText 0x8000 opcode bus = hexByte 0xEA := by
    rw [bytesText, hsize, ← hlook]
    rfl
  rw [listing, hpc, hlook, decode_nop, hdump _ rfl]
  rfl

/-- A processor about to do nothing. -/
def beforeNop : Cpu := { pc := 0x8000 }

/-- Memory full of such instructions. -/
def nops : FlatBus := { memory := Memory.filled 16 0xEA }

/-- The same but for the byte behind the first one. -/
def nopThenOther : FlatBus := { memory := (Memory.filled 16 0xEA).set 0x8001 0x60 }

/-- A line tells neither the cycles gone by nor what comes behind the instruction, and all else. -/
theorem listing_columns_of_same_line :
    let later : Cpu := { pc := 0x8000, cycles := 7 }
    beforeNop.listing nops = later.listing nopThenOther ∧
      columns 15 4 (beforeNop.listing nops) = " NOP" ∧
      beforeNop.listedBytes nops = later.listedBytes nopThenOther ∧
      beforeNop.registers = later.registers := by
  intro later
  have hcode : nopThenOther.memory.get 0x8000 = 0xEA := by
    rw [nopThenOther, Memory.get_set, Memory.get_filled]
    rfl
  have hline : beforeNop.listing nops = later.listing nopThenOther := by
    rw [listing_nop rfl (Memory.get_filled 0xEA 0x8000), listing_nop rfl hcode]
    rfl
  obtain ⟨-, -, -, hname, -, hsame⟩ := listing_columns beforeNop later nops nopThenOther
  have hlisted : (beforeNop.listed nops).name = "NOP" := by
    change (decode (nops.memory.get 0x8000)).name = "NOP"
    rw [nops, Memory.get_filled, decode_nop]
    rfl
  rw [hlisted] at hname
  exact ⟨hline, hname, (hsame hline).2.1, (hsame hline).2.2⟩

end Cpu

end Famicom
