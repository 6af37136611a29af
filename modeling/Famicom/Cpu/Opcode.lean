import Famicom.Cpu.AddressingMode
import Famicom.Cpu.Mnemonic

/-!
# The opcode catalogue

Every byte value is an instruction. The catalogue lists them by family with the operation, the
addressing mode and the base cycle count; instruction length and access class follow from
these. Decoding looks a byte up in the catalogue.
-/

namespace Famicom

/-- One row of the catalogue. -/
structure Opcode where
  /-- The byte that selects the row. -/
  code : UInt8
  /-- What the instruction does. -/
  operation : Operation
  /-- How its operand is named. -/
  mode : AddressingMode
  /-- Cycles without the extra ones for branches and page crossings. -/
  baseCycles : Nat
  /-- Whether the maker documents the instruction. -/
  documented : Bool
deriving DecidableEq, Repr

namespace Opcode

/-- Instruction length in bytes. The software interrupt carries a byte that is no operand. -/
def size (opcode : Opcode) : Nat :=
  if opcode.operation = .brk then 2 else 1 + opcode.mode.operandLength

/-- The mnemonic, marked with a star where the instruction is undocumented. -/
def name (opcode : Opcode) : String :=
  if opcode.documented then opcode.operation.mnemonic
  else "*" ++ opcode.operation.mnemonic

namespace Catalogue

/-- A documented row. -/
def official (code : UInt8) (operation : Operation) (mode : AddressingMode)
    (baseCycles : Nat) : Opcode :=
  { code, operation, mode, baseCycles, documented := true }

/-- An undocumented row. -/
def unofficial (code : UInt8) (operation : Operation) (mode : AddressingMode)
    (baseCycles : Nat) : Opcode :=
  { code, operation, mode, baseCycles, documented := false }

/-- The software interrupt. -/
def softwareInterrupt : List Opcode :=
  [ official 0x00 .brk .implied 7 ]

/-- The idle instruction. -/
def noOperation : List Opcode :=
  [ official 0xEA .nop .implied 2 ]

/-- Copies between registers. -/
def transfers : List Opcode :=
  [ official 0xAA (.register .tax) .implied 2,
    official 0xA8 (.register .tay) .implied 2,
    official 0x8A (.register .txa) .implied 2,
    official 0x98 (.register .tya) .implied 2,
    official 0xBA (.register .tsx) .implied 2,
    official 0x9A (.register .txs) .implied 2 ]

/-- Single flags set and cleared. -/
def flags : List Opcode :=
  [ official 0xF8 (.register .sed) .implied 2,
    official 0x78 (.register .sei) .implied 2,
    official 0x38 (.register .sec) .implied 2,
    official 0xD8 (.register .cld) .implied 2,
    official 0x58 (.register .cli) .implied 2,
    official 0x18 (.register .clc) .implied 2,
    official 0xB8 (.register .clv) .implied 2 ]

/-- Loads of a register. -/
def loads : List Opcode :=
  [ official 0xA9 (.read .lda) .immediate 2,
    official 0xA5 (.read .lda) .zeroPage 3,
    official 0xB5 (.read .lda) .zeroPageX 4,
    official 0xAD (.read .lda) .absolute 4,
    official 0xBD (.read .lda) .absoluteX 4,
    official 0xB9 (.read .lda) .absoluteY 4,
    official 0xA1 (.read .lda) .indirectX 6,
    official 0xB1 (.read .lda) .indirectY 5,
    official 0xA2 (.read .ldx) .immediate 2,
    official 0xA6 (.read .ldx) .zeroPage 3,
    official 0xB6 (.read .ldx) .zeroPageY 4,
    official 0xAE (.read .ldx) .absolute 4,
    official 0xBE (.read .ldx) .absoluteY 4,
    official 0xA0 (.read .ldy) .immediate 2,
    official 0xA4 (.read .ldy) .zeroPage 3,
    official 0xB4 (.read .ldy) .zeroPageX 4,
    official 0xAC (.read .ldy) .absolute 4,
    official 0xBC (.read .ldy) .absoluteX 4 ]

/-- Stores of a register. -/
def stores : List Opcode :=
  [ official 0x85 (.store .sta) .zeroPage 3,
    official 0x95 (.store .sta) .zeroPageX 4,
    official 0x8D (.store .sta) .absolute 4,
    official 0x9D (.store .sta) .absoluteX 5,
    official 0x99 (.store .sta) .absoluteY 5,
    official 0x81 (.store .sta) .indirectX 6,
    official 0x91 (.store .sta) .indirectY 6,
    official 0x86 (.store .stx) .zeroPage 3,
    official 0x96 (.store .stx) .zeroPageY 4,
    official 0x8E (.store .stx) .absolute 4,
    official 0x84 (.store .sty) .zeroPage 3,
    official 0x94 (.store .sty) .zeroPageX 4,
    official 0x8C (.store .sty) .absolute 4 ]

/-- Pushes and pulls of one byte. -/
def stack : List Opcode :=
  [ official 0x68 .pla .implied 4,
    official 0x28 .plp .implied 4,
    official 0x48 .pha .implied 3,
    official 0x08 .php .implied 3 ]

/-- Shifts by one bit. -/
def shifts : List Opcode :=
  [ official 0x0A (.register (.shift .asl)) .accumulator 2,
    official 0x06 (.modify .asl) .zeroPage 5,
    official 0x16 (.modify .asl) .zeroPageX 6,
    official 0x0E (.modify .asl) .absolute 6,
    official 0x1E (.modify .asl) .absoluteX 7,
    official 0x4A (.register (.shift .lsr)) .accumulator 2,
    official 0x46 (.modify .lsr) .zeroPage 5,
    official 0x56 (.modify .lsr) .zeroPageX 6,
    official 0x4E (.modify .lsr) .absolute 6,
    official 0x5E (.modify .lsr) .absoluteX 7 ]

/-- Rotations by one bit through the carry. -/
def rotates : List Opcode :=
  [ official 0x2A (.register (.shift .rol)) .accumulator 2,
    official 0x26 (.modify .rol) .zeroPage 5,
    official 0x36 (.modify .rol) .zeroPageX 6,
    official 0x2E (.modify .rol) .absolute 6,
    official 0x3E (.modify .rol) .absoluteX 7,
    official 0x6A (.register (.shift .ror)) .accumulator 2,
    official 0x66 (.modify .ror) .zeroPage 5,
    official 0x76 (.modify .ror) .zeroPageX 6,
    official 0x6E (.modify .ror) .absolute 6,
    official 0x7E (.modify .ror) .absoluteX 7 ]

/-- Steps by one, in memory and in registers. -/
def increments : List Opcode :=
  [ official 0xE6 (.modify .inc) .zeroPage 5,
    official 0xF6 (.modify .inc) .zeroPageX 6,
    official 0xEE (.modify .inc) .absolute 6,
    official 0xFE (.modify .inc) .absoluteX 7,
    official 0xC6 (.modify .dec) .zeroPage 5,
    official 0xD6 (.modify .dec) .zeroPageX 6,
    official 0xCE (.modify .dec) .absolute 6,
    official 0xDE (.modify .dec) .absoluteX 7,
    official 0xE8 (.register .inx) .implied 2,
    official 0xC8 (.register .iny) .implied 2,
    official 0xCA (.register .dex) .implied 2,
    official 0x88 (.register .dey) .implied 2 ]

/-- Sums and differences. -/
def arithmetic : List Opcode :=
  [ official 0x69 (.read .adc) .immediate 2,
    official 0x65 (.read .adc) .zeroPage 3,
    official 0x75 (.read .adc) .zeroPageX 4,
    official 0x6D (.read .adc) .absolute 4,
    official 0x7D (.read .adc) .absoluteX 4,
    official 0x79 (.read .adc) .absoluteY 4,
    official 0x61 (.read .adc) .indirectX 6,
    official 0x71 (.read .adc) .indirectY 5,
    official 0xE9 (.read .sbc) .immediate 2,
    official 0xE5 (.read .sbc) .zeroPage 3,
    official 0xF5 (.read .sbc) .zeroPageX 4,
    official 0xED (.read .sbc) .absolute 4,
    official 0xFD (.read .sbc) .absoluteX 4,
    official 0xF9 (.read .sbc) .absoluteY 4,
    official 0xE1 (.read .sbc) .indirectX 6,
    official 0xF1 (.read .sbc) .indirectY 5 ]

/-- Bitwise operations and the bit test. -/
def logic : List Opcode :=
  [ official 0x29 (.read .and) .immediate 2,
    official 0x25 (.read .and) .zeroPage 3,
    official 0x35 (.read .and) .zeroPageX 4,
    official 0x2D (.read .and) .absolute 4,
    official 0x3D (.read .and) .absoluteX 4,
    official 0x39 (.read .and) .absoluteY 4,
    official 0x21 (.read .and) .indirectX 6,
    official 0x31 (.read .and) .indirectY 5,
    official 0x09 (.read .ora) .immediate 2,
    official 0x05 (.read .ora) .zeroPage 3,
    official 0x15 (.read .ora) .zeroPageX 4,
    official 0x0D (.read .ora) .absolute 4,
    official 0x1D (.read .ora) .absoluteX 4,
    official 0x19 (.read .ora) .absoluteY 4,
    official 0x01 (.read .ora) .indirectX 6,
    official 0x11 (.read .ora) .indirectY 5,
    official 0x49 (.read .eor) .immediate 2,
    official 0x45 (.read .eor) .zeroPage 3,
    official 0x55 (.read .eor) .zeroPageX 4,
    official 0x4D (.read .eor) .absolute 4,
    official 0x5D (.read .eor) .absoluteX 4,
    official 0x59 (.read .eor) .absoluteY 4,
    official 0x41 (.read .eor) .indirectX 6,
    official 0x51 (.read .eor) .indirectY 5,
    official 0x24 (.read .bit) .zeroPage 3,
    official 0x2C (.read .bit) .absolute 4 ]

/-- Comparisons. -/
def compares : List Opcode :=
  [ official 0xC9 (.read .cmp) .immediate 2,
    official 0xC5 (.read .cmp) .zeroPage 3,
    official 0xD5 (.read .cmp) .zeroPageX 4,
    official 0xCD (.read .cmp) .absolute 4,
    official 0xDD (.read .cmp) .absoluteX 4,
    official 0xD9 (.read .cmp) .absoluteY 4,
    official 0xC1 (.read .cmp) .indirectX 6,
    official 0xD1 (.read .cmp) .indirectY 5,
    official 0xE0 (.read .cpx) .immediate 2,
    official 0xE4 (.read .cpx) .zeroPage 3,
    official 0xEC (.read .cpx) .absolute 4,
    official 0xC0 (.read .cpy) .immediate 2,
    official 0xC4 (.read .cpy) .zeroPage 3,
    official 0xCC (.read .cpy) .absolute 4 ]

/-- Jumps, calls and returns. -/
def jumps : List Opcode :=
  [ official 0x4C .jmp .absolute 3,
    official 0x6C .jmp .indirect 5,
    official 0x20 .jsr .absolute 6,
    official 0x60 .rts .implied 6,
    official 0x40 .rti .implied 6 ]

/-- Conditional branches. -/
def branches : List Opcode :=
  [ official 0x10 (.branch .negative false) .relative 2,
    official 0x30 (.branch .negative true) .relative 2,
    official 0x50 (.branch .overflow false) .relative 2,
    official 0x70 (.branch .overflow true) .relative 2,
    official 0x90 (.branch .carry false) .relative 2,
    official 0xB0 (.branch .carry true) .relative 2,
    official 0xD0 (.branch .zero false) .relative 2,
    official 0xF0 (.branch .zero true) .relative 2 ]

/-- Idle instructions of every length, which still read their operand. -/
def unofficialNops : List Opcode :=
  [ unofficial 0x1A .nop .implied 2,
    unofficial 0x3A .nop .implied 2,
    unofficial 0x5A .nop .implied 2,
    unofficial 0x7A .nop .implied 2,
    unofficial 0xDA .nop .implied 2,
    unofficial 0xFA .nop .implied 2,
    unofficial 0x80 (.read .nop) .immediate 2,
    unofficial 0x82 (.read .nop) .immediate 2,
    unofficial 0x89 (.read .nop) .immediate 2,
    unofficial 0xC2 (.read .nop) .immediate 2,
    unofficial 0xE2 (.read .nop) .immediate 2,
    unofficial 0x04 (.read .nop) .zeroPage 3,
    unofficial 0x44 (.read .nop) .zeroPage 3,
    unofficial 0x64 (.read .nop) .zeroPage 3,
    unofficial 0x14 (.read .nop) .zeroPageX 4,
    unofficial 0x34 (.read .nop) .zeroPageX 4,
    unofficial 0x54 (.read .nop) .zeroPageX 4,
    unofficial 0x74 (.read .nop) .zeroPageX 4,
    unofficial 0xD4 (.read .nop) .zeroPageX 4,
    unofficial 0xF4 (.read .nop) .zeroPageX 4,
    unofficial 0x0C (.read .nop) .absolute 4,
    unofficial 0x1C (.read .nop) .absoluteX 4,
    unofficial 0x3C (.read .nop) .absoluteX 4,
    unofficial 0x5C (.read .nop) .absoluteX 4,
    unofficial 0x7C (.read .nop) .absoluteX 4,
    unofficial 0xDC (.read .nop) .absoluteX 4,
    unofficial 0xFC (.read .nop) .absoluteX 4 ]

/-- The accumulator and the first index register together. -/
def doubleTransfers : List Opcode :=
  [ unofficial 0xA7 (.read .lax) .zeroPage 3,
    unofficial 0xB7 (.read .lax) .zeroPageY 4,
    unofficial 0xAF (.read .lax) .absolute 4,
    unofficial 0xBF (.read .lax) .absoluteY 4,
    unofficial 0xA3 (.read .lax) .indirectX 6,
    unofficial 0xB3 (.read .lax) .indirectY 5,
    unofficial 0x87 (.store .sax) .zeroPage 3,
    unofficial 0x97 (.store .sax) .zeroPageY 4,
    unofficial 0x8F (.store .sax) .absolute 4,
    unofficial 0x83 (.store .sax) .indirectX 6 ]

/-- A change in memory followed by an operation on the new byte. -/
def combinedChanges : List Opcode :=
  [ unofficial 0x07 (.modify .slo) .zeroPage 5,
    unofficial 0x17 (.modify .slo) .zeroPageX 6,
    unofficial 0x0F (.modify .slo) .absolute 6,
    unofficial 0x1F (.modify .slo) .absoluteX 7,
    unofficial 0x1B (.modify .slo) .absoluteY 7,
    unofficial 0x03 (.modify .slo) .indirectX 8,
    unofficial 0x13 (.modify .slo) .indirectY 8,
    unofficial 0x27 (.modify .rla) .zeroPage 5,
    unofficial 0x37 (.modify .rla) .zeroPageX 6,
    unofficial 0x2F (.modify .rla) .absolute 6,
    unofficial 0x3F (.modify .rla) .absoluteX 7,
    unofficial 0x3B (.modify .rla) .absoluteY 7,
    unofficial 0x23 (.modify .rla) .indirectX 8,
    unofficial 0x33 (.modify .rla) .indirectY 8,
    unofficial 0x47 (.modify .sre) .zeroPage 5,
    unofficial 0x57 (.modify .sre) .zeroPageX 6,
    unofficial 0x4F (.modify .sre) .absolute 6,
    unofficial 0x5F (.modify .sre) .absoluteX 7,
    unofficial 0x5B (.modify .sre) .absoluteY 7,
    unofficial 0x43 (.modify .sre) .indirectX 8,
    unofficial 0x53 (.modify .sre) .indirectY 8,
    unofficial 0x67 (.modify .rra) .zeroPage 5,
    unofficial 0x77 (.modify .rra) .zeroPageX 6,
    unofficial 0x6F (.modify .rra) .absolute 6,
    unofficial 0x7F (.modify .rra) .absoluteX 7,
    unofficial 0x7B (.modify .rra) .absoluteY 7,
    unofficial 0x63 (.modify .rra) .indirectX 8,
    unofficial 0x73 (.modify .rra) .indirectY 8,
    unofficial 0xC7 (.modify .dcp) .zeroPage 5,
    unofficial 0xD7 (.modify .dcp) .zeroPageX 6,
    unofficial 0xCF (.modify .dcp) .absolute 6,
    unofficial 0xDF (.modify .dcp) .absoluteX 7,
    unofficial 0xDB (.modify .dcp) .absoluteY 7,
    unofficial 0xC3 (.modify .dcp) .indirectX 8,
    unofficial 0xD3 (.modify .dcp) .indirectY 8,
    unofficial 0xE7 (.modify .isc) .zeroPage 5,
    unofficial 0xF7 (.modify .isc) .zeroPageX 6,
    unofficial 0xEF (.modify .isc) .absolute 6,
    unofficial 0xFF (.modify .isc) .absoluteX 7,
    unofficial 0xFB (.modify .isc) .absoluteY 7,
    unofficial 0xE3 (.modify .isc) .indirectX 8,
    unofficial 0xF3 (.modify .isc) .indirectY 8 ]

/-- Two operations on one operand. -/
def combinedReads : List Opcode :=
  [ unofficial 0x0B (.read .anc) .immediate 2,
    unofficial 0x2B (.read .anc) .immediate 2,
    unofficial 0x4B (.read .alr) .immediate 2,
    unofficial 0x6B (.read .arr) .immediate 2,
    unofficial 0xCB (.read .sbx) .immediate 2,
    unofficial 0xEB (.read .sbc) .immediate 2,
    unofficial 0xBB (.read .las) .absoluteY 4 ]

/-- Results that depend on more than the chip's logic, or on the operand address. -/
def unstable : List Opcode :=
  [ unofficial 0x8B (.read .ane) .immediate 2,
    unofficial 0xAB (.read .lxa) .immediate 2,
    unofficial 0x9F (.gatedStore .sha) .absoluteY 5,
    unofficial 0x93 (.gatedStore .sha) .indirectY 6,
    unofficial 0x9E (.gatedStore .shx) .absoluteY 5,
    unofficial 0x9C (.gatedStore .shy) .absoluteX 5,
    unofficial 0x9B (.gatedStore .tas) .absoluteY 5 ]

/-- Opcodes that stop the processor. -/
def jams : List Opcode :=
  [ unofficial 0x02 .jam .implied 2,
    unofficial 0x12 .jam .implied 2,
    unofficial 0x22 .jam .implied 2,
    unofficial 0x32 .jam .implied 2,
    unofficial 0x42 .jam .implied 2,
    unofficial 0x52 .jam .implied 2,
    unofficial 0x62 .jam .implied 2,
    unofficial 0x72 .jam .implied 2,
    unofficial 0x92 .jam .implied 2,
    unofficial 0xB2 .jam .implied 2,
    unofficial 0xD2 .jam .implied 2,
    unofficial 0xF2 .jam .implied 2 ]

end Catalogue

/-- All rows, family by family. -/
def catalogue : List Opcode :=
  List.flatten
    [ Catalogue.softwareInterrupt, Catalogue.noOperation, Catalogue.transfers,
      Catalogue.flags, Catalogue.loads, Catalogue.stores, Catalogue.stack, Catalogue.shifts,
      Catalogue.rotates, Catalogue.increments, Catalogue.arithmetic, Catalogue.logic,
      Catalogue.compares, Catalogue.jumps, Catalogue.branches, Catalogue.unofficialNops,
      Catalogue.doubleTransfers, Catalogue.combinedChanges, Catalogue.combinedReads,
      Catalogue.unstable, Catalogue.jams ]

/-- The catalogue arranged by code. -/
def table : Vector Opcode 256 :=
  Vector.ofFn fun index =>
    (catalogue.find? fun opcode => opcode.code.toNat == index.val).getD
      (Catalogue.official 0x00 .brk .implied 7)

end Opcode

/-- The instruction that a byte selects. -/
def decode (code : UInt8) : Opcode :=
  Opcode.table.get ⟨code.toNat, code.toNat_lt⟩

/-- Decoding searches the catalogue. -/
theorem decode_eq_find (code : UInt8) :
    decode code =
      (Opcode.catalogue.find? fun opcode => opcode.code.toNat == code.toNat).getD
        (Opcode.Catalogue.official 0x00 .brk .implied 7) := by
  have hlt : code.toNat < 256 := code.toNat_lt
  change Opcode.table[code.toNat] = _
  rw [Opcode.table, Vector.getElem_ofFn]

/-- The catalogue has a row for every byte, and decoding finds it. -/
theorem decode_code (code : UInt8) : (decode code).code = code := by
  have hrow : ∀ index : Fin 256,
      ((Opcode.catalogue.find? fun opcode => opcode.code.toNat == index.val).getD
        (Opcode.Catalogue.official 0x00 .brk .implied 7)).code.toNat = index.val := by
    decide +kernel
  rw [decode_eq_find]
  exact UInt8.toNat_inj.mp (hrow ⟨code.toNat, code.toNat_lt⟩)

end Famicom
