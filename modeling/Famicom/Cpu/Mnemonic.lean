import Famicom.Cpu.Operation

/-!
# Mnemonics

The three letters that name an operation in a listing.
-/

namespace Famicom

/-- The letters of a shift. -/
def Shift.mnemonic : Shift → String
  | asl => "ASL"
  | lsr => "LSR"
  | rol => "ROL"
  | ror => "ROR"

/-- The letters of an operation on the operand byte. -/
def ReadOperation.mnemonic : ReadOperation → String
  | lda => "LDA"
  | ldx => "LDX"
  | ldy => "LDY"
  | lax => "LAX"
  | adc => "ADC"
  | sbc => "SBC"
  | .and => "AND"
  | ora => "ORA"
  | eor => "EOR"
  | cmp => "CMP"
  | cpx => "CPX"
  | cpy => "CPY"
  | bit => "BIT"
  | nop => "NOP"
  | anc => "ANC"
  | alr => "ALR"
  | arr => "ARR"
  | sbx => "SBX"
  | las => "LAS"
  | ane => "ANE"
  | lxa => "LXA"

/-- The letters of a store. -/
def StoreOperation.mnemonic : StoreOperation → String
  | sta => "STA"
  | stx => "STX"
  | sty => "STY"
  | sax => "SAX"

/-- The letters of a gated store. -/
def GatedStore.mnemonic : GatedStore → String
  | sha => "SHA"
  | shx => "SHX"
  | shy => "SHY"
  | tas => "TAS"

/-- The letters of an operation that replaces a byte. -/
def ModifyOperation.mnemonic : ModifyOperation → String
  | asl => "ASL"
  | lsr => "LSR"
  | rol => "ROL"
  | ror => "ROR"
  | inc => "INC"
  | dec => "DEC"
  | slo => "SLO"
  | rla => "RLA"
  | sre => "SRE"
  | rra => "RRA"
  | dcp => "DCP"
  | isc => "ISB"

/-- The letters of an operation on registers. -/
def RegisterOperation.mnemonic : RegisterOperation → String
  | tax => "TAX"
  | tay => "TAY"
  | txa => "TXA"
  | tya => "TYA"
  | tsx => "TSX"
  | txs => "TXS"
  | inx => "INX"
  | iny => "INY"
  | dex => "DEX"
  | dey => "DEY"
  | clc => "CLC"
  | sec => "SEC"
  | cli => "CLI"
  | sei => "SEI"
  | cld => "CLD"
  | sed => "SED"
  | clv => "CLV"
  | .shift kind => kind.mnemonic

/-- The letters of an operation. -/
def Operation.mnemonic : Operation → String
  | read operation => operation.mnemonic
  | store operation => operation.mnemonic
  | gatedStore operation => operation.mnemonic
  | modify operation => operation.mnemonic
  | register operation => operation.mnemonic
  | branch .negative false => "BPL"
  | branch .negative true => "BMI"
  | branch .overflow false => "BVC"
  | branch .overflow true => "BVS"
  | branch .carry false => "BCC"
  | branch .carry true => "BCS"
  | branch .zero false => "BNE"
  | branch .zero true => "BEQ"
  | pha => "PHA"
  | php => "PHP"
  | pla => "PLA"
  | plp => "PLP"
  | jmp => "JMP"
  | jsr => "JSR"
  | rts => "RTS"
  | rti => "RTI"
  | brk => "BRK"
  | nop => "NOP"
  | jam => "JAM"

end Famicom
