import Famicom.Cpu.Registers

/-!
# Operations

What instructions do, sorted by how they use the bus: some compute from a byte that is read,
some name a byte to store, some replace a byte in place, some touch registers only, and the
rest move the program counter or use the stack. Within one sort the effect is a plain function
of the working registers and the byte, so each sort is described once.
-/

namespace Famicom

/-- Operations that compute from the operand byte. -/
inductive ReadOperation where
  | lda | ldx | ldy | lax
  | adc | sbc | and | ora | eor
  | cmp | cpx | cpy | bit
  | nop
  | anc | alr | arr | sbx | las | ane | lxa
deriving DecidableEq, Repr

/-- Operations that store a byte made of registers. -/
inductive StoreOperation where
  | sta | stx | sty | sax
deriving DecidableEq, Repr

/-- Stores whose byte is gated by the high byte of the operand address. -/
inductive GatedStore where
  | sha | shx | shy | tas
deriving DecidableEq, Repr

/-- Shifts and rotations by one bit. -/
inductive Shift where
  | asl | lsr | rol | ror
deriving DecidableEq, Repr

/-- Ways to replace a byte by another. -/
inductive Change where
  | shift (kind : Shift)
  | inc
  | dec
deriving DecidableEq, Repr

/-- Operations that replace the operand byte, the last six using the new byte once more. -/
inductive ModifyOperation where
  | asl | lsr | rol | ror | inc | dec
  | slo | rla | sre | rra | dcp | isc
deriving DecidableEq, Repr

/-- Operations on registers alone. -/
inductive RegisterOperation where
  | tax | tay | txa | tya | tsx | txs
  | inx | iny | dex | dey
  | clc | sec | cli | sei | cld | sed | clv
  | shift (kind : Shift)
deriving DecidableEq, Repr

/-- All that an opcode can ask for. -/
inductive Operation where
  | read (operation : ReadOperation)
  | store (operation : StoreOperation)
  | gatedStore (operation : GatedStore)
  | modify (operation : ModifyOperation)
  | register (operation : RegisterOperation)
  /-- Go to the operand address if the flag has the level. -/
  | branch (flag : Flag) (level : Bool)
  | pha | php | pla | plp
  | jmp | jsr | rts | rti | brk
  | nop
  /-- Stop the processor for good. -/
  | jam
deriving DecidableEq, Repr

/-- How an operation uses the operand, as data sheets classify it. -/
inductive AccessType where
  | read
  | write
  | readModifyWrite
  | register
  | none
deriving DecidableEq, Repr

namespace Shift

/-- The shifted byte and the bit that fell out, for a given carry. -/
def apply (shift : Shift) (value : UInt8) (carry : Bool) : UInt8 × Bool :=
  match shift with
  | asl => (value <<< 1, Byte.isNegative value)
  | lsr => (value >>> 1, Byte.bit value 0x01)
  | rol => ((value <<< 1) + Byte.ofBit 0x01 carry, Byte.isNegative value)
  | ror => ((value >>> 1) + Byte.ofBit 0x80 carry, Byte.bit value 0x01)

end Shift

namespace Change

/-- The new byte, and the registers with its flags. -/
def apply (change : Change) (value : UInt8) (registers : Registers) : UInt8 × Registers :=
  match change with
  | .shift kind =>
    let (result, carry) := kind.apply value registers.status.carry
    (result, (registers.withCarry carry).withResult result)
  | inc => (value + 1, registers.withResult (value + 1))
  | dec => (value - 1, registers.withResult (value - 1))

end Change

namespace ReadOperation

/-- The bits that leak into two operations whose result is not settled by the chip's logic. -/
def leakage : UInt8 := 0xEE

/-- The registers after computing from `value`. -/
def apply (operation : ReadOperation) (value : UInt8) (registers : Registers) : Registers :=
  match operation with
  | lda => registers.loadA value
  | ldx => registers.loadX value
  | ldy => registers.loadY value
  | lax => { registers.loadA value with x := value }
  | adc => registers.add value
  | sbc => registers.subtract value
  | .and => registers.loadA (registers.a &&& value)
  | ora => registers.loadA (registers.a ||| value)
  | eor => registers.loadA (registers.a ^^^ value)
  | cmp => registers.compare registers.a value
  | cpx => registers.compare registers.x value
  | cpy => registers.compare registers.y value
  | bit =>
    let status := { registers.status with
      zero := registers.a &&& value == 0
      negative := Byte.isNegative value
      overflow := Byte.bit value 0x40 }
    { registers with status }
  | nop => registers
  | anc =>
    let result := registers.a &&& value
    (registers.loadA result).withCarry (Byte.isNegative result)
  | alr =>
    let (result, registers) :=
      (Change.shift .lsr).apply (registers.a &&& value) registers
    { registers with a := result }
  | arr =>
    let (result, _) := Shift.ror.apply (registers.a &&& value) registers.status.carry
    let bit6 := Byte.bit result 0x40
    let bit5 := Byte.bit result 0x20
    let registers := registers.loadA result
    { registers with
      status := { registers.status with carry := bit6, overflow := bit6 != bit5 } }
  | sbx =>
    let both := registers.a &&& registers.x
    (registers.withCarry (decide (value ≤ both))).loadX (both - value)
  | las =>
    let result := value &&& registers.sp
    { registers.loadA result with x := result, sp := result }
  | ane => registers.loadA ((registers.a ||| leakage) &&& registers.x &&& value)
  | lxa =>
    let result := (registers.a ||| leakage) &&& value
    { registers.loadA result with x := result }

end ReadOperation

namespace StoreOperation

/-- The byte to store. -/
def value (operation : StoreOperation) (registers : Registers) : UInt8 :=
  match operation with
  | sta => registers.a
  | stx => registers.x
  | sty => registers.y
  | sax => registers.a &&& registers.x

end StoreOperation

namespace GatedStore

/-- The byte before gating. -/
def value (operation : GatedStore) (registers : Registers) : UInt8 :=
  match operation with
  | sha | tas => registers.a &&& registers.x
  | shx => registers.x
  | shy => registers.y

/-- One of these stores also moves its byte to the stack pointer. -/
def apply (operation : GatedStore) (registers : Registers) : Registers :=
  match operation with
  | tas => { registers with sp := registers.a &&& registers.x }
  | _ => registers

end GatedStore

namespace ModifyOperation

/-- How the byte is replaced. -/
def change : ModifyOperation → Change
  | asl | slo => .shift .asl
  | lsr | sre => .shift .lsr
  | rol | rla => .shift .rol
  | ror | rra => .shift .ror
  | inc | isc => .inc
  | dec | dcp => .dec

/-- What is computed from the new byte. -/
def followUp : ModifyOperation → Option ReadOperation
  | slo => some .ora
  | rla => some .and
  | sre => some .eor
  | rra => some .adc
  | dcp => some .cmp
  | isc => some .sbc
  | asl | lsr | rol | ror | inc | dec => none

/-- The byte to write back, and the registers afterwards. -/
def apply (operation : ModifyOperation) (value : UInt8) (registers : Registers) :
    UInt8 × Registers :=
  let (result, registers) := operation.change.apply value registers
  match operation.followUp with
  | none => (result, registers)
  | some followUp => (result, followUp.apply result registers)

end ModifyOperation

namespace RegisterOperation

/-- The registers after the operation. -/
def apply (operation : RegisterOperation) (registers : Registers) : Registers :=
  match operation with
  | tax => registers.loadX registers.a
  | tay => registers.loadY registers.a
  | txa => registers.loadA registers.x
  | tya => registers.loadA registers.y
  | tsx => registers.loadX registers.sp
  | txs => { registers with sp := registers.x }
  | inx => registers.loadX (registers.x + 1)
  | iny => registers.loadY (registers.y + 1)
  | dex => registers.loadX (registers.x - 1)
  | dey => registers.loadY (registers.y - 1)
  | clc => registers.withCarry false
  | sec => registers.withCarry true
  | cli => { registers with status := { registers.status with interruptDisable := false } }
  | sei => { registers with status := { registers.status with interruptDisable := true } }
  | cld => { registers with status := { registers.status with decimal := false } }
  | sed => { registers with status := { registers.status with decimal := true } }
  | clv => { registers with status := { registers.status with overflow := false } }
  | .shift kind =>
    let (result, registers) := (Change.shift kind).apply registers.a registers
    { registers with a := result }

end RegisterOperation

namespace Operation

/-- The access class of an operation. -/
def access : Operation → AccessType
  | read _ | pla | plp => .read
  | store _ | gatedStore _ | pha | php => .write
  | modify _ => .readModifyWrite
  | register _ => .register
  | branch _ _ | jmp | jsr | rts | rti | brk | nop | jam => .none

end Operation

end Famicom
