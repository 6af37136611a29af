import Famicom.Proofs.Ppu.Uses

/-!
# The announcing follows the registers

The two conditions behind the non-maskable line are kept beside the registers that they come from,
and the level of the line beside the conditions. An event has to be sent for every change of a
flag or of the control register, and a missed one would leave the line wrong for good. None is
missed: after any history the conditions are the top bits of the status and of the control
register, and the line is high exactly while both are set.
-/

namespace Famicom

namespace PpuStatus

/-- Below the flags there is room for five bits. -/
theorem toNat_flagBits_add (status : PpuStatus) (low : UInt8) :
    (status.flagBits + low % 0x20).toNat =
      128 * status.vblank.toNat + 64 * status.spriteZeroHit.toNat +
        32 * status.spriteOverflow.toNat + low.toNat % 32 := by
  have hvblank := status.vblank.toNat_le
  have hhit := status.spriteZeroHit.toNat_le
  have hoverflow := status.spriteOverflow.toNat_le
  simp only [flagBits, UInt8.toNat_add, UInt8.toNat_mod, Byte.toNat_ofBit, UInt8.reduceToNat]
  omega

/-- The top bit above any five lower ones is the flag of vertical blank. -/
theorem bit_flagBits_add (status : PpuStatus) (low : UInt8) :
    Byte.bit (status.flagBits + low % 0x20) 0x80 = status.vblank := by
  have hhit := status.spriteZeroHit.toNat_le
  have hoverflow := status.spriteOverflow.toNat_le
  rw [Byte.bit_eq_decide, toNat_flagBits_add]
  cases status.vblank with
  | false => exact decide_eq_false (by simp only [Bool.toNat_false, UInt8.reduceToNat]; omega)
  | true => exact decide_eq_true (by simp only [Bool.toNat_true, UInt8.reduceToNat]; omega)

end PpuStatus

namespace Ppu

/-- The conditions behind the line are those of the registers, and the line is settled. -/
structure InStep (ppu : Ppu) : Prop where
  vblank : ppu.nmi.vblank = ppu.status.vblank
  enabled : ppu.nmi.enabled = ppu.control.nmiEnabled
  settled : ppu.nmi.Settled

/-- At power-on the line is in step. -/
theorem inStep_powerOn : InStep {} := ⟨rfl, by decide, rfl⟩

/-- A reset clears the registers and the conditions together. -/
theorem inStep_reset (ppu : Ppu) : InStep ppu.reset :=
  ⟨rfl, inStep_powerOn.enabled, rfl⟩

namespace InStep

variable {Bus : Type} [PatternBus Bus] {ppu : Ppu}

/-- A part of the work of a dot moves the flag and the condition alike. -/
theorem perform (h : InStep ppu) (operation : DotOperation) (bus : Bus) :
    InStep (ppu.perform operation bus).1 := by
  cases operation with
  | renderPixel =>
    obtain ⟨drawing, hit, heq⟩ := ppu.renderPixel_eq
    change InStep ppu.renderPixel
    rw [heq]
    exact ⟨h.vblank, h.enabled, h.settled⟩
  | setVblank => exact ⟨rfl, h.enabled, ppu.nmi.settled_on .vblankSet⟩
  | clearFlags => exact ⟨rfl, h.enabled, ppu.nmi.settled_on .vblankCleared⟩
  | _ => exact ⟨h.vblank, h.enabled, h.settled⟩

/-- The work of a dot keeps the line in step. -/
theorem performAll (h : InStep ppu) (rendering : Bool) (operations : List DotOperation)
    (bus : Bus) : InStep (Ppu.performAll rendering operations ppu bus).1 :=
  performAll_keeps InStep (fun operation _ _ _ bus hkept => hkept.perform operation bus) h bus

/-- The step to the next dot keeps the line in step. -/
theorem nextDot (h : InStep ppu) : InStep ppu.nextDot.2 := by
  unfold Ppu.nextDot
  split
  · exact ⟨h.vblank, h.enabled, h.settled⟩
  · split <;> exact ⟨h.vblank, h.enabled, h.settled⟩

/-- A dot keeps the line in step. -/
theorem tick (h : InStep ppu) (bus : Bus) : InStep (ppu.tick bus).2.1 := by
  rw [tick_unit]
  exact (h.performAll _ _ bus).nextDot

/-- Moving the picture address on keeps the line in step. -/
theorem advance (h : InStep ppu) : InStep ppu.advance := by
  unfold Ppu.advance
  split <;> exact ⟨h.vblank, h.enabled, h.settled⟩

/-- A write of the control register sends an event exactly when its top bit changes. -/
theorem writeControl (h : InStep ppu) (value : UInt8) : InStep (ppu.writeControl value) := by
  have henabled := h.enabled
  unfold Ppu.writeControl
  dsimp only
  split
  · next hafter => exact ⟨h.vblank, hafter.symm, ppu.nmi.settled_on .enableSet⟩
  · next hafter => exact ⟨h.vblank, hafter.symm, ppu.nmi.settled_on .enableCleared⟩
  · next hset hcleared =>
    refine ⟨h.vblank, ?_, h.settled⟩
    -- the top bit has not changed, since a change would have sent an event
    rw [henabled]
    change ppu.control.nmiEnabled = ({ bits := value } : Control).nmiEnabled
    cases hbefore : ppu.control.nmiEnabled <;>
      cases hafter : ({ bits := value } : Control).nmiEnabled
    · rfl
    · exact absurd hafter (hset hbefore)
    · exact absurd hafter (hcleared hbefore)
    · rfl

/-- A read of a register keeps the line in step; that of the status clears flag and condition. -/
theorem readRegister (h : InStep ppu) (address : UInt16) (bus : Bus) :
    InStep (ppu.readRegister address bus).2.1 := by
  unfold Ppu.readRegister
  split
  · exact ⟨rfl, h.enabled, ppu.nmi.settled_on .statusRead⟩
  · exact ⟨h.vblank, h.enabled, h.settled⟩
  · have hfetched : InStep (ppu.readData bus).2.1 := by
      rw [Ppu.readData_eq]
      exact advance ⟨h.vblank, h.enabled, h.settled⟩
    exact ⟨hfetched.vblank, hfetched.enabled, hfetched.settled⟩
  · exact h

/-- A write of a register keeps the line in step. -/
theorem writeRegister (h : InStep ppu) (address : UInt16) (value : UInt8) (bus : Bus) :
    InStep (ppu.writeRegister address value bus).1 := by
  have hlines : InStep { ppu with lines := value } := ⟨h.vblank, h.enabled, h.settled⟩
  unfold Ppu.writeRegister
  dsimp only
  split
  · exact hlines.writeControl value
  case h_7 =>
    refine advance ?_
    unfold writePicture
    split
    · exact hlines
    · split <;> exact ⟨h.vblank, h.enabled, h.settled⟩
  all_goals exact ⟨h.vblank, h.enabled, h.settled⟩

end InStep

end Ppu

namespace PpuSide

variable {side : PpuSide}

/-- Every use keeps the line in step. -/
theorem after_inStep (h : side.ppu.InStep) (use : PpuUse) : (side.after use).ppu.InStep := by
  cases use with
  | dot => exact h.tick side.board
  | store value => exact ⟨h.vblank, h.enabled, h.settled⟩
  | cartridge board => exact h
  | reset => exact side.ppu.inStep_reset
  | access access =>
    cases access with
    | read address => exact h.readRegister address side.board
    | write address value => exact h.writeRegister address value side.board

/-- A history keeps the line in step. -/
theorem afterAll_inStep (h : side.ppu.InStep) (uses : List PpuUse) :
    (side.afterAll uses).ppu.InStep :=
  afterAll_keeps (·.ppu.InStep) (fun moment _ hkept => after_inStep hkept moment.2) h

/-- **The announcing never drifts from the registers.** Whatever has happened to the unit since
power-on, with any cartridge, the two conditions behind the non-maskable line are the top bits of
the status and of the control register, and the line is high exactly when both are set. -/
theorem announcing_follows_registers (board : Board) (uses : List PpuUse) :
    let ppu := (PpuSide.afterAll { ppu := {}, board } uses).ppu
    ppu.nmi.vblank = Byte.bit ppu.status.toByte 0x80 ∧
      ppu.nmi.enabled = Byte.bit ppu.control.bits 0x80 ∧
      (ppu.nmiLine = true ↔
        Byte.bit ppu.status.toByte 0x80 = true ∧ Byte.bit ppu.control.bits 0x80 = true) := by
  intro ppu
  let start : PpuSide := { ppu := {}, board }
  have hstart : start.ppu.InStep := Ppu.inStep_powerOn
  have h : ppu.InStep := afterAll_inStep hstart uses
  have hvblank : ppu.nmi.vblank = Byte.bit ppu.status.toByte 0x80 :=
    h.vblank.trans (ppu.status.bit_flagBits_add ppu.status.idle).symm
  have henabled : ppu.nmi.enabled = Byte.bit ppu.control.bits 0x80 := h.enabled
  refine ⟨hvblank, henabled, ?_⟩
  rw [Ppu.nmiLine, h.settled, Bool.and_eq_true, hvblank, henabled, and_comm]

end PpuSide

end Famicom
