import Famicom.Proofs.Cpu.InstructionTraffic

/-!
# The stack

The stack is one page of memory, and its pointer goes round in it. So it holds 256 bytes, and as
long as no more than those are saved, every byte lies where its push has put it until its pull
takes it back. What is held is told by a list of bytes, newest first: a push puts a byte before the
list, and a pull takes the first one off.
-/

namespace Famicom

namespace Cpu

/-- The stack lies in page one. -/
theorem stackAddress_page (place : UInt8) : (stackAddress place).toNat / 0x100 = 1 := by
  rw [stackAddress_eq]
  exact stackPlace_page place 0

/-- Places in the stack are told apart by their addresses. -/
theorem stackAddress_inj {place other : UInt8} :
    stackAddress place = stackAddress other ↔ place = other := by
  refine ⟨fun h => ?_, congrArg stackAddress⟩
  rw [← UInt8.toUInt16_inj]
  exact (UInt16.add_right_inj 0x100).mp h

/-- With one more byte saved the stack pointer is one lower. -/
theorem sp_push (sp : UInt8) (count : Nat) :
    sp - 1 + UInt8.ofNat (count + 1) = sp + UInt8.ofNat count := by
  rw [UInt8.ofNat_add, UInt8.add_comm (UInt8.ofNat count), ← UInt8.add_assoc]
  exact congrArg (· + _) (UInt8.sub_add_cancel sp 1)

/-- With one byte less the stack pointer is one higher. -/
theorem sp_pull (sp : UInt8) (count : Nat) :
    sp + 1 + UInt8.ofNat count = sp + UInt8.ofNat (count + 1) := by
  rw [UInt8.ofNat_add, UInt8.add_comm (UInt8.ofNat count), ← UInt8.add_assoc]
  rfl

/-- The processor with another stack pointer. -/
def withSp (cpu : Cpu) (sp : UInt8) : Cpu :=
  cpu.mapRegisters fun registers => { registers with sp }

end Cpu

namespace FlatBus

/-- The byte at a place of the stack. -/
def stacked (bus : FlatBus) (place : UInt8) : UInt8 :=
  bus.memory.get (Cpu.stackAddress place).toNat

/-- A store reaches its own address only. -/
theorem get_store (bus : FlatBus) (target address : UInt16) (value : UInt8) :
    (bus.store target value).memory.get address.toNat =
      if address = target then value else bus.memory.get address.toNat := by
  have htarget : target.toNat < 0x10000 := target.toNat_lt
  have haddress : address.toNat < 0x10000 := address.toNat_lt
  have hcell : target.toNat % chipSize 16 = address.toNat % chipSize 16 ↔ address = target := by
    rw [← UInt16.toNat_inj]
    change _ % 0x10000 = _ % 0x10000 ↔ _
    omega
  simp only [store, Memory.get_set, hcell]

/-- A store at a place of the stack reaches this place only. -/
theorem stacked_store (bus : FlatBus) (place other value : UInt8) :
    (bus.store (Cpu.stackAddress place) value).stacked other =
      if other = place then value else bus.stacked other := by
  simp only [stacked, get_store, Cpu.stackAddress_inj]

/-- A store at a place of the stack leaves the other pages alone. -/
theorem get_store_stack (bus : FlatBus) (place value : UInt8) {address : UInt16}
    (h : address.toNat / 0x100 ≠ 1) :
    (bus.store (Cpu.stackAddress place) value).memory.get address.toNat =
      bus.memory.get address.toNat := by
  have hother : address ≠ Cpu.stackAddress place := by
    rintro rfl
    exact h (Cpu.stackAddress_page place)
  rw [get_store, if_neg hother]

/-- The bytes above the place `sp`, newest first, are the saved ones. -/
def Holds (bus : FlatBus) : (sp : UInt8) → (saved : List UInt8) → Prop
  | _, [] => True
  | sp, byte :: rest => bus.stacked (sp + 1) = byte ∧ bus.Holds (sp + 1) rest

variable {before after : FlatBus} {sp place value : UInt8} {saved : List UInt8}

/-- What is held depends on the places where it lies alone. -/
theorem Holds.congr (h : before.Holds sp saved)
    (hsame : ∀ depth < saved.length,
      after.stacked (sp + 1 + UInt8.ofNat depth) = before.stacked (sp + 1 + UInt8.ofNat depth)) :
    after.Holds sp saved := by
  induction saved generalizing sp with
  | nil => trivial
  | cons byte rest ih =>
    have hfirst : after.stacked (sp + 1) = before.stacked (sp + 1) := by
      have hplace : sp + 1 + UInt8.ofNat 0 = sp + 1 := UInt8.add_zero _
      rw [← hplace]
      exact hsame 0 (Nat.succ_pos _)
    refine ⟨hfirst.trans h.1, ih h.2 fun depth hdepth => ?_⟩
    rw [Cpu.sp_pull (sp + 1)]
    exact hsame (depth + 1) (Nat.succ_lt_succ hdepth)

/-- A store outside the places held leaves them alone. The distance is counted upwards from the
newest place, round the page. -/
theorem Holds.store (h : before.Holds sp saved)
    (houtside : saved.length ≤ (place - (sp + 1)).toNat) (value : UInt8) :
    (before.store (Cpu.stackAddress place) value).Holds sp saved := by
  induction saved generalizing sp with
  | nil => trivial
  | cons byte rest ih =>
    rw [List.length_cons] at houtside
    have hplace : place.toNat < 256 := place.toNat_lt
    have hdistance : (place - (sp + 1 + 1)).toNat + 1 = (place - (sp + 1)).toNat := by
      have hsp : (sp + 1).toNat < 256 := (sp + 1).toNat_lt
      have hnext : (sp + 1 + 1).toNat = ((sp + 1).toNat + 1) % 256 := UInt8.toNat_add _ _
      have hfar : (place - (sp + 1)).toNat = (256 - (sp + 1).toNat + place.toNat) % 256 :=
        UInt8.toNat_sub _ _
      have hnear : (place - (sp + 1 + 1)).toNat =
          (256 - (sp + 1 + 1).toNat + place.toNat) % 256 := UInt8.toNat_sub _ _
      omega
    have hother : sp + 1 ≠ place := by
      rintro rfl
      rw [UInt8.sub_self] at houtside
      exact absurd houtside (Nat.not_succ_le_zero _)
    refine ⟨?_, ih h.2 (by omega)⟩
    rw [stacked_store, if_neg hother]
    exact h.1

/-- A push puts a byte before those held, while the page has room for it. -/
theorem Holds.push (h : before.Holds sp saved) (hroom : saved.length < 256) (value : UInt8) :
    (before.store (Cpu.stackAddress sp) value).Holds (sp - 1) (value :: saved) := by
  have hdistance : (sp - (sp + 1)).toNat = 255 := by
    have hsp : sp.toNat < 256 := sp.toNat_lt
    have hnext : (sp + 1).toNat = (sp.toNat + 1) % 256 := UInt8.toNat_add _ _
    have hfar : (sp - (sp + 1)).toNat = (256 - (sp + 1).toNat + sp.toNat) % 256 :=
      UInt8.toNat_sub _ _
    omega
  rw [Holds, UInt8.sub_add_cancel]
  refine ⟨?_, h.store (by omega) value⟩
  rw [stacked_store, if_pos rfl]

/-- The memory after bytes have been pushed from the place `sp` on. They are given newest first. -/
def pushAll (bus : FlatBus) (sp : UInt8) : (bytes : List UInt8) → FlatBus
  | [] => bus
  | byte :: older =>
    (bus.pushAll sp older).store (Cpu.stackAddress (sp - UInt8.ofNat older.length)) byte

/-- One byte is pushed where the stack pointer is. -/
theorem pushAll_byte (bus : FlatBus) (sp byte : UInt8) :
    bus.pushAll sp [byte] = bus.store (Cpu.stackAddress sp) byte := by
  change bus.store (Cpu.stackAddress (sp - 0)) byte = _
  rw [UInt8.sub_zero]

/-- The second byte is pushed below the first one. -/
theorem pushAll_word (bus : FlatBus) (sp low high : UInt8) :
    bus.pushAll sp [low, high] =
      (bus.store (Cpu.stackAddress sp) high).store (Cpu.stackAddress (sp - 1)) low := by
  rw [pushAll, pushAll_byte]
  rfl

/-- Bytes that are pushed come before those held, while the page has room for them. -/
theorem Holds.pushAll (h : before.Holds sp saved) {bytes : List UInt8}
    (hroom : bytes.length + saved.length ≤ 256) :
    (before.pushAll sp bytes).Holds (sp - UInt8.ofNat bytes.length) (bytes ++ saved) := by
  induction bytes with
  | nil =>
    change before.Holds (sp - 0) saved
    rwa [UInt8.sub_zero]
  | cons byte older ih =>
    rw [List.length_cons] at hroom ⊢
    have hlength : (older ++ saved).length < 256 := by
      rw [List.length_append]
      omega
    have hplace : sp - UInt8.ofNat (older.length + 1) = sp - UInt8.ofNat older.length - 1 := by
      rw [UInt8.ofNat_add]
      grind
    rw [hplace]
    exact (ih (by omega)).push hlength byte

/-- Pushes leave the other pages alone. -/
theorem get_pushAll (bus : FlatBus) (sp : UInt8) (bytes : List UInt8) {address : UInt16}
    (h : address.toNat / 0x100 ≠ 1) :
    (bus.pushAll sp bytes).memory.get address.toNat = bus.memory.get address.toNat := by
  induction bytes with
  | nil => rfl
  | cons byte older ih => exact (get_store_stack _ _ _ h).trans ih

end FlatBus

/-- One use of the stack. -/
inductive StackUse where
  | push (value : UInt8)
  | pull
deriving DecidableEq, Repr

namespace StackUse

/-- The bytes that are saved after a sequence of uses, newest first. -/
def savedAfter (saved : List UInt8) : List StackUse → List UInt8
  | [] => saved
  | push value :: rest => savedAfter (value :: saved) rest
  | pull :: rest => savedAfter saved.tail rest

/-- For each pull of a sequence, the byte of the push that it matches. -/
def matching (saved : List UInt8) : List StackUse → List UInt8
  | [] => []
  | push value :: rest => matching (value :: saved) rest
  | pull :: rest => saved.head?.toList ++ matching saved.tail rest

/-- The uses are nested: every pull has a push before it, and there are never more bytes saved than
the page holds. -/
def Nested (depth : Nat) : List StackUse → Prop
  | [] => True
  | push _ :: rest => depth < 256 ∧ Nested (depth + 1) rest
  | pull :: rest => 0 < depth ∧ Nested (depth - 1) rest

instance decidableNested : (depth : Nat) → (uses : List StackUse) → Decidable (Nested depth uses)
  | _, [] => inferInstanceAs (Decidable True)
  | depth, push _ :: rest =>
    have := decidableNested (depth + 1) rest
    inferInstanceAs (Decidable (_ ∧ _))
  | depth, pull :: rest =>
    have := decidableNested (depth - 1) rest
    inferInstanceAs (Decidable (_ ∧ _))

end StackUse

namespace Cpu

variable {Bus : Type} [CpuBus Bus]

/-- Use the stack a number of times. The bytes that are pulled come first, oldest first. -/
def useStack : List StackUse → Cpu → Bus → List UInt8 × Cpu × Bus
  | [], cpu, bus => ([], cpu, bus)
  | .push value :: rest, cpu, bus =>
    let (cpu, bus) := cpu.push value bus
    useStack rest cpu bus
  | .pull :: rest, cpu, bus =>
    let (value, cpu, bus) := cpu.pull bus
    let (values, cpu, bus) := useStack rest cpu bus
    (value :: values, cpu, bus)

/-- What came out of a sequence of uses, when the bytes `saved` were saved before it. -/
structure UsedStack (uses : List StackUse) (saved : List UInt8) (cpu : Cpu)
    (recorded : Recorded FlatBus) (run : List UInt8 × Cpu × Recorded FlatBus) : Prop where
  pulled : run.1 = StackUse.matching saved uses
  cpu_eq : ∃ sp, run.2.1 = cpu.withSp sp ∧
    sp + UInt8.ofNat (StackUse.savedAfter saved uses).length =
      cpu.registers.sp + UInt8.ofNat saved.length
  traffic : ∃ accesses : List Access, run.2.2.traffic = recorded.traffic ++ accesses ∧
    ∀ access ∈ accesses, access.address.toNat / 0x100 = 1
  outside : ∀ address : UInt16, address.toNat / 0x100 ≠ 1 →
    run.2.2.bus.memory.get address.toNat = recorded.bus.memory.get address.toNat

/-- What nested uses give back is what the matching pushes have saved, and they leave everything but
the stack pointer and the stack page alone. -/
theorem usedStack {uses : List StackUse} {saved : List UInt8}
    (hnested : StackUse.Nested saved.length uses) {cpu : Cpu} {recorded : Recorded FlatBus}
    (hholds : recorded.bus.Holds cpu.registers.sp saved) :
    UsedStack uses saved cpu recorded (useStack uses cpu recorded) := by
  -- the saved bytes carry the induction: a push puts one on top of them, a pull takes it off
  induction uses generalizing saved cpu recorded with
  | nil =>
    refine ⟨rfl, ⟨cpu.registers.sp, rfl, rfl⟩, ⟨[], ?_, ?_⟩, fun _ _ => rfl⟩
    · exact (Array.append_empty).symm
    · exact fun _ hmem => absurd hmem List.not_mem_nil
  | cons use rest ih =>
    cases use with
    | push value =>
      obtain ⟨hroom, hrest⟩ := hnested
      let place := cpu.registers.sp
      let pushed : Recorded FlatBus :=
        { bus := recorded.bus.store (stackAddress place) value
          traffic := recorded.traffic.push (.write (stackAddress place) value) }
      obtain ⟨hpulled, ⟨sp, hcpu, hsp⟩, ⟨accesses, htraffic, hpage⟩, houtside⟩ :=
        @ih (value :: saved) hrest (cpu.withSp (place - 1)) pushed (hholds.push hroom value)
      refine ⟨hpulled, ⟨sp, hcpu, ?_⟩, ⟨.write (stackAddress place) value :: accesses, ?_, ?_⟩, ?_⟩
      · exact hsp.trans (sp_push place saved.length)
      · exact htraffic
      · exact List.forall_mem_cons.mpr ⟨stackAddress_page place, hpage⟩
      · exact fun address haddress => (houtside address haddress).trans
          (recorded.bus.get_store_stack place value haddress)
    | pull =>
      obtain ⟨hdepth, hrest⟩ := hnested
      cases saved with
      | nil => exact absurd hdepth (Nat.lt_irrefl 0)
      | cons byte saved =>
        obtain ⟨hbyte, hbelow⟩ := hholds
        let place := cpu.registers.sp + 1
        let read : Recorded FlatBus :=
          { recorded with traffic := recorded.traffic.push (.read (stackAddress place)) }
        obtain ⟨hpulled, ⟨sp, hcpu, hsp⟩, ⟨accesses, htraffic, hpage⟩, houtside⟩ :=
          @ih saved hrest (cpu.withSp place) read hbelow
        refine ⟨?_, ⟨sp, hcpu, ?_⟩, ⟨.read (stackAddress place) :: accesses, ?_, ?_⟩, houtside⟩
        · change recorded.bus.stacked place :: (useStack rest (cpu.withSp place) read).1 = _
          rw [hbyte, hpulled]
          rfl
        · exact hsp.trans (sp_pull cpu.registers.sp saved.length)
        · exact htraffic
        · exact List.forall_mem_cons.mpr ⟨stackAddress_page place, hpage⟩

end Cpu

end Famicom
