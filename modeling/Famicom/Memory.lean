/-!
# Memory chips

A memory chip with `bits` address lines holds `2 ^ bits` bytes. It never sees the higher
address lines, so a chip wired into a larger range answers there repeatedly. Every access is
therefore total, and a read after a write is settled by comparing addresses modulo the size.
-/

namespace Famicom

/-- The number of bytes that `bits` address lines reach. -/
def chipSize (bits : Nat) : Nat := Nat.pow 2 bits

theorem chipSize_pos (bits : Nat) : 0 < chipSize bits := Nat.two_pow_pos bits

/-- A byte store behind `bits` address lines. -/
structure Memory (bits : Nat) where
  /-- The bytes in address order. -/
  cells : Vector UInt8 (chipSize bits)
deriving DecidableEq

namespace Memory

variable {bits : Nat}

/-- A chip with the same byte in every cell. -/
def filled (bits : Nat) (value : UInt8) : Memory bits :=
  ⟨Vector.replicate (chipSize bits) value⟩

/-- The byte at `address`, with the lines above `bits` ignored. -/
@[inline] def get (memory : Memory bits) (address : Nat) : UInt8 :=
  have := Nat.mod_lt address (chipSize_pos bits)
  memory.cells[address % chipSize bits]

/-- Replace the byte at `address`, with the lines above `bits` ignored. -/
@[inline] def set (memory : Memory bits) (address : Nat) (value : UInt8) : Memory bits :=
  ⟨memory.cells.set (address % chipSize bits) value (Nat.mod_lt _ (chipSize_pos bits))⟩

/-- Place consecutive bytes from `start` on; the addresses wrap at the end of the chip. -/
def load (memory : Memory bits) (start : Nat) : List UInt8 → Memory bits
  | [] => memory
  | byte :: rest => (memory.set start byte).load (start + 1) rest

/-- The `count` bytes from `start` on; the addresses wrap at the end of the chip. -/
def read (memory : Memory bits) (start count : Nat) : List UInt8 :=
  (List.range count).map fun offset => memory.get (start + offset)

theorem get_filled (value : UInt8) (address : Nat) :
    (filled bits value).get address = value := by
  simp [get, filled]

/-- Addresses that differ in ignored lines only reach the same byte. -/
theorem get_congr (memory : Memory bits) {a b : Nat}
    (h : a % chipSize bits = b % chipSize bits) : memory.get a = memory.get b := by
  unfold get
  simp only [h]

/-- Addresses that differ in ignored lines only are written alike. -/
theorem set_congr (memory : Memory bits) {a b : Nat}
    (h : a % chipSize bits = b % chipSize bits) (value : UInt8) :
    memory.set a value = memory.set b value := by
  unfold set
  simp only [h]

/-- A read sees a write exactly when the two addresses reach the same cell. -/
theorem get_set (memory : Memory bits) (a b : Nat) (value : UInt8) :
    (memory.set a value).get b =
      if a % chipSize bits = b % chipSize bits then value else memory.get b := by
  simp only [get, set, Vector.getElem_set]

theorem get_set_self (memory : Memory bits) (address : Nat) (value : UInt8) :
    (memory.set address value).get address = value := by
  simp [get_set]

/-- Two chips with the same answers are the same chip. -/
theorem ext_get {left right : Memory bits} (h : ∀ a, left.get a = right.get a) :
    left = right := by
  cases left; cases right
  congr 1
  refine Vector.ext fun i hi => ?_
  simpa [get, Nat.mod_eq_of_lt hi] using h i

end Memory

end Famicom
