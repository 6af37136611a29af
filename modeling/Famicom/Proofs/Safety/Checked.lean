import Famicom.Fault
import Famicom.Memory

/-!
# Checked steps

A second way to carry out a step: with every index, difference, sum, product, remainder and
shift checked before it is used, so that the step ends in a fault where one of them leaves its
range. A function that is total by reducing its arguments has a checked counterpart that does
not reduce them; the two agree wherever no check fails.
-/

namespace Famicom

namespace Checked

variable {α β : Type}

/-- A number below the limit of its register. -/
def within (limit value : Nat) : Checked Nat :=
  if value < limit then .ok value else .error (.overflow value limit)

/-- The sum in an 8-bit register. -/
def byteSum (a b : Nat) : Checked Nat := within 0x100 (a + b)

/-- The sum in a 16-bit register. -/
def wordSum (a b : Nat) : Checked Nat := within 0x10000 (a + b)

/-- The product in a 16-bit register. -/
def wordProduct (a b : Nat) : Checked Nat := within 0x10000 (a * b)

/-- The difference of unsigned numbers. -/
def difference (a b : Nat) : Checked Nat :=
  if b ≤ a then .ok (a - b) else .error (.difference a b)

/-- The remainder. -/
def remainder (a b : Nat) : Checked Nat :=
  if b = 0 then .error .division else .ok (a % b)

/-- An amount to shift a register of `width` bits by. -/
def shiftAmount (amount width : Nat) : Checked Nat :=
  if amount < width then .ok amount else .error (.shift amount width)

/-- The element at an index. -/
def element (elements : Array α) (index : Nat) : Checked α :=
  match elements[index]? with
  | some value => .ok value
  | none => .error (.index index elements.size)

/-- The elements from `start` up to `stop`. -/
def slice (elements : Array α) (start stop : Nat) : Checked (Array α) :=
  if stop < start then .error (.difference stop start)
  else if elements.size < stop then .error (.index stop elements.size)
  else .ok (elements.extract start stop)

variable {a b limit width amount index start stop : Nat}

theorem within_eq (h : a < limit) : within limit a = .ok a := if_pos h

theorem byteSum_eq (h : a + b < 0x100) : byteSum a b = .ok (a + b) := within_eq h

theorem wordSum_eq (h : a + b < 0x10000) : wordSum a b = .ok (a + b) := within_eq h

theorem wordProduct_eq (h : a * b < 0x10000) : wordProduct a b = .ok (a * b) := within_eq h

theorem difference_eq (h : b ≤ a) : difference a b = .ok (a - b) := if_pos h

theorem remainder_eq (h : b ≠ 0) : remainder a b = .ok (a % b) := if_neg h

theorem shiftAmount_eq (h : amount < width) : shiftAmount amount width = .ok amount := if_pos h

theorem element_eq {elements : Array α} (h : index < elements.size) (default : α) :
    element elements index = .ok (elements.getD index default) := by
  rw [element, Array.getD_eq_getD_getElem?, Array.getElem?_eq_getElem h]
  rfl

theorem element_toArray {size : Nat} (elements : Vector α size) (h : index < size) :
    element elements.toArray index = .ok elements[index] := by
  have hsize : index < elements.toArray.size := by rwa [elements.size_toArray]
  rw [element, Array.getElem?_eq_getElem hsize]
  rfl

theorem slice_eq {elements : Array α} (hstart : start ≤ stop) (hstop : stop ≤ elements.size) :
    slice elements start stop = .ok (elements.extract start stop) := by
  rw [slice, if_neg (Nat.not_lt.mpr hstart), if_neg (Nat.not_lt.mpr hstop)]

/-- A list is gone through without a fault when no element leads to one. -/
theorem mapM_eq {visit : α → Checked β} {result : α → β} {elements : List α}
    (h : ∀ x ∈ elements, visit x = .ok (result x)) :
    elements.mapM visit = .ok (elements.map result) := by
  induction elements with
  | nil => rfl
  | cons x rest ih =>
    rw [List.mapM_cons, h x List.mem_cons_self, ok_bind,
      ih fun y hy => h y (List.mem_cons_of_mem x hy), ok_bind]
    rfl

end Checked

namespace Memory

variable {bits : Nat}

/-- The byte in a cell of the chip. -/
def getChecked (memory : Memory bits) (cell : Nat) : Checked UInt8 :=
  Checked.element memory.cells.toArray cell

/-- Replace the byte in a cell of the chip. -/
def setChecked (memory : Memory bits) (cell : Nat) (value : UInt8) : Checked (Memory bits) :=
  if h : cell < chipSize bits then .ok ⟨memory.cells.set cell value h⟩
  else .error (.index cell (chipSize bits))

theorem getChecked_eq (memory : Memory bits) {cell : Nat} (h : cell < chipSize bits) :
    memory.getChecked cell = .ok (memory.get cell) := by
  rw [getChecked, Checked.element_toArray memory.cells h]
  simp only [get, Nat.mod_eq_of_lt h]

theorem setChecked_eq (memory : Memory bits) {cell : Nat} (h : cell < chipSize bits)
    (value : UInt8) : memory.setChecked cell value = .ok (memory.set cell value) := by
  rw [setChecked, dif_pos h]
  simp only [set, Nat.mod_eq_of_lt h]

/-- A cell found by leaving out address lines is a cell of the chip. -/
theorem getChecked_mod (memory : Memory bits) (address : Nat) :
    memory.getChecked (address % chipSize bits) = .ok (memory.get address) := by
  rw [memory.getChecked_eq (Nat.mod_lt _ (chipSize_pos bits))]
  exact congrArg Except.ok (memory.get_congr (Nat.mod_mod _ _))

/-- A cell found by leaving out address lines can be replaced. -/
theorem setChecked_mod (memory : Memory bits) (address : Nat) (value : UInt8) :
    memory.setChecked (address % chipSize bits) value = .ok (memory.set address value) := by
  rw [memory.setChecked_eq (Nat.mod_lt _ (chipSize_pos bits))]
  exact congrArg Except.ok (memory.set_congr (Nat.mod_mod _ _) value)

/-- The bytes of `count` cells from `start` on. -/
def readChecked (memory : Memory bits) (start count : Nat) : Checked (List UInt8) :=
  (List.range count).mapM fun offset => memory.getChecked (start + offset)

theorem readChecked_eq (memory : Memory bits) {start count : Nat}
    (h : start + count ≤ chipSize bits) :
    memory.readChecked start count = .ok (memory.read start count) := by
  refine Checked.mapM_eq fun offset hoffset => memory.getChecked_eq ?_
  rw [List.mem_range] at hoffset
  omega

/-- Place bytes into the cells from `start` on. -/
def loadChecked (memory : Memory bits) (start : Nat) : List UInt8 → Checked (Memory bits)
  | [] => .ok memory
  | byte :: rest => do
    let memory ← memory.setChecked start byte
    memory.loadChecked (start + 1) rest

theorem loadChecked_eq (memory : Memory bits) {start : Nat} {bytes : List UInt8}
    (h : start + bytes.length ≤ chipSize bits) :
    memory.loadChecked start bytes = .ok (memory.load start bytes) := by
  induction bytes generalizing memory start with
  | nil => rfl
  | cons byte rest ih =>
    rw [List.length_cons] at h
    rw [loadChecked, memory.setChecked_eq (by omega), Checked.ok_bind, ih _ (by omega)]
    rfl

end Memory

end Famicom
