import Famicom.Text.Digits

/-!
# Reading numbers back from a text

A text shows the numbers that a reader finds in it: every row of hexadecimal digits is one, as long
as the row can be. Numbers in fixed columns are read back as they were written, whatever comes
before and after them, as long as something that is no digit stands between two of them.
-/

namespace Famicom.Text

/-- The value of a hexadecimal digit; letters are upper case. -/
def digitValue? (character : Char) : Option Nat :=
  if 48 ≤ character.toNat ∧ character.toNat ≤ 57 then some (character.toNat - 48)
  else if 65 ≤ character.toNat ∧ character.toNat ≤ 70 then some (character.toNat - 55)
  else none

/-- The numbers in some characters when the digits just before them have made up `pending`. -/
def numbersFrom (pending : Option Nat) : List Char → List Nat
  | [] => pending.toList
  | character :: rest =>
    match digitValue? character with
    | some value => numbersFrom (some (pending.getD 0 * 16 + value)) rest
    | none => pending.toList ++ numbersFrom none rest

/-- The hexadecimal numbers that a text shows, from left to right. -/
def numbers (text : String) : List Nat := numbersFrom none text.toList

/-- The part of a text that stands in some columns. -/
def columns (start width : Nat) (text : String) : String :=
  String.ofList ((text.toList.drop start).take width)

/-- A text that keeps numbers apart: it is not empty, and no digit is in it. -/
def separates (text : String) : Bool :=
  !text.toList.isEmpty && text.toList.all fun character => digitValue? character == none

theorem digitValue?_digit : ∀ value < 16, digitValue? (digit value) = some value := by
  decide

/-- A row of digits is read as the number that it writes, behind the digits before it. -/
theorem numbersFrom_digits (pending : Option Nat) (width value : Nat) (rest : List Char) :
    numbersFrom pending (digits 16 (width + 1) value ++ rest) =
      numbersFrom (some (pending.getD 0 * Nat.pow 16 (width + 1) +
        value % Nat.pow 16 (width + 1))) rest := by
  have hlast (pending : Option Nat) (value : Nat) (rest : List Char) :
      numbersFrom pending (digit (value % 16) :: rest) =
        numbersFrom (some (pending.getD 0 * 16 + value % 16)) rest := by
    rw [numbersFrom, digitValue?_digit _ (Nat.mod_lt _ (by decide))]
  induction width generalizing value rest with
  | zero => exact hlast pending value rest
  | succ width ih =>
    have hdigits : digits 16 (width + 1 + 1) value ++ rest =
        digits 16 (width + 1) (value / 16) ++ (digit (value % 16) :: rest) := by
      rw [digits, List.append_assoc]
      rfl
    have hmod : value % Nat.pow 16 (width + 1 + 1) =
        value / 16 % Nat.pow 16 (width + 1) * 16 + value % 16 := by
      change value % (Nat.pow 16 (width + 1) * 16) = _
      rw [Nat.mul_comm, Nat.mod_mul]
      omega
    have hpow : Nat.pow 16 (width + 1 + 1) = Nat.pow 16 (width + 1) * 16 := rfl
    rw [hdigits, ih, hlast, hmod, Option.getD_some, hpow, Nat.add_mul, Nat.mul_assoc, Nat.add_assoc]

/-- A byte is read back. -/
theorem numbersFrom_hexByte (byte : UInt8) (rest : List Char) :
    numbersFrom none ((hexByte byte).toList ++ rest) = numbersFrom (some byte.toNat) rest := by
  rw [hexByte, String.toList_ofList, numbersFrom_digits]
  change numbersFrom (some (0 * 0x100 + byte.toNat % 0x100)) rest = _
  rw [Nat.zero_mul, Nat.zero_add, Nat.mod_eq_of_lt byte.toNat_lt]

/-- A word is read back. -/
theorem numbersFrom_hexWord (word : UInt16) (rest : List Char) :
    numbersFrom none ((hexWord word).toList ++ rest) = numbersFrom (some word.toNat) rest := by
  rw [hexWord, String.toList_ofList, numbersFrom_digits]
  change numbersFrom (some (0 * 0x10000 + word.toNat % 0x10000)) rest = _
  rw [Nat.zero_mul, Nat.zero_add, Nat.mod_eq_of_lt word.toNat_lt]

/-- What stands between two numbers ends the first one and does not begin the second. -/
theorem numbersFrom_separator {text : String} (h : separates text = true) (pending : Option Nat)
    (rest : List Char) :
    numbersFrom pending (text.toList ++ rest) = pending.toList ++ numbersFrom none rest := by
  obtain ⟨hnonempty, hplain⟩ := Bool.and_eq_true_iff.mp h
  generalize text.toList = characters at hnonempty hplain
  induction characters generalizing pending with
  | nil => cases hnonempty
  | cons character others ih =>
    obtain ⟨hfirst, hothers⟩ := Bool.and_eq_true_iff.mp hplain
    rw [List.cons_append, numbersFrom, eq_of_beq hfirst]
    cases others with
    | nil => rfl
    | cons _ _ => rw [ih none rfl hothers, Option.toList_none, List.nil_append]

/-- Blanks at the end show no number. -/
theorem numbersFrom_blanks (pending : Option Nat) (count : Nat) :
    numbersFrom pending (blanks count).toList = pending.toList := by
  rw [blanks, String.toList_ofList]
  induction count generalizing pending with
  | zero => rfl
  | succ count ih =>
    change pending.toList ++ numbersFrom none (List.replicate count ' ') = _
    rw [ih, Option.toList_none, List.append_nil]

/-- Bytes with blanks between them are read back, one by one. -/
theorem numbers_intercalate (bytes : List UInt8) (count : Nat) :
    numbers (" ".intercalate (bytes.map hexByte) ++ blanks count) = bytes.map UInt8.toNat := by
  rw [numbers, String.toList_append, String.toList_intercalate, List.map_map]
  induction bytes with
  | nil => exact numbersFrom_blanks none count
  | cons byte others ih =>
    cases others with
    | nil =>
      rw [List.map_cons, List.map_nil, List.intercalate_singleton, Function.comp_apply,
        numbersFrom_hexByte, numbersFrom_blanks]
      rfl
    | cons next others =>
      rw [List.map_cons, List.map_cons, List.intercalate_cons_cons, ← List.map_cons (f := _),
        List.append_assoc, List.append_assoc, Function.comp_apply, numbersFrom_hexByte,
        numbersFrom_separator rfl, ih]
      rfl

/-- Bytes with blanks between them take three columns each, but for the last. -/
theorem length_intercalate (bytes : List UInt8) :
    (" ".intercalate (bytes.map hexByte)).length = 3 * bytes.length - 1 := by
  rw [← String.length_toList, String.toList_intercalate, List.map_map]
  have hbyte (byte : UInt8) : (hexByte byte).toList.length = 2 :=
    String.length_toList.trans (hexByte_length byte)
  induction bytes with
  | nil => rfl
  | cons byte others ih =>
    cases others with
    | nil =>
      rw [List.map_cons, List.map_nil, List.intercalate_singleton, Function.comp_apply, hbyte]
      rfl
    | cons next others =>
      have hblank : " ".toList.length = 1 := rfl
      rw [List.map_cons, List.map_cons, List.intercalate_cons_cons, ← List.map_cons (f := _),
        List.length_append, List.length_append, ih, Function.comp_apply, hbyte, hblank]
      simp only [List.length_cons]
      omega

/-- The columns behind a text are counted from its end. -/
theorem columns_skip {count : Nat} {left : String} (h : left.length = count) (start width : Nat)
    (right : String) : columns (start + count) width (left ++ right) = columns start width right := by
  rw [columns, String.toList_append, Nat.add_comm, ← List.drop_drop,
    List.drop_left' (String.length_toList.trans h)]
  rfl

/-- The first columns show a text that fills them. -/
theorem columns_first {width : Nat} {left : String} (h : left.length = width) (right : String) :
    columns 0 width (left ++ right) = left := by
  rw [columns, String.toList_append, List.drop_zero,
    List.take_left' (String.length_toList.trans h), String.ofList_toList]

/-- What stands in the columns behind a text. -/
theorem columns_append {start width : Nat} {left middle : String} (hleft : left.length = start)
    (hmiddle : middle.length = width) (right : String) :
    columns start width (left ++ (middle ++ right)) = middle := by
  have hskip := columns_skip hleft 0 width (middle ++ right)
  rw [Nat.zero_add] at hskip
  rw [hskip, columns_first hmiddle]

/-- Filling up the whole line fills up its last part. -/
theorem alignLeft_append {start width : Nat} {left : String} (h : left.length = start)
    (text : String) :
    alignLeft (start + width) (left ++ text) = left ++ alignLeft width text := by
  rw [alignLeft, alignLeft, String.length_append, h, Nat.add_sub_add_left, String.append_assoc]

end Famicom.Text
