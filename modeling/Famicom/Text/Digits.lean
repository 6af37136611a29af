/-!
# Numbers in fixed columns

Listings and state lines show bytes and addresses with a fixed number of digits, so that
columns stay in place. A number is written with exactly as many digits as asked for, and the
digits above them are dropped.
-/

namespace Famicom.Text

/-- The digit for `value`, below sixteen; letters are upper case. -/
def digit (value : Nat) : Char :=
  if value < 10 then Char.ofNat (48 + value) else Char.ofNat (55 + value)

/-- The lowest `width` digits of `value` in `base`, most significant first. -/
def digits (base : Nat) : (width value : Nat) → List Char
  | 0, _ => []
  | width + 1, value => digits base width (value / base) ++ [digit (value % base)]

@[simp] theorem digits_length (base width value : Nat) :
    (digits base width value).length = width := by
  induction width generalizing value with
  | zero => rfl
  | succ width ih => simp [digits, ih]

/-- Two hexadecimal digits. -/
def hexByte (byte : UInt8) : String :=
  String.ofList (digits 16 2 byte.toNat)

/-- Four hexadecimal digits. -/
def hexWord (word : UInt16) : String :=
  String.ofList (digits 16 4 word.toNat)

/-- Eight binary digits. -/
def binaryByte (byte : UInt8) : String :=
  String.ofList (digits 2 8 byte.toNat)

@[simp] theorem hexByte_length (byte : UInt8) : (hexByte byte).length = 2 := by
  simp [hexByte]

@[simp] theorem hexWord_length (word : UInt16) : (hexWord word).length = 4 := by
  simp [hexWord]

/-- `count` blanks. -/
def blanks (count : Nat) : String :=
  String.ofList (List.replicate count ' ')

/-- Fill with blanks on the left up to `width`; a longer text is kept whole. -/
def alignRight (width : Nat) (text : String) : String :=
  blanks (width - text.length) ++ text

/-- Fill with blanks on the right up to `width`; a longer text is kept whole. -/
def alignLeft (width : Nat) (text : String) : String :=
  text ++ blanks (width - text.length)

@[simp] theorem blanks_length (count : Nat) : (blanks count).length = count := by
  simp [blanks]

theorem alignRight_length (width : Nat) (text : String) :
    (alignRight width text).length = max width text.length := by
  simp only [alignRight, String.length_append, blanks_length]
  omega

theorem alignLeft_length (width : Nat) (text : String) :
    (alignLeft width text).length = max width text.length := by
  simp only [alignLeft, String.length_append, blanks_length]
  omega

end Famicom.Text
