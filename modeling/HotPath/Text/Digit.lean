/-!
# Decimal digits

The decimal digits of Unicode 14.0 come in runs of ten, from a zero to a nine. The table holds the
zeros; everything else about digits is read off their distance to a zero.

* `digitValue?_ascii`: an ASCII digit stands for its distance to `'0'`.
* `natOfDigits_append`: the value of a numeral, cut in two.
-/

namespace HotPath.Text

/-- The code points of the zeros: each starts a run of ten digits. -/
def digitZeros : List Nat := [
  0x30, 0x660, 0x6f0, 0x7c0, 0x966, 0x9e6, 0xa66, 0xae6, 0xb66, 0xbe6, 0xc66, 0xce6, 0xd66, 0xde6,
  0xe50, 0xed0, 0xf20, 0x1040, 0x1090, 0x17e0, 0x1810, 0x1946, 0x19d0, 0x1a80, 0x1a90, 0x1b50,
  0x1bb0, 0x1c40, 0x1c50, 0xa620, 0xa8d0, 0xa900, 0xa9d0, 0xa9f0, 0xaa50, 0xabf0, 0xff10, 0x104a0,
  0x10d30, 0x11066, 0x110f0, 0x11136, 0x111d0, 0x112f0, 0x11450, 0x114d0, 0x11650, 0x116c0,
  0x11730, 0x118e0, 0x11950, 0x11c50, 0x11d50, 0x11da0, 0x16a60, 0x16ac0, 0x16b50, 0x1d7ce,
  0x1d7d8, 0x1d7e2, 0x1d7ec, 0x1d7f6, 0x1e140, 0x1e2f0, 0x1e950, 0x1fbf0]

/-- The value of a decimal digit of any script, and `none` for every other character. -/
def digitValue? (c : Char) : Option Nat :=
  (digitZeros.find? fun z => z ≤ c.toNat && c.toNat < z + 10).map (c.toNat - ·)

def isDigit (c : Char) : Bool := (digitValue? c).isSome

/-- The value of a numeral in base ten; a character that is no digit counts as zero. -/
def natOfDigits (ds : List Char) : Nat :=
  ds.foldl (fun n d => 10 * n + (digitValue? d).getD 0) 0

/-- The greatest number of digits of a numeral that is read as an integer or written for one. -/
def maxDigits : Nat := 4300

/-- The text for a numeral of too many digits. Their number is known if the numeral was to be
read. -/
def beyondLimitText (count : Option Nat) : String :=
  "Exceeds the limit (" ++ toString maxDigits ++ " digits) for integer string conversion" ++
    (count.map fun n => ": value has " ++ toString n ++ " digits").getD "" ++
    "; use sys.set_int_max_str_digits() to increase the limit"

def tooManyDigitsText (count : Nat) : String := beyondLimitText (some count)

/-- The numeral of `n` in ASCII digits, without leading zeros. -/
def digitsOfNat (n : Nat) : List Char := Nat.toDigits 10 n

/-- Whether an integer has too many digits to be written. -/
def isBeyondLimit (n : Int) : Bool := maxDigits < (digitsOfNat n.natAbs).length

/-- A text with the numeral of an integer in it. If the integer cannot be written, that is what the
text says. -/
def textAround (before : String) (n : Int) (after : String) : String :=
  if isBeyondLimit n then beyondLimitText none else before ++ toString n ++ after

theorem digitValue?_ascii {c : Char} (h : '0'.toNat ≤ c.toNat) (h' : c.toNat ≤ '9'.toNat) :
    digitValue? c = some (c.toNat - 48) := by
  have h₁ : 48 ≤ c.toNat := h
  have h₂ : c.toNat < 48 + 10 := Nat.lt_succ_of_le h'
  simp [digitValue?, digitZeros, h₁, h₂]

private theorem foldl_digits (ds : List Char) (n : Nat) :
    ds.foldl (fun n d => 10 * n + (digitValue? d).getD 0) n
      = n * Nat.pow 10 ds.length + natOfDigits ds := by
  induction ds generalizing n with
  | nil => simp [natOfDigits]
  | cons d ds ih =>
    simp only [natOfDigits, List.foldl_cons, List.length_cons]
    rw [ih, ih (10 * 0 + _), Nat.mul_zero, Nat.zero_add, Nat.add_mul]
    have : 10 * n * Nat.pow 10 ds.length = n * Nat.pow 10 (ds.length + 1) := by
      show 10 * n * Nat.pow 10 ds.length = n * (Nat.pow 10 ds.length * 10)
      rw [Nat.mul_comm 10 n, Nat.mul_assoc, Nat.mul_comm 10]
    omega

theorem natOfDigits_append (as bs : List Char) :
    natOfDigits (as ++ bs) = natOfDigits as * Nat.pow 10 bs.length + natOfDigits bs := by
  rw [natOfDigits, List.foldl_append, foldl_digits]
  rfl

end HotPath.Text
