import HotPath.Text.Digit

/-!
# Grouped numerals

A grouped numeral has a comma in front of every third digit from the right. Reading drops the
commas.

* `writeGrouped?`: the numeral of an integer, if it does not have too many digits.
* `ungroup`: the number that a grouped numeral stands for.
-/

namespace HotPath.Text

/-- The digits of a numeral, lowest first, with a comma after each full group of three. -/
def groupFromLowest : List Char → List Char
  | a :: b :: c :: d :: rest => a :: b :: c :: ',' :: groupFromLowest (d :: rest)
  | short => short

def groupedNat (n : Nat) : List Char := (groupFromLowest (digitsOfNat n).reverse).reverse

/-- The numeral of an integer, grouped by three behind its sign. -/
def grouped : Int → List Char
  | .ofNat n => groupedNat n
  | .negSucc n => '-' :: groupedNat (n + 1)

/-- The grouped numeral of an integer, unless it has too many digits to be written. Its sign and its
commas do not count. -/
def writeGrouped? (n : Int) : Option (List Char) :=
  if isBeyondLimit n then none else some (grouped n)

/-- The number that a numeral with commas stands for. -/
def ungroup (s : List Char) : Nat := natOfDigits (s.filter (· != ','))

end HotPath.Text
