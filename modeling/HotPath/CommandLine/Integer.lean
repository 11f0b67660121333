import HotPath.Text.Blank
import HotPath.Text.Digit

/-!
# Integers on a command line

An integer is written in decimal digits of any script, with single underscores between digits, a
sign in front and blanks around it. It has a greatest number of digits.

* `integer?`: the integer that a text stands for.
-/

namespace HotPath.CommandLine

open Text

/-- The blanks that can stand around an integer: all but the information separators. -/
def isOuterBlank (c : Char) : Bool := isBlank c && !(28 ≤ c.toNat && c.toNat ≤ 31)

/-- The digits of a numeral without the underscores between them; nothing if the text is no
numeral. -/
def plainDigits? : List Char → Option (List Char)
  | [] => none
  | [c] => if isDigit c then some [c] else none
  | c :: d :: rest =>
    if !isDigit c then none
    else if d = '_' then (plainDigits? rest).map (c :: ·)
    else (plainDigits? (d :: rest)).map (c :: ·)

def integer? (s : String) : Option Int := do
  let inner := (s.toList.dropWhile isOuterBlank).reverse.dropWhile isOuterBlank |>.reverse
  let (negative, numeral) := match inner with
    | '-' :: rest => (true, rest)
    | '+' :: rest => (false, rest)
    | rest => (false, rest)
  let digits ← plainDigits? numeral
  if maxDigits < digits.length then none
  else some (if negative then -(natOfDigits digits : Int) else natOfDigits digits)

end HotPath.CommandLine
