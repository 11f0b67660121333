import HotPath.Toml.Quoted

/-!
# Numbers and dates in TOML

A number or a date is read as far as it goes; what follows is judged elsewhere. Digits are those of
ASCII, and single underscores may stand between the digits of a number.

* `number?`: integers in four bases, and floats.
* `moment?`: dates, times and both together.
-/

namespace HotPath.Toml

def isDigitOf (base : Nat) (c : Char) : Bool := (hexValue? c).any (· < base)

/-- The run of digits at the start of a text, with single underscores between them, behind a digit
that was read already. -/
def digitRun (base : Nat) : List Char → List Char
  | '_' :: c :: rest => if isDigitOf base c then '_' :: c :: digitRun base rest else []
  | c :: rest => if isDigitOf base c then c :: digitRun base rest else []
  | [] => []

/-- The digits at the start of a text, with single underscores between them; at least one. -/
def numeral? (base : Nat) : List Char → Option (List Char)
  | c :: rest => if isDigitOf base c then some (c :: digitRun base rest) else none
  | [] => none

def markedBases : List (Char × Nat) := [('x', 16), ('b', 2), ('o', 8)]

/-- The text of an integer that is marked by the letter of its base. -/
def markedInteger? : List Char → Option (List Char)
  | '0' :: mark :: rest => do
    let base ← markedBases.lookup mark
    return '0' :: mark :: (← numeral? base rest)
  | _ => none

def signOf (s : List Char) : List Char := (s.takeWhile fun c => c = '+' || c = '-').take 1

/-- The digits in front of the point of a number; a zero stands alone. -/
def wholePart? : List Char → Option (List Char)
  | '0' :: _ => some ['0']
  | s => numeral? 10 s

/-- The point of a number and the digits behind it, if both are there. -/
def fractionPart : List Char → List Char
  | '.' :: rest => ((numeral? 10 rest).map ('.' :: ·)).getD []
  | _ => []

def exponentPart : List Char → List Char
  | c :: rest =>
    if c = 'e' || c = 'E' then
      let sign := signOf rest
      ((numeral? 10 (rest.drop sign.length)).map fun digits => c :: sign ++ digits).getD []
    else []
  | [] => []

/-- Reads a number. A decimal integer has a greatest number of digits. -/
def number? (s : List Char) : Option (Except Stop (Reading Value)) :=
  match markedInteger? s with
  | some text => some (.ok (.integer (.ofList text), s.drop text.length))
  | none => do
    let sign := signOf s
    let whole ← wholePart? (s.drop sign.length)
    let behind := s.drop (sign.length + whole.length)
    let fraction := fractionPart behind
    let exponent := exponentPart (behind.drop fraction.length)
    let text := sign ++ whole ++ fraction ++ exponent
    if fraction ++ exponent ≠ [] then return .ok (.float (.ofList text), s.drop text.length)
    let digits := (whole.filter (· ≠ '_')).length
    if Text.maxDigits < digits then return .error (.tooManyDigits digits)
    return .ok (.integer (.ofList text), s.drop text.length)

/-- The floats that are written as words, each with an optional sign. -/
def special? (s : List Char) : Option (Value × List Char) :=
  let sign := signOf s
  let word := (s.drop sign.length).take 3
  if word = ['i', 'n', 'f'] || word = ['n', 'a', 'n'] then
    some (.float (.ofList (sign ++ word)), s.drop (sign.length + 3))
  else none

/-- The number at the start of a text that is written in exactly `width` digits. -/
def fixedNumeral? (width : Nat) (s : List Char) : Option (Nat × List Char) :=
  let digits := s.take width
  if digits.length = width && digits.all (isDigitOf 10) then
    some (Text.natOfDigits digits, s.drop width)
  else none

def expect? (c : Char) : List Char → Option (List Char)
  | d :: rest => if c = d then some rest else none
  | [] => none

structure Day where
  year : Nat
  month : Nat
  day : Nat
  deriving Repr, DecidableEq

def isLeapYear (year : Nat) : Bool := year % 4 = 0 && (year % 100 ≠ 0 || year % 400 = 0)

def daysInMonth (year month : Nat) : Nat :=
  if month = 2 then if isLeapYear year then 29 else 28
  else if [4, 6, 9, 11].contains month then 30 else 31

/-- Whether a day is in the calendar, which starts with the year 1. -/
def Day.isValid (d : Day) : Bool :=
  1 ≤ d.year && 1 ≤ d.month && d.month ≤ 12 && 1 ≤ d.day && d.day ≤ daysInMonth d.year d.month

/-- A date as it is written: a month up to 12 and a day up to 31, whether or not there is such a
day. -/
def day? (s : List Char) : Option (Day × List Char) := do
  let (year, s) ← fixedNumeral? 4 s
  let (month, s) ← fixedNumeral? 2 (← expect? '-' s)
  let (day, s) ← fixedNumeral? 2 (← expect? '-' s)
  if 1 ≤ month && month ≤ 12 && 1 ≤ day && day ≤ 31 then return (⟨year, month, day⟩, s) else none

/-- The rest of a text behind hours and minutes. -/
def hourAndMinute? (s : List Char) : Option (List Char) := do
  let (hour, s) ← fixedNumeral? 2 s
  let (minute, s) ← fixedNumeral? 2 (← expect? ':' s)
  if hour ≤ 23 && minute ≤ 59 then return s else none

def dropSecondFraction : List Char → List Char
  | '.' :: c :: rest =>
    if isDigitOf 10 c then rest.dropWhile (isDigitOf 10) else '.' :: c :: rest
  | s => s

def clock? (s : List Char) : Option (List Char) := do
  let (second, s) ← fixedNumeral? 2 (← expect? ':' (← hourAndMinute? s))
  if second ≤ 59 then return dropSecondFraction s else none

def dropOffset : List Char → List Char
  | c :: rest =>
    if c = 'Z' || c = 'z' then rest
    else if c = '+' || c = '-' then (hourAndMinute? rest).getD (c :: rest)
    else c :: rest
  | [] => []

/-- The part of `s` in front of its rest `behind`. -/
def partBefore (s behind : List Char) : String := .ofList (s.take (s.length - behind.length))

/-- Reads a date, a time, or a date with a time behind a `T` or a space. -/
def moment? (s : List Char) : Option (Except Stop (Reading Value)) :=
  match day? s with
  | some (d, behind) =>
    let clock := match behind with
      | c :: rest => if c = 'T' || c = 't' || c = ' ' then clock? rest else none
      | [] => none
    some (if !d.isValid then .error (.problem .invalidDate s)
      else match clock with
        | some rest =>
          let rest := dropOffset rest
          .ok (.dateTime (partBefore s rest), rest)
        | none => .ok (.date (partBefore s behind), behind))
  | none => (clock? s).map fun rest => .ok (.time (partBefore s rest), rest)

end HotPath.Toml
