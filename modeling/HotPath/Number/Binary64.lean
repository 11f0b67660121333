/-!
# Double-precision numbers

A binary floating-point number of 64 bits, kept as its bits: a sign, eleven bits of exponent and
fifty-two of significand. A rational number is rounded to the nearest one, and a number half way
between two goes to the one whose significand is even.

* `roundDiv`: the quotient rounded to the nearest integer.
* `Binary64.ofDecimal`: the number nearest to `digits · 10 ^ exponent`.
* `Binary64.fixedTenths`: the number written with one place, rounded in the same way.
-/

namespace HotPath

/-- `num / den` rounded to the nearest integer; half way goes to the even neighbour. -/
def roundDiv (num den : Nat) : Nat :=
  let q := num / den
  let r := num % den
  if 2 * r < den then q
  else if den < 2 * r then q + 1
  else if q % 2 = 0 then q else q + 1

/-- A double-precision number, by its bits. -/
structure Binary64 where
  bits : UInt64
  deriving Repr, DecidableEq

namespace Binary64

/-- What the bits stand for. -/
inductive Meaning where
  /-- `significand · 2 ^ exponent`, behind a sign. -/
  | finite (negative : Bool) (significand : Nat) (exponent : Int)
  | infinite (negative : Bool)
  | notANumber
  deriving Repr, DecidableEq

/-- The weight of the lowest bit of the significand in the smallest numbers is `2 ^ minExponent`. -/
def minExponent : Int := -1074

/-- The weight of the lowest bit of the exponent, `2 ^ 52`. -/
def exponentUnit : Nat := 0x10000000000000

/-- The weight of the sign, `2 ^ 63`. -/
def signUnit : Nat := 0x8000000000000000

/-- The exponent of what is not finite. -/
def topField : Nat := 2047

def infinityBits : Nat := topField * exponentUnit

/-- The number with these lower sixty-three bits, behind a sign. -/
def ofMagnitude (negative : Bool) (magnitude : Nat) : Binary64 :=
  ⟨.ofNat (magnitude + if negative then signUnit else 0)⟩

def infinity (negative : Bool) : Binary64 := ofMagnitude negative infinityBits

/-- The usual bits of what is not a number, behind a sign. -/
def nan (negative : Bool) : Binary64 := ofMagnitude negative (infinityBits + exponentUnit / 2)

def meaning (x : Binary64) : Meaning :=
  let n := x.bits.toNat
  let negative := n / signUnit = 1
  let field : Nat := n / exponentUnit % (topField + 1)
  let rest : Nat := n % exponentUnit
  if field = topField then if rest = 0 then .infinite negative else .notANumber
  else if field = 0 then .finite negative rest minExponent
  else .finite negative (exponentUnit + rest) ((field : Int) - 1075)

/-- A numerator and a denominator of `num / den · 2 ^ k`. -/
def scale (num den : Nat) (k : Int) : Nat × Nat :=
  match k with
  | .ofNat k => (num <<< k, den)
  | .negSucc k => (num, den <<< (k + 1))

/-- The greatest `e` with `2 ^ e ≤ num / den`, for positive `num` and `den`. -/
def binaryExponent (num den : Nat) : Int :=
  let e : Int := num.log2 - den.log2
  let (n, d) := scale num den (-e)
  if d ≤ n then e else e - 1

/-- The number nearest to `num / den`, behind a sign. The significand has fifty-three bits unless
that takes its lowest bit below the smallest weight; a significand that rounding makes one bit
longer carries into the exponent by itself. -/
def ofRatio (negative : Bool) (num den : Nat) : Binary64 :=
  if num = 0 then ofMagnitude negative 0
  else
    let exponent := max (binaryExponent num den - 52) minExponent
    let (n, d) := scale num den (-exponent)
    let magnitude := (exponent - minExponent).toNat * exponentUnit + roundDiv n d
    ofMagnitude negative (min magnitude infinityBits)

/-- The number nearest to `digits · 10 ^ exponent`, behind a sign. -/
def ofDecimal (negative : Bool) (digits : Nat) (exponent : Int) : Binary64 :=
  match exponent with
  | .ofNat e => ofRatio negative (digits * Nat.pow 10 e) 1
  | .negSucc e => ofRatio negative digits (Nat.pow 10 (e + 1))

/-- A number of tenths with a point in front of its last digit. -/
def pointed (tenths : Nat) : String := toString (tenths / 10) ++ "." ++ toString (tenths % 10)

/-- The number with one place behind the point. The sign is kept also in front of zero. -/
def fixedTenths (x : Binary64) : String :=
  match x.meaning with
  | .finite negative m e =>
    let (n, d) := scale (10 * m) 1 e
    (if negative then "-" else "") ++ pointed (roundDiv n d)
  | .infinite negative => if negative then "-inf" else "inf"
  | .notANumber => "nan"

end Binary64

end HotPath
