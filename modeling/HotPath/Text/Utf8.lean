import HotPath.Text.Quoted

/-!
# UTF-8

Reading bytes as characters. A malformed stretch is the longest start of some well-formed sequence,
or a single byte that starts none. The strict reading stops at the first such stretch and says what
is wrong with it; the lenient reading puts the replacement character in its place.

* `decodeLenient`, `decode`: the two readings.
* `Malformed.message`: the text for a stretch.
-/

namespace HotPath

abbrev Bytes := List UInt8

namespace Text.Utf8

inductive Flaw where
  /-- The first byte starts no sequence. -/
  | invalidStart
  | truncated
  /-- The byte after the stretch does not continue its sequence. -/
  | invalidContinuation
  deriving Repr, DecidableEq

/-- A malformed stretch: where it starts, its bytes, and its flaw. -/
structure Malformed where
  start : Nat
  bytes : Bytes
  flaw : Flaw
  deriving Repr, DecidableEq

/-- The start of a text of bytes: a character or a malformed stretch, each with its length. -/
inductive Head where
  | char (c : Char) (length : Nat)
  | malformed (flaw : Flaw) (length : Nat)
  deriving Repr, DecidableEq

def isContinuation (b : UInt8) : Bool := 0x80 ≤ b && b ≤ 0xBF

/-- How many bytes a sequence has that starts with `b`, and the bounds of its second byte. -/
def shape? (b : UInt8) : Option (Nat × UInt8 × UInt8) :=
  if 0xC2 ≤ b && b ≤ 0xDF then some (2, 0x80, 0xBF)
  else if b == 0xE0 then some (3, 0xA0, 0xBF)
  else if b == 0xED then some (3, 0x80, 0x9F)
  else if 0xE1 ≤ b && b ≤ 0xEF then some (3, 0x80, 0xBF)
  else if b == 0xF0 then some (4, 0x90, 0xBF)
  else if b == 0xF4 then some (4, 0x80, 0x8F)
  else if 0xF1 ≤ b && b ≤ 0xF3 then some (4, 0x80, 0xBF)
  else none

/-- The bits of a code point that the first byte of a sequence of `size` bytes holds. -/
def payload (size : Nat) (b : UInt8) : Nat :=
  b.toNat % (if size = 2 then 32 else if size = 3 then 16 else 8)

/-- Reads the `missing` continuation bytes of a sequence of `read` bytes whose bits so far are
`code`. -/
def continuation (code read : Nat) : Nat → Bytes → Head
  | 0, _ => .char (Char.ofNat code) read
  | _ + 1, [] => .malformed .truncated read
  | missing + 1, b :: rest =>
    if isContinuation b then continuation (64 * code + (b.toNat - 0x80)) (read + 1) missing rest
    else .malformed .invalidContinuation read

/-- The first character of `b :: rest`, or its first malformed stretch. -/
def head (b : UInt8) (rest : Bytes) : Head :=
  if b < 0x80 then .char (Char.ofNat b.toNat) 1
  else match shape? b with
    | none => .malformed .invalidStart 1
    | some (size, low, high) =>
      match rest with
      | [] => .malformed .truncated 1
      | c :: rest =>
        if low ≤ c && c ≤ high then
          continuation (64 * payload size b + (c.toNat - 0x80)) 2 (size - 2) rest
        else .malformed .invalidContinuation 1

def Head.length : Head → Nat
  | .char _ n => n
  | .malformed _ n => n

/-- The characters of a sequence of bytes, with the replacement character for each malformed
stretch. -/
def decodeLenient : Bytes → List Char
  | [] => []
  | b :: rest =>
    let h := head b rest
    (match h with
      | .char c _ => c
      | .malformed _ _ => '\uFFFD') :: decodeLenient (rest.drop (h.length - 1))
termination_by bytes => bytes.length
decreasing_by
  simp only [List.length_drop, List.length_cons]
  omega

/-- The characters of a sequence of bytes that starts at offset `start`, or its first malformed
stretch. -/
def decodeFrom (start : Nat) : Bytes → Except Malformed (List Char)
  | [] => .ok []
  | b :: rest =>
    match head b rest with
    | .char c n => (decodeFrom (start + n) (rest.drop (n - 1))).map (c :: ·)
    | .malformed flaw n => .error ⟨start, (b :: rest).take n, flaw⟩
termination_by bytes => bytes.length
decreasing_by
  simp only [List.length_drop, List.length_cons]
  omega

def decode (bytes : Bytes) : Except Malformed (List Char) := decodeFrom 0 bytes

def encodeChar (c : Char) : Bytes :=
  let n := c.toNat
  let tail (m : Nat) : UInt8 := .ofNat (0x80 + m % 64)
  if n < 0x80 then [.ofNat n]
  else if n < 0x800 then [.ofNat (0xC0 + n / 0x40), tail n]
  else if n < 0x10000 then [.ofNat (0xE0 + n / 0x1000), tail (n / 0x40), tail n]
  else [.ofNat (0xF0 + n / 0x40000), tail (n / 0x1000), tail (n / 0x40), tail n]

def encode (s : String) : Bytes := s.toList.flatMap encodeChar

def Flaw.message : Flaw → String
  | .invalidStart => "invalid start byte"
  | .truncated => "unexpected end of data"
  | .invalidContinuation => "invalid continuation byte"

/-- The stretch in words: its bytes if it is a single one, its place, and its flaw. -/
def Malformed.message (m : Malformed) : String :=
  let place := match m.bytes with
    | [b] => "byte 0x" ++ String.ofList (hexPadded 2 b.toNat) ++ " in position " ++ toString m.start
    | _ => "bytes in position " ++ toString m.start ++ "-" ++
        toString (m.start + m.bytes.length - 1)
  "'utf-8' codec can't decode " ++ place ++ ": " ++ m.flaw.message

end Text.Utf8

end HotPath
