import HotPath.Toml.Error

/-!
# Quoted text in TOML

Text between double quotes knows escapes, text between single quotes does not. Three quotes start a
text of several lines; it may end in one or two quotes of its own in front of the closing three.
Control characters other than the tab have to be escaped, and only a text of several lines holds
line feeds.

* `basicText`, `literalText`: the two kinds, read behind their opening quotes.
-/

namespace HotPath.Toml

/-- What a reader gives: a result and the rest of the text. -/
abbrev Reading (α : Type) := α × List Char

def isSpace (c : Char) : Bool := c = ' ' || c = '\t'

def isFiller (c : Char) : Bool := isSpace c || c = '\n'

/-- The control characters of ASCII that a text cannot hold as they are; `severalLines` allows the
line feed. -/
def isControl (severalLines : Bool) (c : Char) : Bool :=
  (c.toNat < 32 || c.toNat = 127) && c ≠ '\t' && !(severalLines && c = '\n')

def hexValue? (c : Char) : Option Nat :=
  if '0' ≤ c && c ≤ '9' then some (c.toNat - '0'.toNat)
  else if 'a' ≤ c && c ≤ 'f' then some (c.toNat - 'a'.toNat + 10)
  else if 'A' ≤ c && c ≤ 'F' then some (c.toNat - 'A'.toNat + 10)
  else none

/-- The character whose code point is written in `width` hexadecimal digits. -/
def codePoint (width : Nat) (s : List Char) : Except Stop (Reading (List Char)) :=
  match (s.take width).mapM hexValue? with
  | none => .error (.problem .invalidHexadecimal s)
  | some digits =>
    if digits.length < width then .error (.problem .invalidHexadecimal s)
    else
      let n := digits.foldl (fun n d => 16 * n + d) 0
      if n.isValidChar then .ok ([Char.ofNat n], s.drop width)
      else .error (.problem .noCharacter (s.drop width))

def escapes : List (Char × Char) :=
  [('b', '\x08'), ('t', '\t'), ('n', '\n'), ('f', '\x0C'), ('r', '\r'), ('"', '"'), ('\\', '\\')]

/-- What an escape stands for, read behind its backslash. In a text of several lines a backslash at
the end of a line stands for nothing and takes the blanks in front of the next visible character
with it. -/
def escaped (severalLines : Bool) : List Char → Except Stop (Reading (List Char))
  | [] => .error (.problem .invalidEscape [])
  | c :: rest =>
    if severalLines && c = '\n' then .ok ([], rest.dropWhile isFiller)
    else if severalLines && isSpace c then
      match rest.dropWhile isSpace with
      | [] => .ok ([], [])
      | d :: more =>
        if d = '\n' then .ok ([], more.dropWhile isFiller)
        else .error (.problem .invalidEscape (d :: more))
    else if c = 'u' then codePoint 4 rest
    else if c = 'U' then codePoint 8 rest
    else match escapes.lookup c with
      | some d => .ok ([d], rest)
      | none => .error (.problem .invalidEscape rest)

private theorem length_dropWhile_le (p : Char → Bool) (s : List Char) :
    (s.dropWhile p).length ≤ s.length := (List.dropWhile_sublist p).length_le

private theorem length_codePoint_le {width : Nat} {s cs rest : List Char}
    (h : codePoint width s = .ok (cs, rest)) : rest.length ≤ s.length := by
  simp only [codePoint] at h
  split at h
  · simp at h
  · split at h
    · simp at h
    · split at h
      · simp only [Except.ok.injEq, Prod.mk.injEq] at h
        simp [← h.2]
      · simp at h

/-- An escape leaves less than what stood behind its backslash. -/
theorem length_escaped_le {severalLines : Bool} {s cs rest : List Char}
    (h : escaped severalLines s = .ok (cs, rest)) : rest.length ≤ s.length := by
  cases s with
  | nil => simp [escaped] at h
  | cons c s =>
    have hs := length_dropWhile_le isSpace s
    simp only [escaped] at h
    split at h
    · simp only [Except.ok.injEq, Prod.mk.injEq] at h
      have := length_dropWhile_le isFiller s
      simp only [← h.2, List.length_cons]
      omega
    · split at h
      · split at h
        · simp only [Except.ok.injEq, Prod.mk.injEq] at h
          simp [← h.2]
        · rename_i d more heq
          split at h
          · simp only [Except.ok.injEq, Prod.mk.injEq] at h
            have := length_dropWhile_le isFiller more
            rw [heq] at hs
            simp only [← h.2, List.length_cons] at *
            omega
          · simp at h
      · split at h
        · exact Nat.le_succ_of_le (length_codePoint_le h)
        · split at h
          · exact Nat.le_succ_of_le (length_codePoint_le h)
          · split at h
            · simp only [Except.ok.injEq, Prod.mk.injEq] at h
              simp [← h.2]
            · simp at h

def prepend (cs : List Char) (text : Except Stop (Reading (List Char))) :
    Except Stop (Reading (List Char)) :=
  text.map fun r => (cs ++ r.1, r.2)

/-- The text up to its closing double quotes, one of them or three. -/
def basicText (severalLines : Bool) (s : List Char) : Except Stop (Reading (List Char)) :=
  match s with
  | [] => .error (.problem .unterminatedText [])
  | c :: rest =>
    if c = '"' then
      if !severalLines then .ok ([], rest)
      else if ['"', '"'].isPrefixOf rest then .ok ([], rest.drop 2)
      else prepend ['"'] (basicText severalLines rest)
    else if c = '\\' then
      match h : escaped severalLines rest with
      | .error stop => .error stop
      | .ok (cs, rest') =>
        have := length_escaped_le h
        prepend cs (basicText severalLines rest')
    else if isControl severalLines c then .error (.problem (.illegalCharacter c) (c :: rest))
    else prepend [c] (basicText severalLines rest)
termination_by s.length

/-- Cuts a text in front of the first occurrence of `mark`. -/
def cutBefore? (mark : List Char) : List Char → Option (List Char × List Char)
  | [] => if mark = [] then some ([], []) else none
  | c :: rest =>
    if mark.isPrefixOf (c :: rest) then some ([], c :: rest)
    else (cutBefore? mark rest).map fun r => (c :: r.1, r.2)

/-- The text up to its closing single quotes `mark`. -/
def literalText (severalLines : Bool) (mark s : List Char) :
    Except Stop (Reading (List Char)) :=
  match cutBefore? mark s with
  | none => .error (.problem (.unclosedLiteral (.ofList mark)) [])
  | some (text, rest) =>
    match text.find? (isControl severalLines) with
    | some c => .error (.problem (.invalidCharacter c) (s.dropWhile (!isControl severalLines ·)))
    | none => .ok (text, rest.drop mark.length)

/-- Up to two quotes behind the closing three belong to the text. -/
def closingQuotes (quote : Char) (r : List Char × List Char) : List Char × List Char :=
  let own := (r.2.takeWhile (· = quote)).take 2
  (r.1 ++ own, r.2.drop own.length)

/-- A line feed right behind the opening quotes does not belong to the text. -/
def dropFirstBreak : List Char → List Char
  | '\n' :: rest => rest
  | s => s

/-- A text in quotes, read from its first quote on; nothing if there is no quote. -/
def quotedText? (s : List Char) : Option (Except Stop (Reading (List Char))) :=
  match s with
  | '"' :: '"' :: '"' :: rest =>
    some ((basicText true (dropFirstBreak rest)).map (closingQuotes '"'))
  | '"' :: rest => some (basicText false rest)
  | '\'' :: '\'' :: '\'' :: rest =>
    some ((literalText true ['\'', '\'', '\''] (dropFirstBreak rest)).map (closingQuotes '\''))
  | '\'' :: rest => some (literalText false ['\''] rest)
  | _ => none

end HotPath.Toml
