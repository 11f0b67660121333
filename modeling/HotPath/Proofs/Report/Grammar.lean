import Mathlib
import HotPath.Proofs.Text.Span
import HotPath.Report.CostLine

/-!
# The grammar of cost lines

A cost line is cut into eight parts: a marker, blanks, the cost, the share, blanks, the columns and
the end of the line. `Reading.Of` says which cuts are allowed, piece by piece and without regard to
how a reader finds them. A line can have a reading with a share and one without, where the share
counts as the first column; the first one wins (`Reading.Wins`).
-/

namespace HotPath.Report

open Text

/-! ## Digits and blanks -/

theorem isBlank_of_isDigit {c : Char} (h : isDigit c = true) : isBlank c = false := by
  obtain ⟨v, hv⟩ := Option.isSome_iff_exists.mp h
  obtain ⟨z, hz, -⟩ := Option.map_eq_some_iff.mp hv
  have hzero : ∀ z ∈ digitZeros, (28 ≤ z + 9 → 32 < z) ∧ (z + 9 < 0x85 ∨ 0x85 < z) ∧
      (z + 9 < 0xA0 ∨ 0xA0 < z) ∧ (z + 9 < 0x1680 ∨ 0x1680 < z) ∧
      (z + 9 < 0x2000 ∨ 0x205F < z) ∧ (z + 9 < 0x3000 ∨ 0x3000 < z) ∧ 13 < z := by decide
  have hmem := hzero z (List.mem_of_find?_eq_some hz)
  have hrange := List.find?_some hz
  simp only [Bool.and_eq_true, decide_eq_true_eq] at hrange
  simp only [isBlank, Bool.or_eq_false_iff, Bool.and_eq_false_iff, decide_eq_false_iff_not,
    beq_eq_false_iff_ne]
  omega

theorem isDigit_of_isBlank {c : Char} (h : isBlank c = true) : isDigit c = false := by
  by_contra hd
  rw [isBlank_of_isDigit (by simpa using hd)] at h
  cases h

theorem isCostChar_of_isBlank {c : Char} (h : isBlank c = true) : isCostChar c = false := by
  have hcomma : c ≠ ',' := by
    rintro rfl
    revert h
    decide
  simp [isCostChar, isDigit_of_isBlank h, hcomma]

/-! ## The parts of a line -/

/-- A marker, or nothing. -/
def IsMarker (s : List Char) : Prop := s = [] ∨ s = ['<'] ∨ s = ['>']

/-- Blank characters, or nothing. -/
def IsGap (s : List Char) : Prop := ∀ c ∈ s, isBlank c = true

/-- Digits, at least one. -/
def IsNumeral (s : List Char) : Prop := s ≠ [] ∧ ∀ c ∈ s, isDigit c = true

/-- A digit, and then digits and commas. -/
def IsCost (s : List Char) : Prop :=
  ∃ d more, s = d :: more ∧ isDigit d = true ∧ ∀ c ∈ more, isDigit c = true ∨ c = ','

/-- The text of a percentage: digits, a fraction behind a point if there is one, and the sign. -/
inductive IsPercentage : DecimalText → List Char → Prop where
  | whole {w : List Char} : IsNumeral w → IsPercentage ⟨w, []⟩ (w ++ ['%'])
  | fraction {w f : List Char} :
      IsNumeral w → IsNumeral f → IsPercentage ⟨w, f⟩ (w ++ '.' :: (f ++ ['%']))

/-- The end of a share: a closing parenthesis, behind a second percentage if there is one. -/
inductive IsShareEnd : List Char → Prop where
  | closing : IsShareEnd [')']
  | cumulative {i p : List Char} {d : DecimalText} :
      IsGap i → IsPercentage d p → IsShareEnd (',' :: (i ++ (p ++ [')'])))

/-- A share with its opening parenthesis and its first percentage. -/
inductive IsBracket : DecimalText → List Char → Prop where
  | mk {i p e : List Char} {d : DecimalText} :
      IsGap i → IsPercentage d p → IsShareEnd e → IsBracket d ('(' :: (i ++ (p ++ e)))

/-- A share behind the blanks that part it from the cost, or no share. -/
inductive IsShare : Option DecimalText → List Char → Prop where
  | missing : IsShare none []
  | given {b s : List Char} {d : DecimalText} :
      IsGap b → b ≠ [] → IsBracket d s → IsShare (some d) (b ++ s)

/-- Columns: they start with a character that is not blank and hold no line feed. -/
def IsColumns (s : List Char) : Prop := s ≠ [] ∧ Stops isBlank s ∧ '\n' ∉ s

/-- The end of a line: nothing, or one line feed. -/
def IsEnding (s : List Char) : Prop := s = [] ∨ s = ['\n']

/-- A line cut into its parts. -/
structure Reading where
  marker : List Char
  indent : List Char
  cost : List Char
  /-- The share with the blanks in front of it; it is empty if there is none. -/
  share : List Char
  /-- The first percentage of the share. -/
  percent : Option DecimalText
  gap : List Char
  columns : List Char
  ending : List Char

namespace Reading

/-- The parts behind the cost. -/
def rest (r : Reading) : List Char := r.share ++ (r.gap ++ (r.columns ++ r.ending))

/-- The line that is cut. -/
def line (r : Reading) : List Char := r.marker ++ (r.indent ++ (r.cost ++ r.rest))

/-- Each part of the reading has the form that its place asks for. -/
structure WellFormed (r : Reading) : Prop where
  marker : IsMarker r.marker
  indent : IsGap r.indent
  cost : IsCost r.cost
  share : IsShare r.percent r.share
  gap : IsGap r.gap
  gap_ne_nil : r.gap ≠ []
  columns : IsColumns r.columns
  ending : IsEnding r.ending

/-- `r` is a reading of the line `s`. -/
def Of (r : Reading) (s : List Char) : Prop := r.WellFormed ∧ r.line = s

/-- `r` is the reading of the line `s` that counts: one with a share, if the line has one. -/
def Wins (r : Reading) (s : List Char) : Prop :=
  r.Of s ∧ (r.share = [] → ∀ r' : Reading, r'.Of s → r'.share = [])

end Reading

end HotPath.Report
